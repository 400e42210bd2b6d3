/-
A cursor stays in its text, and its calls get on.

Reads and steps back, in whatever order, keep a cursor between two characters of its text, with
the width of the character before it or with none (`Sound`), so that neither ever fails. What a call
does is told by its answer (`Passes`): it has come to the end of the text, or it stands right
behind the lexeme or the character that it answers with. Main statement: `calls_inBounds`.
-/
import Condition.Proofs.CursorCalls

namespace Condition.Cursor

/-! ## Every state -/

/-- The cursor is between two characters of the text, and a step back would be over the one before
it or over none. -/
inductive Sound (text : List Char) : Cursor → Prop
  | settled {before after} : text = before ++ after → Sound text (between before after 0)
  | behind {before c after} : text = before ++ c :: after →
      Sound text (between (before ++ [c]) after c.utf8Size)

theorem Sound.eq_between {text : List Char} {u : Cursor} (h : Sound text u) :
    ∃ before after width, u = between before after width ∧ text = before ++ after := by
  cases h with
  | @settled before after htext => exact ⟨before, after, 0, rfl, htext⟩
  | @behind before c after htext => exact ⟨before ++ [c], after, c.utf8Size, rfl, by simp [htext]⟩

theorem Sound.read {text : List Char} {u : Cursor} (h : Sound text u) :
    ∃ c v, u.read = some (c, v) ∧ Sound text v := by
  obtain ⟨before, after, width, rfl, htext⟩ := h.eq_between
  cases after with
  | nil => exact ⟨none, _, read_nil before width, .settled htext⟩
  | cons c after => exact ⟨some c, _, read_cons before c after width, .behind htext⟩

theorem Sound.back {text : List Char} {u : Cursor} (h : Sound text u) :
    ∃ v, u.back = some v ∧ Sound text v := by
  cases h with
  | settled htext => exact ⟨_, back_zero _ _, .settled htext⟩
  | behind htext => exact ⟨_, back_read _ _ _, .settled htext⟩

theorem Sound.move {text : List Char} {u v : Cursor} (h : Sound text u) (hmove : Move u v) :
    Sound text v := by
  cases hmove with
  | read hread =>
    obtain ⟨c, w, hread', hw⟩ := h.read
    cases hread.symm.trans hread'
    exact hw
  | back hback =>
    obtain ⟨w, hback', hw⟩ := h.back
    cases hback.symm.trans hback'
    exact hw

theorem Sound.moves {text : List Char} {u v : Cursor} (h : Sound text u) (hmoves : u.Moves v) :
    Sound text v := by
  induction hmoves with
  | refl => exact h
  | tail _ hmove ih => exact ih.move hmove

theorem sound_ofString (input : String) : Sound input.toList (ofString input) :=
  .settled (List.nil_append _).symm

/-- The cursor is at a boundary of two characters of the text, and a read and a step back from there
go through. -/
structure InBounds (input : String) (u : Cursor) : Prop where
  text_eq : u.text = input.toList
  pos_le : u.pos ≤ input.utf8ByteSize
  boundary : String.Pos.Raw.IsValid input ⟨u.pos⟩
  reads : ∃ c v, u.read = some (c, v)
  steps_back : ∃ v, u.back = some v

theorem Sound.inBounds {input : String} {u : Cursor} (h : Sound input.toList u) :
    u.InBounds input := by
  obtain ⟨c, v, hread, -⟩ := h.read
  obtain ⟨w, hback, -⟩ := h.back
  obtain ⟨before, after, width, rfl, htext⟩ := h.eq_between
  have hboundary : String.Pos.Raw.IsValid input ⟨Text.byteLength before⟩ := by
    rw [← Text.isSome_partsAt?_iff, htext, Text.partsAt?_append]
    rfl
  exact ⟨htext.symm, hboundary.le_utf8ByteSize, hboundary, ⟨c, v, hread⟩, ⟨w, hback⟩⟩

/-! ## Every call -/

/-- What a call has done to the byte offset in the text, by what it answers. -/
inductive Passes (text : List Char) (start stop : Nat) : Except LexError Token → Prop
  | finish {t} : t.kind = .endOfInput → t.pos = stop → stop = Text.byteLength text →
      start ≤ stop → Passes text start stop (.ok t)
  | word {t} : t.kind = .number ∨ t.kind = .identifier →
      Text.slice? t.pos stop text = some t.text.toList → start < stop →
      Passes text start stop (.ok t)
  | symbol {t symbol} : t.kind.symbol? = some symbol →
      Text.slice? t.pos stop text = some symbol.toList → start < stop →
      Passes text start stop (.ok t)
  | invalid {c pos} : Text.slice? pos stop text = some [c] → stop = pos + c.utf8Size →
      start < stop → Passes text start stop (.error (.unexpectedCharacter c pos))

theorem Passes.le {text : List Char} {start stop : Nat} {r : Except LexError Token}
    (h : Passes text start stop r) : start ≤ stop := by
  cases h with
  | finish _ _ _ hle => exact hle
  | word _ _ hlt | symbol _ _ hlt | invalid _ _ hlt => exact Nat.le_of_lt hlt

theorem passes_of_lexeme {text : List Char} {start stop : Nat} {t : Token} (hwf : t.WellFormed)
    (hslice : Text.slice? t.pos stop text = some t.lexeme) (hlt : start < stop) :
    Passes text start stop (.ok t) := by
  cases hs : t.kind.symbol? with
  | some symbol =>
    rw [lexeme_of_symbol hs] at hslice
    exact .symbol hs hslice hlt
  | none =>
    rw [lexeme_of_text hs] at hslice
    have hkind : t.kind = .number ∨ t.kind = .identifier := by
      cases hk : t.kind with
      | number => exact .inl rfl
      | identifier => exact .inr rfl
      | endOfInput => exact absurd hk hwf.kind_ne
      | leftParen | rightParen | not | operator => rw [hk] at hs; cases hs
    exact .word hkind hslice hlt

theorem passes_of_within {text : List Char} {s : Scanner} (h : s.Within text) :
    Passes text s.pos s.next.2.pos s.next.1 := by
  obtain ⟨before, htext, hpos⟩ := h
  have hr := s.nextR
  generalize s.next = r at hr
  cases hr with
  | @finish gap pos =>
    refine .finish rfl rfl ?_ (Nat.le_add_right _ _)
    rw [htext, Text.byteLength_append, ← hpos]
  | @lexeme gap t rest pos _ hwf _ htpos =>
    have hplace : t.pos = Text.byteLength (before ++ gap) := by
      rw [Text.byteLength_append, ← hpos]
      exact htpos
    refine passes_of_lexeme hwf ?_ ?_
    · rw [hplace, htext, ← List.append_assoc]
      exact Text.slice?_append _ _ _
    · obtain ⟨c, cs, hlexeme, -⟩ := hwf.begins
      have := c.utf8Size_pos
      rw [hlexeme, Text.byteLength_cons]
      show pos < t.pos + _
      omega
  | @invalid gap c rest pos =>
    refine .invalid ?_ rfl ?_
    · have hslice := Text.slice?_append (before ++ gap) [c] rest
      rw [Text.byteLength_append, ← hpos] at hslice
      rw [htext, ← List.append_assoc]
      exact hslice
    · have := c.utf8Size_pos
      show pos < pos + _ + _
      omega

/-! ## Many calls -/

theorem after_add (u : Cursor) (m n : Nat) : u.after (m + n) = (u.after m).bind (·.after n) := by
  induction m generalizing u with
  | zero => rw [Nat.zero_add]; rfl
  | succ m ih =>
    rw [Nat.add_right_comm, after, after, Option.bind_assoc]
    exact congrArg u.next.bind (funext fun r => ih r.2)

theorem after_succ_of_next {u v w : Cursor} {r : Except LexError Token} {n : Nat}
    (h : u.after n = some v) (hnext : v.next = some (r, w)) : u.after (n + 1) = some w := by
  rw [after_add, h, Option.bind_some, after, hnext]
  rfl

theorem after_end {u : Cursor} {s : Scanner} {t : Token} (h : u.Shows s)
    (hs : s.next = (.ok t, s)) (n : Nat) :
    ∃ v w, u.after n = some v ∧ v.next = some (.ok t, w) := by
  induction n generalizing u with
  | zero =>
    obtain ⟨v, hnext, -⟩ := next_shows h
    rw [hs] at hnext
    exact ⟨u, v, rfl, hnext⟩
  | succ n ih =>
    obtain ⟨v, hnext, hv, -⟩ := next_shows h
    rw [hs] at hnext hv
    obtain ⟨w, x, hafter, hend⟩ := ih hv
    exact ⟨w, x, by rw [after, hnext]; exact hafter, hend⟩

/-- The end is met after no more calls than there are characters ahead: the others take one at
least. -/
theorem exists_after_end {u : Cursor} {s : Scanner} (h : u.Shows s) :
    ∃ n ≤ s.rest.length, ∃ v t w, u.after n = some v ∧ v.next = some (.ok t, w) ∧
      t.kind = .endOfInput := by
  induction hlen : s.rest.length using Nat.strongRecOn generalizing u s with
  | _ len ih =>
  subst hlen
  obtain ⟨v, hnext, hv, -⟩ := next_shows h
  by_cases hend : ∃ t, s.next.1 = .ok t ∧ t.kind = .endOfInput
  · obtain ⟨t, ht, hkind⟩ := hend
    rw [ht] at hnext
    exact ⟨0, Nat.zero_le _, u, t, v, rfl, hnext, hkind⟩
  · have hlt := s.next_length_lt fun t ht hkind => hend ⟨t, ht, hkind⟩
    obtain ⟨n, hn, w, t, x, hafter, hlast, hkind⟩ := ih _ hlt hv rfl
    exact ⟨n + 1, by omega, w, t, x, by rw [after, hnext]; exact hafter, hlast, hkind⟩

/-- **A cursor stays in its text and gets on.** Wherever reads and steps back have brought it, it
is at a boundary of two characters, and both go through. However many calls were made of it, failed
ones and ones at the end among them, the next one goes through. The offset does not decrease, and
but at the end it increases; from the place of a token to the new offset there is the text of the
token or the one spelling of its kind, and from that of an error its character. Behind the end,
calls answer with it again, and it is met after no more calls than the text has characters. The
program's scanner has the same answers at the same offsets. -/
theorem calls_inBounds (input : String) :
    (∀ u, (ofString input).Moves u → u.InBounds input) ∧
    (∀ n, ∃ u r v, (ofString input).after n = some u ∧ (ofString input).Moves u ∧
      u.next = some (r, v) ∧ (ofString input).after (n + 1) = some v ∧
      u.pos ≤ v.pos ∧ Passes input.toList u.pos v.pos r ∧
      ∀ t, r = .ok t → t.kind = .endOfInput →
        ∀ k, ∃ w x, (ofString input).after (n + k) = some w ∧ w.next = some (.ok t, x)) ∧
    (∃ n ≤ input.length, ∃ u t v, (ofString input).after n = some u ∧
      u.next = some (.ok t, v) ∧ t.kind = .endOfInput) ∧
    ∀ n, (ofString input).answers n = some ((Scanner.ofString input).answers n) := by
  refine ⟨fun u hu => ((sound_ofString input).moves hu).inBounds, fun n => ?_, ?_,
    answers_shows (shows_ofString input)⟩
  · obtain ⟨u, s, hafter, hu, htext⟩ := after_shows (shows_ofString input) n
    obtain ⟨v, hnext, hv, -⟩ := next_shows hu
    have hpasses : Passes input.toList u.pos v.pos s.next.1 := by
      have hwithin := hu.within
      rw [htext] at hwithin
      rw [hu.pos_eq, hv.pos_eq]
      exact passes_of_within hwithin
    refine ⟨u, s.next.1, v, hafter, moves_of_after hafter, hnext, after_succ_of_next hafter hnext,
      hpasses.le, hpasses, fun t ht hend k => ?_⟩
    -- Behind the first end the cursor has ahead of it what it had, if not the width it had.
    cases k with
    | zero => exact ⟨u, v, hafter, ht ▸ hnext⟩
    | succ k =>
      have hsame := Scanner.next_end (Prod.ext ht rfl) hend
      obtain ⟨w, x, hw, hx⟩ := after_end hv hsame k
      have hcount : n + (k + 1) = n + 1 + k := by omega
      exact ⟨w, x, by rw [hcount, after_add, after_succ_of_next hafter hnext]; exact hw, hx⟩
  · obtain ⟨n, hn, hend⟩ := exists_after_end (shows_ofString input)
    exact ⟨n, by rwa [Scanner.ofString, String.length_toList] at hn, hend⟩

/-- Behind its two bytes the letter can be stepped back over. The equals sign is looked behind at
the end of the text, where there is nothing to step back over, and is refused alone. -/
theorem calls_inBounds_at_end :
    (∃ u, (ofString "é=").Moves u ∧ u.pos = 2 ∧ u.width = 2 ∧ u.InBounds "é=") ∧
      (ofString "é=").answers 4 =
        some [(.ok ⟨.identifier, "é", 0⟩, 2), (.error (.unexpectedCharacter '=' 2), 3),
          (.ok ⟨.endOfInput, "", 3⟩, 3), (.ok ⟨.endOfInput, "", 3⟩, 3)] := by
  obtain ⟨hmoves, -, -, hanswers⟩ := calls_inBounds "é="
  have hread : (ofString "é=").Moves ⟨['é', '='], 2, 2⟩ := .single (.read (c := some 'é') rfl)
  refine ⟨⟨_, hread, rfl, rfl, hmoves _ hread⟩, ?_⟩
  rw [hanswers]
  rfl

end Condition.Cursor
