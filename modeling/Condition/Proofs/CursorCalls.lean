/-
The calls of a cursor, beside those of a scanner.

A call is made of reads and steps back (`moves_of_next`). It does not fail where the cursor is
between two parts of its text, and it has the answer of the scanner that has the second part
ahead (`next_shows`). The first move of a call is a read, so the width that an earlier call has
left behind has no say in it (`next_between`).
-/
import Condition.Cursor
import Condition.Proofs.ScannerCalls
import Mathlib.Logic.Relation

namespace Condition.Cursor

/-! ## Moves -/

/-- A read or a step back. -/
inductive Move : Cursor → Cursor → Prop
  | read {u v c} : u.read = some (c, v) → Move u v
  | back {u v} : u.back = some v → Move u v

/-- From one cursor to another by reads and steps back, in whatever order. -/
abbrev Moves : Cursor → Cursor → Prop := Relation.ReflTransGen Move

theorem moves_of_skipWhile {p : Char → Bool} {u v : Cursor} (h : u.skipWhile p = some v) :
    u.Moves v := by
  fun_induction skipWhile p u with
  | case1 => cases h
  | case2 u w hread => cases h; exact .single (.read hread)
  | case3 u c w hread _ ih => exact .head (.read hread) (ih h)
  | case4 u c w hread _ => exact .head (.read hread) (.single (.back h))

theorem moves_of_nextIs {expected : Char} {u v : Cursor} {b : Bool}
    (h : u.nextIs expected = some (b, v)) : u.Moves v := by
  obtain ⟨⟨c, w⟩, hread, h⟩ := Option.bind_eq_some_iff.1 h
  cases c with
  | none => cases h; exact .single (.read hread)
  | some c =>
    by_cases hc : c = expected
    · simp only [hc, if_true] at h
      cases h
      exact .single (.read hread)
    · simp only [hc, if_false] at h
      obtain ⟨x, hback, hx⟩ := Option.map_eq_some_iff.1 h
      cases hx
      exact .head (.read hread) (.single (.back hback))

theorem moves_of_run {p : Char → Bool} {start : Nat} {u v : Cursor} {text : String}
    (h : u.run p start = some (text, v)) : u.Moves v := by
  obtain ⟨w, hskip, h⟩ := Option.bind_eq_some_iff.1 h
  obtain ⟨part, -, hpart⟩ := Option.map_eq_some_iff.1 h
  cases hpart
  exact moves_of_skipWhile hskip

theorem moves_of_lexeme {start : Nat} {c : Char} {u v : Cursor} {r : Except LexError Token}
    (h : u.lexeme start c = some (r, v)) : u.Moves v := by
  obtain ⟨⟨equals, w⟩, hequals, h⟩ := Option.bind_eq_some_iff.1 h
  have hw : u.Moves w := by
    split at hequals
    · exact moves_of_nextIs hequals
    · cases hequals
      exact .refl
  refine hw.trans ?_
  simp only at h
  split at h
  · cases h
    exact .refl
  split at h
  · obtain ⟨⟨text, x⟩, hrun, hx⟩ := Option.map_eq_some_iff.1 h
    cases hx
    exact moves_of_run hrun
  split at h
  · obtain ⟨⟨text, x⟩, hrun, hx⟩ := Option.map_eq_some_iff.1 h
    cases hx
    exact moves_of_run hrun
  · cases h
    exact .refl

/-- A call is made of reads and steps back. -/
theorem moves_of_next {u v : Cursor} {r : Except LexError Token} (h : u.next = some (r, v)) :
    u.Moves v := by
  obtain ⟨w, hskip, h⟩ := Option.bind_eq_some_iff.1 h
  obtain ⟨⟨c, x⟩, hread, h⟩ := Option.bind_eq_some_iff.1 h
  refine (moves_of_skipWhile hskip).trans (.head (.read hread) ?_)
  cases c with
  | none => cases h; exact .refl
  | some c => exact moves_of_lexeme h

theorem moves_of_after {u v : Cursor} {n : Nat} (h : u.after n = some v) : u.Moves v := by
  induction n generalizing u with
  | zero => cases h; exact .refl
  | succ n ih =>
    obtain ⟨⟨r, w⟩, hnext, h⟩ := Option.bind_eq_some_iff.1 h
    exact (moves_of_next hnext).trans (ih h)

/-! ## Cursors and scanners -/

/-- The cursor between two parts of its text. -/
def between (before after : List Char) (width : Nat) : Cursor :=
  ⟨before ++ after, Text.byteLength before, width⟩

theorem read_nil (before : List Char) (width : Nat) :
    (between before [] width).read = some (none, between before [] 0) := by
  rw [read, between, Text.partsAt?_append]
  rfl

theorem read_cons (before : List Char) (c : Char) (after : List Char) (width : Nat) :
    (between before (c :: after) width).read =
      some (some c, between (before ++ [c]) after c.utf8Size) := by
  rw [read, between, Text.partsAt?_append]
  simp [between]

theorem back_read (before : List Char) (c : Char) (after : List Char) :
    (between (before ++ [c]) after c.utf8Size).back = some (between before (c :: after) 0) := by
  simp [back, between]

theorem back_zero (before after : List Char) :
    (between before after 0).back = some (between before after 0) := rfl

theorem skipWhile_between (p : Char → Bool) (before after : List Char) (width : Nat) :
    (between before after width).skipWhile p =
      some (between (before ++ after.takeWhile p) (after.dropWhile p) 0) := by
  induction after generalizing before width with
  | nil =>
    rw [skipWhile, List.takeWhile_nil, List.append_nil, List.dropWhile_nil]
    split <;> simp_all [read_nil]
  | cons c after ih =>
    have hread := read_cons before c after width
    rw [skipWhile]
    split
    · next h => cases hread.symm.trans h
    · next h => cases hread.symm.trans h
    · next d v h =>
      cases hread.symm.trans h
      by_cases hc : p c = true
      · rw [if_pos hc, ih, List.takeWhile_cons_of_pos hc, List.dropWhile_cons_of_pos hc,
          List.append_assoc]
        rfl
      · rw [if_neg hc, back_read, List.takeWhile_cons_of_neg hc, List.dropWhile_cons_of_neg hc,
          List.append_nil]

theorem nextIs_between (expected : Char) (before after : List Char) (width : Nat) :
    (between before after width).nextIs expected =
      if after.head? = some expected then
        some (true, between (before ++ [expected]) after.tail expected.utf8Size)
      else some (false, between before after 0) := by
  cases after with
  | nil => rw [nextIs, read_nil]; rfl
  | cons c after =>
    rw [nextIs, read_cons, Option.bind_some]
    by_cases hc : c = expected
    · subst hc
      simp
    · simp [hc, back_read]

/-- The text taken is what had been read from `start` on and the run of characters behind it. -/
theorem run_between (p : Char → Bool) (front part after : List Char) (width : Nat) :
    (between (front ++ part) after width).run p (Text.byteLength front) =
      some (String.ofList (part ++ after.takeWhile p),
        between (front ++ part ++ after.takeWhile p) (after.dropWhile p) 0) := by
  have hslice := Text.slice?_append front (part ++ after.takeWhile p) (after.dropWhile p)
  rw [run, skipWhile_between, Option.bind_some, between]
  simp only [List.append_assoc, Text.byteLength_append] at hslice ⊢
  rw [hslice]
  rfl

theorem symbol?_width {c : Char} {e : Bool} {kind : TokenKind} {width : Nat}
    (h : Scanner.symbol? c e = some (kind, width)) :
    c.utf8Size = 1 ∧ width = if goesWithEquals c && e then 2 else 1 := by
  unfold Scanner.symbol? at h
  split at h <;> cases h <;> exact ⟨rfl, rfl⟩

/-- An equals sign behind it matters only to a character that goes with one. -/
theorem symbol?_eq_and (c : Char) (e : Bool) :
    Scanner.symbol? c (goesWithEquals c && e) = Scanner.symbol? c e := by
  cases hc : goesWithEquals c with
  | true => rfl
  | false =>
    simp only [goesWithEquals, List.mem_cons, List.not_mem_nil, or_false, decide_eq_false_iff_not,
      not_or] at hc
    obtain ⟨h₁, h₂, h₃, h₄⟩ := hc
    unfold Scanner.symbol?
    split <;> simp_all

theorem and_eq_false_of_symbol? {c : Char} {e : Bool} (h : Scanner.symbol? c e = none) :
    (goesWithEquals c && e) = false := by
  rw [Bool.and_eq_false_iff]
  cases e with
  | false => exact .inr rfl
  | true =>
    refine .inl (Bool.eq_false_iff.2 fun hc => ?_)
    simp only [goesWithEquals, List.mem_cons, List.not_mem_nil, or_false, decide_eq_true_eq] at hc
    rcases hc with rfl | rfl | rfl | rfl <;> cases h

theorem equals_between (c : Char) (cs : List Char) (width : Nat) :
    ∃ width', ∀ front, (if goesWithEquals c then (between (front ++ [c]) cs width).nextIs '='
        else some (false, between (front ++ [c]) cs width)) =
      if goesWithEquals c && (cs.head? == some '=') then
        some (true, between (front ++ [c] ++ ['=']) cs.tail width')
      else some (false, between (front ++ [c]) cs width') := by
  cases goesWithEquals c with
  | false => exact ⟨width, fun front => rfl⟩
  | true =>
    by_cases he : cs.head? = some '='
    · exact ⟨'='.utf8Size, fun front => by simp [nextIs_between, he]⟩
    · exact ⟨0, fun front => by simp [nextIs_between, he]⟩

/-- With its first character read, a lexeme is taken as the scanner takes it. -/
theorem lexeme_between (c : Char) (cs : List Char) (width : Nat) :
    ∃ width', ∀ front, (between (front ++ [c]) cs width).lexeme (Text.byteLength front) c =
      some ((Scanner.read ⟨c :: cs, Text.byteLength front⟩).1,
        ⟨front ++ c :: cs, (Scanner.read ⟨c :: cs, Text.byteLength front⟩).2.pos, width'⟩) := by
  obtain ⟨width₁, hequals⟩ := equals_between c cs width
  -- The cursor asks for an equals sign behind four characters, the scanner behind any.
  simp only [lexeme, hequals, Scanner.read]
  cases hsym : Scanner.symbol? c (cs.head? == some '=') with
  | some k =>
    obtain ⟨kind, w⟩ := k
    obtain ⟨hsize, hw⟩ := symbol?_width hsym
    rw [← symbol?_eq_and] at hsym
    refine ⟨width₁, fun front => ?_⟩
    cases he : goesWithEquals c && (cs.head? == some '=') with
    | true =>
      obtain ⟨cs, rfl⟩ : ∃ cs', cs = '=' :: cs' := by
        cases cs <;> simp_all
      rw [he] at hsym hw
      have hequals : '='.utf8Size = 1 := rfl
      simp [hsym, hw, between, hsize, hequals]
    | false =>
      rw [he] at hsym hw
      simp [hsym, hw, between, hsize]
  | none =>
    have he := and_eq_false_of_symbol? hsym
    rw [← symbol?_eq_and, he] at hsym
    simp only [he, Bool.false_eq_true, if_false, Option.bind_some, hsym]
    by_cases hd : c.isDigit = true
    · refine ⟨0, fun front => ?_⟩
      rw [if_pos hd, if_pos hd, run_between]
      simp [between, hd, Scanner.skipWhile]
    by_cases hword : isWordChar c = true
    · refine ⟨0, fun front => ?_⟩
      rw [if_neg hd, if_neg hd, if_pos hword, if_pos hword, run_between]
      simp [between, hword, Scanner.skipWhile]
    · refine ⟨width₁, fun front => ?_⟩
      rw [if_neg hd, if_neg hd, if_neg hword, if_neg hword]
      simp [between]

/-- Wherever a cursor has this text ahead, whatever is before it and whatever width it remembers, a
call answers as the scanner's does, and leaves one and the same width behind. -/
theorem next_between (after : List Char) :
    ∃ width', ∀ before width, (between before after width).next =
      some ((Scanner.next ⟨after, Text.byteLength before⟩).1,
        ⟨before ++ after, (Scanner.next ⟨after, Text.byteLength before⟩).2.pos, width'⟩) := by
  have htext (before : List Char) :
      before ++ after = before ++ after.takeWhile isSpace ++ after.dropWhile isSpace := by
    rw [List.append_assoc, List.takeWhile_append_dropWhile]
  simp only [next, skipWhile_between, Option.bind_some, Scanner.next, Scanner.skipWhile,
    ← Text.byteLength_append, htext]
  cases after.dropWhile isSpace with
  | nil => exact ⟨0, fun before width => by rw [read_nil]; rfl⟩
  | cons c cs =>
    obtain ⟨width', hlexeme⟩ := lexeme_between c cs c.utf8Size
    refine ⟨width', fun before width => ?_⟩
    rw [read_cons]
    exact hlexeme _

/-- The cursor has ahead of it what the scanner has. -/
structure Shows (u : Cursor) (s : Scanner) : Prop where
  within : s.Within u.text
  pos_eq : u.pos = s.pos

theorem shows_ofString (input : String) : (ofString input).Shows (.ofString input) :=
  ⟨Scanner.within_ofString input, rfl⟩

theorem Shows.eq_between {u : Cursor} {s : Scanner} (h : u.Shows s) :
    ∃ before, u = between before s.rest u.width ∧ s.pos = Text.byteLength before := by
  obtain ⟨⟨before, htext, hpos⟩, heq⟩ := h
  refine ⟨before, ?_, hpos⟩
  rw [between, ← htext, ← hpos, ← heq]

/-- **A call of a cursor does not fail, and has the answer of the scanner's.** -/
theorem next_shows {u : Cursor} {s : Scanner} (h : u.Shows s) :
    ∃ v, u.next = some (s.next.1, v) ∧ v.Shows s.next.2 ∧ v.text = u.text := by
  obtain ⟨before, hu, hpos⟩ := h.eq_between
  obtain ⟨width, hnext⟩ := next_between s.rest
  have hnext := hnext before u.width
  rw [← hu, ← hpos] at hnext
  have htext : before ++ s.rest = u.text := (congrArg text hu).symm
  exact ⟨_, hnext, ⟨htext ▸ h.within.next.1, rfl⟩, htext⟩

theorem after_shows {u : Cursor} {s : Scanner} (h : u.Shows s) (n : Nat) :
    ∃ v s', u.after n = some v ∧ v.Shows s' ∧ v.text = u.text := by
  induction n generalizing u s with
  | zero => exact ⟨u, s, rfl, h, rfl⟩
  | succ n ih =>
    obtain ⟨v, hnext, hv, htext⟩ := next_shows h
    obtain ⟨w, s', hafter, hw, htext'⟩ := ih hv
    exact ⟨w, s', by rw [after, hnext]; exact hafter, hw, htext'.trans htext⟩

theorem answers_shows {u : Cursor} {s : Scanner} (h : u.Shows s) (n : Nat) :
    u.answers n = some (s.answers n) := by
  induction n generalizing u s with
  | zero => rfl
  | succ n ih =>
    obtain ⟨v, hnext, hv, -⟩ := next_shows h
    simp only [answers, Scanner.answers, hnext, Option.bind_some, ih hv, Option.map_some, hv.pos_eq]

end Condition.Cursor
