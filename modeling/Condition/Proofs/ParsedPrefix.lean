/-
The part of a text that the expression at its start takes up.

A parser takes tokens as its scanner reads them (`Reads.scans`, `reads_of_scans`), so the
expression at the start of a text is decided by the tokens before the first that is left.
The text before that token has the same tokens and then its end, hence is one expression as
a whole; and what stands behind that token is not looked at. Main statement:
`parseExpression_stops`.
-/
import Condition.Proofs.Precedence
import Condition.Proofs.ScannedPrefix
import Condition.Unicode.WhiteSpace

namespace Condition

theorem isWordChar_of_isWhiteSpace {c : Char} (h : Unicode.isWhiteSpace c = true) :
    isWordChar c = false := by
  let codes : List Nat := [0x09, 0x0A, 0x0B, 0x0C, 0x0D, 0x20, 0x85, 0xA0, 0x1680, 0x2000, 0x2001,
    0x2002, 0x2003, 0x2004, 0x2005, 0x2006, 0x2007, 0x2008, 0x2009, 0x200A, 0x2028, 0x2029, 0x202F,
    0x205F, 0x3000]
  have hmem : c.toNat ∈ codes := by
    simp only [Unicode.isWhiteSpace, Bool.or_eq_true, Bool.and_eq_true, decide_eq_true_eq,
      beq_iff_eq] at h
    simp only [codes, List.mem_cons, List.not_mem_nil, or_false]
    omega
  have hcodes : ∀ n ∈ codes, isWordChar (Char.ofNat n) = false := by decide +kernel
  simpa using hcodes c.toNat hmem

namespace Parser

open Scanner (Scans)

/-! ## Parser and scanner -/

/-- The lookahead is what the scanner `s` answers with, and the parser's own scanner is the
one behind it. -/
def From (s : Scanner) (p : Parser) : Prop := s.next = (.ok p.lookahead, p.scanner)

theorem from_ofString {input : String} {p : Parser} (h : ofString input = .ok p) :
    From (.ofString input) p := by
  unfold ofString at h
  split at h
  · next hs => cases h; exact hs
  · cases h

theorem ofString_of_next {input : String} {t : Token} {s : Scanner}
    (h : (Scanner.ofString input).next = (.ok t, s)) : ofString input = .ok ⟨s, t, #[t]⟩ := by
  rw [ofString, h]

theorem parseExpression_of_next {input : String} {t : Token} {s : Scanner}
    (h : (Scanner.ofString input).next = (.ok t, s)) :
    parseExpression input = (parse ⟨s, t, #[t]⟩ 0).1 := by
  rw [parseExpression, ofString_of_next h]

theorem from_of_advance {p p' : Parser} {t : Token} (h : p.advance = (.ok t, p')) :
    From p.scanner p' := by
  unfold advance at h
  split at h
  · next hs => cases h; exact hs
  · cases h

theorem Reads.scans {p p' : Parser} {ts : List Token} (h : Reads p ts p') {s : Scanner}
    (hs : From s p) : ∃ s', Scans s ts s' ∧ From s' p' := by
  induction h generalizing s with
  | refl => exact ⟨s, .nil, hs⟩
  | @step p p₁ p' t ts ha ht _ ih =>
    obtain ⟨s', hscans, hs'⟩ := ih (from_of_advance ha)
    have hlook := advance_lookahead ha
    subst hlook
    exact ⟨s', .cons hs ht hscans, hs'⟩

/-- What a scanner reads before a token its parser reads. -/
theorem reads_of_scans {s s' u : Scanner} {ts : List Token} {t : Token} (h : Scans s ts s')
    (hs' : s'.next = (.ok t, u)) {p : Parser} (hp : From s p) :
    ∃ p', Reads p ts p' ∧ From s' p' := by
  induction h generalizing p with
  | nil => exact ⟨p, .refl, hp⟩
  | @cons s s₁ s' t₀ ts hs ht hscans ih =>
    -- The parser advances because another token is behind the one it takes.
    obtain ⟨t₁, s₂, hs₁⟩ : ∃ t₁ s₂, s₁.next = (.ok t₁, s₂) := by
      cases hscans with
      | nil => exact ⟨t, u, hs'⟩
      | cons hs₁ => exact ⟨_, _, hs₁⟩
    obtain ⟨hlook, rfl⟩ := Prod.mk.inj (hs.symm.trans hp)
    cases hlook
    have ha : p.advance = (.ok p.lookahead, ⟨s₂, t₁, p.scanned.push t₁⟩) := by
      rw [advance, hs₁]
    obtain ⟨p', hreads, hp'⟩ := ih hs' (from_of_advance ha)
    exact ⟨p', .step ha ht hreads, hp'⟩

/-! ## Where an expression stops -/

/-- The tokens of an expression that has been read, and the scanner before the lookahead. -/
theorem scans_of_parse {input : String} {p p' : Parser} {tree : Node}
    (hp : ofString input = .ok p) (h : p.parse 0 = (.ok tree, p')) :
    ∃ ts s, Scans (.ofString input) ts s ∧ From s p' ∧ Sentence ts tree := by
  obtain ⟨ts, hreads, hsentence⟩ := sentence_of_parse h
  obtain ⟨s, hscans, hs⟩ := hreads.scans (from_ofString hp)
  exact ⟨ts, s, hscans, hs, hsentence⟩

/-- A sentence is read up to the token behind it, if that has no power. -/
theorem parse_of_scans {input : String} {ts : List Token} {s u : Scanner} {t : Token} {tree : Node}
    (h : Scans (.ofString input) ts s) (hs : s.next = (.ok t, u)) (ht : t.kind.power = 0)
    (hn : Sentence ts tree) :
    ∃ p p', ofString input = .ok p ∧ p.parse 0 = (.ok tree, p') ∧ p'.lookahead = t := by
  obtain ⟨t₀, s₀, hs₀⟩ : ∃ t₀ s₀, (Scanner.ofString input).next = (.ok t₀, s₀) := by
    cases h with
    | nil => exact ⟨t, u, hs⟩
    | cons hs₀ => exact ⟨_, _, hs₀⟩
  have hp := ofString_of_next hs₀
  obtain ⟨p', hreads, hp'⟩ := reads_of_scans h hs (from_ofString hp)
  obtain ⟨hlook, -⟩ := Prod.mk.inj (hs.symm.trans hp')
  cases hlook
  exact ⟨_, p', hp, parse_of_sentence hn hreads ht, rfl⟩

theorem whole_iff_scans {input : String} {tree : Node} :
    Whole input tree ↔ ∃ ts s t u, Scans (.ofString input) ts s ∧ s.next = (.ok t, u) ∧
      t.kind = .endOfInput ∧ Sentence ts tree := by
  constructor
  · rintro ⟨p, p', hp, hparse, hend⟩
    obtain ⟨ts, s, hscans, hs, hsentence⟩ := scans_of_parse hp hparse
    exact ⟨ts, s, _, _, hscans, hs, expectEnd_eq_ok.1 hend, hsentence⟩
  · rintro ⟨ts, s, t, u, hscans, hs, ht, hsentence⟩
    obtain ⟨p, p', hp, hparse, hlook⟩ := parse_of_scans hscans hs (by rw [ht]; rfl) hsentence
    exact ⟨p, p', hp, hparse, expectEnd_eq_ok.2 (by rw [hlook, ht])⟩

theorem parseExpression_eq_ok {input : String} {tree : Node} :
    parseExpression input = .ok tree ↔
      ∃ p p', ofString input = .ok p ∧ p.parse 0 = (.ok tree, p') := by
  unfold parseExpression
  cases ofString input with
  | error e => simp
  | ok p =>
    rcases h : p.parse 0 with ⟨r, p'⟩
    simp [h]

/-- An expression may stop at the byte offset: the text ends there, or calls of the scanner,
none of which fails, come to a number, an identifier or a negation there. -/
def StopsAt (input : String) (pos : Nat) : Prop :=
  pos = input.utf8ByteSize ∨
    ∃ ts s t u, Scans (.ofString input) ts s ∧ s.next = (.ok t, u) ∧ t.pos = pos ∧
      (t.kind = .number ∨ t.kind = .identifier ∨ t.kind = .not)

/-- The text up to the byte offset is one expression, read as this tree. -/
def WholeUpTo (input : String) (pos : Nat) (tree : Node) : Prop :=
  ∃ before after, input.toList = before ++ after ∧ pos = Text.byteLength before ∧
    Whole (String.ofList before) tree

theorem wholeUpTo_utf8ByteSize {input : String} {tree : Node} :
    WholeUpTo input input.utf8ByteSize tree ↔ Whole input tree := by
  constructor
  · rintro ⟨before, after, htext, hpos, hwhole⟩
    rw [← Text.byteLength_toList] at hpos
    obtain ⟨hbefore, -⟩ :=
      Text.append_inj_byteLength ((List.append_nil input.toList).trans htext) hpos
    rwa [← hbefore, String.ofList_toList] at hwhole
  · intro h
    refine ⟨input.toList, [], (List.append_nil _).symm, (Text.byteLength_toList _).symm, ?_⟩
    rwa [String.ofList_toList]

theorem power_of_kind {k : TokenKind} (h : k = .number ∨ k = .identifier ∨ k = .not) :
    k.power = 0 ∧ k ≠ .endOfInput := by
  rcases h with rfl | rfl | rfl <;> exact ⟨rfl, nofun⟩

/-- Neither numbers nor words go on with what is no part of a word. -/
theorem stops_of_kind {k : TokenKind} (h : k = .number ∨ k = .identifier ∨ k = .not) {c : Char}
    (hc : isWordChar c = false) (cs : List Char) : k.Stops (c :: cs) := by
  intro d hd
  cases hd
  rcases h with rfl | rfl | rfl
  · rw [TokenKind.absorbs_number, isDigit_eq_false_of_isWordChar hc]
  · rw [TokenKind.absorbs_of_isWord rfl, hc]
  · rw [TokenKind.absorbs_of_isWord rfl, hc]

/-- Where the text up to a place is one expression, and an expression may stop, the expression
at its start stops. -/
theorem parse_of_wholeUpTo {input : String} {pos : Nat} {tree : Node} (hstop : StopsAt input pos)
    (hwhole : WholeUpTo input pos tree) :
    ∃ p p', ofString input = .ok p ∧ p.parse 0 = (.ok tree, p') ∧ p'.lookahead.pos = pos := by
  rcases hstop with rfl | ⟨ts, s, t, u, hscans, hs, htpos, hkind⟩
  · obtain ⟨ts, s, t, u, hscans, hs, ht, hn⟩ :=
      whole_iff_scans.1 (wholeUpTo_utf8ByteSize.1 hwhole)
    obtain ⟨p, p', hp, hparse, hlook⟩ := parse_of_scans hscans hs (by rw [ht]; rfl) hn
    exact ⟨p, p', hp, hparse, by rw [hlook, hscans.pos_of_end hs ht]⟩
  · obtain ⟨hpower, hne⟩ := power_of_kind hkind
    obtain ⟨before, after, htext, hbefore, ⟨s₁, u₁, hscans₁, hs₁⟩, -⟩ := hscans.around hs hne
    obtain ⟨before', after', htext', hbefore', hwhole⟩ := hwhole
    obtain ⟨rfl, -⟩ := Text.append_inj_byteLength (htext'.symm.trans htext)
      (by rw [← hbefore', ← hbefore, htpos])
    -- Both ways to read the text before the token come to its end, with the same tokens.
    obtain ⟨ts', s₂, t₂, u₂, hscans₂, hs₂, ht₂, hn⟩ := whole_iff_scans.1 hwhole
    have htokens := (hscans₁.tokens_of_end hs₁ rfl).symm.trans (hscans₂.tokens_of_end hs₂ ht₂)
    obtain ⟨rfl, -⟩ := List.append_inj' (Except.ok.inj htokens) rfl
    obtain ⟨p, p', hp, hparse, hlook⟩ := parse_of_scans hscans hs hpower hn
    exact ⟨p, p', hp, hparse, by rw [hlook, htpos]⟩

theorem wholeUpTo_of_parse {input : String} {p p' : Parser} {tree : Node}
    (hp : ofString input = .ok p) (h : p.parse 0 = (.ok tree, p')) :
    StopsAt input p'.lookahead.pos ∧ WholeUpTo input p'.lookahead.pos tree := by
  obtain ⟨ts, s, hscans, hs, hn⟩ := scans_of_parse hp h
  by_cases hend : p'.lookahead.kind = .endOfInput
  · rw [hscans.pos_of_end hs hend]
    exact ⟨.inl rfl,
      wholeUpTo_utf8ByteSize.2 (whole_iff_scans.2 ⟨ts, s, _, _, hscans, hs, hend, hn⟩)⟩
  · obtain ⟨before, after, htext, hpos, ⟨s', u', hscans', hs'⟩, -⟩ := hscans.around hs hend
    exact ⟨.inr ⟨ts, s, _, _, hscans, hs, rfl, kind_of_parse h hend⟩, before, _, htext, hpos,
      whole_iff_scans.2 ⟨ts, s', _, u', hscans', hs', rfl, hn⟩⟩

/-- Text behind the lookahead that is left has no say in the tree, if it begins with white
space. -/
theorem parseExpression_of_parse {input : String} {p p' : Parser} {tree : Node}
    (hp : ofString input = .ok p) (h : p.parse 0 = (.ok tree, p'))
    (hend : p'.lookahead.kind ≠ .endOfInput) :
    ∃ before after, input.toList = before ++ (p'.lookahead.lexeme ++ after) ∧
      p'.lookahead.pos = Text.byteLength before ∧
      ∀ c cs, isSpace c = true ∨ Unicode.isWhiteSpace c = true →
        parseExpression (String.ofList (before ++ (p'.lookahead.lexeme ++ c :: cs))) =
          .ok tree := by
  obtain ⟨ts, s, hscans, hs, hn⟩ := scans_of_parse hp h
  obtain ⟨before, after, htext, hpos, -, hafter⟩ := hscans.around hs hend
  have hkind := kind_of_parse h hend
  refine ⟨before, after, htext, hpos, fun c cs hc => ?_⟩
  have hword : isWordChar c = false := by
    rcases hc with hc | hc
    · refine Bool.eq_false_iff.2 fun hw => ?_
      rw [isSpace_eq_false_of_isWordChar hw] at hc
      cases hc
    · exact isWordChar_of_isWhiteSpace hc
  obtain ⟨s', u', hscans', hs'⟩ := hafter (c :: cs) (stops_of_kind hkind hword cs)
  obtain ⟨q, q', hq, hparse, -⟩ := parse_of_scans hscans' hs' (power_of_kind hkind).1 hn
  exact parseExpression_eq_ok.2 ⟨q, q', hq, hparse⟩

/-- **An expression is read as the text up to where it stops.** A text begins with an
expression just when the part of it up to some place, where an expression may stop, is that
expression as a whole. There is one such place, that of the first token left, and behind that
token any text that begins with white space may stand. -/
theorem parseExpression_stops (input : String) :
    (∀ tree, parseExpression input = .ok tree ↔
      ∃ pos, StopsAt input pos ∧ WholeUpTo input pos tree) ∧
    (∀ pos tree pos' tree', StopsAt input pos → WholeUpTo input pos tree →
      StopsAt input pos' → WholeUpTo input pos' tree' → pos = pos') ∧
    ∀ p p' tree, ofString input = .ok p → p.parse 0 = (.ok tree, p') →
      (StopsAt input p'.lookahead.pos ∧ WholeUpTo input p'.lookahead.pos tree) ∧
      (p'.lookahead.kind ≠ .endOfInput →
        ∃ before after, input.toList = before ++ (p'.lookahead.lexeme ++ after) ∧
          p'.lookahead.pos = Text.byteLength before ∧
          ∀ c cs, isSpace c = true ∨ Unicode.isWhiteSpace c = true →
            parseExpression (String.ofList (before ++ (p'.lookahead.lexeme ++ c :: cs))) =
              .ok tree) := by
  refine ⟨fun tree => ⟨fun h => ?_, ?_⟩, fun pos tree pos' tree' hstop hwhole hstop' hwhole' => ?_,
    fun p p' tree hp h => ⟨wholeUpTo_of_parse hp h, parseExpression_of_parse hp h⟩⟩
  · obtain ⟨p, p', hp, hparse⟩ := parseExpression_eq_ok.1 h
    exact ⟨_, wholeUpTo_of_parse hp hparse⟩
  · rintro ⟨pos, hstop, hwhole⟩
    obtain ⟨p, p', hp, hparse, -⟩ := parse_of_wholeUpTo hstop hwhole
    exact parseExpression_eq_ok.2 ⟨p, p', hp, hparse⟩
  · obtain ⟨p, q, hp, hparse, rfl⟩ := parse_of_wholeUpTo hstop hwhole
    obtain ⟨p', q', hp', hparse', rfl⟩ := parse_of_wholeUpTo hstop' hwhole'
    cases hp.symm.trans hp'
    cases hparse.symm.trans hparse'
    rfl

/-- The name begins where the number ends, with nothing between them; it may be followed by
what is no expression. -/
theorem parseExpression_stops_at_word :
    StopsAt "4abc" 1 ∧ WholeUpTo "4abc" 1 (.leaf ⟨.number, "4", 0⟩) ∧
      parseExpression "4abc ?" = .ok (.leaf ⟨.number, "4", 0⟩) := by
  have hp : ofString "4abc" = .ok ⟨⟨['a', 'b', 'c'], 1⟩, ⟨.number, "4", 0⟩,
      #[⟨.number, "4", 0⟩]⟩ := by rfl
  have hparse : parse ⟨⟨['a', 'b', 'c'], 1⟩, ⟨.number, "4", 0⟩, #[⟨.number, "4", 0⟩]⟩ 0 =
      (.ok (.leaf ⟨.number, "4", 0⟩), ⟨⟨[], 4⟩, ⟨.identifier, "abc", 1⟩,
        #[⟨.number, "4", 0⟩, ⟨.identifier, "abc", 1⟩]⟩) := by with_unfolding_all rfl
  obtain ⟨⟨hstop, hwhole⟩, hbehind⟩ := (parseExpression_stops "4abc").2.2 _ _ _ hp hparse
  obtain ⟨before, after, htext, hpos, hgo⟩ := hbehind (by decide)
  have hsplit : "4abc".toList = ['4'] ++ ['a', 'b', 'c'] := rfl
  obtain ⟨rfl, -⟩ := Text.append_inj_byteLength (hsplit.symm.trans htext) hpos
  exact ⟨hstop, hwhole, hgo ' ' ['?'] (.inl rfl)⟩

end Parser
end Condition
