/-
The rule for names of variables, told by the scanner.

A text is accepted as a name just when the scanner reads all of it as one identifier, and
refused as reserved just when it reads all of it as one reserved word. Name characters
are word characters, so an accepted name is always an identifier
(`wellFormed_of_checkName`); for the converse the two classes of characters have to agree
on the text. Main statement: `checkName_scanned`.
-/
import Condition.Proofs.Spelling
import Condition.Variables.Name
import Mathlib.Data.List.Basic

namespace Condition

/-! ## Texts of one token -/

theorem tokenize_label_iff {t : Token} {text : String} (hpos : t.pos = 0)
    (htext : t.label = text) :
    tokenize text = .ok [t, endAt text.utf8ByteSize] ↔ t.WellFormed := by
  have hlexeme : t.lexeme = text.toList := by rw [Token.lexeme, htext]
  rw [tokenize, Scanner.ofString]
  constructor
  · intro h
    obtain ⟨ts, hts, hspells⟩ := Scanner.spells_of_tokens h
    obtain ⟨rfl, -⟩ := List.append_inj' (show [t] ++ [_] = ts ++ [_] from hts) rfl
    generalize text.toList = cs at hspells
    cases hspells with
    | token _ _ hwf => exact hwf
  · intro h
    have hspells : Spells none 0 [t] ([] ++ (t.lexeme ++ [])) :=
      .token (by simp) (by simp) h (by simpa using hpos) (.gap (by simp))
    have htokens := Scanner.tokens_of_spells hspells
    simpa [hlexeme, Text.byteLength_toList] using htokens

/-- The scanner reads all of the text as one identifier. -/
def OneIdentifier (text : String) : Prop :=
  tokenize text = .ok [⟨.identifier, text, 0⟩, endAt text.utf8ByteSize]

/-- The scanner reads all of the text as one reserved word. -/
def OneReservedWord (text : String) : Prop :=
  ∃ k ∈ [.operator (.connective .and), .operator (.connective .or), TokenKind.not],
    k.symbol? = some text ∧ tokenize text = .ok [⟨k, "", 0⟩, endAt text.utf8ByteSize]

theorem oneIdentifier_iff {text : String} :
    OneIdentifier text ↔ Token.WellFormed ⟨.identifier, text, 0⟩ :=
  tokenize_label_iff rfl rfl

theorem oneReservedWord_iff {text : String} :
    OneReservedWord text ↔ ∃ k, TokenKind.keyword? text = some k := by
  constructor
  · rintro ⟨k, hk, hs, -⟩
    refine ⟨k, Scanner.keyword?_of_symbol? hs ?_⟩
    simp only [List.mem_cons, List.not_mem_nil, or_false] at hk
    rcases hk with rfl | rfl | rfl <;> rfl
  · rintro ⟨k, hk⟩
    have hs := TokenKind.symbol?_of_keyword? hk
    have hlabel : Token.label ⟨k, "", 0⟩ = text := by simp [Token.label, hs]
    refine ⟨k, ?_, hs, (tokenize_label_iff rfl hlabel).2 (wellFormed_of_symbol hs 0)⟩
    rcases TokenKind.keyword?_cases hk with rfl | rfl | rfl <;> cases hk <;> simp

namespace Variables

/-! ## The rule -/

theorem hasNameShape_iff {cs : List Char} :
    hasNameShape cs = true ↔
      cs ≠ [] ∧ (∀ c ∈ cs, isNameChar c = true) ∧ ∀ c ∈ cs.head?, ¬ c.isDigit = true := by
  cases cs with
  | nil => simp [hasNameShape]
  | cons c cs =>
    simp only [hasNameShape, Bool.and_eq_true, Bool.not_eq_true', List.all_eq_true, ne_eq,
      reduceCtorEq, not_false_eq_true, true_and, List.forall_mem_cons, List.head?_cons,
      Option.mem_def, Option.some.injEq, forall_eq', Bool.not_eq_true]
    constructor
    · rintro ⟨⟨hc, hd⟩, hcs⟩
      exact ⟨⟨hc, hcs⟩, hd⟩
    · rintro ⟨⟨hc, hcs⟩, hd⟩
      exact ⟨⟨hc, hd⟩, hcs⟩

theorem hasNameShape_of_keyword? {name : String} {k : TokenKind}
    (h : TokenKind.keyword? name = some k) : hasNameShape name.toList = true := by
  rcases TokenKind.keyword?_cases h with rfl | rfl | rfl <;> decide

theorem checkName_eq_ok_iff {name : String} :
    checkName name = .ok () ↔
      hasNameShape name.toList = true ∧ TokenKind.keyword? name = none := by
  unfold checkName
  cases hasNameShape name.toList <;> cases TokenKind.keyword? name <;> simp

theorem checkName_eq_reserved_iff {name : String} :
    checkName name = .error (.reservedName name) ↔ ∃ k, TokenKind.keyword? name = some k := by
  unfold checkName
  cases hk : TokenKind.keyword? name with
  | none => cases hasNameShape name.toList <;> simp
  | some k => simp [hasNameShape_of_keyword? hk]

theorem checkName_eq_invalid_iff {name : String} :
    checkName name = .error (.invalidName name) ↔
      checkName name ≠ .ok () ∧ checkName name ≠ .error (.reservedName name) := by
  unfold checkName
  cases hasNameShape name.toList <;> cases TokenKind.keyword? name <;> simp

/-! ## Names and tokens -/

theorem wellFormed_of_checkName {name : String} (h : checkName name = .ok ()) (pos : Nat) :
    Token.WellFormed ⟨.identifier, name, pos⟩ := by
  obtain ⟨hshape, hkeyword⟩ := checkName_eq_ok_iff.1 h
  obtain ⟨hne, hname, hdigit⟩ := hasNameShape_iff.1 hshape
  exact ⟨by simpa using hne, fun c hc => isWordChar_of_isNameChar (hname c hc), hdigit,
    TokenKind.keyword?_eq_none.1 hkeyword⟩

/-- Where the classes of characters agree, every identifier is accepted. -/
theorem checkName_of_wellFormed {name : String} {pos : Nat}
    (hclass : ∀ c ∈ name.toList, isNameChar c = isWordChar c)
    (h : Token.WellFormed ⟨.identifier, name, pos⟩) : checkName name = .ok () := by
  obtain ⟨hne, hword, hdigit, hreserved⟩ := h
  rw [checkName_eq_ok_iff, hasNameShape_iff]
  exact ⟨⟨by simpa using hne, fun c hc => (hclass c hc).trans (hword c hc), hdigit⟩,
    TokenKind.keyword?_eq_none.2 hreserved⟩

/-- **Names are what the scanner reads as one word.** On every text where the classes of
characters agree, a name is accepted just when the whole of it is one identifier, refused
as reserved just when the whole of it is one reserved word, and else refused as invalid. -/
theorem checkName_scanned {name : String}
    (hclass : ∀ c ∈ name.toList, isNameChar c = isWordChar c) :
    (checkName name = .ok () ↔ OneIdentifier name) ∧
    (checkName name = .error (.reservedName name) ↔ OneReservedWord name) ∧
    (checkName name = .error (.invalidName name) ↔
      ¬ OneIdentifier name ∧ ¬ OneReservedWord name) := by
  have hok : checkName name = .ok () ↔ OneIdentifier name :=
    ⟨fun h => oneIdentifier_iff.2 (wellFormed_of_checkName h 0),
      fun h => checkName_of_wellFormed hclass (oneIdentifier_iff.1 h)⟩
  have hreserved : checkName name = .error (.reservedName name) ↔ OneReservedWord name :=
    checkName_eq_reserved_iff.trans oneReservedWord_iff.symm
  exact ⟨hok, hreserved, checkName_eq_invalid_iff.trans (and_congr (not_congr hok)
    (not_congr hreserved))⟩

theorem checkName_word_beyond_ascii :
    (∀ c ∈ "größe_2".toList, isNameChar c = isWordChar c) ∧ checkName "größe_2" = .ok () ∧
      OneIdentifier "größe_2" := by
  have hall : ("größe_2".toList.all fun c => isNameChar c == isWordChar c) = true := by
    decide +kernel
  have hclass : ∀ c ∈ "größe_2".toList, isNameChar c = isWordChar c :=
    fun c hc => beq_iff_eq.1 (List.all_eq_true.1 hall c hc)
  have hok : checkName "größe_2" = .ok () := by decide +kernel
  exact ⟨hclass, hok, (checkName_scanned hclass).1.1 hok⟩

/-- A letter that is new in Unicode 17 is a word to the scanner, but no name. -/
example : tokenize "𐻻" = .ok [⟨.identifier, "𐻻", 0⟩, endAt 4] ∧
    checkName "𐻻" = .error (.invalidName "𐻻") := by decide +kernel

end Variables
end Condition
