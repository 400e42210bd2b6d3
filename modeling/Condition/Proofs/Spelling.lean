/-
Which texts have which tokens: a text is the lexemes of its tokens with gaps of space
around them, and two lexemes may stand without a gap unless the first would absorb the
start of the second (`Spells`).

One call of the scanner answers with the lexeme at the head of the text (`read_cases`),
and gives back every lexeme that stands before what it does not absorb
(`read_lexeme`). Main statement: `tokenize_exact`.
-/
import Condition.Proofs.TokensAhead

namespace Condition

/-! ## Lexemes -/

/-- The characters that stand in the source for the token. -/
def Token.lexeme (t : Token) : List Char := t.label.toList

/-- Numbers are digits, identifiers are words that are neither reserved nor begin with a
digit, and no other token has text. The end is no token of a text. -/
def Token.WellFormed (t : Token) : Prop :=
  match t.kind with
  | .number => t.text ≠ "" ∧ ∀ c ∈ t.text.toList, c.isDigit
  | .identifier => t.text ≠ "" ∧ (∀ c ∈ t.text.toList, isWordChar c) ∧
      (∀ c ∈ t.text.toList.head?, ¬ c.isDigit) ∧ t.text ∉ ["AND", "OR", "NOT"]
  | .endOfInput => False
  | _ => t.text = ""

namespace TokenKind

/-- Identifiers and reserved words. -/
def isWord : TokenKind → Bool
  | .identifier | .not | .operator (.connective _) => true
  | _ => false

/-- The kinds that an equals sign behind them would change. -/
def isAngle (k : TokenKind) : Bool :=
  k = .operator (.comparison .greater) || k = .operator (.comparison .lesser)

/-- The pairs of kinds that may not follow each other without a gap. -/
def clashes (k k' : TokenKind) : Bool :=
  (k = .number && k' = .number) || (k.isWord && (k'.isWord || k' = .number)) ||
    (k.isAngle && k' = .operator (.comparison .equal))

/-- Whether a character right behind a lexeme of this kind becomes part of it. -/
def absorbs (k : TokenKind) (c : Char) : Bool :=
  (k = .number && c.isDigit) || (k.isWord && isWordChar c) || (k.isAngle && c = '=')

theorem absorbs_number (c : Char) : absorbs .number c = c.isDigit := by
  simp [absorbs, isWord, isAngle]

theorem absorbs_of_isWord {k : TokenKind} {c : Char} (h : k.isWord = true) :
    k.absorbs c = isWordChar c := by
  have hnum : k ≠ .number := by rintro rfl; cases h
  have hangle : k.isAngle = false := by
    cases ha : k.isAngle with
    | false => rfl
    | true =>
      simp only [isAngle, Bool.or_eq_true, decide_eq_true_eq] at ha
      rcases ha with rfl | rfl <;> cases h
  simp [absorbs, hnum, h, hangle]

/-- The text does not go on with the lexeme that stands before it. -/
def Stops (k : TokenKind) (cs : List Char) : Prop := ∀ c ∈ cs.head?, k.absorbs c = false

theorem keyword?_eq_none {word : String} : keyword? word = none ↔ word ∉ ["AND", "OR", "NOT"] := by
  simp only [keyword?, List.mem_cons, List.not_mem_nil, or_false, not_or]
  constructor
  · intro h
    refine ⟨?_, ?_, ?_⟩ <;> rintro rfl <;> simp at h
  · rintro ⟨h₁, h₂, h₃⟩
    rw [if_neg h₁, if_neg h₂, if_neg h₃]

theorem keyword?_cases {word : String} {k : TokenKind} (h : keyword? word = some k) :
    word = "AND" ∨ word = "OR" ∨ word = "NOT" := by
  have hword : word ∈ ["AND", "OR", "NOT"] := by
    refine Decidable.byContradiction fun hne => ?_
    rw [keyword?_eq_none.2 hne] at h
    cases h
  simpa using hword

theorem isWord_of_keyword? {word : String} {k : TokenKind} (h : keyword? word = some k) :
    k.isWord = true := by
  rcases keyword?_cases h with rfl | rfl | rfl <;> cases h <;> rfl

end TokenKind

/-! ## The first character of a lexeme -/

theorem isWordChar_of_isDigit {c : Char} (h : c.isDigit = true) : isWordChar c = true := by
  have hlt : c.toNat < 0x80 := by
    simp only [Char.isDigit, Bool.and_eq_true, decide_eq_true_eq, UInt32.le_iff_toNat_le] at h
    exact Nat.lt_of_le_of_lt h.2 (by decide)
  simp [isWordChar, Unicode.isAlphanumeric_ascii hlt, Char.isAlphanum, h]

theorem isSpace_eq_false_of_isWordChar {c : Char} (h : isWordChar c = true) :
    isSpace c = false := by
  refine Bool.eq_false_iff.2 fun hs => ?_
  simp only [isSpace, Bool.or_eq_true, decide_eq_true_eq] at hs
  rcases hs with ((rfl | rfl) | rfl) | rfl <;> revert h <;> decide

theorem isDigit_eq_false_of_isWordChar {c : Char} (h : isWordChar c = false) :
    c.isDigit = false :=
  Bool.eq_false_iff.2 fun hd => by rw [isWordChar_of_isDigit hd] at h; cases h

/-- The classes of a character that begins a lexeme of this kind. -/
structure Begins (k : TokenKind) (c : Char) : Prop where
  space : isSpace c = false
  digit : c.isDigit = decide (k = .number)
  word : isWordChar c = (k.isWord || decide (k = .number))
  equals : decide (c = '=') = decide (k = .operator (.comparison .equal))

instance (k : TokenKind) (c : Char) : Decidable (Begins k c) :=
  decidable_of_iff (isSpace c = false ∧ c.isDigit = decide (k = .number) ∧
      isWordChar c = (k.isWord || decide (k = .number)) ∧
      decide (c = '=') = decide (k = .operator (.comparison .equal)))
    ⟨fun ⟨h₁, h₂, h₃, h₄⟩ => ⟨h₁, h₂, h₃, h₄⟩, fun ⟨h₁, h₂, h₃, h₄⟩ => ⟨h₁, h₂, h₃, h₄⟩⟩

theorem begins_of_digit {c : Char} (h : c.isDigit = true) : Begins .number c := by
  have hw := isWordChar_of_isDigit h
  refine ⟨isSpace_eq_false_of_isWordChar hw, by simpa using h, by simpa using hw, ?_⟩
  have hne : c ≠ '=' := by rintro rfl; revert h; decide
  simp [hne]

theorem begins_of_word {c : Char} (h : isWordChar c = true) (hd : c.isDigit = false) :
    Begins .identifier c := by
  refine ⟨isSpace_eq_false_of_isWordChar h, by simpa using hd,
    by simpa [TokenKind.isWord] using h, ?_⟩
  have hne : c ≠ '=' := by rintro rfl; revert h; decide
  simp [hne]

theorem lexeme_of_symbol {t : Token} {symbol : String} (h : t.kind.symbol? = some symbol) :
    t.lexeme = symbol.toList := by
  simp [Token.lexeme, Token.label, h]

theorem begins_of_symbol {k : TokenKind} {symbol : String} (h : k.symbol? = some symbol) :
    ∃ c cs, symbol.toList = c :: cs ∧ Begins k c := by
  cases k with
  | number | identifier | endOfInput => simp [TokenKind.symbol?] at h
  | leftParen | rightParen | not => cases h; exact ⟨_, _, rfl, by decide⟩
  | operator o =>
    cases o with
    | arithmetic a => cases a <;> cases h <;> exact ⟨_, _, rfl, by decide⟩
    | comparison a => cases a <;> cases h <;> exact ⟨_, _, rfl, by decide⟩
    | connective a => cases a <;> cases h <;> exact ⟨_, _, rfl, by decide⟩

theorem lexeme_of_text {t : Token} (h : t.kind.symbol? = none) : t.lexeme = t.text.toList := by
  simp [Token.lexeme, Token.label, h]

theorem Token.WellFormed.begins {t : Token} (h : t.WellFormed) :
    ∃ c cs, t.lexeme = c :: cs ∧ Begins t.kind c := by
  cases hs : t.kind.symbol? with
  | some symbol =>
    rw [lexeme_of_symbol hs]
    exact begins_of_symbol hs
  | none =>
    rw [lexeme_of_text hs]
    unfold Token.WellFormed at h
    cases hl : t.text.toList with
    | nil => cases hk : t.kind <;> simp_all [TokenKind.symbol?]
    | cons c cs =>
      refine ⟨c, cs, rfl, ?_⟩
      cases hk : t.kind with
      | number =>
        rw [hk] at h
        exact begins_of_digit (h.2 c (by simp [hl]))
      | identifier =>
        rw [hk] at h
        exact begins_of_word (h.2.1 c (by simp [hl])) (by simpa [hl] using h.2.2.1)
      | endOfInput => simp [hk] at h
      | leftParen | rightParen | not | operator => simp [hk, TokenKind.symbol?] at hs

theorem Token.WellFormed.kind_ne {t : Token} (h : t.WellFormed) : t.kind ≠ .endOfInput := by
  intro he
  simp [Token.WellFormed, he] at h

/-- A lexeme absorbs the start of the next one just when the two kinds clash. -/
theorem absorbs_eq_clashes {k k' : TokenKind} {c : Char} (h : Begins k' c) :
    k.absorbs c = k.clashes k' := by
  simp only [TokenKind.absorbs, TokenKind.clashes, h.digit, h.word, h.equals]

theorem absorbs_of_isSpace {k : TokenKind} {c : Char} (h : isSpace c = true) :
    k.absorbs c = false := by
  have hw : isWordChar c = false := Bool.eq_false_iff.2 fun hw => by
    rw [isSpace_eq_false_of_isWordChar hw] at h
    cases h
  have hd := isDigit_eq_false_of_isWordChar hw
  have he : c ≠ '=' := by rintro rfl; revert h; decide
  simp [TokenKind.absorbs, hw, hd, he]

/-! ## One lexeme -/

/-- The character begins no lexeme: an equals sign or exclamation mark that no equals
sign follows, or a character of no class. -/
def Invalid (c : Char) (cs : List Char) : Prop :=
  ((c = '=' ∨ c = '!') ∧ cs.head? ≠ some '=') ∨
    (isSpace c = false ∧ isWordChar c = false ∧
      c ∉ ['(', ')', '+', '-', '*', '>', '<', '=', '!'])

theorem wellFormed_of_symbol {k : TokenKind} {symbol : String} (h : k.symbol? = some symbol)
    (pos : Nat) : Token.WellFormed ⟨k, "", pos⟩ := by
  cases k <;> simp_all [Token.WellFormed, TokenKind.symbol?]

theorem Token.WellFormed.eq_of_symbol {t : Token} {symbol : String} (h : t.WellFormed)
    (hs : t.kind.symbol? = some symbol) : t = ⟨t.kind, "", t.pos⟩ := by
  obtain ⟨k, text, pos⟩ := t
  cases k <;> simp_all [Token.WellFormed, TokenKind.symbol?]

namespace Scanner

theorem takeWhile_append {p : Char → Bool} {w cs : List Char} (hw : ∀ c ∈ w, p c = true)
    (hcs : ∀ c ∈ cs.head?, p c = false) : (w ++ cs).takeWhile p = w := by
  rw [List.takeWhile_append_of_pos hw]
  cases cs with
  | nil => simp
  | cons c cs => simp [hcs c (by simp)]

theorem skipWhile_append {p : Char → Bool} {w cs : List Char} (pos : Nat)
    (hw : ∀ c ∈ w, p c = true) (hcs : ∀ c ∈ cs.head?, p c = false) :
    skipWhile p ⟨w ++ cs, pos⟩ = ⟨cs, pos + Text.byteLength w⟩ := by
  have hdrop : (w ++ cs).dropWhile p = cs := by
    rw [List.dropWhile_append_of_pos hw]
    cases cs with
    | nil => rfl
    | cons c cs => simp [hcs c (by simp)]
  simp only [skipWhile, hdrop, takeWhile_append hw hcs]

theorem symbol?_of_isWordChar {c : Char} (h : isWordChar c = true) (e : Bool) :
    symbol? c e = none := by
  unfold symbol?
  split <;> first | rfl | (revert h; decide)

theorem read_number {w cs : List Char} {pos : Nat} (hne : w ≠ []) (hw : ∀ c ∈ w, c.isDigit = true)
    (hcs : ∀ c ∈ cs.head?, c.isDigit = false) :
    read ⟨w ++ cs, pos⟩ =
      (.ok ⟨.number, String.ofList w, pos⟩, ⟨cs, pos + Text.byteLength w⟩) := by
  cases w with
  | nil => exact absurd rfl hne
  | cons c w =>
    have hc : c.isDigit = true := hw c (by simp)
    have htake := takeWhile_append hw hcs
    have hskip := skipWhile_append pos hw hcs
    simp only [List.cons_append] at htake hskip ⊢
    simp [read, symbol?_of_isWordChar (isWordChar_of_isDigit hc), hc, htake, hskip]

theorem read_word {w cs : List Char} {pos : Nat} (hne : w ≠ [])
    (hw : ∀ c ∈ w, isWordChar c = true) (hd : ∀ c ∈ w.head?, c.isDigit = false)
    (hcs : ∀ c ∈ cs.head?, isWordChar c = false) :
    read ⟨w ++ cs, pos⟩ =
      (.ok (wordToken (String.ofList w) pos), ⟨cs, pos + Text.byteLength w⟩) := by
  cases w with
  | nil => exact absurd rfl hne
  | cons c w =>
    have hc : isWordChar c = true := hw c (by simp)
    have hd : c.isDigit = false := hd c (by simp)
    have htake := takeWhile_append hw hcs
    have hskip := skipWhile_append pos hw hcs
    simp only [List.cons_append] at htake hskip ⊢
    simp [read, symbol?_of_isWordChar hc, hc, hd, htake, hskip]

theorem read_keyword {k : TokenKind} {word : String} {cs : List Char} {pos : Nat}
    (hk : TokenKind.keyword? word = some k) (hcs : k.Stops cs) :
    read ⟨word.toList ++ cs, pos⟩ =
      (.ok ⟨k, "", pos⟩, ⟨cs, pos + Text.byteLength word.toList⟩) := by
  have htoken : wordToken word pos = ⟨k, "", pos⟩ := by simp [wordToken, hk]
  have hstop : ∀ c ∈ cs.head?, isWordChar c = false := fun c hc => by
    rw [← TokenKind.absorbs_of_isWord (TokenKind.isWord_of_keyword? hk)]
    exact hcs c hc
  obtain ⟨c, w, hw, hd⟩ : ∃ c w, word.toList = c :: w ∧ c.isDigit = false := by
    rcases TokenKind.keyword?_cases hk with rfl | rfl | rfl <;> exact ⟨_, _, rfl, by decide⟩
  have hall : word.toList.all isWordChar = true := by
    rcases TokenKind.keyword?_cases hk with rfl | rfl | rfl <;> decide
  rw [read_word (by simp [hw]) (List.all_eq_true.1 hall) (by simpa [hw] using hd) hstop,
    String.ofList_toList, htoken]

/-- The table of symbols holds every kind with one spelling that is no word. -/
theorem symbol?_eq {k : TokenKind} {symbol : String} {cs : List Char}
    (hs : k.symbol? = some symbol) (hk : k.isWord = false) (hcs : k.Stops cs) :
    ∃ c w, symbol.toList = c :: w ∧ Text.byteLength (c :: w) = (c :: w).length ∧
      symbol? c ((w ++ cs).head? == some '=') = some (k, (c :: w).length) := by
  have hangle : k.isAngle = true → (cs.head? == some '=') = false := by
    intro hk
    cases cs with
    | nil => rfl
    | cons c cs =>
      have := hcs c (by simp)
      simp only [TokenKind.absorbs, hk, Bool.or_eq_false_iff, Bool.true_and] at this
      simpa using this.2
  cases k with
  | number | identifier | endOfInput => simp [TokenKind.symbol?] at hs
  | not => cases hk
  | leftParen | rightParen => cases hs; exact ⟨_, _, rfl, rfl, rfl⟩
  | operator o =>
    cases o with
    | connective c => cases hk
    | arithmetic a => cases a <;> cases hs <;> exact ⟨_, _, rfl, rfl, rfl⟩
    | comparison c =>
      cases c with
      | greater | lesser =>
        cases hs
        refine ⟨_, _, rfl, rfl, ?_⟩
        rw [List.nil_append, hangle rfl]
        rfl
      | greaterEqual | lesserEqual | equal | notEqual => cases hs; exact ⟨_, _, rfl, rfl, rfl⟩

theorem keyword?_of_symbol? {k : TokenKind} {symbol : String} (hs : k.symbol? = some symbol)
    (hk : k.isWord = true) : TokenKind.keyword? symbol = some k := by
  cases k with
  | number | identifier | endOfInput => simp [TokenKind.symbol?] at hs
  | leftParen | rightParen => cases hk
  | not => cases hs; rfl
  | operator o =>
    cases o with
    | connective c => cases c <;> cases hs <;> rfl
    | arithmetic | comparison => cases hk

theorem read_symbol {k : TokenKind} {symbol : String} {cs : List Char} {pos : Nat}
    (hs : k.symbol? = some symbol) (hcs : k.Stops cs) :
    read ⟨symbol.toList ++ cs, pos⟩ =
      (.ok ⟨k, "", pos⟩, ⟨cs, pos + Text.byteLength symbol.toList⟩) := by
  cases hk : k.isWord with
  | true => exact read_keyword (keyword?_of_symbol? hs hk) hcs
  | false =>
    obtain ⟨c, w, hw, hlen, hsym⟩ := symbol?_eq hs hk hcs
    rw [hw, hlen]
    simp only [read, List.cons_append, hsym]
    simp

/-- A lexeme is read as its token wherever the text behind it does not go on with it. -/
theorem read_lexeme {t : Token} {cs : List Char} (h : t.WellFormed) (hcs : t.kind.Stops cs) :
    read ⟨t.lexeme ++ cs, t.pos⟩ = (.ok t, ⟨cs, t.pos + Text.byteLength t.lexeme⟩) := by
  cases hs : t.kind.symbol? with
  | none =>
    rw [lexeme_of_text hs]
    obtain ⟨k, text, pos⟩ := t
    cases k with
    | leftParen | rightParen | not | operator => simp [TokenKind.symbol?] at hs
    | endOfInput => simp [Token.WellFormed] at h
    | number =>
      obtain ⟨hne, hdigits⟩ := h
      have hstop : ∀ c ∈ cs.head?, c.isDigit = false := fun c hc => by
        rw [← TokenKind.absorbs_number]
        exact hcs c hc
      rw [read_number (by simpa using hne) hdigits hstop, String.ofList_toList]
    | identifier =>
      obtain ⟨hne, hword, hdigit, hreserved⟩ := h
      have hstop : ∀ c ∈ cs.head?, isWordChar c = false := fun c hc => by
        rw [← TokenKind.absorbs_of_isWord (k := .identifier) rfl]
        exact hcs c hc
      rw [read_word (by simpa using hne) hword (by simpa using hdigit) hstop,
        String.ofList_toList, wordToken, TokenKind.keyword?_eq_none.2 hreserved]
  | some symbol =>
    rw [lexeme_of_symbol hs, h.eq_of_symbol hs]
    exact read_symbol hs hcs

theorem read_invalid {c : Char} {cs : List Char} (h : Invalid c cs) (pos : Nat) :
    read ⟨c :: cs, pos⟩ = (.error (.unexpectedCharacter c pos), ⟨cs, pos + c.utf8Size⟩) := by
  have hsym : symbol? c (cs.head? == some '=') = none := by
    rcases h with ⟨hc, hne⟩ | ⟨-, -, hc⟩
    · have : (cs.head? == some '=') = false := by simpa using hne
      rw [this]
      rcases hc with rfl | rfl <;> rfl
    · unfold symbol?
      split <;> simp_all
  have hword : isWordChar c = false := by
    rcases h with ⟨rfl | rfl, -⟩ | ⟨-, hw, -⟩
    · decide
    · decide
    · exact hw
  simp [read, hsym, hword, isDigit_eq_false_of_isWordChar hword]

end Scanner

/-! ## What a text begins with -/

/-- A lexeme at the head of the text, and the text behind it. -/
def StartsWith (cs : List Char) (pos : Nat) (t : Token) (rest : List Char) : Prop :=
  cs = t.lexeme ++ rest ∧ t.pos = pos ∧ t.WellFormed ∧ t.kind.Stops rest

theorem startsWith_symbol {k : TokenKind} {symbol : String} (hs : k.symbol? = some symbol)
    (hk : k.isWord = false) {rest : List Char}
    (hangle : k.isAngle = true → rest.head? ≠ some '=') (pos : Nat) :
    StartsWith (symbol.toList ++ rest) pos ⟨k, "", pos⟩ rest := by
  refine ⟨by rw [lexeme_of_symbol (t := ⟨k, "", pos⟩) hs], rfl, wellFormed_of_symbol hs pos, ?_⟩
  intro c hc
  have hnum : k ≠ .number := by rintro rfl; cases hs
  cases ha : k.isAngle with
  | false => simp [TokenKind.absorbs, hnum, hk, ha]
  | true =>
    have hne : c ≠ '=' := by rintro rfl; exact hangle ha hc
    simp [TokenKind.absorbs, hnum, hk, hne]

theorem head?_dropWhile {p : Char → Bool} (cs : List Char) :
    ∀ c ∈ (cs.dropWhile p).head?, p c = false := by
  intro c hc
  have h := List.head?_dropWhile_not p cs
  rw [Option.mem_def.1 hc] at h
  exact h

theorem startsWith_number {c : Char} (cs : List Char) (pos : Nat) (hc : c.isDigit = true) :
    ∃ t rest, StartsWith (c :: cs) pos t rest := by
  have hstop := head?_dropWhile (p := Char.isDigit) (c :: cs)
  refine ⟨⟨.number, String.ofList ((c :: cs).takeWhile Char.isDigit), pos⟩,
    (c :: cs).dropWhile Char.isDigit, ?_, rfl, ⟨?_, ?_⟩, fun d hd => ?_⟩
  · rw [lexeme_of_text rfl, String.toList_ofList, List.takeWhile_append_dropWhile]
  · simp [hc]
  · simpa using List.all_eq_true.1 (List.all_takeWhile (p := Char.isDigit) (l := c :: cs))
  · rw [TokenKind.absorbs_number]
    exact hstop d hd

theorem startsWith_word {c : Char} (cs : List Char) (pos : Nat) (hc : isWordChar c = true)
    (hd : c.isDigit = false) : ∃ t rest, StartsWith (c :: cs) pos t rest := by
  have hstop := head?_dropWhile (p := isWordChar) (c :: cs)
  have hall := List.all_eq_true.1 (List.all_takeWhile (p := isWordChar) (l := c :: cs))
  have happend := List.takeWhile_append_dropWhile (p := isWordChar) (l := c :: cs)
  refine ⟨Scanner.wordToken (String.ofList ((c :: cs).takeWhile isWordChar)) pos,
    (c :: cs).dropWhile isWordChar, ?_⟩
  unfold Scanner.wordToken
  split
  · next k hk =>
    have hs := TokenKind.symbol?_of_keyword? hk
    refine ⟨?_, rfl, wellFormed_of_symbol hs pos, fun d hd => ?_⟩
    · rw [lexeme_of_symbol (t := ⟨k, "", pos⟩) hs, String.toList_ofList, happend]
    · rw [TokenKind.absorbs_of_isWord (TokenKind.isWord_of_keyword? hk)]
      exact hstop d hd
  · next hk =>
    refine ⟨?_, rfl, ⟨?_, ?_, ?_, TokenKind.keyword?_eq_none.1 hk⟩, fun d hd => ?_⟩
    · rw [lexeme_of_text rfl, String.toList_ofList, happend]
    · simp [hc]
    · simpa using hall
    · simp [hc, hd]
    · rw [TokenKind.absorbs_of_isWord rfl]
      exact hstop d hd

theorem startsWith_or_invalid_symbol {c : Char} (cs : List Char) (pos : Nat)
    (hc : c ∈ ['(', ')', '+', '-', '*', '>', '<', '=', '!']) :
    (∃ t rest, StartsWith (c :: cs) pos t rest) ∨ Invalid c cs := by
  have plain : ∀ {k : TokenKind} {symbol : String} (rest : List Char), k.symbol? = some symbol →
      k.isWord = false → k.isAngle = false →
      ∃ t rest', StartsWith (symbol.toList ++ rest) pos t rest' :=
    fun rest hs hk ha => ⟨_, rest, startsWith_symbol hs hk (by simp [ha]) pos⟩
  simp only [List.mem_cons, List.not_mem_nil, or_false] at hc
  rcases hc with rfl | rfl | rfl | rfl | rfl | hc
  · exact .inl (plain (k := .leftParen) cs rfl rfl rfl)
  · exact .inl (plain (k := .rightParen) cs rfl rfl rfl)
  · exact .inl (plain (k := .operator (.arithmetic .plus)) cs rfl rfl rfl)
  · exact .inl (plain (k := .operator (.arithmetic .minus)) cs rfl rfl rfl)
  · exact .inl (plain (k := .operator (.arithmetic .times)) cs rfl rfl rfl)
  -- The other four are changed by an equals sign behind them.
  by_cases he : cs.head? = some '='
  · obtain ⟨rest, rfl⟩ : ∃ rest, cs = '=' :: rest := by cases cs <;> simp_all
    rcases hc with rfl | rfl | rfl | rfl
    · exact .inl (plain (k := .operator (.comparison .greaterEqual)) rest rfl rfl rfl)
    · exact .inl (plain (k := .operator (.comparison .lesserEqual)) rest rfl rfl rfl)
    · exact .inl (plain (k := .operator (.comparison .equal)) rest rfl rfl rfl)
    · exact .inl (plain (k := .operator (.comparison .notEqual)) rest rfl rfl rfl)
  · rcases hc with rfl | rfl | rfl | rfl
    · exact .inl ⟨_, cs, startsWith_symbol (k := .operator (.comparison .greater)) rfl rfl
        (fun _ => he) pos⟩
    · exact .inl ⟨_, cs, startsWith_symbol (k := .operator (.comparison .lesser)) rfl rfl
        (fun _ => he) pos⟩
    · exact .inr (.inl ⟨.inl rfl, he⟩)
    · exact .inr (.inl ⟨.inr rfl, he⟩)

/-- A text that does not begin with a space begins with a lexeme, or with a character
that begins none. -/
theorem startsWith_or_invalid (c : Char) (cs : List Char) (pos : Nat) (hc : isSpace c = false) :
    (∃ t rest, StartsWith (c :: cs) pos t rest) ∨ Invalid c cs := by
  by_cases hd : c.isDigit = true
  · exact .inl (startsWith_number cs pos hd)
  by_cases hw : isWordChar c = true
  · exact .inl (startsWith_word cs pos hw (by simpa using hd))
  by_cases hmem : c ∈ ['(', ')', '+', '-', '*', '>', '<', '=', '!']
  · exact startsWith_or_invalid_symbol cs pos hmem
  · exact .inr (.inr ⟨hc, by simpa using hw, hmem⟩)

/-! ## Whole texts -/

/-- From byte offset `pos` on, behind a lexeme of kind `before` if there is one, the text
is the lexemes of the tokens, each with a gap before it, and a last gap. -/
inductive Spells : Option TokenKind → Nat → List Token → List Char → Prop
  | gap {before pos gap} : (∀ c ∈ gap, isSpace c = true) → Spells before pos [] gap
  | token {before pos gap t ts cs} : (∀ c ∈ gap, isSpace c = true) →
      (∀ k ∈ before, k.clashes t.kind = true → gap ≠ []) → t.WellFormed →
      t.pos = pos + Text.byteLength gap →
      Spells (some t.kind) (t.pos + Text.byteLength t.lexeme) ts cs →
      Spells before pos (t :: ts) (gap ++ (t.lexeme ++ cs))

/-- The end of a text that stops at the byte offset. -/
def endAt (pos : Nat) : Token := ⟨.endOfInput, "", pos⟩

theorem Spells.stops {k : TokenKind} {pos : Nat} {ts : List Token} {cs : List Char}
    (h : Spells (some k) pos ts cs) : k.Stops cs := by
  intro c hc
  cases h with
  | gap hgap => exact absorbs_of_isSpace (hgap c (List.mem_of_mem_head? hc))
  | @token _ _ gap t _ _ hgap hclash hwf _ _ =>
    cases gap with
    | cons d gap =>
      simp only [List.cons_append, List.head?_cons, Option.mem_def, Option.some.injEq] at hc
      exact hc ▸ absorbs_of_isSpace (hgap d (by simp))
    | nil =>
      obtain ⟨d, ds, hlex, hbegins⟩ := hwf.begins
      simp only [hlex, List.nil_append, List.cons_append, List.head?_cons, Option.mem_def,
        Option.some.injEq] at hc
      subst hc
      rw [absorbs_eq_clashes hbegins]
      simpa using hclash k rfl

namespace Scanner

theorem next_gap {gap : List Char} (hgap : ∀ c ∈ gap, isSpace c = true) (pos : Nat) :
    next ⟨gap, pos⟩ =
      (.ok (endAt (pos + Text.byteLength gap)), ⟨[], pos + Text.byteLength gap⟩) := by
  have hskip : skipWhile isSpace ⟨gap ++ [], pos⟩ = ⟨[], pos + Text.byteLength gap⟩ :=
    skipWhile_append pos hgap (by simp)
  rw [List.append_nil] at hskip
  rw [next, hskip]
  rfl

theorem next_lexeme {gap rest : List Char} {t : Token} {pos : Nat}
    (hgap : ∀ c ∈ gap, isSpace c = true) (hwf : t.WellFormed)
    (hpos : t.pos = pos + Text.byteLength gap) (hrest : t.kind.Stops rest) :
    next ⟨gap ++ (t.lexeme ++ rest), pos⟩ =
      (.ok t, ⟨rest, t.pos + Text.byteLength t.lexeme⟩) := by
  obtain ⟨c, cs, hlex, hbegins⟩ := hwf.begins
  have hhead : ∀ d ∈ (t.lexeme ++ rest).head?, isSpace d = false := by
    simpa [hlex] using hbegins.space
  rw [next, skipWhile_append pos hgap hhead, ← hpos]
  exact read_lexeme hwf hrest

theorem next_invalid {gap rest : List Char} {c : Char} {pos : Nat}
    (hgap : ∀ c ∈ gap, isSpace c = true) (hc : isSpace c = false) (h : Invalid c rest) :
    next ⟨gap ++ c :: rest, pos⟩ =
      (.error (.unexpectedCharacter c (pos + Text.byteLength gap)),
        ⟨rest, pos + Text.byteLength gap + c.utf8Size⟩) := by
  rw [next, skipWhile_append pos hgap (by simpa using hc), read_invalid h]

/-- What a call can answer, and where the scanner stands then. -/
inductive NextR : Scanner → Except LexError Token × Scanner → Prop
  | finish {gap pos} : (∀ c ∈ gap, isSpace c = true) →
      NextR ⟨gap, pos⟩
        (.ok (endAt (pos + Text.byteLength gap)), ⟨[], pos + Text.byteLength gap⟩)
  | lexeme {gap t rest pos} : (∀ c ∈ gap, isSpace c = true) → t.WellFormed →
      t.kind.Stops rest → t.pos = pos + Text.byteLength gap →
      NextR ⟨gap ++ (t.lexeme ++ rest), pos⟩ (.ok t, ⟨rest, t.pos + Text.byteLength t.lexeme⟩)
  | invalid {gap c rest pos} : (∀ c ∈ gap, isSpace c = true) → isSpace c = false →
      Invalid c rest →
      NextR ⟨gap ++ c :: rest, pos⟩
        (.error (.unexpectedCharacter c (pos + Text.byteLength gap)),
          ⟨rest, pos + Text.byteLength gap + c.utf8Size⟩)

/-- A call does one of these. -/
theorem nextR (s : Scanner) : NextR s s.next := by
  obtain ⟨cs, pos⟩ := s
  have hgap : ∀ c ∈ cs.takeWhile isSpace, isSpace c = true := List.all_eq_true.1 List.all_takeWhile
  have hbody := head?_dropWhile (p := isSpace) cs
  have hcs : cs.takeWhile isSpace ++ cs.dropWhile isSpace = cs := List.takeWhile_append_dropWhile
  generalize cs.takeWhile isSpace = gap at hgap hcs
  generalize cs.dropWhile isSpace = body at hbody hcs
  subst hcs
  cases body with
  | nil =>
    rw [List.append_nil, next_gap hgap]
    exact .finish hgap
  | cons c cs =>
    have hc : isSpace c = false := hbody c (by simp)
    rcases startsWith_or_invalid c cs (pos + Text.byteLength gap) hc with
      ⟨t, rest, hsplit, hpos, hwf, hstop⟩ | hinv
    · rw [hsplit, next_lexeme hgap hwf hpos hstop]
      exact .lexeme hgap hwf hstop hpos
    · rw [next_invalid hgap hc hinv]
      exact .invalid hgap hc hinv

theorem tokens_of_spells {before : Option TokenKind} {pos : Nat} {ts : List Token}
    {cs : List Char} (h : Spells before pos ts cs) :
    tokens ⟨cs, pos⟩ = .ok (ts ++ [endAt (pos + Text.byteLength cs)]) := by
  induction h with
  | gap hgap =>
    rw [tokens_eq, next_gap hgap]
    simp [endAt]
  | @token _ _ gap t ts cs hgap _ hwf hpos hs ih =>
    rw [tokens_eq, next_lexeme hgap hwf hpos hs.stops]
    simp only [hwf.kind_ne, if_false, ih, Except.map, Except.ok.injEq, List.cons_append,
      List.cons.injEq, true_and]
    rw [hpos]
    simp [Nat.add_assoc]

/-- What a text spells ahead of the first character that begins no lexeme. -/
structure SpelledBefore (before : Option TokenKind) (s : Scanner) (text : List Char) (c : Char)
    (after : List Char) : Prop where
  rest_eq : s.rest = text ++ c :: after
  spells : ∃ ts, Spells before s.pos ts text
  invalid : Invalid c after
  tokens_eq : s.tokens = .error (.unexpectedCharacter c (s.pos + Text.byteLength text))

/-- A text is spelled as a whole, or up to a character that begins no lexeme. -/
theorem spells_or_invalid (s : Scanner) (before : Option TokenKind)
    (hbefore : ∀ k ∈ before, k.Stops s.rest) :
    (∃ ts, Spells before s.pos ts s.rest) ∨
      ∃ text c after, SpelledBefore before s text c after := by
  induction hlen : s.rest.length using Nat.strongRecOn generalizing s before with
  | _ len ih =>
  subst hlen
  have hr := s.nextR
  generalize hnext : s.next = r at hr
  cases hr with
  | finish hgap => exact .inl ⟨[], .gap hgap⟩
  | @lexeme gap t rest pos hgap hwf hstop hpos =>
    obtain ⟨d, ds, hlex, hbegins⟩ := hwf.begins
    have hclash : ∀ k ∈ before, k.clashes t.kind = true → gap ≠ [] := by
      rintro k hk hcl rfl
      have := hbefore k hk d (by simp [hlex])
      rw [absorbs_eq_clashes hbegins, hcl] at this
      cases this
    rcases ih rest.length (by simp [hlex]; omega) ⟨rest, t.pos + Text.byteLength t.lexeme⟩
      (some t.kind) (by simpa using hstop) rfl with ⟨ts, hts⟩ | ⟨text, e, after, hsp⟩
    · exact .inl ⟨t :: ts, .token hgap hclash hwf hpos hts⟩
    · obtain ⟨hrest, ⟨ts, hts⟩, hinv, htok⟩ := hsp
      simp only at hrest
      refine .inr ⟨gap ++ (t.lexeme ++ text), e, after, ?_, ?_, hinv, ?_⟩
      · simp [hrest]
      · exact ⟨t :: ts, .token hgap hclash hwf hpos hts⟩
      · rw [tokens_eq, hnext]
        simp only [hwf.kind_ne, if_false, htok, Except.map]
        simp [hpos, Nat.add_assoc]
  | @invalid gap c after pos hgap hc hinv =>
    refine .inr ⟨gap, c, after, rfl, ⟨[], .gap hgap⟩, hinv, ?_⟩
    rw [tokens_eq, hnext]

theorem spells_of_tokens {pos : Nat} {cs : List Char} {us : List Token}
    (h : tokens ⟨cs, pos⟩ = .ok us) :
    ∃ ts, us = ts ++ [endAt (pos + Text.byteLength cs)] ∧ Spells none pos ts cs := by
  rcases spells_or_invalid ⟨cs, pos⟩ none (by simp) with ⟨ts, hts⟩ | ⟨text, c, after, hsp⟩
  · rw [tokens_of_spells hts] at h
    cases h
    exact ⟨ts, rfl, hts⟩
  · rw [hsp.tokens_eq] at h
    cases h

end Scanner

/-- **Scanning is exact.** The tokens of a text are `ts` and the end just when the text
spells `ts`. A text that spells nothing is refused at a character that begins no lexeme,
and what stands before that character has tokens. -/
theorem tokenize_exact (s : String) :
    (∀ ts, tokenize s = .ok (ts ++ [endAt s.utf8ByteSize]) ↔ Spells none 0 ts s.toList) ∧
      ((∃ ts, Spells none 0 ts s.toList) ∨
        ∃ text c after, s.toList = text ++ c :: after ∧
          tokenize s = .error (.unexpectedCharacter c (Text.byteLength text)) ∧
          (∃ us, tokenize (String.ofList text) = .ok us) ∧ Invalid c after) := by
  have hspelled : ∀ {ts cs}, Spells none 0 ts cs →
      tokenize (String.ofList cs) = .ok (ts ++ [endAt (Text.byteLength cs)]) := by
    intro ts cs h
    have htok := Scanner.tokens_of_spells h
    rw [Nat.zero_add] at htok
    rw [tokenize, Scanner.ofString, String.toList_ofList, htok]
  have hcases := Scanner.spells_or_invalid (.ofString s) none (by simp)
  simp only [Scanner.ofString] at hcases
  refine ⟨fun ts => ⟨fun h => ?_, fun h => ?_⟩, ?_⟩
  · rcases hcases with ⟨us, hus⟩ | ⟨text, c, after, hsp⟩
    · have htok := hspelled hus
      rw [String.ofList_toList, h, Text.byteLength_toList] at htok
      have heq : ts = us := List.append_cancel_right (Except.ok.inj htok)
      exact heq ▸ hus
    · have herr := hsp.tokens_eq
      rw [← Scanner.ofString, ← tokenize, h] at herr
      cases herr
  · have htok := hspelled h
    rwa [String.ofList_toList, Text.byteLength_toList] at htok
  · rcases hcases with hus | ⟨text, c, after, hsp⟩
    · exact .inl hus
    · obtain ⟨ts, hts⟩ := hsp.spells
      refine .inr ⟨text, c, after, hsp.rest_eq, ?_, ⟨_, hspelled hts⟩, hsp.invalid⟩
      have herr := hsp.tokens_eq
      rwa [Nat.zero_add] at herr

end Condition
