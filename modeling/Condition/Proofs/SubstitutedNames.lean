/-
Writing a number where a name stands.

With a number written for a name, between two spaces, a text has the tokens it had, the number in
the place of the name and the others further on (`Spells.overwritten`): what stands before a space
or behind one goes on with nothing. To the parser a number and a name are the same, and to the
evaluator they are when the name has that number as its value. Main statement:
`evaluateValue_substitute`.
-/
import Condition.Proofs.AlikeTokens
import Condition.Proofs.NodeAnswers
import Condition.Proofs.Numerals

namespace Condition

/-- The number between two spaces, as it is written for a name. -/
def padded (n : Int64) : List Char := ' ' :: ((Integer.render n).toList ++ [' '])

/-- The text with the number in the place of the token, if the token is the name. The token is one
of the text, so that both its ends are places there. -/
def Token.overwrite (name : String) (n : Int64) (t : Token) (cs : List Char) : List Char :=
  if t.kind = .identifier ∧ t.text = name then
    (Text.splice? t.pos (Text.byteLength name.toList) (padded n) cs).getD cs
  else cs

/-- The expression with the number, between two spaces, for every identifier that is the name. A
text that has no tokens is left as it is. -/
def substitute (name : String) (n : Int64) (expression : String) : String :=
  match tokenize expression with
  -- From the last token on, so that the places of those before it stay right.
  | .ok ts => String.ofList (ts.foldr (Token.overwrite name n) expression.toList)
  | .error _ => expression

/-! ## The tokens afterwards -/

/-- A token and the one that stands for it afterwards. -/
inductive Substituted (name : String) (n : Int64) (t u : Token) : Prop
  | kept : t.bare = u.bare → Substituted name n t u
  | written : t.kind = .identifier → t.text = name → u.kind = .number →
      u.text = Integer.render n → Substituted name n t u

theorem keepsShape_substituted (name : String) (n : Int64) :
    KeepsShape (Substituted name n) := by
  intro t u h
  cases h with
  | kept h => exact .inl (Token.bare_eq_iff.1 h).1
  | written hk _ hk' => exact .inr ⟨by rw [hk]; rfl, by rw [hk']; rfl⟩

theorem wellFormed_render {n : Int64} (hn : 0 ≤ n) (pos : Nat) :
    Token.WellFormed ⟨.number, Integer.render n, pos⟩ := by
  obtain ⟨sign, m, htext, hsign⟩ := render_cases n
  have hpos : 0 ≤ n.toInt := Int64.le_iff_toInt_le.1 hn
  have htext : (Integer.render n).toList = Nat.toDigits 10 m := by
    rcases hsign with ⟨rfl, -⟩ | ⟨-, hm⟩
    · exact htext
    · -- A minus sign is left for no number but 0, which has none.
      obtain rfl : m = 0 := by omega
      obtain rfl : n = 0 := Int64.toInt_inj.1 (by simpa using hm)
      decide
  simp only [Token.WellFormed]
  refine ⟨fun he => ?_, ?_⟩
  · rw [he] at htext
    exact Nat.toDigits_ne_nil htext.symm
  · rw [htext]
    exact isDigit_of_mem_numeral

/-- The text spells a token for each of `ts`, wherever it stands: behind a lexeme of kind
`before`, or behind another one and a gap. -/
def Respells (name : String) (n : Int64) (before : Option TokenKind) (ts : List Token)
    (cs : List Char) : Prop :=
  ∀ before' pos gap, (∀ c ∈ gap, isSpace c = true) → before' = before ∨ gap ≠ [] →
    ∃ us, Spells before' pos us (gap ++ cs) ∧ List.Forall₂ (Substituted name n) ts us

section

variable {name : String} {n : Int64} {before : Option TokenKind} {t : Token} {ts : List Token}
  {gap cs : List Char}

theorem Respells.nil (hgap : ∀ c ∈ gap, isSpace c = true) : Respells name n before [] gap :=
  fun _ _ _ hgap' _ => ⟨[], .gap (List.forall_mem_append.2 ⟨hgap', hgap⟩), .nil⟩

/-- A number in the place of a name stands behind one space and before another. -/
theorem Respells.written (hn : 0 ≤ n) (hgap : ∀ c ∈ gap, isSpace c = true)
    (hk : t.kind = .identifier) (ht : t.text = name) (h : Respells name n (some t.kind) ts cs) :
    Respells name n before (t :: ts) (gap ++ (padded n ++ cs)) := by
  intro before' pos gap' hgap' _
  let u : Token := ⟨.number, Integer.render n, pos + Text.byteLength (gap' ++ gap ++ [' '])⟩
  have hspace : ∀ c ∈ [' '], isSpace c = true := List.forall_mem_singleton.2 rfl
  have hgaps : ∀ c ∈ gap' ++ gap ++ [' '], isSpace c = true :=
    List.forall_mem_append.2 ⟨List.forall_mem_append.2 ⟨hgap', hgap⟩, hspace⟩
  obtain ⟨us, hus, hrest⟩ :=
    h (some u.kind) (u.pos + Text.byteLength u.lexeme) [' '] hspace (.inr (by simp))
  have hspelled : Spells before' pos (u :: us)
      (gap' ++ gap ++ [' '] ++ (u.lexeme ++ ([' '] ++ cs))) :=
    .token hgaps (by simp) (wellFormed_render hn _) rfl hus
  have hlexeme : u.lexeme = (Integer.render n).toList := rfl
  refine ⟨u :: us, ?_, .cons (.written hk ht rfl rfl) hrest⟩
  simpa [padded, hlexeme] using hspelled

/-- Any other token stays, with the gap that it needs before it. -/
theorem Respells.kept (hgap : ∀ c ∈ gap, isSpace c = true)
    (hclash : ∀ k ∈ before, k.clashes t.kind = true → gap ≠ []) (hwf : t.WellFormed)
    (h : Respells name n (some t.kind) ts cs) :
    Respells name n before (t :: ts) (gap ++ (t.lexeme ++ cs)) := by
  intro before' pos gap' hgap' hsep
  let u : Token := { t with pos := pos + Text.byteLength (gap' ++ gap) }
  have hlexeme : u.lexeme = t.lexeme := rfl
  obtain ⟨us, hus, hrest⟩ :=
    h (some u.kind) (u.pos + Text.byteLength u.lexeme) [] (by simp) (.inl rfl)
  have hclash' : ∀ k ∈ before', k.clashes t.kind = true → gap' ++ gap ≠ [] := by
    intro k hk hcl hnil
    obtain ⟨rfl, rfl⟩ := List.append_eq_nil_iff.1 hnil
    rcases hsep with rfl | hne
    · exact hclash k hk hcl rfl
    · exact hne rfl
  have hspelled : Spells before' pos (u :: us) (gap' ++ gap ++ (u.lexeme ++ cs)) :=
    .token (List.forall_mem_append.2 ⟨hgap', hgap⟩) hclash' hwf rfl hus
  refine ⟨u :: us, ?_, .cons (.kept rfl) hrest⟩
  simpa [hlexeme] using hspelled

theorem overwrite_name {front : List Char} (hfront : Text.byteLength front = t.pos)
    (hk : t.kind = .identifier) (ht : t.text = name) (cs : List Char) :
    t.overwrite name n (front ++ (t.lexeme ++ cs)) = front ++ (padded n ++ cs) := by
  have hlexeme : t.lexeme = name.toList := by
    rw [lexeme_of_text (by rw [hk]; rfl), ht]
  rw [Token.overwrite, if_pos ⟨hk, ht⟩, hlexeme, ← hfront, Text.splice?_append, Option.getD_some]

end

/-- Overwriting leaves the text before the tokens alone, and what it makes of the text behind
spells a token for each one that it spelled. -/
theorem Spells.overwritten (name : String) {n : Int64} (hn : 0 ≤ n) {before : Option TokenKind}
    {pos : Nat} {ts : List Token} {cs front : List Char} (h : Spells before pos ts cs)
    (hfront : Text.byteLength front = pos) :
    ∃ cs', ts.foldr (Token.overwrite name n) (front ++ cs) = front ++ cs' ∧
      Respells name n before ts cs' := by
  induction h generalizing front with
  | @gap _ _ gap hgap => exact ⟨gap, rfl, .nil hgap⟩
  | @token before pos gap t ts cs hgap hclash hwf hpos _ ih =>
    have hplace : Text.byteLength (front ++ gap) = t.pos := by
      rw [Text.byteLength_append, hfront, hpos]
    have hbehind : Text.byteLength (front ++ gap ++ t.lexeme) =
        t.pos + Text.byteLength t.lexeme := by
      rw [Text.byteLength_append, hplace]
    -- The tokens behind are overwritten first; to them, this one is text in front.
    obtain ⟨cs', hcs', hrest⟩ := ih hbehind
    simp only [List.append_assoc] at hcs'
    rw [List.foldr_cons, hcs', ← List.append_assoc front]
    by_cases hname : t.kind = .identifier ∧ t.text = name
    · refine ⟨gap ++ (padded n ++ cs'), ?_, .written hn hgap hname.1 hname.2 hrest⟩
      rw [overwrite_name hplace hname.1 hname.2, List.append_assoc]
    · refine ⟨gap ++ (t.lexeme ++ cs'), ?_, .kept hgap hclash hwf hrest⟩
      rw [Token.overwrite, if_neg hname, List.append_assoc]

/-- The expression has a token afterwards for each one it had. -/
theorem tokenize_substitute (name : String) {n : Int64} (hn : 0 ≤ n) {expression : String}
    {ts : List Token} (h : tokenize expression = .ok ts) :
    ∃ us, tokenize (substitute name n expression) = .ok us ∧
      List.Forall₂ (Substituted name n) ts us := by
  obtain ⟨ts, rfl, hspells⟩ := Scanner.spells_of_tokens h
  obtain ⟨cs, hcs, hspelled⟩ := hspells.overwritten name hn Text.byteLength_nil
  rw [List.nil_append, List.nil_append] at hcs
  obtain ⟨us, hus, hrest⟩ := hspelled none 0 [] (by simp) (.inl rfl)
  have htext : substitute name n expression = String.ofList cs := by
    rw [substitute, h]
    exact congrArg String.ofList (by simpa [endAt, Token.overwrite] using hcs)
  have htok := Scanner.tokens_of_spells hus
  rw [List.nil_append] at htok
  refine ⟨us ++ [endAt (0 + Text.byteLength cs)], ?_, ?_⟩
  · rw [htext, tokenize, Scanner.ofString, String.toList_ofList, htok]
  · exact List.rel_append hrest (.cons (.kept rfl) .nil)

/-! ## The outcome afterwards -/

/-- The two outcomes are the same value, the same error of evaluation, or an error of parsing
each. -/
inductive SameOutcome : Outcome → Outcome → Prop
  | value {v} : SameOutcome (.ok v) (.ok v)
  | typeMismatch {k τ v} :
      SameOutcome (.error (.typeMismatch k τ v)) (.error (.typeMismatch k τ v))
  | overflow {k x y} : SameOutcome (.error (.overflow k x y)) (.error (.overflow k x y))
  | invalidNumber {text} :
      SameOutcome (.error (.invalidNumber text)) (.error (.invalidNumber text))
  | parse {e e'} : SameOutcome (.error (.parse e)) (.error (.parse e'))

theorem sameOutcome_evaluate {tree : Node} (h : tree.Regular) (vars : Variables) :
    SameOutcome (tree.evaluate vars) (tree.evaluate vars) := by
  cases he : tree.evaluate vars with
  | ok v => exact .value
  | error e =>
    obtain ⟨x, -, -, hfault⟩ := exists_fault h he
    cases hfault with
    | literal => exact .invalidNumber
    | overflow => exact .overflow
    | mistyped => exact .typeMismatch

theorem step_eq_of_substituted {name : String} {n : Int64} {vars : Variables}
    (hvalue : vars.value name = n) {t u : Token} (h : Substituted name n t u) :
    step vars t = step vars u := by
  cases h with
  | kept h => exact step_eq_of_bare vars h
  | written hk htext hk' htext' =>
    funext left right
    simp only [step, hk, hk', htext, htext', hvalue, Integer.readDecimal?_render]

/-- **To set a name is to write its value.** With a number that is not negative written for a
name, between two spaces, an expression that has tokens has the outcome it has when the name has
that number as its value. An error of parsing may name another place. -/
theorem evaluateValue_substitute {expression name : String} {ts : List Token} {n : Int64}
    {vars : Variables} (htok : tokenize expression = .ok ts) (hn : 0 ≤ n)
    (hvars : vars.get? name = some n ∨ vars.get? name = none ∧ n = 0) :
    SameOutcome (evaluateValue (substitute name n expression) vars)
      (evaluateValue expression vars) := by
  have hvalue : vars.value name = n := by
    rcases hvars with h | ⟨h, rfl⟩ <;> rw [Variables.value, h] <;> rfl
  have hkeeps := keepsShape_substituted name n
  obtain ⟨us, htok', hrelated⟩ := tokenize_substitute name hn htok
  unfold evaluateValue
  cases hparse : parseExpression expression with
  | ok tree =>
    obtain ⟨tree', hparse', htree⟩ := parseExpression_related hkeeps htok htok' hrelated hparse
    rw [hparse']
    show SameOutcome (tree'.evaluate vars) (tree.evaluate vars)
    rw [← htree.evaluate_eq (step_eq_of_substituted hvalue)]
    exact sameOutcome_evaluate (writable_of_parseExpression hparse).regular vars
  | error e =>
    cases hparse' : parseExpression (substitute name n expression) with
    | error e' => exact .parse
    | ok tree' =>
      -- Read backwards, the expression would be read as well.
      obtain ⟨tree, htree, -⟩ :=
        parseExpression_related hkeeps.flip htok' htok hrelated.flip hparse'
      rw [hparse] at htree
      cases htree

/-- The name is more than one byte long. It stands right behind an operator, and again, right
behind a number, in what is left behind the expression. -/
theorem evaluateValue_substitute_beside_number :
    ∃ ts vars, tokenize "2*né<x 3né" = .ok ts ∧ vars.get? "né" = some 7 ∧
      substitute "né" 7 "2*né<x 3né" = "2* 7 <x 3 7 " ∧
      evaluateValue "2*né<x 3né" vars = .ok (.bool true) ∧
      SameOutcome (evaluateValue "2* 7 <x 3 7 " vars) (evaluateValue "2*né<x 3né" vars) := by
  let vars : Variables := .ofList [("né", 7), ("x", 35)]
  have htok : tokenize "2*né<x 3né" =
      .ok [⟨.number, "2", 0⟩, ⟨.operator (.arithmetic .times), "", 1⟩, ⟨.identifier, "né", 2⟩,
        ⟨.operator (.comparison .lesser), "", 5⟩, ⟨.identifier, "x", 6⟩, ⟨.number, "3", 8⟩,
        ⟨.identifier, "né", 9⟩, ⟨.endOfInput, "", 12⟩] := by decide +kernel
  have hvars : vars.get? "né" = some 7 := by decide +kernel
  have htext : substitute "né" 7 "2*né<x 3né" = "2* 7 <x 3 7 " := by decide +kernel
  have hsame := evaluateValue_substitute htok (by decide) (.inl hvars)
  rw [htext] at hsame
  exact ⟨_, vars, htok, hvars, htext, by decide +kernel, hsame⟩

end Condition
