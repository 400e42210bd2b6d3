/-
Writing a tree as text, and reading it back.

The text of a tree is its lexemes with a space between each two (`Node.write`).
Parentheses stand only around operands that would otherwise be torn apart: a binary left
operand that binds less tightly than its operator, and a binary right operand that does
not bind more tightly. They are enough, because the links of the chain that an operand
without them makes all hold at least as tightly as its root (`Chain`). Main statement:
`write_exact`.
-/
import Condition.Proofs.TreeShape
import Mathlib.Data.List.Basic

namespace Condition

/-! ## Trees up to places -/

/-- The token without its place in a text. -/
def Token.bare (t : Token) : Token := { t with pos := 0 }

theorem Token.bare_eq_iff {t u : Token} : t.bare = u.bare ↔ t.kind = u.kind ∧ t.text = u.text := by
  cases t
  cases u
  simp [bare]

/-- The tree with no token's place. -/
def Node.bare : Node → Node
  | leaf t => leaf t.bare
  | unary t l => unary t.bare l.bare
  | rightOnly t r => rightOnly t.bare r.bare
  | binary t l r => binary t.bare l.bare r.bare

/-! ## Writing -/

namespace Node

/-- The power of the operator at the root. -/
def power? : Node → Option Nat
  | binary t _ _ => some t.kind.power
  | leaf _ | unary _ _ | rightOnly _ _ => none

/-- The tokens, in parentheses when they are needed. -/
def enclose (needed : Bool) (ts : List Token) : List Token :=
  if needed then ⟨.leftParen, "", 0⟩ :: ts ++ [⟨.rightParen, "", 0⟩] else ts

/-- The tokens that write the tree. -/
def words : Node → List Token
  | leaf t => [t]
  | unary t l => t :: l.words
  | rightOnly t r => t :: r.words
  | binary t l r =>
    enclose (l.power?.any (· < t.kind.power)) l.words ++
      t :: enclose (r.power?.any (· ≤ t.kind.power)) r.words

/-- The text of the tree. -/
def write (n : Node) : String := " ".intercalate (n.words.map Token.label)

theorem mem_enclose {needed : Bool} {ts : List Token} {t : Token} (h : t ∈ enclose needed ts) :
    t ∈ ts ∨ t = ⟨.leftParen, "", 0⟩ ∨ t = ⟨.rightParen, "", 0⟩ := by
  unfold enclose at h
  split at h
  · simp only [List.cons_append, List.mem_cons, List.mem_append, List.not_mem_nil, or_false] at h
    rcases h with rfl | h | rfl
    · exact .inr (.inl rfl)
    · exact .inl h
    · exact .inr (.inr rfl)
  · exact .inl h

theorem Writable.words_wellFormed {n : Node} (h : n.Writable) : ∀ t ∈ n.words, t.WellFormed := by
  have henclose {needed : Bool} {ts : List Token} (hts : ∀ t ∈ ts, t.WellFormed) :
      ∀ t ∈ enclose needed ts, t.WellFormed := fun t ht => by
    rcases mem_enclose ht with ht | rfl | rfl
    · exact hts t ht
    · exact wellFormed_of_symbol rfl 0
    · exact wellFormed_of_symbol rfl 0
  induction h with
  | leaf hwf => simpa [words] using hwf
  | negation hwf _ _ ih => exact List.forall_mem_cons.2 ⟨hwf, ih⟩
  | binary hwf _ _ _ _ _ ihl ihr =>
    exact List.forall_mem_append.2
      ⟨henclose ihl, List.forall_mem_cons.2 ⟨hwf, henclose ihr⟩⟩

end Node

/-! ## The tokens of written text -/

theorem exists_spells {ws : List Token} (h : ∀ t ∈ ws, t.WellFormed) (before : Option TokenKind)
    (pos : Nat) (gap : List Char) (hgap : ∀ c ∈ gap, isSpace c = true)
    (hsep : before = none ∨ gap ≠ []) :
    ∃ ts, ts.map Token.bare = ws.map Token.bare ∧
      Spells before pos ts (gap ++ [' '].intercalate (ws.map Token.lexeme)) := by
  induction ws generalizing before pos gap with
  | nil => exact ⟨[], rfl, by simpa using Spells.gap hgap⟩
  | cons w ws ih =>
    obtain ⟨hw, hws⟩ := List.forall_mem_cons.1 h
    let t : Token := { w with pos := pos + Text.byteLength gap }
    have hclash : ∀ k ∈ before, k.clashes t.kind = true → gap ≠ [] := by
      rintro k hk -
      exact hsep.resolve_left (by rintro rfl; cases hk)
    have hplace {ts cs} (hts : Spells (some t.kind) (t.pos + Text.byteLength t.lexeme) ts cs) :
        Spells before pos (t :: ts) (gap ++ (w.lexeme ++ cs)) :=
      Spells.token (t := t) hgap hclash hw rfl hts
    cases ws with
    | nil =>
      have hend : Spells (some t.kind) (t.pos + Text.byteLength t.lexeme) [] [] := .gap (by simp)
      refine ⟨[t], rfl, ?_⟩
      simpa using hplace hend
    | cons w' ws =>
      obtain ⟨ts, hbare, hts⟩ := ih hws (some t.kind) (t.pos + Text.byteLength t.lexeme) [' ']
        (List.forall_mem_singleton.2 rfl) (.inr (by simp))
      refine ⟨t :: ts, by rw [List.map_cons, hbare]; rfl, ?_⟩
      simpa [List.intercalate_cons_cons] using hplace hts

theorem tokenize_write {n : Node} (h : n.Writable) :
    ∃ ts last, tokenize n.write = .ok (ts ++ [last]) ∧ last.kind = .endOfInput ∧
      ts.map Token.bare = n.words.map Token.bare := by
  obtain ⟨ts, hbare, hts⟩ := exists_spells h.words_wellFormed none 0 [] (by simp) (.inl rfl)
  have hchars : n.write.toList = [' '].intercalate (n.words.map Token.lexeme) := by
    rw [Node.write, String.toList_intercalate, List.map_map]
    rfl
  rw [List.nil_append, ← hchars] at hts
  exact ⟨ts, _, Scanner.tokens_of_spells hts, rfl, hbare⟩

/-! ## The tree of written text -/

/-- The tokens are a chain for a tree like `n`, and no operator of the chain holds less
tightly than `bound`. -/
def Chain (s : Nonterminal) (ts : List Token) (n : Node) (bound : Nat) : Prop :=
  ∃ o links n', Derives s ts o links ∧ Grouped o links n' ∧ n'.bare = n.bare ∧
    ∀ l ∈ links, bound ≤ l.power

/-- What writes the tree is a chain for it, which holds as tightly as the root. With a
negation in it the chain is a sentence. -/
def Chained (n : Node) : Prop :=
  ∀ (s : Nonterminal) (bound : Nat) {ts : List Token}, s ≠ .operand →
    n.NotFree ∨ s = .sentence → (∀ m ∈ n.power?, bound ≤ m) →
    ts.map Token.bare = n.words.map Token.bare → Chain s ts n bound

theorem Derives.chain {s : Nonterminal} {ts : List Token} {n n' : Node} (hs : s ≠ .operand)
    (h : Derives .operand ts n' []) (hbare : n'.bare = n.bare) (bound : Nat) :
    Chain s ts n bound :=
  ⟨n', [], n', .last hs h, .operand, hbare, by simp⟩

theorem map_bare_enclosed {ts ws : List Token}
    (h : ts.map Token.bare = (Node.enclose true ws).map Token.bare) :
    ∃ opening us closing, ts = opening :: us ++ [closing] ∧ opening.kind = .leftParen ∧
      closing.kind = .rightParen ∧ us.map Token.bare = ws.map Token.bare := by
  simp only [Node.enclose, if_true, List.map_append, List.map_eq_append_iff, List.map_cons,
    List.map_nil, List.map_eq_cons_iff, List.map_eq_nil_iff] at h
  obtain ⟨_, _, rfl, ⟨opening, us, rfl, hopen, hus⟩, closing, _, rfl, hclose, rfl⟩ := h
  exact ⟨opening, us, closing, rfl, (Token.bare_eq_iff.1 hopen).1, (Token.bare_eq_iff.1 hclose).1,
    hus⟩

/-- What writes an operand, in parentheses if it would hold less tightly than `bound`. -/
theorem Chained.enclose {n : Node} (h : Chained n) {s : Nonterminal} {ts : List Token}
    {bound : Nat} (hs : s ≠ .operand) (hfree : n.NotFree ∨ s = .sentence)
    (hloose : n.power?.any (· < bound) = true → n.NotFree)
    (hts : ts.map Token.bare =
      (Node.enclose (n.power?.any (· < bound)) n.words).map Token.bare) :
    Chain s ts n bound := by
  cases hneeded : n.power?.any (· < bound) with
  | true =>
    rw [hneeded] at hts
    obtain ⟨opening, us, closing, rfl, hopen, hclose, hus⟩ := map_bare_enclosed hts
    obtain ⟨o, links, n', hd, hg, hbare, -⟩ :=
      h .expression 0 (by simp) (.inl (hloose hneeded)) (by simp) hus
    exact (Derives.group hopen hclose hd hg).chain hs hbare bound
  | false =>
    rw [hneeded] at hts
    refine h s bound hs hfree (fun m hm => ?_) hts
    simpa [Option.mem_def.1 hm] using hneeded

theorem Chain.link {s : Nonterminal} {ts us : List Token} {t t' : Token} {op : Operator}
    {l r : Node} {bound : Nat} (hs : s ≠ .operand) (hk : t'.kind = .operator op)
    (ht : t'.bare = t.bare) (hl : Chain .expression ts l t'.kind.power)
    (hr : Chain s us r (t'.kind.power + 1)) (hbound : bound ≤ t'.kind.power) :
    Chain s (ts ++ t' :: us) (.binary t l r) bound := by
  obtain ⟨o, links, l', hd, hg, hbare, hlinks⟩ := hl
  obtain ⟨o', links', r', hd', hg', hbare', hlinks'⟩ := hr
  refine ⟨o, links ++ (t', o') :: links', .binary t' l' r', hd.append hs hk hd',
    .split hlinks (fun x hx => hlinks' x hx) hg hg', ?_, fun x hx => ?_⟩
  · simp only [Node.bare, ht, hbare, hbare']
  · rcases List.mem_append.1 hx with hx | hx
    · exact Nat.le_trans hbound (hlinks x hx)
    rcases List.mem_cons.1 hx with rfl | hx
    · exact hbound
    · exact Nat.le_trans hbound (Nat.le_of_succ_le (hlinks' x hx))

/-- A right operand that needs parentheses has no negation in it: with one it would be a
negation or bind more tightly. -/
theorem Node.Writable.notFree_of_loose {r : Node} (h : r.Writable) {m : Nat}
    (hr : r.NotFree ∨ r.token.kind = .not ∨ m < r.token.kind.power)
    (hloose : r.power?.any (· < m + 1) = true) : r.NotFree := by
  cases h with
  | leaf | negation => simp [Node.power?] at hloose
  | binary _ hk =>
    simp only [Node.power?, Option.any_some, decide_eq_true_eq] at hloose
    refine hr.resolve_right ?_
    rintro (hnot | hlt)
    · rw [Node.token, hk] at hnot
      cases hnot
    · rw [Node.token] at hlt
      omega

theorem Node.Writable.chained {n : Node} (h : n.Writable) : Chained n := by
  induction h with
  | leaf _ hk =>
    intro s bound ts hs _ _ hts
    obtain ⟨t', rfl, ht'⟩ := List.map_eq_singleton_iff.1 hts
    have hk' := (Token.bare_eq_iff.1 ht').1
    exact (Derives.atom (hk' ▸ hk)).chain hs (by rw [bare, bare, ht']) bound
  | negation _ hk _ ih =>
    intro s bound ts hs hfree _ hts
    obtain ⟨t', us, rfl, ht', hus⟩ := List.map_eq_cons_iff.1 hts
    have hsentence : s = .sentence := hfree.resolve_left (by simp [hk])
    subst hsentence
    obtain ⟨o, links, n', hd, hg, hbare, -⟩ :=
      ih .sentence 0 (by simp) (.inr rfl) (by simp) hus
    have hk' := (Token.bare_eq_iff.1 ht').1
    exact ⟨_, [], _, .negation (hk'.trans hk) hd hg, .operand, by rw [bare, bare, ht', hbare],
      by simp⟩
  | @binary t o l r _ hk hwl hl hwr hr ihl ihr =>
    intro s bound ts hs hfree hbound hts
    rw [words, List.map_append, List.map_eq_append_iff] at hts
    obtain ⟨ls, _, rfl, hls, hts⟩ := hts
    obtain ⟨t', rs, rfl, ht', hrs⟩ := List.map_eq_cons_iff.1 hts
    have hk' := (Token.bare_eq_iff.1 ht').1
    simp only [← Nat.lt_succ_iff] at hrs
    rw [← hk'] at hls hrs
    refine Chain.link hs (hk'.trans hk) ht' (ihl.enclose (by simp) (.inl hl) (fun _ => hl) hls)
      (ihr.enclose hs ?_ (hwr.notFree_of_loose (hk' ▸ hr)) hrs) ?_
    · exact hfree.imp_left fun h => (notFree_binary.1 h).2.2
    · rw [hk']
      exact hbound t.kind.power rfl

/-- **Writing and reading are inverse on the trees of texts.** A tree that can be written
is read back from its text, the same but for the places of tokens, and every text is
read as a tree that can be written. -/
theorem write_exact :
    (∀ n : Node, n.Writable → ∃ n', Parser.Whole n.write n' ∧ n'.bare = n.bare) ∧
      ∀ input n, parseExpression input = .ok n → n.Writable := by
  refine ⟨fun n h => ?_, fun input n => writable_of_parseExpression⟩
  obtain ⟨ts, last, htok, hlast, hbare⟩ := tokenize_write h
  obtain ⟨o, links, n', hd, hg, hn', -⟩ :=
    h.chained .sentence 0 (by simp) (.inr rfl) (by simp) hbare
  obtain ⟨p, p', hp, hparse, hlook⟩ :=
    Parser.parse_sentence_prefix htok (by rw [hlast]; rfl) ⟨o, links, hd, hg⟩
  exact ⟨n', ⟨p, p', hp, hparse, Parser.expectEnd_eq_ok.2 (hlook ▸ hlast)⟩, hn'⟩

/-- A group keeps its parentheses only where they are needed, and a negation as the last
operand needs none. -/
theorem write_group_and_negation :
    ∃ n, parseExpression "(a-1)*(2) AND NOT b c" = .ok n ∧ n.Writable ∧
      n.write = "( a - 1 ) * 2 AND NOT b" ∧ ∃ n', Parser.Whole n.write n' ∧ n'.bare = n.bare := by
  have hparse : parseExpression "(a-1)*(2) AND NOT b c" =
      .ok (.binary ⟨.operator (.connective .and), "", 10⟩
        (.binary ⟨.operator (.arithmetic .times), "", 5⟩
          (.binary ⟨.operator (.arithmetic .minus), "", 2⟩ (.leaf ⟨.identifier, "a", 1⟩)
            (.leaf ⟨.number, "1", 3⟩))
          (.leaf ⟨.number, "2", 7⟩))
        (.unary ⟨.not, "", 14⟩ (.leaf ⟨.identifier, "b", 18⟩))) := by decide +kernel
  have hwritable := write_exact.2 _ _ hparse
  exact ⟨_, hparse, hwritable, by decide +kernel, write_exact.1 _ hwritable⟩

end Condition
