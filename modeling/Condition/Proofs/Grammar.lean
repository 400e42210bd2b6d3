/-
The grammar of expressions and the rule of precedence, told without a parser.

A chain is an operand and the links behind it, each an operator with the operand on
its right. `Derives` says which tokens make up a chain, and `Grouped` which tree a
chain stands for: it is split at its rightmost operator of the lowest power. Every
chain stands for exactly one tree (`existsUnique_grouped`). A chain whose links come
in two parts can be grouped from the left (`Grouped.link`), which is what a parser
that reads from the left does.
-/
import Condition.Tree

namespace Condition

/-- An operator and the operand on its right. -/
abbrev Link := Token × Node

/-- The power of the operator. -/
abbrev Link.power (l : Link) : Nat := l.1.kind.power

/-! ## The rule of precedence -/

/-- A chain stands for its only operand, or for the operator at which it is split with
the trees of both parts as operands: no operator has less power, and every operator of
the same power stands in the left part. -/
inductive Grouped : Node → List Link → Node → Prop
  | operand {o} : Grouped o [] o
  | split {o before l after left right} : (∀ x ∈ before, l.power ≤ x.power) →
      (∀ x ∈ after, l.power < x.power) → Grouped o before left → Grouped l.2 after right →
      Grouped o (before ++ l :: after) (.binary l.1 left right)

theorem Grouped.eq_of_nil {o n : Node} (h : Grouped o [] n) : n = o := by
  generalize hl : ([] : List Link) = links at h
  cases h with
  | operand => rfl
  | split => simp at hl

theorem split_unique {before after before' after' : List Link} {l l' : Link}
    (hb : ∀ x ∈ before, l.power ≤ x.power) (ha : ∀ x ∈ after, l.power < x.power)
    (hb' : ∀ x ∈ before', l'.power ≤ x.power) (ha' : ∀ x ∈ after', l'.power < x.power)
    (h : before ++ l :: after = before' ++ l' :: after') :
    before = before' ∧ l = l' ∧ after = after' := by
  rcases List.append_eq_append_iff.1 h with ⟨mid, hm, hr⟩ | ⟨mid, hm, hr⟩
  · cases mid with
    | nil => simp_all
    | cons x mid =>
      -- The second split is further right, so its operator is above the first and not above it.
      simp only [List.cons_append, List.cons.injEq] at hr
      obtain ⟨rfl, rfl⟩ := hr
      have h₁ : l'.power ≤ l.power := hb' l (by simp [hm])
      have h₂ : l.power < l'.power := ha l' (by simp)
      omega
  · cases mid with
    | nil => simp_all
    | cons x mid =>
      simp only [List.cons_append, List.cons.injEq] at hr
      obtain ⟨rfl, rfl⟩ := hr
      have h₁ : l.power ≤ l'.power := hb l' (by simp [hm])
      have h₂ : l'.power < l.power := ha' l (by simp)
      omega

theorem Grouped.unique {o n n' : Node} {links : List Link} (h : Grouped o links n)
    (h' : Grouped o links n') : n = n' := by
  induction h generalizing n' with
  | operand => exact h'.eq_of_nil.symm
  | @split o before l after left right hb ha _ _ ihl ihr =>
    generalize hlinks : before ++ l :: after = links at h'
    cases h' with
    | operand => simp at hlinks
    | split hb' ha' hl' hr' =>
      obtain ⟨rfl, rfl, rfl⟩ := split_unique hb ha hb' ha' hlinks
      rw [ihl hl', ihr hr']

/-- Links have a rightmost one of the lowest power. -/
theorem exists_lowest (l : Link) (links : List Link) :
    ∃ before x after, l :: links = before ++ x :: after ∧ (∀ y ∈ before, x.power ≤ y.power) ∧
      ∀ y ∈ after, x.power < y.power := by
  induction links generalizing l with
  | nil => exact ⟨[], l, [], by simp⟩
  | cons k links ih =>
    obtain ⟨before, x, after, he, hb, ha⟩ := ih k
    by_cases hlt : l.power < x.power
    · refine ⟨[], l, k :: links, rfl, by simp, fun y hy => ?_⟩
      rw [he, List.mem_append, List.mem_cons] at hy
      rcases hy with hy | rfl | hy
      · exact Nat.lt_of_lt_of_le hlt (hb y hy)
      · exact hlt
      · exact Nat.lt_trans hlt (ha y hy)
    · refine ⟨l :: before, x, after, by rw [he]; rfl, fun y hy => ?_, ha⟩
      rcases List.mem_cons.1 hy with rfl | hy
      · omega
      · exact hb y hy

/-- Every chain stands for exactly one tree. -/
theorem existsUnique_grouped (o : Node) (links : List Link) :
    ∃ n, Grouped o links n ∧ ∀ n', Grouped o links n' → n' = n := by
  suffices h : ∃ n, Grouped o links n by
    obtain ⟨n, hn⟩ := h
    exact ⟨n, hn, fun n' hn' => hn'.unique hn⟩
  induction hlen : links.length using Nat.strongRecOn generalizing o links with
  | _ len ih =>
  subst hlen
  cases links with
  | nil => exact ⟨o, .operand⟩
  | cons l links =>
    obtain ⟨before, x, after, he, hb, ha⟩ := exists_lowest l links
    have hlen : (l :: links).length = before.length + (after.length + 1) := by simp [he]
    obtain ⟨left, hleft⟩ := ih before.length (by omega) o before rfl
    obtain ⟨right, hright⟩ := ih after.length (by omega) x.2 after rfl
    rw [he]
    exact ⟨_, .split hb ha hleft hright⟩

/-- A chain can be grouped from the left: an operator takes its left operand and what
stands behind it up to the next operator that is not above it, and the tree they make
is the first operand of what is left. -/
theorem Grouped.link {o right n : Node} {l : Link} {inner links : List Link}
    (hin : Grouped l.2 inner right) (hlt : ∀ x ∈ inner, l.power < x.power)
    (hhead : ∀ x ∈ links.head?, x.power ≤ l.power)
    (h : Grouped (.binary l.1 o right) links n) : Grouped o (l :: inner ++ links) n := by
  generalize ho : Node.binary l.1 o right = first at h
  induction h with
  | operand =>
    subst ho
    have hsplit : Grouped o ([] ++ l :: inner) (.binary l.1 o right) :=
      .split (by simp) hlt .operand hin
    simpa using hsplit
  | @split first before k after left right' hb ha hl hr ihl =>
    have hhead' : ∀ x ∈ before.head?, x.power ≤ l.power := by
      cases before <;> simp_all
    -- No link before the split is below `k`, the first one included, so `l` is not below it.
    have hk : k.power ≤ l.power := by
      cases before with
      | nil => exact hhead k (by simp)
      | cons x before =>
        exact Nat.le_trans (hb x (by simp)) (hhead x (by simp))
    have hb' : ∀ x ∈ l :: inner ++ before, k.power ≤ x.power := by
      intro x hx
      rcases List.mem_append.1 hx with hx | hx
      · rcases List.mem_cons.1 hx with rfl | hx
        · exact hk
        · exact Nat.le_trans hk (Nat.le_of_lt (hlt x hx))
      · exact hb x hx
    have hsplit := Grouped.split hb' ha (ihl hhead' ho) hr
    simpa using hsplit

/-! ## The grammar -/

inductive Nonterminal
  /-- `O`: a number, an identifier, or an expression in parentheses. -/
  | operand
  /-- `E`: operands with operators between them. -/
  | expression
  /-- `S`: an expression whose last operand may be a negation, which takes all that follows. -/
  | sentence

/-- The tokens of a nonterminal, with the chain they make up:

* `O ::= NUMBER | IDENTIFIER | LEFTPAREN E RIGHTPAREN`
* `E ::= O | O op E`
* `S ::= O | NOT S | O op S`

An operand is a chain without links. -/
inductive Derives : Nonterminal → List Token → Node → List Link → Prop
  | atom {t} : t.kind = .number ∨ t.kind = .identifier → Derives .operand [t] (.leaf t) []
  | group {opening closing ts o links n} : opening.kind = .leftParen →
      closing.kind = .rightParen → Derives .expression ts o links → Grouped o links n →
      Derives .operand (opening :: ts ++ [closing]) n []
  | last {s ts o} : s ≠ .operand → Derives .operand ts o [] → Derives s ts o []
  | negation {t ts o links n} : t.kind = .not → Derives .sentence ts o links →
      Grouped o links n → Derives .sentence (t :: ts) (.unary t n) []
  | link {s ts o t op us o' links} : s ≠ .operand → Derives .operand ts o [] →
      t.kind = .operator op → Derives s us o' links →
      Derives s (ts ++ t :: us) o ((t, o') :: links)

/-- The tokens are a sentence, and its chain stands for the tree. -/
def Sentence (ts : List Token) (n : Node) : Prop :=
  ∃ o links, Derives .sentence ts o links ∧ Grouped o links n

theorem Derives.sentence {ts : List Token} {o : Node} {links : List Link}
    (h : Derives .expression ts o links) : Derives .sentence ts o links := by
  generalize hs : Nonterminal.expression = s at h
  induction h with
  | atom | group | negation => cases hs
  | last _ ho => exact .last (by simp) ho
  | link _ ho ht _ _ ih => exact .link (by simp) ho ht (ih hs)

theorem Derives.append {s : Nonterminal} {ts us : List Token} {o o' : Node}
    {links links' : List Link} {t : Token} {op : Operator} (hs : s ≠ .operand)
    (h : Derives .expression ts o links) (ht : t.kind = .operator op)
    (h' : Derives s us o' links') : Derives s (ts ++ t :: us) o (links ++ (t, o') :: links') := by
  generalize he : Nonterminal.expression = e at h
  induction h with
  | atom | group | negation => cases he
  | last _ ho => exact .link hs ho ht h'
  | link _ ho hk _ _ ih =>
    have hrest := Derives.link hs ho hk (ih he)
    simpa using hrest

end Condition
