/-
Trees of one shape.

The parser looks at the kinds of tokens, and numbers and names are the same to it, so two texts
whose tokens correspond one by one up to that are read as trees whose tokens correspond
(`parseExpression_related`). The correspondence itself is any relation of tokens. Where related
tokens do the same with the same operands, the two trees have the same outcome
(`Node.Related.evaluate_eq`).
-/
import Condition.Evaluation
import Condition.Proofs.ParsedPrefix
import Condition.Proofs.Printing
import Mathlib.Data.List.Forall2

namespace Condition

/-! ## Kinds -/

/-- The parser does not tell the kinds apart. -/
def TokenKind.Alike (k k' : TokenKind) : Prop :=
  k = k' ∨ Parselet.ofKind k = .atom ∧ Parselet.ofKind k' = .atom

theorem ofKind_eq_atom {k : TokenKind} :
    Parselet.ofKind k = .atom ↔ k = .number ∨ k = .identifier := by
  cases k <;> simp [Parselet.ofKind]

namespace TokenKind.Alike

variable {k k' : TokenKind}

theorem symm (h : k.Alike k') : k'.Alike k := h.imp Eq.symm And.symm

theorem eq_of_not_atom (h : k.Alike k') (hk : Parselet.ofKind k ≠ .atom) : k' = k := by
  rcases h with rfl | ⟨hatom, -⟩
  · rfl
  · exact absurd hatom hk

theorem atom (h : k.Alike k') (hk : k = .number ∨ k = .identifier) :
    k' = .number ∨ k' = .identifier := by
  rcases h with rfl | ⟨-, hatom⟩
  · exact hk
  · exact ofKind_eq_atom.1 hatom

theorem power_eq (h : k.Alike k') : k'.power = k.power := by
  rcases h with rfl | ⟨hatom, hatom'⟩
  · rfl
  · rcases ofKind_eq_atom.1 hatom with rfl | rfl <;>
      rcases ofKind_eq_atom.1 hatom' with rfl | rfl <;> rfl

end TokenKind.Alike

/-! ## Related trees -/

/-- Trees of one shape whose tokens are related place by place. -/
inductive Node.Related (R : Token → Token → Prop) : Node → Node → Prop
  | leaf {t u} : R t u → Related R (.leaf t) (.leaf u)
  | unary {t u l m} : R t u → Related R l m → Related R (.unary t l) (.unary u m)
  | rightOnly {t u r s} : R t u → Related R r s → Related R (.rightOnly t r) (.rightOnly u s)
  | binary {t u l m r s} : R t u → Related R l m → Related R r s →
      Related R (.binary t l r) (.binary u m s)

/-- The operators are related, and so are the operands behind them. -/
def Link.Related (R : Token → Token → Prop) (l l' : Link) : Prop :=
  R l.1 l'.1 ∧ l.2.Related R l'.2

variable {R : Token → Token → Prop}

theorem Node.Related.evaluate_eq {vars : Variables} {n n' : Node} (h : n.Related R n')
    (hstep : ∀ {t u}, R t u → step vars t = step vars u) :
    n.evaluate vars = n'.evaluate vars := by
  induction h with
  | leaf ht => simp only [evaluate, hstep ht]
  | unary ht _ ih => simp only [evaluate, hstep ht, ih]
  | rightOnly ht _ ih => simp only [evaluate, hstep ht, ih]
  | binary ht _ _ ihl ihr => simp only [evaluate, hstep ht, ihl, ihr]

theorem step_eq_of_bare (vars : Variables) {t u : Token} (h : t.bare = u.bare) :
    step vars t = step vars u := by
  obtain ⟨k, text, pos⟩ := t
  obtain ⟨k', text', pos'⟩ := u
  obtain ⟨rfl, rfl⟩ := Token.bare_eq_iff.1 h
  rfl

theorem Node.related_bare_iff {n n' : Node} :
    n.Related (fun t u => t.bare = u.bare) n' ↔ n.bare = n'.bare := by
  constructor
  · intro h
    induction h with
    | leaf ht => rw [bare, bare, ht]
    | unary ht _ ih => rw [bare, bare, ht, ih]
    | rightOnly ht _ ih => rw [bare, bare, ht, ih]
    | binary ht _ _ ihl ihr => rw [bare, bare, ht, ihl, ihr]
  · intro h
    induction n generalizing n' with
    | leaf t => cases n' <;> simp_all [bare, Related.leaf]
    | unary t l ih => cases n' <;> simp_all [bare, Related.unary]
    | rightOnly t r ih => cases n' <;> simp_all [bare, Related.rightOnly]
    | binary t l r ihl ihr => cases n' <;> simp_all [bare, Related.binary]

/-- The relation keeps to kinds that are alike. -/
def KeepsShape (R : Token → Token → Prop) : Prop := ∀ ⦃t u⦄, R t u → t.kind.Alike u.kind

theorem KeepsShape.flip (hR : KeepsShape R) : KeepsShape (flip R) := fun _ _ h => (hR h).symm

theorem forall₂_append_left {α : Type} {S : α → α → Prop} {as bs cs : List α}
    (h : List.Forall₂ S (as ++ bs) cs) :
    ∃ as' bs', cs = as' ++ bs' ∧ List.Forall₂ S as as' ∧ List.Forall₂ S bs bs' := by
  have htake := List.forall₂_take as.length h
  have hdrop := List.forall₂_drop as.length h
  rw [List.take_left] at htake
  rw [List.drop_left] at hdrop
  exact ⟨_, _, (List.take_append_drop as.length cs).symm, htake, hdrop⟩

/-! ## The grammar -/

theorem forall_power_of_related (hR : KeepsShape R) {P : Nat → Prop} {links links' : List Link}
    (hl : List.Forall₂ (Link.Related R) links links') (h : ∀ x ∈ links, P x.power) :
    ∀ x ∈ links', P x.power := by
  induction hl with
  | nil => simp
  | @cons l l' _ _ hl _ ih =>
    obtain ⟨hhead, htail⟩ := List.forall_mem_cons.1 h
    have hpower : l'.power = l.power := (hR hl.1).power_eq
    exact List.forall_mem_cons.2 ⟨hpower ▸ hhead, ih htail⟩

theorem Grouped.related (hR : KeepsShape R) {o o' n : Node} {links links' : List Link}
    (h : Grouped o links n) (ho : o.Related R o')
    (hl : List.Forall₂ (Link.Related R) links links') :
    ∃ n', Grouped o' links' n' ∧ n.Related R n' := by
  induction h generalizing o' links' with
  | operand =>
    cases hl
    exact ⟨o', .operand, ho⟩
  | @split o before l after left right hb ha _ _ ihl ihr =>
    obtain ⟨before', _, rfl, hbefore, htail⟩ := forall₂_append_left hl
    obtain ⟨l', after', hlink, hafter, rfl⟩ := List.forall₂_cons_left_iff.1 htail
    obtain ⟨left', hgl, hleft⟩ := ihl ho hbefore
    obtain ⟨right', hgr, hright⟩ := ihr hlink.2 hafter
    have hpower : l'.power = l.power := (hR hlink.1).power_eq
    refine ⟨.binary l'.1 left' right', .split ?_ ?_ hgl hgr, .binary hlink.1 hleft hright⟩
    · rw [hpower]
      exact forall_power_of_related hR hbefore hb
    · rw [hpower]
      exact forall_power_of_related hR hafter ha

theorem Derives.related (hR : KeepsShape R) {s : Nonterminal} {ts us : List Token} {o : Node}
    {links : List Link} (h : Derives s ts o links) (hts : List.Forall₂ R ts us) :
    ∃ o' links', Derives s us o' links' ∧ o.Related R o' ∧
      List.Forall₂ (Link.Related R) links links' := by
  induction h generalizing us with
  | atom hk =>
    obtain ⟨u, _, ht, hnil, rfl⟩ := List.forall₂_cons_left_iff.1 hts
    cases hnil
    exact ⟨.leaf u, [], .atom ((hR ht).atom hk), .leaf ht, .nil⟩
  | group hopen hclose _ hg ih =>
    rw [List.cons_append] at hts
    obtain ⟨opening', _, ho, hrest, rfl⟩ := List.forall₂_cons_left_iff.1 hts
    obtain ⟨us, _, rfl, hus, hlast⟩ := forall₂_append_left hrest
    obtain ⟨closing', _, hc, hnil, rfl⟩ := List.forall₂_cons_left_iff.1 hlast
    cases hnil
    obtain ⟨o', links', hd, ho', hl⟩ := ih hus
    obtain ⟨n', hg', hn⟩ := hg.related hR ho' hl
    have hopen' := (hR ho).eq_of_not_atom (by rw [hopen]; nofun)
    have hclose' := (hR hc).eq_of_not_atom (by rw [hclose]; nofun)
    exact ⟨n', [], .group (hopen'.trans hopen) (hclose'.trans hclose) hd hg', hn, .nil⟩
  | last hs _ ih =>
    obtain ⟨o', links', hd, ho, hl⟩ := ih hts
    cases hl
    exact ⟨o', [], .last hs hd, ho, .nil⟩
  | negation hk _ hg ih =>
    obtain ⟨u, us, ht, hus, rfl⟩ := List.forall₂_cons_left_iff.1 hts
    obtain ⟨o', links', hd, ho, hl⟩ := ih hus
    obtain ⟨n', hg', hn⟩ := hg.related hR ho hl
    have hk' := (hR ht).eq_of_not_atom (by rw [hk]; nofun)
    exact ⟨.unary u n', [], .negation (hk'.trans hk) hd hg', .unary ht hn, .nil⟩
  | link hs _ hk _ ih ih' =>
    obtain ⟨vs, _, rfl, hvs, htail⟩ := forall₂_append_left hts
    obtain ⟨u, us, ht, hus, rfl⟩ := List.forall₂_cons_left_iff.1 htail
    obtain ⟨o₁, _, hd, ho, hl⟩ := ih hvs
    cases hl
    obtain ⟨o₂, links', hd', ho', hl'⟩ := ih' hus
    have hk' := (hR ht).eq_of_not_atom (by rw [hk]; nofun)
    exact ⟨o₁, (u, o₂) :: links', .link hs hd (hk'.trans hk) hd', ho, .cons ⟨ht, ho'⟩ hl'⟩

theorem Sentence.related (hR : KeepsShape R) {ts us : List Token} {n : Node} (h : Sentence ts n)
    (hts : List.Forall₂ R ts us) : ∃ n', Sentence us n' ∧ n.Related R n' := by
  obtain ⟨o, links, hd, hg⟩ := h
  obtain ⟨o', links', hd', ho, hl⟩ := hd.related hR hts
  obtain ⟨n', hg', hn⟩ := hg.related hR ho hl
  exact ⟨n', ⟨o', links', hd', hg'⟩, hn⟩

/-! ## Whole texts -/

/-- A text with tokens is read as the tree of a sentence that its tokens begin with and that a
token without a power follows. -/
theorem parseExpression_iff_sentence {input : String} {ts : List Token} {n : Node}
    (htok : tokenize input = .ok ts) :
    parseExpression input = .ok n ↔
      ∃ us last vs, ts = us ++ last :: vs ∧ last.kind.power = 0 ∧ Sentence us n := by
  rw [Parser.parseExpression_eq_ok]
  constructor
  · rintro ⟨p, p', hp, hparse⟩
    have hrun : Parser.RunR p (.expression 0) (.ok n, p') := Parser.runR_iff.2 hparse
    have hpower := Nat.le_zero.1 hrun.power_le
    obtain ⟨us, hreads, hn⟩ := Parser.sentence_of_parse hparse
    rcases Parser.ofString_eq input with ⟨q, hq, -, htok'⟩ | ⟨e, he, -⟩
    · cases hp.symm.trans hq
      rw [htok', hreads.tokens_eq] at htok
      cases hahead : p'.tokens with
      | error e => rw [hahead] at htok; cases htok
      | ok ws =>
        rw [hahead] at htok
        cases htok
        obtain ⟨vs, rfl⟩ := Parser.tokens_head hahead
        exact ⟨us, _, vs, rfl, hpower, hn⟩
    · cases hp.symm.trans he
  · rintro ⟨us, last, vs, rfl, hlast, hn⟩
    obtain ⟨p, p', hp, hparse, -⟩ := Parser.parse_sentence_prefix htok hlast hn
    exact ⟨p, p', hp, hparse⟩

/-- A text whose tokens are related to those of a text that is read is read itself, as a related
tree. -/
theorem parseExpression_related (hR : KeepsShape R) {input input' : String} {ts us : List Token}
    (htok : tokenize input = .ok ts) (htok' : tokenize input' = .ok us)
    (h : List.Forall₂ R ts us) {n : Node} (hn : parseExpression input = .ok n) :
    ∃ n', parseExpression input' = .ok n' ∧ n.Related R n' := by
  obtain ⟨before, last, after, rfl, hlast, hsentence⟩ := (parseExpression_iff_sentence htok).1 hn
  obtain ⟨before', _, rfl, hbefore, htail⟩ := forall₂_append_left h
  obtain ⟨last', after', hl, -, rfl⟩ := List.forall₂_cons_left_iff.1 htail
  obtain ⟨n', hsentence', hrelated⟩ := hsentence.related hR hbefore
  have hlast' : last'.kind.power = 0 := (hR hl).power_eq.trans hlast
  exact ⟨n', (parseExpression_iff_sentence htok').2 ⟨_, _, _, rfl, hlast', hsentence'⟩, hrelated⟩

end Condition
