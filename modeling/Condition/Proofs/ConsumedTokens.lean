/-
What becomes of the tokens that are taken for a tree.

A chain is derived from tokens whose parentheses are in pairs (`Derives.balanced`), and an operator
among them that stands in none of these pairs is one of the chain's links, or a negation has it in
its operand (`Derives.outside`). The links are what the minimum power is about. A tree has all the
other tokens but the parentheses, in their order in the text: behind its lookahead the scanner
only ever goes forward, also after an error (`Behind`). Main statement: `parse_accounts`.
-/
import Condition.Proofs.ParsedTrees

namespace Condition

/-! ## Parentheses -/

/-- By how much the nesting changes behind a token of this kind. -/
def TokenKind.deepens : TokenKind → Int
  | .leftParen => 1
  | .rightParen => -1
  | .operator _ | .not | .number | .identifier | .endOfInput => 0

/-- How many more parentheses the tokens open than they close. -/
def nesting (ts : List Token) : Int := (ts.map (·.kind.deepens)).sum

@[simp] theorem nesting_nil : nesting [] = 0 := rfl

@[simp] theorem nesting_cons (t : Token) (ts : List Token) :
    nesting (t :: ts) = t.kind.deepens + nesting ts := by
  simp [nesting]

@[simp] theorem nesting_append (ts us : List Token) :
    nesting (ts ++ us) = nesting ts + nesting us := by
  simp [nesting]

/-- As many parentheses are closed as are opened, and none before it is opened. -/
structure Balanced (ts : List Token) : Prop where
  nesting_eq : nesting ts = 0
  nonneg : ∀ us, us <+: ts → 0 ≤ nesting us

theorem Balanced.nil : Balanced [] where
  nesting_eq := rfl
  nonneg us h := by rw [List.prefix_nil.1 h]; rfl

theorem Balanced.cons {t : Token} {ts : List Token} (ht : t.kind.deepens = 0) (h : Balanced ts) :
    Balanced (t :: ts) where
  nesting_eq := by rw [nesting_cons, ht, h.nesting_eq, Int.zero_add]
  nonneg us hus := by
    rcases List.prefix_cons_iff.1 hus with rfl | ⟨vs, rfl, hvs⟩
    · rfl
    · rw [nesting_cons, ht, Int.zero_add]
      exact h.nonneg vs hvs

theorem Balanced.append {ts us : List Token} (h : Balanced ts) (h' : Balanced us) :
    Balanced (ts ++ us) where
  nesting_eq := by rw [nesting_append, h.nesting_eq, h'.nesting_eq, Int.zero_add]
  nonneg vs hvs := by
    rcases List.prefix_or_prefix_of_prefix hvs (List.prefix_append ts us) with hvs' | ⟨ws, rfl⟩
    · exact h.nonneg vs hvs'
    · rw [nesting_append, h.nesting_eq, Int.zero_add]
      exact h'.nonneg ws ((List.prefix_append_right_inj ts).1 hvs)

theorem Balanced.one_le {opening : Token} {ts us : List Token} (hopen : opening.kind = .leftParen)
    (h : Balanced ts) (hus : us <+: ts) : 1 ≤ nesting (opening :: us) := by
  have := h.nonneg us hus
  rw [nesting_cons, hopen]
  show (1 : Int) ≤ 1 + nesting us
  omega

theorem Balanced.group {opening closing : Token} {ts : List Token}
    (hopen : opening.kind = .leftParen) (hclose : closing.kind = .rightParen) (h : Balanced ts) :
    Balanced (opening :: ts ++ [closing]) where
  nesting_eq := by simp [hopen, hclose, h.nesting_eq, TokenKind.deepens]
  nonneg us hus := by
    rcases List.prefix_concat_iff.1 hus with rfl | hus
    · simp [hopen, hclose, h.nesting_eq, TokenKind.deepens]
    rcases List.prefix_cons_iff.1 hus with rfl | ⟨vs, rfl, hvs⟩
    · rfl
    · have := h.one_le hopen hvs
      omega

theorem Derives.balanced {s : Nonterminal} {ts : List Token} {o : Node} {links : List Link}
    (h : Derives s ts o links) : Balanced ts := by
  induction h with
  | atom hk => exact Balanced.nil.cons (by rcases hk with hk | hk <;> rw [hk] <;> rfl)
  | group hopen hclose _ _ ih => exact ih.group hopen hclose
  | last _ _ ih => exact ih
  | negation hk _ _ ih => exact ih.cons (by rw [hk]; rfl)
  | link _ _ hk _ ih ih' => exact ih.append (ih'.cons (by rw [hk]; rfl))

theorem Derives.ne_nil {s : Nonterminal} {ts : List Token} {o : Node} {links : List Link}
    (h : Derives s ts o links) : ts ≠ [] := by
  induction h with
  | atom | group | negation | link => simp
  | last _ _ ih => exact ih

/-! ## Operators outside groups and negations -/

/-- The token stands among the others where every parenthesis opened before it is closed. -/
def StandsOutside (ts : List Token) (t : Token) : Prop :=
  ∃ before after, ts = before ++ t :: after ∧ nesting before = 0

theorem not_standsOutside_nil {t : Token} : ¬ StandsOutside [] t := by
  rintro ⟨before, after, h, -⟩
  simp at h

theorem StandsOutside.of_cons {t u : Token} {us : List Token} (h : StandsOutside (u :: us) t)
    (hu : u.kind.deepens = 0) : t = u ∨ StandsOutside us t := by
  obtain ⟨before, after, hus, hnest⟩ := h
  cases before with
  | nil => exact .inl (List.cons.inj hus).1.symm
  | cons v before =>
    obtain ⟨rfl, rfl⟩ := List.cons.inj hus
    rw [nesting_cons, hu, Int.zero_add] at hnest
    exact .inr ⟨before, after, rfl, hnest⟩

theorem StandsOutside.of_append {t : Token} {ts us : List Token} (h : StandsOutside (ts ++ us) t)
    (hts : nesting ts = 0) : StandsOutside ts t ∨ StandsOutside us t := by
  obtain ⟨before, after, hsplit, hnest⟩ := h
  rcases List.append_eq_append_iff.1 hsplit with ⟨mid, rfl, hus⟩ | ⟨mid, rfl, hmid⟩
  · rw [nesting_append, hts, Int.zero_add] at hnest
    exact .inr ⟨mid, after, hus, hnest⟩
  · cases mid with
    | nil =>
      rw [List.append_nil] at hts
      exact .inr ⟨[], after, hmid.symm, rfl⟩
    | cons v mid =>
      obtain ⟨rfl, -⟩ := List.cons.inj hmid
      exact .inl ⟨before, mid, rfl, hnest⟩

/-- Behind its opening parenthesis a group is open wherever a token of it stands. -/
theorem StandsOutside.of_group {t opening closing : Token} {ts : List Token}
    (h : StandsOutside (opening :: ts ++ [closing]) t) (hopen : opening.kind = .leftParen)
    (hts : Balanced ts) : t = opening := by
  obtain ⟨before, after, hsplit, hnest⟩ := h
  cases before with
  | nil => exact (List.cons.inj hsplit).1.symm
  | cons v before =>
    obtain ⟨rfl, htail⟩ := List.cons.inj hsplit
    have hprefix : before <+: ts := by
      rcases List.prefix_concat_iff.1 ⟨_, Eq.symm htail⟩ with rfl | hprefix
      · simp at htail
      · exact hprefix
    have := hts.one_le hopen hprefix
    omega

/-- A negation in the tree has the token in its operand. -/
def Node.Negates (n : Node) (t : Token) : Prop :=
  ∃ u operand, .unary u operand ∈ n.preorder ∧ t ∈ operand.inorder

/-- An operator outside all groups is that of a link, or a negation has it in its operand. -/
theorem Derives.outside {s : Nonterminal} {ts : List Token} {o : Node} {links : List Link}
    (h : Derives s ts o links) {t : Token} {op : Operator} (ht : t.kind = .operator op)
    (hout : StandsOutside ts t) :
    t ∈ links.map (·.1) ∨ ∃ operand ∈ o :: links.map (·.2), operand.Negates t := by
  induction h with
  | @atom u hk =>
    have hu : u.kind.deepens = 0 := by rcases hk with hk | hk <;> rw [hk] <;> rfl
    rcases hout.of_cons hu with rfl | hout
    · simp [ht] at hk
    · exact absurd hout not_standsOutside_nil
  | group hopen _ hd _ _ =>
    have := hout.of_group hopen hd.balanced
    subst this
    simp [ht] at hopen
  | last _ _ ih => exact ih hout
  | @negation u ts o links n hk hd hg _ =>
    rcases hout.of_cons (by rw [hk]; rfl) with rfl | ⟨before, after, rfl, -⟩
    · simp [ht] at hk
    · have hmem : t ∈ n.inorder := by
        rw [hg.inorder_eq, hd.inorder_eq]
        simp [Token.HasNode, ht]
      exact .inr ⟨_, List.mem_cons_self, u, n, by simp [Node.preorder], hmem⟩
  | @link s ts o u op' us o' links _ ho hk _ ih ih' =>
    rcases hout.of_append ho.balanced.nesting_eq with hout | hout
    · rcases ih hout with hlink | ⟨operand, hmem, hneg⟩
      · simp at hlink
      · obtain rfl : operand = o := by simpa using hmem
        exact .inr ⟨operand, List.mem_cons_self, hneg⟩
    rcases hout.of_cons (by rw [hk]; rfl) with rfl | hout
    · exact .inl List.mem_cons_self
    rcases ih' hout with hlink | ⟨operand, hmem, hneg⟩
    · exact .inl (List.mem_cons_of_mem _ hlink)
    · exact .inr ⟨operand, List.mem_cons_of_mem _ hmem, hneg⟩

theorem Grouped.mem_preorder {o n : Node} {links : List Link} (h : Grouped o links n) :
    ∀ operand ∈ o :: links.map (·.2), ∀ x ∈ operand.preorder, x ∈ n.preorder := by
  induction h with
  | operand => simp
  | split _ _ _ _ ihl ihr =>
    intro operand hmem x hx
    simp only [List.map_append, List.map_cons, List.mem_cons, List.mem_append] at hmem ihl ihr
    simp only [Node.preorder, List.mem_cons, List.mem_append]
    rcases hmem with hmem | hmem | hmem | hmem
    · exact .inr (.inl (ihl operand (.inl hmem) x hx))
    · exact .inr (.inl (ihl operand (.inr hmem) x hx))
    · exact .inr (.inr (ihr operand (.inl hmem) x hx))
    · exact .inr (.inr (ihr operand (.inr hmem) x hx))

theorem Grouped.negates {o n : Node} {links : List Link} (h : Grouped o links n) {operand : Node}
    {t : Token} (hmem : operand ∈ o :: links.map (·.2)) (hneg : operand.Negates t) :
    n.Negates t := by
  obtain ⟨u, x, hx, ht⟩ := hneg
  exact ⟨u, x, h.mem_preorder operand hmem _ hx, ht⟩

theorem Node.Regular.kind_of_binary {n : Node} (h : n.Regular) {t : Token} {l r : Node}
    (hmem : .binary t l r ∈ n.preorder) : ∃ o, t.kind = .operator o := by
  have hreg := forall_preorder (P := Regular) Regular.operand h _ hmem
  cases hreg with
  | binary _ hk => exact ⟨_, hk⟩

/-! ## Places -/

namespace Scanner

/-- A token is no further back than the scanner was, and but for the end the scanner is behind it
afterwards. -/
theorem pos_of_next {s s' : Scanner} {t : Token} (h : s.next = (.ok t, s')) :
    s.pos ≤ t.pos ∧ (t.kind ≠ .endOfInput → t.pos < s'.pos) := by
  have hr := s.nextR
  rw [h] at hr
  cases hr with
  | finish => exact ⟨Nat.le_add_right _ _, fun hne => absurd rfl hne⟩
  | lexeme _ hwf _ hpos =>
    obtain ⟨c, cs, hlexeme, -⟩ := hwf.begins
    have := c.utf8Size_pos
    refine ⟨hpos ▸ Nat.le_add_right _ _, fun _ => ?_⟩
    rw [hlexeme, Text.byteLength_cons]
    exact Nat.lt_add_of_pos_right (by omega)

theorem pos_le_of_error {s s' : Scanner} {e : LexError} (h : s.next = (.error e, s')) :
    s.pos ≤ s'.pos := by
  obtain ⟨c, gap, -, -, -, hpos⟩ := passes_of_next h
  omega

end Scanner

namespace Parser

/-- The scanner is behind the lookahead, unless that is the end. -/
def Behind (p : Parser) : Prop := p.lookahead.kind ≠ .endOfInput → p.lookahead.pos < p.scanner.pos

theorem behind_ofString {input : String} {p : Parser} (h : ofString input = .ok p) : p.Behind :=
  (Scanner.pos_of_next (from_ofString h)).2

theorem behind_advance {p : Parser} (h : p.Behind) : p.advance.2.Behind := by
  have hr := p.advanceR
  generalize p.advance = r at hr
  cases hr with
  | takes hs => exact (Scanner.pos_of_next hs).2
  | @passes e s hs =>
    intro hne
    have hlt := h hne
    have hle := Scanner.pos_le_of_error hs
    show p.lookahead.pos < s.pos
    omega

theorem Reachable.behind {input : String} {p : Parser} (h : Reachable input p) : p.Behind :=
  h.preserves (fun _ => behind_advance) fun _ => behind_ofString

theorem Reads.increasing {p p' : Parser} {ts : List Token} (h : Reads p ts p') (hp : p.Behind) :
    (∀ t ∈ ts, p.lookahead.pos ≤ t.pos) ∧ ts.Pairwise fun t u => t.pos < u.pos := by
  induction h with
  | refl => exact ⟨by simp, .nil⟩
  | @step p p₁ p' t ts ha hne _ ih =>
    have hlook := advance_lookahead ha
    subst hlook
    obtain ⟨hle, hsorted⟩ := ih (preserves_of_advance (fun _ => behind_advance) ha hp)
    -- The scanner was between this token and the next lookahead.
    have hscanner := hp hne
    have hnext := (Scanner.pos_of_next (from_of_advance ha)).1
    have hlt : ∀ u ∈ ts, p.lookahead.pos < u.pos := by
      intro u hu
      have := hle u hu
      omega
    refine ⟨List.forall_mem_cons.2 ⟨Nat.le_refl _, fun u hu => Nat.le_of_lt (hlt u hu)⟩, ?_⟩
    exact List.pairwise_cons.2 ⟨hlt, hsorted⟩

theorem Reads.size_scanned {p p' : Parser} {ts : List Token} (h : Reads p ts p') :
    p'.scanned.size = p.scanned.size + ts.length := by
  induction h with
  | refl => rfl
  | @step p p₁ p' t ts ha _ _ ih =>
    have hpush : p₁.scanned.size = p.scanned.size + 1 := by
      have hr := p.advanceR
      rw [ha] at hr
      cases hr with
      | takes => exact Array.size_push _
    rw [ih, hpush, List.length_cons]
    omega

/-- The tokens taken between two states are told by the states. -/
theorem Reads.unique {p p' : Parser} {ts us : List Token} (h : Reads p ts p')
    (h' : Reads p us p') : us = ts := by
  have hlength := h'.size_scanned.symm.trans h.size_scanned
  induction h generalizing us with
  | refl => exact List.eq_nil_of_length_eq_zero (by simpa using hlength)
  | step ha _ hrest ih =>
    cases h' with
    | refl => simp at hlength
    | step ha' _ hrest' =>
      cases ha.symm.trans ha'
      rw [ih hrest' (hrest'.size_scanned.symm.trans hrest.size_scanned)]

/-! ## All tokens of a tree -/

/-- What the tree read with this minimum power has to do with the tokens taken for it. -/
structure Accounts (m : Nat) (ts : List Token) (n : Node) : Prop where
  ne_nil : ts ≠ []
  balanced : Balanced ts
  inorder_eq : n.inorder = ts.filter Token.HasNode
  increasing : n.inorder.Pairwise fun t u => t.pos < u.pos
  above : ∀ t l r, .binary t l r ∈ n.preorder → StandsOutside ts t → ¬ n.Negates t →
    m < t.kind.power

/-- **Every token that is taken is accounted for.** In whatever state a parser is asked for an
expression, the tokens that it takes for a tree are at least one, with their parentheses in pairs,
and all but these are the tokens of the tree, each at its place in the text and further on than the
one before it. What is ahead then has no power above the minimum, and every operator of the tree
that stands outside groups and outside the operands of negations has. -/
theorem parse_accounts {input : String} {p p' : Parser} {m : Nat} {n : Node}
    (hp : Reachable input p) (h : p.parse m = (.ok n, p')) :
    ∃ ts, Reads p ts p' ∧ (∀ us, Reads p us p' → us = ts) ∧ Accounts m ts n ∧
      p'.lookahead.kind.power ≤ m := by
  have hrun : RunR p (.expression m) (.ok n, p') := runR_iff.2 h
  obtain ⟨ts, s, o, links, hreads, hd, -, hg, habove, hpower⟩ := hrun.sound rfl
  have hinorder : n.inorder = ts.filter Token.HasNode := by rw [hg.inorder_eq, hd.inorder_eq]
  refine ⟨ts, hreads, fun us => hreads.unique, ⟨hd.ne_nil, hd.balanced, hinorder, ?_, ?_⟩, hpower⟩
  · rw [hinorder]
    exact (hreads.increasing hp.behind).2.filter _
  · intro t l r hmem hout hneg
    obtain ⟨op, hk⟩ := (hp.scanned.writable h).regular.kind_of_binary hmem
    rcases hd.outside hk hout with hlink | ⟨operand, hoperand, hneg'⟩
    · obtain ⟨l, hl, rfl⟩ := List.mem_map.1 hlink
      exact habove l hl
    · exact absurd (hg.negates hoperand hneg') hneg

/-- A parser that has failed at the question mark still has the number before it. The two
disjunctions have no power above the minimum: one stands in a group and one in a negation. -/
theorem parse_accounts_after_failure :
    ∃ p n p', Reachable "1 ? + (a OR b) > NOT c OR d" p ∧ p.scanner.pos = 3 ∧
      p.parse 25 = (.ok n, p') ∧ n.inorder.map Token.pos = [0, 4, 7, 9, 12, 15, 17, 21, 23, 26] ∧
      ∃ ts, Reads p ts p' ∧ (∀ us, Reads p us p' → us = ts) ∧ Accounts 25 ts n ∧
        p'.lookahead.kind.power ≤ 25 := by
  have hp : ofString "1 ? + (a OR b) > NOT c OR d" =
      .ok ⟨⟨" ? + (a OR b) > NOT c OR d".toList, 1⟩, ⟨.number, "1", 0⟩, #[⟨.number, "1", 0⟩]⟩ := by
    rfl
  have hreach := Reachable.serve (.parse 25) (.start hp)
  obtain ⟨p', hparse⟩ : ∃ p', parse (serve ⟨⟨" ? + (a OR b) > NOT c OR d".toList, 1⟩,
      ⟨.number, "1", 0⟩, #[⟨.number, "1", 0⟩]⟩ (.parse 25)) 25 =
        (.ok (.binary ⟨.operator (.comparison .greater), "", 15⟩
          (.binary ⟨.operator (.arithmetic .plus), "", 4⟩ (.leaf ⟨.number, "1", 0⟩)
            (.binary ⟨.operator (.connective .or), "", 9⟩ (.leaf ⟨.identifier, "a", 7⟩)
              (.leaf ⟨.identifier, "b", 12⟩)))
          (.unary ⟨.not, "", 17⟩ (.binary ⟨.operator (.connective .or), "", 23⟩
            (.leaf ⟨.identifier, "c", 21⟩) (.leaf ⟨.identifier, "d", 26⟩)))), p') :=
    ⟨_, Prod.ext (by decide +kernel) rfl⟩
  exact ⟨_, _, p', hreach, by decide +kernel, hparse, rfl, parse_accounts hreach hparse⟩

end Parser
end Condition
