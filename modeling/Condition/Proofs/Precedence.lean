/-
The parser reads exactly the sentences of the grammar, and answers with the tree that
the rule of precedence gives.

Soundness goes by induction over runs: what a run has read is a chain, and its answer
is the tree of it (`RunR.sound`). For completeness, a chain is first followed operand
by operand (`Follows`); the links at whose operator a run stops are then those that do
not bind more tightly than its `m` (`climb`). Main statement: `strict_parse_iff`.
-/
import Condition.Proofs.Grammar
import Condition.Proofs.ParserRuns
import Condition.Proofs.TokensAhead

namespace Condition.Parser

/-! ## Soundness -/

/-- The tokens, if there are any, are an operator and a chain behind it. -/
def Tail (s : Nonterminal) (ts : List Token) (links : List Link) : Prop :=
  (ts = [] ∧ links = []) ∨
    ∃ t op us o rest, ts = t :: us ∧ t.kind = .operator op ∧ Derives s us o rest ∧
      links = (t, o) :: rest

/-- The kinds of chain that can stand before the lookahead of `p`: a negation takes all
that has a power. -/
def Before (s : Nonterminal) (p : Parser) : Prop :=
  s = .expression ∨ (s = .sentence ∧ p.lookahead.kind.power = 0)

theorem Before.ne {s : Nonterminal} {p : Parser} (h : Before s p) : s ≠ .operand := by
  rcases h with rfl | ⟨rfl, -⟩ <;> simp

/-- What the answer of a task says about the tokens read. -/
def Sound (p : Parser) : Task → Node → Parser → Prop
  | .operand, n, p' => ∃ ts s, Reads p ts p' ∧ Derives s ts n [] ∧ Before s p'
  | .expression m, n, p' =>
    ∃ ts s o links, Reads p ts p' ∧ Derives s ts o links ∧ Before s p' ∧ Grouped o links n ∧
      (∀ l ∈ links, m < l.power) ∧ p'.lookahead.kind.power ≤ m
  | .rest m left, n, p' =>
    ∃ ts s links, Reads p ts p' ∧ Tail s ts links ∧ Before s p' ∧ Grouped left links n ∧
      (∀ l ∈ links, m < l.power) ∧ p'.lookahead.kind.power ≤ m ∧
      ∀ l ∈ links.head?, l.1 = p.lookahead

theorem power_pos_of_operator {t : Token} {op : Operator} (h : t.kind = .operator op) :
    1 < t.kind.power := by
  rw [h]; exact op.one_lt_power

/-- A chain goes on with a tail: a negation cannot, but then no operator is ahead. -/
theorem Before.append {s s' : Nonterminal} {ts us : List Token} {o : Node}
    {links links' : List Link} {p p' : Parser} (hs : Before s p) (h : Derives s ts o links)
    (hs' : Before s' p') (h' : Tail s' us links') (hr : Reads p us p')
    (hhead : ∀ l ∈ links'.head?, l.1 = p.lookahead) :
    ∃ s'', Derives s'' (ts ++ us) o (links ++ links') ∧ Before s'' p' := by
  rcases h' with ⟨rfl, rfl⟩ | ⟨t, op, vs, o', rest, rfl, ht, hd, rfl⟩
  · cases hr
    exact ⟨s, by simpa using h, hs⟩
  · have hpow := power_pos_of_operator ht
    have hlook : t = p.lookahead := hhead (t, o') (by simp)
    rw [hlook] at hpow
    rcases hs with rfl | ⟨-, hzero⟩
    · exact ⟨s', Derives.append hs'.ne h ht hd, hs'⟩
    · omega

/-- A run has read what its answer says. -/
theorem RunR.sound {p p' : Parser} {task : Task} {r : Step Node} {n : Node} (h : RunR p task r)
    (hr : r = (.ok n, p')) : Sound p task n p' := by
  induction h generalizing n p' with
  | stuck | negationFails | groupFails | groupOpen | noOperand | expressionFails | restStuck
  | operatorFails | noOperator => simp at hr
  | @atom p p₁ t ha hk =>
    cases hr
    have hne : t.kind ≠ .endOfInput := by rcases hk with hk | hk <;> simp [hk]
    exact ⟨[t], .expression, .one ha hne, .last (by simp) (.atom hk), .inl rfl⟩
  | @negation p p₁ p₂ t n ha hk _ ih =>
    cases hr
    obtain ⟨ts, s, o, links, hreads, hd, hs, hg, -, hpow⟩ := ih rfl
    have hd' : Derives .sentence ts o links := by
      rcases hs with rfl | ⟨rfl, -⟩
      · exact hd.sentence
      · exact hd
    exact ⟨t :: ts, .sentence, .step ha (by simp [hk]) hreads, .negation hk hd' hg,
      .inr ⟨rfl, by omega⟩⟩
  | @group p p₁ p₂ p₃ t n ha hk _ hm ih =>
    cases hr
    obtain ⟨ts, s, o, links, hreads, hd, hs, hg, -, -⟩ := ih rfl
    obtain ⟨hclose, hadv⟩ := matchAndAdvance_ok hm
    -- The closing parenthesis has a power, so the group is no negation.
    have hexpr : s = .expression := by
      rcases hs with rfl | ⟨-, hzero⟩
      · rfl
      · simp [hclose, TokenKind.power] at hzero
    subst hexpr
    have hread : Reads p (t :: ts ++ [p₂.lookahead]) p₃ :=
      (Reads.step ha (by simp [hk]) hreads).trans (.one hadv (by simp [hclose]))
    exact ⟨_, .expression, hread, .last (by simp) (.group hk hclose hd hg), .inl rfl⟩
  | expression _ _ ih₁ ih₂ =>
    obtain ⟨ts, s, hreads, hd, hs⟩ := ih₁ rfl
    obtain ⟨us, s', links, hreads', htail, hs', hg, hm, hpow, hhead⟩ := ih₂ hr
    obtain ⟨s'', hd'', hs''⟩ := hs.append hd hs' htail hreads' hhead
    exact ⟨ts ++ us, s'', _, links, hreads.trans hreads', hd'', hs'', hg, hm, hpow⟩
  | stop hm =>
    cases hr
    exact ⟨[], .expression, [], .refl, .inl ⟨rfl, rfl⟩, .inl rfl, .operand, by simp, hm, by simp⟩
  | @operator p p₁ p₂ m left t op right r hm ha hk _ _ ih₁ ih₂ =>
    obtain ⟨ts, s, o, inner, hreads, hd, hs, hg, hin, hpow⟩ := ih₁ rfl
    obtain ⟨us, s', links, hreads', htail, hs', hg', hm', hpow', hhead⟩ := ih₂ hr
    obtain ⟨s'', hd'', hs''⟩ := hs.append hd hs' htail hreads' hhead
    have hlook := advance_lookahead ha
    have hop : t.kind.power = op.power := by rw [hk]; rfl
    rw [← hop] at hin hpow
    have hnext : ∀ x ∈ links.head?, x.power ≤ t.kind.power := fun x hx => by
      rw [Link.power, hhead x hx]; exact hpow
    have hgroup : Grouped left ((t, o) :: inner ++ links) n :=
      Grouped.link (l := (t, o)) hg hin hnext hg'
    refine ⟨t :: (ts ++ us), s'', (t, o) :: inner ++ links, .step ha (by simp [hk])
      (hreads.trans hreads'), .inr ⟨t, op, _, o, _, rfl, hk, hd'', rfl⟩, hs'', hgroup, ?_, hpow',
      by simpa using hlook⟩
    rw [← hlook] at hm
    intro x hx
    rcases List.mem_append.1 hx with hx | hx
    · rcases List.mem_cons.1 hx with rfl | hx
      · exact hm
      · exact Nat.lt_trans hm (hin x hx)
    · exact hm' x hx

/-- A run stops before what binds no more tightly than its `m`. -/
theorem RunR.power_le {p p' : Parser} {m : Nat} {n : Node}
    (h : RunR p (.expression m) (.ok n, p')) : p'.lookahead.kind.power ≤ m := by
  obtain ⟨ts, s, o, links, -, -, -, -, -, hpow⟩ := h.sound rfl
  exact hpow

/-- An expression stops at the end, a number, an identifier or a negation. -/
theorem kind_of_parse {p p' : Parser} {tree : Node} (h : p.parse 0 = (.ok tree, p'))
    (hend : p'.lookahead.kind ≠ .endOfInput) :
    p'.lookahead.kind = .number ∨ p'.lookahead.kind = .identifier ∨ p'.lookahead.kind = .not := by
  have hrun : RunR p (.expression 0) (.ok tree, p') := runR_iff.2 h
  have hpower := hrun.power_le
  cases hk : p'.lookahead.kind with
  | number => exact .inl rfl
  | identifier => exact .inr (.inl rfl)
  | not => exact .inr (.inr rfl)
  | endOfInput => exact absurd hk hend
  | leftParen | rightParen =>
    rw [hk] at hpower
    simp [TokenKind.power] at hpower
  | operator o =>
    have hpos := o.one_lt_power
    rw [hk] at hpower
    simp only [TokenKind.power] at hpower
    omega

/-! ## Completeness -/

/-- The parser takes these links one after another: each operator, then its operand. -/
inductive Follows : Parser → List Link → Parser → Prop
  | refl {p} : Follows p [] p
  | step {p p₁ p₂ p' t op o links} : p.advance = (.ok t, p₁) → t.kind = .operator op →
      RunR p₁ .operand (.ok o, p₂) → Follows p₂ links p' → Follows p ((t, o) :: links) p'

theorem Follows.head {p p' : Parser} {links : List Link} (h : Follows p links p') :
    ∀ l ∈ links.head?, l.1 = p.lookahead := by
  cases h with
  | refl => simp
  | step ha => simpa using advance_lookahead ha

/-- From where the links `links` follow, a run takes those that bind more tightly than
`m`, and stops before the others. -/
theorem climb {p p' : Parser} {links : List Link} (h : Follows p links p') {m : Nat}
    (hm : p'.lookahead.kind.power ≤ m) (left : Node) :
    ∃ taken others n q, links = taken ++ others ∧ RunR p (.rest m left) (.ok n, q) ∧
      Grouped left taken n ∧ (∀ l ∈ taken, m < l.power) ∧ Follows q others p' ∧
      q.lookahead.kind.power ≤ m := by
  induction hlen : links.length using Nat.strongRecOn generalizing links p m left with
  | _ len ih =>
  subst hlen
  cases h with
  | refl => exact ⟨[], [], left, p', rfl, .stop hm, .operand, by simp, .refl, hm⟩
  | @step _ p₁ p₂ _ t op o links ha hk ho hf =>
    have hlook := advance_lookahead ha
    by_cases hstop : t.kind.power ≤ m
    · exact ⟨[], _, left, p, rfl, .stop (hlook ▸ hstop), .operand, by simp, .step ha hk ho hf,
        hlook ▸ hstop⟩
    -- The right operand takes the links above the operator, and the run goes on behind them.
    have hop : t.kind.power = op.power := by rw [hk]; rfl
    have hpow := power_pos_of_operator hk
    obtain ⟨inner, later, right, q₁, rfl, hrun₁, hg₁, hin, hf₁, hq₁⟩ :=
      ih links.length (by simp) hf (show _ ≤ t.kind.power by omega) o rfl
    obtain ⟨taken, others, n, q₂, rfl, hrun₂, hg₂, htaken, hf₂, hq₂⟩ :=
      ih later.length (by simp only [List.length_cons, List.length_append]; omega) hf₁ hm
        (.binary t left right) rfl
    have hhead : ∀ x ∈ taken.head?, x.power ≤ t.kind.power := by
      intro x hx
      have hx' : x ∈ (taken ++ others).head? := by
        rw [List.head?_append, Option.mem_def.1 hx]; rfl
      rw [Link.power, hf₁.head x hx']
      exact hq₁
    refine ⟨(t, o) :: inner ++ taken, others, n, q₂, by simp, ?_, ?_, ?_, hf₂, hq₂⟩
    · rw [hop] at hrun₁
      exact .operator (by rw [← hlook]; omega) ha hk (.expression ho hrun₁) hrun₂
    · exact Grouped.link (l := (t, o)) hg₁ hin hhead hg₂
    · intro x hx
      rcases List.mem_append.1 hx with hx | hx
      · rcases List.mem_cons.1 hx with rfl | hx
        · show m < t.kind.power
          omega
        · exact Nat.lt_trans (by omega) (hin x hx)
      · exact htaken x hx

theorem Reads.split {p p' : Parser} {ts us : List Token} (h : Reads p (ts ++ us) p') :
    ∃ q, Reads p ts q ∧ Reads q us p' := by
  induction ts generalizing p with
  | nil => exact ⟨p, .refl, h⟩
  | cons t ts ih =>
    cases h with
    | step ha ht h =>
      obtain ⟨q, h₁, h₂⟩ := ih h
      exact ⟨q, .step ha ht h₁, h₂⟩

theorem expression_of_follows {p p₁ p' : Parser} {o n : Node} {links : List Link} {m : Nat}
    (ho : RunR p .operand (.ok o, p₁)) (hf : Follows p₁ links p') (hg : Grouped o links n)
    (hm : p'.lookahead.kind.power ≤ m) (hone : m ≤ 1) (hops : ∀ l ∈ links, 1 < l.power) :
    RunR p (.expression m) (.ok n, p') := by
  obtain ⟨taken, others, n', q, rfl, hrun, hg', -, hf', hq⟩ := climb hf hm o
  cases hf' with
  | refl =>
    rw [List.append_nil] at hg
    exact .expression ho (hg.unique hg' ▸ hrun)
  | @step _ _ _ _ t op o' links ha =>
    have hpow : 1 < t.kind.power := hops (t, o') (by simp)
    rw [advance_lookahead ha] at hpow
    omega

/-- What the tokens of a nonterminal are to the parser: an operand, and links behind it. -/
theorem follows_of_derives {s : Nonterminal} {ts : List Token} {o : Node} {links : List Link}
    {p p' : Parser} (h : Derives s ts o links) (hr : Reads p ts p')
    (hs : s = .sentence → p'.lookahead.kind.power = 0) :
    (∀ l ∈ links, 1 < l.power) ∧
      ∃ p₁, RunR p .operand (.ok o, p₁) ∧ Follows p₁ links p' := by
  induction h generalizing p p' with
  | atom hk =>
    cases hr with
    | step ha _ hr => cases hr; exact ⟨by simp, p', .atom ha hk, .refl⟩
  | group hopen hclose _ hg ih =>
    cases hr with
    | step ha _ hr =>
    obtain ⟨q, hr₁, hr₂⟩ := hr.split
    cases hr₂ with
    | step hadv _ hr₂ =>
    cases hr₂
    have hlook := advance_lookahead hadv
    obtain ⟨hops, p₂, ho, hf⟩ := ih hr₁ (by simp)
    have hone : q.lookahead.kind.power ≤ 1 := by
      rw [← hlook, hclose]; exact Nat.le_refl 1
    have hrun := expression_of_follows ho hf hg hone (Nat.le_refl 1) hops
    have hmatch : q.matchAndAdvance .rightParen = (.ok (), p') :=
      matchAndAdvance_of_advance (hlook ▸ hclose) hadv
    exact ⟨by simp, p', .group ha hopen hrun hmatch, .refl⟩
  | last _ _ ih => exact ih hr (by simp)
  | negation hk _ hg ih =>
    cases hr with
    | step ha _ hr =>
    have hzero := hs rfl
    obtain ⟨hops, p₂, ho, hf⟩ := ih hr fun _ => hzero
    have hrun := expression_of_follows ho hf hg (Nat.le_of_eq hzero) (by omega) hops
    exact ⟨by simp, p', .negation ha hk hrun, .refl⟩
  | @link _ _ _ t _ _ _ _ _ _ hk _ ih ih' =>
    obtain ⟨q, hr₁, hr₂⟩ := hr.split
    cases hr₂ with
    | step ha _ hr₂ =>
    obtain ⟨-, p₁, ho, hf⟩ := ih hr₁ (by simp)
    cases hf
    obtain ⟨hops, p₂, ho', hf'⟩ := ih' hr₂ hs
    refine ⟨fun l hl => ?_, q, ho, .step ha hk ho' hf'⟩
    rcases List.mem_cons.1 hl with rfl | hl
    · exact power_pos_of_operator hk
    · exact hops l hl

/-! ## The whole text -/

/-- The text is one expression, read as this tree, and nothing stands behind it. -/
def Whole (input : String) (n : Node) : Prop :=
  ∃ p p', ofString input = .ok p ∧ p.parse 0 = (.ok n, p') ∧ p'.expectEnd = .ok ()

theorem expectEnd_eq_ok {p : Parser} : p.expectEnd = .ok () ↔ p.lookahead.kind = .endOfInput := by
  simp [expectEnd, check]

theorem sentence_of_parse {p p' : Parser} {n : Node} (h : p.parse 0 = (.ok n, p')) :
    ∃ ts, Reads p ts p' ∧ Sentence ts n := by
  obtain ⟨ts, s, o, links, hr, hd, hs, hg, -⟩ := (runR_perform p (.expression 0)).sound h
  refine ⟨ts, hr, o, links, ?_, hg⟩
  rcases hs with rfl | ⟨rfl, -⟩
  · exact hd.sentence
  · exact hd

theorem parse_of_sentence {p p' : Parser} {ts : List Token} {n : Node} (h : Sentence ts n)
    (hr : Reads p ts p') (hp : p'.lookahead.kind.power = 0) : p.parse 0 = (.ok n, p') := by
  obtain ⟨o, links, hd, hg⟩ := h
  obtain ⟨hops, p₁, ho, hf⟩ := follows_of_derives hd hr fun _ => hp
  exact (expression_of_follows ho hf hg (Nat.le_of_eq hp) (Nat.zero_le 1) hops).perform_eq

/-- A sentence at the start of the tokens is read as its tree, whatever token without a
power stands behind it. -/
theorem parse_sentence_prefix {input : String} {ts us : List Token} {last : Token} {n : Node}
    (htok : tokenize input = .ok (ts ++ last :: us)) (hlast : last.kind.power = 0)
    (hn : Sentence ts n) :
    ∃ p p', ofString input = .ok p ∧ p.parse 0 = (.ok n, p') ∧ p'.lookahead = last := by
  rcases ofString_eq input with ⟨p, hp, hs, htok'⟩ | ⟨e, -, he⟩
  · obtain ⟨p', hr, -, hp'⟩ := exists_reads hs (htok' ▸ htok) (by simp)
    obtain ⟨_, hhead⟩ := tokens_head hp'
    have hlook : p'.lookahead = last := (List.cons.inj hhead).1.symm
    exact ⟨p, p', hp, parse_of_sentence hn hr (by rw [hlook, hlast]), hlook⟩
  · rw [he] at htok
    cases htok

/-- **The parser reads the grammar.** A text is read as a whole, with the tree `n`, just
when its tokens before the end are a sentence and `n` is what the rule of precedence
makes of it. -/
theorem strict_parse_iff (input : String) (n : Node) :
    Whole input n ↔
      ∃ ts last, tokenize input = .ok (ts ++ [last]) ∧ last.kind = .endOfInput ∧ Sentence ts n := by
  constructor
  · rintro ⟨p, p', hp, hparse, hend⟩
    obtain ⟨ts, hr, hn⟩ := sentence_of_parse hparse
    rw [expectEnd_eq_ok] at hend
    refine ⟨ts, p'.lookahead, ?_, hend, hn⟩
    rcases ofString_eq input with ⟨q, hq, -, htok⟩ | ⟨e, he, -⟩
    · rw [hp] at hq
      cases hq
      rw [htok, hr.tokens_eq, tokens, if_pos hend]
      rfl
    · rw [hp] at he
      cases he
  · rintro ⟨ts, last, htok, hlast, hn⟩
    rcases ofString_eq input with ⟨p, hp, hs, htok'⟩ | ⟨e, -, he⟩
    · obtain ⟨p', hr, -, hp'⟩ := exists_reads hs (htok' ▸ htok) (by simp)
      have hlook : p'.lookahead.kind = .endOfInput := by
        obtain ⟨_, hhead⟩ := tokens_head hp'
        rw [← (List.cons.inj hhead).1, hlast]
      exact ⟨p, p', hp, parse_of_sentence hn hr (by rw [hlook]; rfl), expectEnd_eq_ok.2 hlook⟩
    · rw [he] at htok
      cases htok

end Condition.Parser
