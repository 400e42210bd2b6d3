/-
The nodes of the trees that a parser answers with.

A parser gets from one state to another by advances alone, so what is true at the start of a
text and kept by every advance is true in every state that it can be in (`Reachable`). In
each of them the lookahead is a token of the scanner, and the nodes of an answer have the
operands that their kinds want (`Node.WellMade`).

The tokens of a tree are those read for it, in their order, without the parentheses
(`Sentence.inorder_eq`). So the only error of evaluation that the shape of a node can bring
about is that of a number too large, and then the text has this number. Main statement:
`parse_wellMade`.
-/
import Condition.Proofs.ExactValue
import Condition.Proofs.ParsedPrefix
import Condition.Proofs.ParserRequests

namespace Condition

/-! ## The tokens of a tree -/

namespace Node

/-- The tokens of the tree, that of a node between those of its operands. -/
def inorder : Node → List Token
  | leaf t => [t]
  | unary t l => t :: l.inorder
  | rightOnly t r => t :: r.inorder
  | binary t l r => l.inorder ++ t :: r.inorder

theorem token_mem_inorder {x n : Node} (h : x ∈ n.preorder) : x.token ∈ n.inorder := by
  induction n with
  | leaf t =>
    simp only [preorder, List.mem_singleton] at h
    simp [h, inorder, token]
  | unary t n ih | rightOnly t n ih =>
    simp only [preorder, List.mem_cons] at h
    rcases h with rfl | h
    · simp [inorder, token]
    · simp [inorder, ih h]
  | binary t l r ihl ihr =>
    simp only [preorder, List.mem_cons, List.mem_append] at h
    rcases h with rfl | h | h
    · simp [inorder, token]
    · simp [inorder, ihl h]
    · simp [inorder, ihr h]

end Node

/-- The tokens of an operator and its right operand. -/
def Link.tokens (l : Link) : List Token := l.1 :: l.2.inorder

theorem Grouped.inorder_eq {o n : Node} {links : List Link} (h : Grouped o links n) :
    n.inorder = o.inorder ++ links.flatMap Link.tokens := by
  induction h with
  | operand => simp
  | split _ _ _ _ ihl ihr => simp [Node.inorder, Link.tokens, ihl, ihr]

/-- A token other than the parentheses, which leave no node. -/
def Token.HasNode (t : Token) : Bool := t.kind ≠ .leftParen && t.kind ≠ .rightParen

theorem Derives.inorder_eq {s : Nonterminal} {ts : List Token} {o : Node} {links : List Link}
    (h : Derives s ts o links) :
    o.inorder ++ links.flatMap Link.tokens = ts.filter Token.HasNode := by
  induction h with
  | atom hk =>
    rcases hk with hk | hk <;> simp [Node.inorder, Token.HasNode, hk]
  | group hopen hclose _ hg ih =>
    rw [← hg.inorder_eq] at ih
    simp [Token.HasNode, hopen, hclose, ih]
  | last _ _ ih => exact ih
  | negation hk _ hg ih =>
    rw [← hg.inorder_eq] at ih
    simp [Node.inorder, Token.HasNode, hk, ih]
  | link _ _ hk _ ih ih' =>
    simp only [List.flatMap_nil, List.append_nil] at ih
    simp [Link.tokens, Token.HasNode, hk, ih, ← ih']

theorem Sentence.inorder_eq {ts : List Token} {n : Node} (h : Sentence ts n) :
    n.inorder = ts.filter Token.HasNode := by
  obtain ⟨o, links, hd, hg⟩ := h
  rw [hg.inorder_eq, hd.inorder_eq]

/-! ## The nodes of a tree -/

/-- A number or an identifier has text and no operand, a negation has a left operand only
and an operator has both; nothing else makes a node. -/
def Node.WellMade (n : Node) : Prop :=
  match n.token.kind with
  | .number | .identifier => n.token.text ≠ "" ∧ n.left? = none ∧ n.right? = none
  | .not => n.left? ≠ none ∧ n.right? = none
  | .operator _ => n.left? ≠ none ∧ n.right? ≠ none
  | .leftParen | .rightParen | .endOfInput => False

theorem Node.Regular.wellMade {n : Node} (h : n.Regular) : n.WellMade := by
  cases h with
  | @leaf t hwf hk =>
    rcases hk with hk | hk <;> simp only [Token.WellFormed, hk] at hwf <;>
      simp [WellMade, token, left?, right?, hk, hwf.1]
  | negation _ hk => simp [WellMade, token, left?, right?, hk]
  | binary _ hk => simp [WellMade, token, left?, right?, hk]

/-! ## The states of a parser -/

namespace Parser

/-- The states that a parser of the text can be in, whatever was asked of it and whether or
not it failed, those in the midst of a request included. -/
inductive Reachable (input : String) : Parser → Prop
  | start {p} : ofString input = .ok p → Reachable input p
  | advance {p} : Reachable input p → Reachable input p.advance.2
  | serve {p} (request : Request) : Reachable input p → Reachable input (p.serve request)
  | leading {p} (what : Parselet) (t : Token) : Reachable input p →
      Reachable input (what.leading p t).2
  | following {p} (what : Parselet) (t : Token) (left : Node) : Reachable input p →
      Reachable input (what.following p t left).2

section

variable {I : Parser → Prop} (hadvance : ∀ p, I p → I p.advance.2)
include hadvance

theorem leading_preserves {p : Parser} (hp : I p) (what : Parselet) (t : Token) :
    I (what.leading p t).2 := by
  have hparse (m : Nat) : I (p.parse m).2 := perform_preserves hadvance hp (.expression m)
  cases what with
  | atom | binary | unsupported => exact hp
  | unary =>
    have hoperand := hparse t.kind.power
    rcases h : p.parse t.kind.power with ⟨_ | _, p'⟩ <;> simpa [Parselet.leading, h] using hoperand
  | group =>
    have hinner := hparse t.kind.power
    rcases h : p.parse t.kind.power with ⟨_ | _, p'⟩
    · simpa [Parselet.leading, h] using hinner
    · rw [h] at hinner
      have hclosed := matchAndAdvance_preserves hadvance hinner .rightParen
      rcases hm : p'.matchAndAdvance .rightParen with ⟨_ | _, p''⟩ <;>
        simpa [Parselet.leading, h, hm] using hclosed

theorem following_preserves {p : Parser} (hp : I p) (what : Parselet) (t : Token) (left : Node) :
    I (what.following p t left).2 := by
  cases what with
  | atom | unary | group | unsupported => exact hp
  | binary =>
    have hoperand := perform_preserves hadvance hp (.expression t.kind.power)
    simp only [perform] at hoperand
    rcases h : p.parse t.kind.power with ⟨_ | _, p'⟩ <;>
      simpa [Parselet.following, h] using hoperand

/-- What is true at the start of a text and kept by every advance is true in every state. -/
theorem Reachable.preserves {input : String} {p : Parser}
    (hstart : ∀ p, ofString input = .ok p → I p) (h : Reachable input p) : I p := by
  induction h with
  | start hp => exact hstart _ hp
  | advance _ ih => exact hadvance _ ih
  | serve request _ ih => exact serve_preserves hadvance ih request
  | leading what t _ ih => exact leading_preserves hadvance ih what t
  | following what t left _ ih => exact following_preserves hadvance ih what t left

end

theorem Reachable.scanned {input : String} {p : Parser} (h : Reachable input p) : p.Scanned :=
  h.preserves (fun _ hp => hp.advance rfl) fun _ hp => scanned_ofString hp

end Parser

/-! ## Errors of evaluation -/

/-- Calls of the scanner, none of which fails, come to the token in the text. -/
def Token.ScannedIn (input : String) (t : Token) : Prop :=
  ∃ ts s, Scanner.Scans (.ofString input) ts s ∧ t ∈ ts

theorem scannedIn_of_mem {input : String} {tree n : Node} (h : parseExpression input = .ok tree)
    (hn : n ∈ tree.preorder) : n.token.ScannedIn input := by
  obtain ⟨p, p', hp, hparse⟩ := Parser.parseExpression_eq_ok.1 h
  obtain ⟨ts, s, hscans, -, hsentence⟩ := Parser.scans_of_parse hp hparse
  have hmem := Node.token_mem_inorder hn
  rw [hsentence.inorder_eq] at hmem
  exact ⟨ts, s, hscans, (List.mem_filter.1 hmem).1⟩

theorem fault_of_evaluateValue {expression : String} {vars : Variables} {e : EvalError}
    (h : evaluateValue expression vars = .error e) :
    (∃ e', e = .parse e') ∨
      ∃ n : Node, n.token.ScannedIn expression ∧ n.Regular ∧ Fault vars n e := by
  unfold evaluateValue at h
  split at h
  · next e' _ =>
    cases h
    exact .inl ⟨e', rfl⟩
  · next tree hparse =>
    obtain ⟨n, hn, hreg, hfault⟩ := exists_fault (writable_of_parseExpression hparse).regular h
    exact .inr ⟨n, scannedIn_of_mem hparse hn, hreg, hfault⟩

/-- **Answers are well made in every state.** Whatever was asked of a parser before, the nodes
of the trees that it answers with have the operands that their kinds want. So evaluation
misses no operand and meets no node that has no meaning; and a number that it refuses is a
token of the text, made of digits, and too large. -/
theorem parse_wellMade :
    (∀ input p, Parser.Reachable input p → ∀ m tree p', p.parse m = (.ok tree, p') →
      ∀ n ∈ tree.preorder, n.WellMade) ∧
    ∀ expression vars,
      (∀ k, evaluateValue expression vars ≠ .error (.missingOperand k)) ∧
      (∀ k, evaluateValue expression vars ≠ .error (.unsupportedNode k)) ∧
      ∀ text, evaluateValue expression vars = .error (.invalidNumber text) →
        (∃ t : Token, t.ScannedIn expression ∧ t.kind = .number ∧ t.text = text) ∧
        (∀ c ∈ text.toList, c.isDigit = true) ∧ 2 ^ 63 - 1 < decimal text := by
  refine ⟨fun input p hp m tree p' h n hn => ?_, fun expression vars =>
    ⟨fun k h => ?_, fun k h => ?_, fun text h => ?_⟩⟩
  · have hreg := (hp.scanned.writable h).regular
    exact (Node.forall_preorder (P := Node.Regular) Node.Regular.operand hreg n hn).wellMade
  · rcases fault_of_evaluateValue h with ⟨e, he⟩ | ⟨n, -, -, hfault⟩
    · cases he
    · cases hfault
  · rcases fault_of_evaluateValue h with ⟨e, he⟩ | ⟨n, -, -, hfault⟩
    · cases he
    · cases hfault
  · rcases fault_of_evaluateValue h with ⟨e, he⟩ | ⟨n, hscanned, hreg, hfault⟩
    · cases he
    · cases hfault with
      | @literal t hk hread =>
        cases hreg with
        | leaf hwf =>
          refine ⟨⟨t, hscanned, hk, rfl⟩, ?_, ?_⟩
          · simp only [Token.WellFormed, hk] at hwf
            exact hwf.2
          · rw [Integer.readDecimal?_of_number hwf hk, Integer.fit?_eq_none_iff, InRange] at hread
            omega

/-- A parser that has failed at the parenthesis reads what stands behind it; leading zeros do
not make a number too large. -/
theorem parse_wellMade_after_failure :
    (∃ p tree p', Parser.Reachable ") 1 - x" p ∧ p.parse 0 = (.ok tree, p') ∧
      tree.token.kind = .operator (.arithmetic .minus) ∧ ∀ n ∈ tree.preorder, n.WellMade) ∧
    evaluateValue "007 < 00009223372036854775808 x" .empty =
      .error (.invalidNumber "00009223372036854775808") ∧
    2 ^ 63 - 1 < decimal "00009223372036854775808" := by
  have hp : Parser.ofString ") 1 - x" = .ok ⟨⟨[' ', '1', ' ', '-', ' ', 'x'], 1⟩,
      ⟨.rightParen, "", 0⟩, #[⟨.rightParen, "", 0⟩]⟩ := by rfl
  have hfails : Parser.serve ⟨⟨[' ', '1', ' ', '-', ' ', 'x'], 1⟩, ⟨.rightParen, "", 0⟩,
      #[⟨.rightParen, "", 0⟩]⟩ (.parse 0) = ⟨⟨[' ', '-', ' ', 'x'], 3⟩, ⟨.number, "1", 2⟩,
        #[⟨.rightParen, "", 0⟩, ⟨.number, "1", 2⟩]⟩ := by with_unfolding_all rfl
  have hreach := Parser.Reachable.serve (.parse 0) (.start hp)
  rw [hfails] at hreach
  have hparse : Parser.parse ⟨⟨[' ', '-', ' ', 'x'], 3⟩, ⟨.number, "1", 2⟩,
      #[⟨.rightParen, "", 0⟩, ⟨.number, "1", 2⟩]⟩ 0 =
        (.ok (.binary ⟨.operator (.arithmetic .minus), "", 4⟩ (.leaf ⟨.number, "1", 2⟩)
          (.leaf ⟨.identifier, "x", 6⟩)), ⟨⟨[], 7⟩, ⟨.endOfInput, "", 7⟩,
        #[⟨.rightParen, "", 0⟩, ⟨.number, "1", 2⟩, ⟨.operator (.arithmetic .minus), "", 4⟩,
          ⟨.identifier, "x", 6⟩, ⟨.endOfInput, "", 7⟩]⟩) := by with_unfolding_all rfl
  have heval : evaluateValue "007 < 00009223372036854775808 x" .empty =
      .error (.invalidNumber "00009223372036854775808") := by decide +kernel
  obtain ⟨hmade, hnumber⟩ := parse_wellMade
  exact ⟨⟨_, _, _, hreach, hparse, rfl, hmade _ _ hreach _ _ _ hparse⟩, heval,
    ((hnumber _ _).2.2 _ heval).2.2⟩

end Condition
