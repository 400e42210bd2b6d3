/-
Reading expression trees off text by precedence climbing.

A `Parser` is a scanner with one token of lookahead. `parse m` reads the longest
expression whose operators all bind more tightly than `m`: an operand first, then
operators with their right operands as long as the lookahead's power is above
`m`. A right operand is read at its operator's own power, so that a chain of
operators of one power groups to the left.

What a kind of token can do in either position is its `Parselet`. Main
statements: `parse_eq` and `extend_eq`, the two equations by which everything else
about parsing is shown; the recursion ends because every token taken brings the
parser nearer to the end of the text (`advance_size_lt`).
-/
import Condition.Lexer
import Condition.Tree

namespace Condition

/-- The position in which a token was met: at the start of an operand, or behind one. -/
inductive Role
  | leading
  | following
deriving DecidableEq, Repr

def Role.name : Role → String
  | .leading => "prefix"
  | .following => "infix"

inductive ParseError
  | lex (e : LexError)
  /-- A token of this kind has no meaning in this role. -/
  | dispatch (kind : TokenKind) (role : Role) (pos : Nat)
  | unexpectedToken (expected found : TokenKind) (pos : Nat)
deriving DecidableEq, Repr

/-- The text of a misplaced token without the mention of where it was noticed. -/
def dispatchMessage (kind : TokenKind) (role : Role) (pos : Nat) : String :=
  "token " ++ kind.name ++ " at " ++ toString pos ++ " cannot be parsed as " ++ role.name

def ParseError.message : ParseError → String
  | .lex e => "lex error: " ++ e.message
  | .dispatch kind role pos => "dispatch error: " ++ dispatchMessage kind role pos
  | .unexpectedToken expected found pos =>
    "unexpected token at " ++ toString pos ++ ": expected " ++ expected.name ++ ", found " ++
      found.name

/-! ## What a token can do -/

inductive Parselet
  /-- A number or a name: a leaf. -/
  | atom
  /-- Takes the expression behind it as its operand. -/
  | unary
  /-- Stands between two operands. -/
  | binary
  /-- Opens a group, which leaves no node of its own. -/
  | group
  /-- Has no meaning in either role. -/
  | unsupported
deriving DecidableEq, Repr

def Parselet.ofKind : TokenKind → Parselet
  | .number | .identifier => .atom
  | .not => .unary
  | .operator _ => .binary
  | .leftParen => .group
  | .rightParen | .endOfInput => .unsupported

/-! ## The parser's state -/

/-- The scanner behind the lookahead, the lookahead, and all tokens scanned so far, of
which the lookahead is the last. -/
structure Parser where
  scanner : Scanner
  lookahead : Token
  scanned : Array Token
deriving Repr

namespace Parser

/-- The result of a step and the parser after it: a failed step has a parser too. -/
abbrev Step (α : Type) := Except ParseError α × Parser

/-- A parser at the start of the text. -/
def ofString (input : String) : Except LexError Parser :=
  match (Scanner.ofString input).next with
  | (.ok t, s) => .ok ⟨s, t, #[t]⟩
  | (.error e, _) => .error e

/-- Takes the lookahead and scans the next one. A character that cannot be scanned is
passed over, and the lookahead stays. -/
def advance (p : Parser) : Step Token :=
  match p.scanner.next with
  | (.ok t, s) => (.ok p.lookahead, ⟨s, t, p.scanned.push t⟩)
  | (.error e, s) => (.error (.lex e), { p with scanner := s })

/-- Whether the lookahead is of this kind. -/
def check (p : Parser) (expected : TokenKind) : Except ParseError Unit :=
  if p.lookahead.kind = expected then .ok ()
  else .error (.unexpectedToken expected p.lookahead.kind p.lookahead.pos)

/-- Takes the lookahead if it is of this kind. -/
def matchAndAdvance (p : Parser) (kind : TokenKind) : Step Unit :=
  match p.check kind with
  | .error e => (.error e, p)
  | .ok () =>
    match p.advance with
    | (.error e, p') => (.error e, p')
    | (.ok _, p') => (.ok (), p')

/-- Whether the whole text has been read. -/
def expectEnd (p : Parser) : Except ParseError Unit := p.check .endOfInput

/-! ## How far the end is -/

/-- A bound on the tokens that can still be taken before the end. -/
def size (p : Parser) : Nat :=
  if p.lookahead.kind = .endOfInput then 0 else p.scanner.rest.length + 1

theorem advance_size_lt {p p' : Parser} {t : Token} (h : p.advance = (.ok t, p'))
    (ht : t.kind ≠ .endOfInput) : p'.size < p.size := by
  have hle := p.scanner.next_length_le
  have hlt := @Scanner.next_length_lt p.scanner
  unfold advance at h
  split at h
  · next t' s hs =>
    simp only [Prod.mk.injEq, Except.ok.injEq] at h
    obtain ⟨rfl, rfl⟩ := h
    rw [hs] at hle hlt
    simp only [size, ht, if_false]
    split
    · omega
    · next h' => simpa using hlt (by simpa using h')
  · simp at h

theorem advance_lookahead {p p' : Parser} {t : Token} (h : p.advance = (.ok t, p')) :
    t = p.lookahead := by
  unfold advance at h
  split at h <;> simp_all

theorem matchAndAdvance_size_lt {p p' : Parser} {kind : TokenKind} (hk : kind ≠ .endOfInput)
    (h : p.matchAndAdvance kind = (.ok (), p')) : p'.size < p.size := by
  unfold matchAndAdvance check at h
  by_cases hp : p.lookahead.kind = kind
  · simp only [hp, if_true] at h
    split at h
    · simp at h
    · next t p1 ha =>
      simp only [Prod.mk.injEq, true_and] at h
      subst h
      exact advance_size_lt ha (by rw [advance_lookahead ha, hp]; exact hk)
  · simp [hp] at h

/-! ## Expressions -/

mutual

/-- `parse`, with what its recursion needs: a parser that has read an expression is
nearer to the end. -/
def parseNearer (p : Parser) (m : Nat) :
    { r : Step Node // ∀ n, r.1 = .ok n → r.2.size < p.size } :=
  match ha : p.advance with
  | (.error e, p') => ⟨(.error e, p'), by simp⟩
  | (.ok t, p1) =>
    match hk : t.kind with
    | .number | .identifier =>
      have h1 : p1.size < p.size := advance_size_lt ha (by simp [hk])
      let r := extendNearer p1 m (.leaf t)
      ⟨r.1, fun n hn => Nat.lt_of_le_of_lt (r.2 n hn) h1⟩
    | .not =>
      have h1 : p1.size < p.size := advance_size_lt ha (by simp [hk])
      match parseNearer p1 t.kind.power with
      | ⟨(.error e, p'), _⟩ => ⟨(.error e, p'), by simp⟩
      | ⟨(.ok operand, p2), h2⟩ =>
        have h2 : p2.size < p1.size := h2 operand rfl
        let r := extendNearer p2 m (.unary t operand)
        ⟨r.1, fun n hn => Nat.lt_of_le_of_lt (r.2 n hn) (Nat.lt_trans h2 h1)⟩
    | .leftParen =>
      have h1 : p1.size < p.size := advance_size_lt ha (by simp [hk])
      match parseNearer p1 t.kind.power with
      | ⟨(.error e, p'), _⟩ => ⟨(.error e, p'), by simp⟩
      | ⟨(.ok inner, p2), h2⟩ =>
        have h2 : p2.size < p1.size := h2 inner rfl
        match hm : p2.matchAndAdvance .rightParen with
        | (.error e, p') => ⟨(.error e, p'), by simp⟩
        | (.ok (), p3) =>
          have h3 : p3.size < p2.size := matchAndAdvance_size_lt (by simp) hm
          let r := extendNearer p3 m inner
          ⟨r.1, fun n hn =>
            Nat.lt_of_le_of_lt (r.2 n hn) (Nat.lt_trans h3 (Nat.lt_trans h2 h1))⟩
    | .operator _ | .rightParen | .endOfInput =>
      ⟨(.error (.dispatch t.kind .leading t.pos), p1), by simp⟩
termination_by 2 * p.size + 1

/-- `extend`, with what its recursion needs. -/
def extendNearer (p : Parser) (m : Nat) (left : Node) :
    { r : Step Node // ∀ n, r.1 = .ok n → r.2.size ≤ p.size } :=
  if m < p.lookahead.kind.power then
    match ha : p.advance with
    | (.error e, p') => ⟨(.error e, p'), by simp⟩
    | (.ok t, p1) =>
      match hk : t.kind with
      | .operator _ =>
        have h1 : p1.size < p.size := advance_size_lt ha (by simp [hk])
        match parseNearer p1 t.kind.power with
        | ⟨(.error e, p'), _⟩ => ⟨(.error e, p'), by simp⟩
        | ⟨(.ok right, p2), h2⟩ =>
          have h2 : p2.size < p1.size := h2 right rfl
          let r := extendNearer p2 m (.binary t left right)
          ⟨r.1, fun n hn =>
            Nat.le_trans (r.2 n hn) (Nat.le_of_lt (Nat.lt_trans h2 h1))⟩
      | .number | .identifier | .not | .leftParen | .rightParen | .endOfInput =>
        ⟨(.error (.dispatch t.kind .following t.pos), p1), by simp⟩
  else ⟨(.ok left, p), by simp⟩
termination_by 2 * p.size

end

/-- Reads the longest expression whose operators all have a power above `m`. -/
def parse (p : Parser) (m : Nat) : Step Node := (p.parseNearer m).1

/-- Goes on with an expression already read for as long as the lookahead's power is above `m`. -/
def extend (p : Parser) (m : Nat) (left : Node) : Step Node := (p.extendNearer m left).1

theorem parse_size_lt {p p' : Parser} {m : Nat} {n : Node} (h : p.parse m = (.ok n, p')) :
    p'.size < p.size := by
  have := (p.parseNearer m).2 n (by rw [← parse, h])
  rwa [← parse, h] at this

end Parser

/-- Reads the operand that starts with a token already taken. -/
def Parselet.leading (what : Parselet) (p : Parser) (t : Token) : Parser.Step Node :=
  match what with
  | .atom => (.ok (.leaf t), p)
  | .unary =>
    match p.parse t.kind.power with
    | (.error e, p') => (.error e, p')
    | (.ok operand, p') => (.ok (.unary t operand), p')
  | .group =>
    match p.parse t.kind.power with
    | (.error e, p') => (.error e, p')
    | (.ok inner, p') =>
      match p'.matchAndAdvance .rightParen with
      | (.error e, p'') => (.error e, p'')
      | (.ok (), p'') => (.ok inner, p'')
  | .binary | .unsupported => (.error (.dispatch t.kind .leading t.pos), p)

/-- Joins the operand read before a token already taken with the one behind it. -/
def Parselet.following (what : Parselet) (p : Parser) (t : Token) (left : Node) :
    Parser.Step Node :=
  match what with
  | .binary =>
    match p.parse t.kind.power with
    | (.error e, p') => (.error e, p')
    | (.ok right, p') => (.ok (.binary t left right), p')
  | .atom | .unary | .group | .unsupported => (.error (.dispatch t.kind .following t.pos), p)

namespace Parser

theorem parse_eq (p : Parser) (m : Nat) :
    p.parse m =
      match p.advance with
      | (.error e, p') => (.error e, p')
      | (.ok t, p') =>
        match (Parselet.ofKind t.kind).leading p' t with
        | (.error e, p'') => (.error e, p'')
        | (.ok left, p'') => p''.extend m left := by
  rw [parse, parseNearer]
  split
  · next ha => simp [ha]
  · next t p1 ha =>
    simp only [ha]
    split
    · next hk => simp [hk, Parselet.ofKind, Parselet.leading, extend]
    · next hk => simp [hk, Parselet.ofKind, Parselet.leading, extend]
    · next hk =>
      simp only [hk, Parselet.ofKind, Parselet.leading, parse, extend]
      split <;> simp_all
    · next hk =>
      simp only [hk, Parselet.ofKind, Parselet.leading, parse, extend]
      split
      · simp_all
      · next hr =>
        simp only [hr]
        split <;> simp_all
    · next hk => simp [hk, Parselet.ofKind, Parselet.leading]
    · next hk => simp [hk, Parselet.ofKind, Parselet.leading]
    · next hk => simp [hk, Parselet.ofKind, Parselet.leading]

theorem extend_eq (p : Parser) (m : Nat) (left : Node) :
    p.extend m left =
      if m < p.lookahead.kind.power then
        match p.advance with
        | (.error e, p') => (.error e, p')
        | (.ok t, p') =>
          match (Parselet.ofKind t.kind).following p' t left with
          | (.error e, p'') => (.error e, p'')
          | (.ok tree, p'') => p''.extend m tree
      else (.ok left, p) := by
  rw [extend, extendNearer]
  split
  · split
    · next ha => simp [ha]
    · next t p1 ha =>
      simp only [ha]
      split
      · next hk =>
        simp only [hk, Parselet.ofKind, Parselet.following, parse, extend]
        split <;> simp_all
      all_goals
        next hk => simp [hk, Parselet.ofKind, Parselet.following]
  · rfl

end Parser

/-- The expression at the start of the text. Tokens behind it are not looked at. -/
def parseExpression (input : String) : Except ParseError Node :=
  match Parser.ofString input with
  | .error e => .error (.lex e)
  | .ok p => (p.parse 0).1

end Condition
