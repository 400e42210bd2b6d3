/-
A parser that is asked for one thing after another.

All that a request does to the parser it does by advances, so what an advance keeps is kept
by every request, whether it succeeds or fails at any depth (`perform_preserves`). An
advance that succeeds takes the head off the scanner's stream, and one that fails takes
nothing off it. Hence a parser that has scanned the first `n + 1` tokens of the text's
stream has the last of them as its lookahead and the rest of the stream ahead of its
scanner (`Tracks`), after whatever requests. Main statement: `lookahead_served`.
-/
import Condition.Proofs.ParserRuns
import Condition.Proofs.ScannerCalls
import Mathlib.Data.List.Basic

namespace Condition.Parser

/-! ## Requests -/

/-- What can be asked of a parser. -/
inductive Request
  | parse (m : Nat)
  | matchAndAdvance (kind : TokenKind)
  | expectEnd
  | peek

/-- The parser after a request, which may have failed. -/
def serve (p : Parser) : Request → Parser
  | .parse m => (p.parse m).2
  | .matchAndAdvance kind => (p.matchAndAdvance kind).2
  | .expectEnd | .peek => p

/-- The parser after requests, one after another. -/
def serveAll (p : Parser) (requests : List Request) : Parser := requests.foldl serve p

/-- How many advances have succeeded: each has scanned a token, and the first token was
scanned before them. -/
def advances (p : Parser) : Nat := p.scanned.size - 1

/-- The lookahead, and what it can do in an expression. -/
def ahead (p : Parser) : Token × Parselet := (p.lookahead, .ofKind p.lookahead.kind)

/-- Reading an expression starts with what the parselet makes of the token, and going on behind an
operand joins it with what stands behind in the parselet's way. -/
structure Dispatches (p : Parser) (t : Token) (what : Parselet) : Prop where
  parse : ∀ m, p.parse m =
    match p.advance with
    | (.error e, p') => (.error e, p')
    | (.ok _, p') =>
      match what.leading p' t with
      | (.error e, p'') => (.error e, p'')
      | (.ok left, p'') => p''.extend m left
  extend : ∀ m left, m < t.kind.power → p.extend m left =
    match p.advance with
    | (.error e, p') => (.error e, p')
    | (.ok _, p') =>
      match what.following p' t left with
      | (.error e, p'') => (.error e, p'')
      | (.ok tree, p'') => p''.extend m tree

theorem dispatches_ahead (p : Parser) : p.Dispatches p.ahead.1 p.ahead.2 := by
  constructor
  · intro m
    rw [parse_eq]
    -- The token that an advance takes is the lookahead, so its parselet is the one held with it.
    rcases ha : p.advance with ⟨e | t, p'⟩
    · rfl
    · rw [advance_lookahead ha]
      rfl
  · intro m left hm
    have hpower : m < p.lookahead.kind.power := hm
    rw [extend_eq, if_pos hpower]
    rcases ha : p.advance with ⟨e | t, p'⟩
    · rfl
    · rw [advance_lookahead ha]
      rfl

/-! ## What advances keep -/

theorem matchAndAdvance_cases (p : Parser) (kind : TokenKind) :
    (p.lookahead.kind ≠ kind ∧ p.matchAndAdvance kind =
      (.error (.unexpectedToken kind p.lookahead.kind p.lookahead.pos), p)) ∨
    (p.lookahead.kind = kind ∧
      p.matchAndAdvance kind = (p.advance.1.map fun _ => (), p.advance.2)) := by
  unfold matchAndAdvance check
  by_cases hk : p.lookahead.kind = kind
  · refine .inr ⟨hk, ?_⟩
    rw [if_pos hk]
    rcases p.advance with ⟨_ | _, p'⟩ <;> rfl
  · exact .inl ⟨hk, by rw [if_neg hk]⟩

section

variable {I : Parser → Prop} (hadvance : ∀ p, I p → I p.advance.2)
include hadvance

theorem preserves_of_advance {p p' : Parser} {r : Except ParseError Token}
    (ha : p.advance = (r, p')) (hp : I p) : I p' := by
  have := hadvance p hp
  rwa [ha] at this

theorem matchAndAdvance_preserves {p : Parser} (hp : I p) (kind : TokenKind) :
    I (p.matchAndAdvance kind).2 := by
  rcases p.matchAndAdvance_cases kind with ⟨-, h⟩ | ⟨-, h⟩
  · rw [h]
    exact hp
  · rw [h]
    exact hadvance p hp

theorem preserves_of_matchAndAdvance {p p' : Parser} {kind : TokenKind}
    {r : Except ParseError Unit} (hm : p.matchAndAdvance kind = (r, p')) (hp : I p) : I p' := by
  have := matchAndAdvance_preserves hadvance hp kind
  rwa [hm] at this

/-- What every advance keeps is kept by a whole run, also by one that fails half-way. -/
theorem RunR.preserves {p : Parser} {task : Task} {r : Step Node} (h : RunR p task r)
    (hp : I p) : I r.2 := by
  induction h with
  | stuck ha | atom ha _ | noOperand ha _ => exact preserves_of_advance hadvance ha hp
  | restStuck _ ha | noOperator _ ha _ => exact preserves_of_advance hadvance ha hp
  | negation ha _ _ ih | negationFails ha _ _ ih | groupFails ha _ _ ih =>
    exact ih (preserves_of_advance hadvance ha hp)
  | group ha _ _ hm ih | groupOpen ha _ _ hm ih =>
    have hinner := ih (preserves_of_advance hadvance ha hp)
    exact preserves_of_matchAndAdvance hadvance hm hinner
  | expression _ _ ih₁ ih₂ => exact ih₂ (ih₁ hp)
  | expressionFails _ ih => exact ih hp
  | stop => exact hp
  | operator _ ha _ _ _ ih₁ ih₂ => exact ih₂ (ih₁ (preserves_of_advance hadvance ha hp))
  | operatorFails _ ha _ _ ih => exact ih (preserves_of_advance hadvance ha hp)

theorem perform_preserves {p : Parser} (hp : I p) (task : Task) : I (p.perform task).2 :=
  (runR_perform p task).preserves hadvance hp

theorem serve_preserves {p : Parser} (hp : I p) (request : Request) : I (p.serve request) := by
  cases request with
  | parse m => exact perform_preserves hadvance hp (.expression m)
  | matchAndAdvance kind => exact matchAndAdvance_preserves hadvance hp kind
  | expectEnd | peek => exact hp

theorem serveAll_preserves {p : Parser} (hp : I p) (requests : List Request) :
    I (p.serveAll requests) := by
  induction requests generalizing p with
  | nil => exact hp
  | cons request requests ih => exact ih (serve_preserves hadvance hp request)

end

/-! ## The stream of the text -/

/-- The parser has scanned the first tokens of the stream, of which the last is its
lookahead, and its scanner has the others ahead. -/
structure Tracks (stream : Nat → Token) (p : Parser) : Prop where
  scanned : p.scanned.toList = (List.range (p.advances + 1)).map stream
  lookahead : p.lookahead = stream p.advances
  rest : ∀ i, p.scanner.stream i = stream (p.advances + 1 + i)

theorem tracks_ofString {input : String} {p : Parser} (h : ofString input = .ok p) :
    Tracks (Scanner.ofString input).stream p := by
  unfold ofString at h
  split at h
  · next t s hs =>
    cases h
    obtain ⟨hhead, htail⟩ := Scanner.stream_of_ok hs
    refine ⟨by simp [advances, hhead], hhead.symm, fun i => ?_⟩
    rw [← htail i]
    simp [advances, Nat.add_comm]
  · cases h

/-- What an advance does to a parser: it takes the head off its scanner's stream, or its
scanner passes the character of an error. -/
inductive AdvanceR (p : Parser) : Step Token → Prop
  | takes {t s} : p.scanner.next = (.ok t, s) →
      AdvanceR p (.ok p.lookahead, ⟨s, t, p.scanned.push t⟩)
  | passes {e s} : p.scanner.next = (.error e, s) →
      AdvanceR p (.error (.lex e), ⟨s, p.lookahead, p.scanned⟩)

theorem advanceR (p : Parser) : AdvanceR p p.advance := by
  unfold advance
  split
  · next hs => exact .takes hs
  · next hs => exact .passes hs

theorem Tracks.advances_push {stream : Nat → Token} {p : Parser} (h : Tracks stream p)
    (s : Scanner) (t : Token) : advances ⟨s, t, p.scanned.push t⟩ = p.advances + 1 := by
  have hlength : p.scanned.size = p.advances + 1 := by simpa using congrArg List.length h.scanned
  rw [← hlength, advances, Array.size_push]
  rfl

theorem Tracks.advance {stream : Nat → Token} {p : Parser} (h : Tracks stream p) :
    Tracks stream p.advance.2 := by
  have hcount := h.advances_push
  obtain ⟨hscanned, hlook, hrest⟩ := h
  have hr := p.advanceR
  generalize p.advance = r at hr
  cases hr with
  | @takes t s hs =>
    obtain ⟨hhead, htail⟩ := Scanner.stream_of_ok hs
    have ht : t = stream (p.advances + 1) := by rw [← hhead, hrest 0, Nat.add_zero]
    refine ⟨?_, ?_, fun i => ?_⟩
    · rw [hcount, List.range_succ, List.map_append, ← hscanned, Array.toList_push, ht]
      rfl
    · rw [hcount]
      exact ht
    · rw [hcount, ← htail i, hrest (i + 1)]
      congr 1
      omega
  | passes hs =>
    refine ⟨hscanned, hlook, fun i => ?_⟩
    rw [← Scanner.stream_of_error hs i]
    exact hrest i

/-- A failed match leaves the parser as it is, or its scanner has passed the character of
the error and nothing else has changed. -/
def FailsSafely (p : Parser) (kind : TokenKind) (e : ParseError) (p' : Parser) : Prop :=
  (e = .unexpectedToken kind p.lookahead.kind p.lookahead.pos ∧ p' = p) ∨
    ∃ e', e = .lex e' ∧ p'.lookahead = p.lookahead ∧ p'.scanned = p.scanned ∧
      p.scanner.Passes e' p'.scanner

theorem failsSafely_of_matchAndAdvance {p p' : Parser} {kind : TokenKind} {e : ParseError}
    (h : p.matchAndAdvance kind = (.error e, p')) : p.FailsSafely kind e p' := by
  rcases p.matchAndAdvance_cases kind with ⟨-, hm⟩ | ⟨-, hm⟩
  · rw [hm] at h
    cases h
    exact .inl ⟨rfl, rfl⟩
  · rw [hm] at h
    have hr := p.advanceR
    generalize p.advance = r at h hr
    cases hr with
    | takes => cases h
    | passes hs =>
      cases h
      exact .inr ⟨_, rfl, rfl, rfl, Scanner.passes_of_next hs⟩

/-- **No token is lost or met twice.** After any requests, failed ones among them, the
lookahead is the token of the text's stream whose number is that of the advances made, with
its kind's parselet, and these two are what the next expression begins with; the tokens
scanned are those up to it and the scanner has those behind it ahead. Behind the end the
stream has the same end again. Asking for the end or looking at the lookahead changes
nothing, and so does a failed match, unless it is for a character that the scanner then has
passed. -/
theorem lookahead_served {input : String} {p : Parser} (hp : ofString input = .ok p)
    (requests : List Request) :
    let stream := (Scanner.ofString input).stream
    let q := p.serveAll requests
    (Scanner.ofString input).Delivers stream ∧
    (∀ i, (stream i).kind = .endOfInput → stream (i + 1) = stream i) ∧
    q.ahead = (stream q.advances, .ofKind (stream q.advances).kind) ∧
    q.Dispatches (stream q.advances) (.ofKind (stream q.advances).kind) ∧
    q.scanned.toList = (List.range (q.advances + 1)).map stream ∧
    (∀ i, q.scanner.stream i = stream (q.advances + 1 + i)) ∧
    q.serve .expectEnd = q ∧ q.serve .peek = q ∧
    ∀ kind e p', q.matchAndAdvance kind = (.error e, p') → q.FailsSafely kind e p' := by
  intro stream q
  have htracks : Tracks stream q :=
    serveAll_preserves (fun _ h => h.advance) (tracks_ofString hp) requests
  have hahead : q.ahead = (stream q.advances, .ofKind (stream q.advances).kind) := by
    rw [ahead, htracks.lookahead]
  have hdispatches := q.dispatches_ahead
  rw [hahead] at hdispatches
  exact ⟨Scanner.delivers_stream _, fun _ => Scanner.stream_of_end, hahead, hdispatches,
    htracks.scanned, htracks.rest, rfl, rfl, fun _ _ _ => failsSafely_of_matchAndAdvance⟩

/-- The expression breaks off at the question mark with the number before it still ahead;
taking that number goes on behind the mark. -/
theorem lookahead_served_past_error :
    ∃ p, ofString "(1 ? 2) x" = .ok p ∧
      (p.parse 0).1.toOption = none ∧
      let q := p.serveAll [.parse 0, .expectEnd, .matchAndAdvance .number]
      q.advances = 2 ∧ q.ahead = (⟨.number, "2", 5⟩, .atom) ∧
      q.scanned.toList = [⟨.leftParen, "", 0⟩, ⟨.number, "1", 1⟩, ⟨.number, "2", 5⟩] := by
  have hp : ofString "(1 ? 2) x" = .ok ⟨⟨['1', ' ', '?', ' ', '2', ')', ' ', 'x'], 1⟩,
      ⟨.leftParen, "", 0⟩, #[⟨.leftParen, "", 0⟩]⟩ := by rfl
  obtain ⟨-, -, hahead, -, hscanned, -⟩ :=
    lookahead_served hp [.parse 0, .expectEnd, .matchAndAdvance .number]
  refine ⟨_, hp, by decide +kernel, by decide +kernel, ?_, ?_⟩
  · rw [hahead]
    decide +kernel
  · rw [hscanned]
    decide +kernel

end Condition.Parser
