/-
What a text with placeholders says, piece by piece.

A text is read once from the left: literal text up to the next `${`, a name up to the next
closing brace, and so on; a `${` that no brace closes takes all that follows (`Pieces`).
There is one way to do so (`existsUnique_pieces`). Every piece stands for some text, or it
is at fault, and expansion joins what the pieces stand for or stops at the first fault
(`Outcome`). Main statement: `expand_pieces`.
-/
import Condition.Placeholder
import Mathlib.Data.List.Forall2
import Mathlib.Data.List.Infix

namespace Condition.Placeholder

/-! ## Pieces -/

inductive Piece
  | literal (text : List Char)
  | placeholder (name : List Char)
  /-- What opens like a placeholder, with no brace behind it to close it. -/
  | unclosed (rest : List Char)

/-- What stands in the text for the piece. -/
def Piece.source : Piece → List Char
  | literal text => text
  | placeholder name => '$' :: '{' :: (name ++ ['}'])
  | unclosed rest => '$' :: '{' :: rest

/-- No placeholder opens in the text. -/
def Plain (cs : List Char) : Prop := ¬ ['$', '{'] <:+: cs

instance (cs : List Char) : Decidable (Plain cs) := inferInstanceAs (Decidable (¬ _))

/-- The pieces of a text, read from the left. -/
inductive Pieces : List Char → List Piece → Prop
  | last {text} : Plain text → Pieces text [.literal text]
  | unclosed {text rest} : Plain text → '}' ∉ rest →
      Pieces (text ++ '$' :: '{' :: rest) [.literal text, .unclosed rest]
  | placeholder {text name rest pieces} : Plain text → '}' ∉ name → Pieces rest pieces →
      Pieces (text ++ '$' :: '{' :: (name ++ '}' :: rest))
        (.literal text :: .placeholder name :: pieces)

theorem Pieces.source_eq {cs : List Char} {ps : List Piece} (h : Pieces cs ps) :
    ps.flatMap Piece.source = cs := by
  induction h with
  | last => simp [Piece.source]
  | unclosed => simp [Piece.source]
  | placeholder _ _ _ ih => simp [Piece.source, ih]

theorem plain_nil : Plain [] := by decide

theorem plain_cons {c : Char} {cs : List Char} :
    Plain (c :: cs) ↔ ¬ (c = '$' ∧ cs.head? = some '{') ∧ Plain cs := by
  have hopens : ['$', '{'] <+: c :: cs ↔ c = '$' ∧ cs.head? = some '{' := by
    cases cs <;> simp [List.cons_prefix_cons, eq_comm (a := '$'), eq_comm (a := '{')]
  rw [Plain, List.infix_cons_iff, hopens, not_or]
  rfl

theorem Plain.ne_append {cs before after : List Char} (h : Plain cs) :
    cs ≠ before ++ '$' :: '{' :: after := by
  rintro rfl
  exact h ⟨before, after, by simp⟩

theorem plain_or_opens (cs : List Char) :
    Plain cs ∨ ∃ text rest, Plain text ∧ cs = text ++ '$' :: '{' :: rest := by
  induction cs with
  | nil => exact .inl plain_nil
  | cons c cs ih =>
    by_cases hopen : c = '$' ∧ cs.head? = some '{'
    · obtain ⟨rfl, hhead⟩ := hopen
      obtain ⟨rest, rfl⟩ := List.head?_eq_some_iff.1 hhead
      exact .inr ⟨[], rest, plain_nil, rfl⟩
    rcases ih with hplain | ⟨text, rest, hplain, rfl⟩
    · exact .inl (plain_cons.2 ⟨hopen, hplain⟩)
    · refine .inr ⟨c :: text, rest, plain_cons.2 ⟨?_, hplain⟩, rfl⟩
      rintro ⟨rfl, hhead⟩
      exact hopen ⟨rfl, by rw [List.head?_append, hhead]; rfl⟩

/-- The first placeholder that opens is told by the text. -/
theorem opening_unique {text text' rest rest' : List Char} (h : Plain text) (h' : Plain text')
    (he : text ++ '$' :: '{' :: rest = text' ++ '$' :: '{' :: rest') :
    text = text' ∧ rest = rest' := by
  -- Of two openings the first lies within the text before the second, or they overlap.
  have hmid {text mid rest rest' : List Char} (hplain : Plain (text ++ mid))
      (hr : '$' :: '{' :: rest = mid ++ '$' :: '{' :: rest') : mid = [] := by
    match mid, hr with
    | [], _ => rfl
    | [c], hr => simp at hr
    | c :: d :: mid, hr =>
      simp only [List.cons_append, List.cons.injEq] at hr
      obtain ⟨rfl, rfl, -⟩ := hr
      exact absurd rfl hplain.ne_append
  rcases List.append_eq_append_iff.1 he with ⟨mid, rfl, hr⟩ | ⟨mid, rfl, hr⟩
  · obtain rfl := hmid h' hr
    simpa using hr
  · obtain rfl := hmid h hr
    simpa [eq_comm] using hr

theorem exists_pieces (cs : List Char) : ∃ ps, Pieces cs ps := by
  induction hlen : cs.length using Nat.strongRecOn generalizing cs with
  | _ len ih =>
  subst hlen
  rcases plain_or_opens cs with hplain | ⟨text, body, hplain, rfl⟩
  · exact ⟨_, .last hplain⟩
  cases hcut : Text.cut? '}' body with
  | none => exact ⟨_, .unclosed hplain (Text.cut?_eq_none.1 hcut)⟩
  | some parts =>
    obtain ⟨name, rest⟩ := parts
    obtain ⟨rfl, hname⟩ := Text.cut?_eq_some hcut
    obtain ⟨ps, hps⟩ := ih rest.length (by simp; omega) rest rfl
    exact ⟨_, .placeholder hplain hname hps⟩

theorem Pieces.unique {cs : List Char} {ps ps' : List Piece} (h : Pieces cs ps)
    (h' : Pieces cs ps') : ps = ps' := by
  induction h generalizing ps' with
  | last hplain =>
    cases h' with
    | last => rfl
    | unclosed | placeholder => exact absurd rfl hplain.ne_append
  | @unclosed text rest hplain hrest =>
    generalize hcs : text ++ '$' :: '{' :: rest = cs at h'
    cases h' with
    | last hplain' => exact absurd hcs.symm hplain'.ne_append
    | unclosed hplain' =>
      obtain ⟨rfl, rfl⟩ := opening_unique hplain hplain' hcs
      rfl
    | placeholder hplain' =>
      obtain ⟨rfl, rfl⟩ := opening_unique hplain hplain' hcs
      exact absurd (by simp) hrest
  | @placeholder text name rest ps hplain hname hps ih =>
    generalize hcs : text ++ '$' :: '{' :: (name ++ '}' :: rest) = cs at h'
    cases h' with
    | last hplain' => exact absurd hcs.symm hplain'.ne_append
    | unclosed hplain' hrest =>
      obtain ⟨rfl, rfl⟩ := opening_unique hplain hplain' hcs
      exact absurd (by simp) hrest
    | placeholder hplain' hname' hps' =>
      obtain ⟨rfl, hbody⟩ := opening_unique hplain hplain' hcs
      have hcut := Text.cut?_append hname rest
      rw [hbody, Text.cut?_append hname'] at hcut
      cases hcut
      rw [ih hps']

/-- Every text is read in one way. -/
theorem existsUnique_pieces (cs : List Char) :
    ∃ ps, Pieces cs ps ∧ ∀ ps', Pieces cs ps' → ps' = ps := by
  obtain ⟨ps, hps⟩ := exists_pieces cs
  exact ⟨ps, hps, fun ps' hps' => hps'.unique hps⟩

/-! ## What the pieces stand for -/

section

variable (env : Environment)

/-- The text that a piece without fault stands for. -/
inductive Stands : Piece → List Char → Prop
  | literal {text} : Stands (.literal text) text
  | placeholder {name value} : name ≠ [] → env (String.ofList name) = some value →
      Stands (.placeholder name) value.toList

/-- The fault of a piece that stands at the byte offset. -/
inductive Faulty (offset : Nat) : Piece → PlaceholderError → Prop
  | unclosed {rest} : Faulty offset (.unclosed rest) (.unterminated offset)
  | empty : Faulty offset (.placeholder []) (.empty offset)
  | unset {name} : name ≠ [] → env (String.ofList name) = none →
      Faulty offset (.placeholder name) (.unset (String.ofList name))

/-- What expansion makes of pieces from a byte offset on: all that they stand for, if no
piece is at fault, and else the fault of the first one that is. -/
structure Outcome (offset : Nat) (ps : List Piece)
    (r : Except PlaceholderError (List Char)) : Prop where
  ok_iff : ∀ out, r = .ok out ↔ ∃ values, List.Forall₂ (Stands env) ps values ∧ out = values.flatten
  error_iff : ∀ e, r = .error e ↔
    ∃ before p after, ps = before ++ p :: after ∧ (∀ q ∈ before, ∃ value, Stands env q value) ∧
      Faulty env (offset + Text.byteLength (before.flatMap Piece.source)) p e

end

section

variable {env : Environment} {offset : Nat} {p : Piece} {ps : List Piece}

theorem Stands.unique {value value' : List Char} (h : Stands env p value)
    (h' : Stands env p value') : value = value' := by
  cases h with
  | literal => cases h'; rfl
  | placeholder _ hset =>
    cases h' with
    | placeholder _ hset' =>
      rw [hset] at hset'
      cases hset'
      rfl

theorem Faulty.not_stands {e : PlaceholderError} {value : List Char} (h : Faulty env offset p e) :
    ¬ Stands env p value := by
  intro hs
  cases h with
  | unclosed => cases hs
  | empty => cases hs with | placeholder hne => exact hne rfl
  | unset _ hunset =>
    cases hs with
    | placeholder _ hset => rw [hunset] at hset; cases hset

theorem Faulty.unique {e e' : PlaceholderError} (h : Faulty env offset p e)
    (h' : Faulty env offset p e') : e = e' := by
  cases h with
  | unclosed => cases h'; rfl
  | empty =>
    cases h' with
    | empty => rfl
    | unset hne => exact absurd rfl hne
  | unset hne =>
    cases h' with
    | empty => exact absurd rfl hne
    | unset => rfl

theorem Outcome.nil : Outcome env offset [] (.ok []) where
  ok_iff out := by simp [eq_comm]
  error_iff e := by simp

theorem Outcome.faulty {e : PlaceholderError} (h : Faulty env offset p e) :
    Outcome env offset (p :: ps) (.error e) where
  ok_iff out := by
    refine ⟨nofun, ?_⟩
    rintro ⟨_, hvalues, -⟩
    cases hvalues with
    | cons hp => exact absurd hp h.not_stands
  error_iff e' := by
    constructor
    · rintro ⟨⟩
      exact ⟨[], p, ps, rfl, by simp, by simpa using h⟩
    · rintro ⟨before, q, after, hps, hbefore, hq⟩
      cases before with
      | nil =>
        cases hps
        rw [h.unique (by simpa using hq)]
      | cons _ before =>
        cases hps
        obtain ⟨value, hvalue⟩ := hbefore p (by simp)
        exact absurd hvalue h.not_stands

theorem Outcome.cons {value : List Char} {r : Except PlaceholderError (List Char)}
    (h : Stands env p value) (hr : Outcome env (offset + Text.byteLength p.source) ps r) :
    Outcome env offset (p :: ps) (r.map (value ++ ·)) where
  ok_iff out := by
    constructor
    · intro hout
      obtain ⟨out, rfl⟩ : ∃ out', r = .ok out' := by cases r <;> simp_all [Except.map]
      cases hout
      obtain ⟨values, hvalues, rfl⟩ := (hr.ok_iff _).1 rfl
      exact ⟨value :: values, .cons h hvalues, rfl⟩
    · rintro ⟨_, hvalues, rfl⟩
      cases hvalues with
      | cons hp hvalues =>
        rw [(hr.ok_iff _).2 ⟨_, hvalues, rfl⟩, h.unique hp]
        rfl
  error_iff e := by
    have herror : r.map (value ++ ·) = .error e ↔ r = .error e := by
      cases r <;> simp [Except.map]
    rw [herror, hr.error_iff]
    constructor
    · rintro ⟨before, q, after, rfl, hbefore, hq⟩
      refine ⟨p :: before, q, after, rfl, List.forall_mem_cons.2 ⟨⟨value, h⟩, hbefore⟩, ?_⟩
      simpa [Nat.add_assoc] using hq
    · rintro ⟨before, q, after, hps, hbefore, hq⟩
      cases before with
      | nil =>
        cases hps
        exact absurd h hq.not_stands
      | cons _ before =>
        cases hps
        refine ⟨before, q, after, rfl, (List.forall_mem_cons.1 hbefore).2, ?_⟩
        simpa [Nat.add_assoc] using hq

end

/-! ## Expansion -/

section

variable {env : Environment}

theorem expandFrom_literal {text rest : List Char} (h : Plain text)
    (hrest : ∀ c ∈ rest.head?, c = '$') (offset : Nat) :
    expandFrom env offset (text ++ rest) =
      (expandFrom env (offset + Text.byteLength text) rest).map (text ++ ·) := by
  induction text generalizing offset with
  | nil => cases h : expandFrom env offset rest <;> simp [Except.map, h]
  | cons c text ih =>
    obtain ⟨hopen, hplain⟩ := plain_cons.1 h
    have hnext : c = '$' → (text ++ rest).head? ≠ some '{' := by
      rintro rfl hhead
      cases text with
      | nil => cases hrest '{' hhead
      | cons d text => exact hopen ⟨rfl, hhead⟩
    have hstep : expandFrom env offset (c :: (text ++ rest)) =
        (expandFrom env (offset + c.utf8Size) (text ++ rest)).map (c :: ·) := by
      rw [expandFrom]
      rintro cs rfl hcs
      exact hnext rfl (by rw [hcs]; rfl)
    rw [List.cons_append, hstep, ih hplain, Text.byteLength_cons, Nat.add_assoc]
    cases expandFrom env (offset + (c.utf8Size + Text.byteLength text)) rest <;> rfl

theorem expandFrom_unclosed {rest : List Char} (h : '}' ∉ rest) (offset : Nat) :
    expandFrom env offset ('$' :: '{' :: rest) = .error (.unterminated offset) := by
  rw [expandFrom]
  split
  · rfl
  · next hcut =>
    rw [Text.cut?_eq_none.2 h] at hcut
    cases hcut

/-- A placeholder is replaced by what it stands for, or its fault is the answer. -/
theorem expandFrom_placeholder {name : List Char} (h : '}' ∉ name) (rest : List Char)
    (offset : Nat) :
    (∃ value, Stands env (.placeholder name) value ∧
      expandFrom env offset ('$' :: '{' :: (name ++ '}' :: rest)) =
        (expandFrom env (offset + Text.byteLength (Piece.placeholder name).source) rest).map
          (value ++ ·)) ∨
      ∃ e, Faulty env offset (.placeholder name) e ∧
        expandFrom env offset ('$' :: '{' :: (name ++ '}' :: rest)) = .error e := by
  have hlength : Text.byteLength (Piece.placeholder name).source = Text.byteLength name + 3 := by
    have hsize : '$'.utf8Size = 1 ∧ '{'.utf8Size = 1 ∧ '}'.utf8Size = 1 := by decide
    simp only [Piece.source, Text.byteLength_cons, Text.byteLength_append, Text.byteLength_nil,
      hsize]
    omega
  rw [expandFrom, hlength, ← Nat.add_assoc]
  split
  · next hcut =>
    rw [Text.cut?_append h] at hcut
    cases hcut
  · next hcut =>
    rw [Text.cut?_append h] at hcut
    cases hcut
    by_cases hname : name = []
    · subst hname
      exact .inr ⟨_, .empty, rfl⟩
    rw [if_neg (by simpa using hname)]
    split
    · next hunset => exact .inr ⟨_, .unset hname hunset, rfl⟩
    · next value hset => exact .inl ⟨_, .placeholder hname hset, rfl⟩

theorem outcome_of_pieces {cs : List Char} {ps : List Piece} (h : Pieces cs ps) (offset : Nat) :
    Outcome env offset ps (expandFrom env offset cs) := by
  induction h generalizing offset with
  | @last text hplain =>
    have hexpand : expandFrom env offset (text ++ []) = _ :=
      expandFrom_literal hplain (by simp) offset
    rw [List.append_nil, expandFrom] at hexpand
    rw [hexpand]
    exact .cons .literal .nil
  | unclosed hplain hrest =>
    rw [expandFrom_literal hplain (by simp), expandFrom_unclosed hrest]
    exact .cons .literal (.faulty .unclosed)
  | placeholder hplain hname _ ih =>
    rw [expandFrom_literal hplain (by simp)]
    refine .cons .literal ?_
    rcases expandFrom_placeholder hname _ _ with ⟨value, hvalue, hexpand⟩ | ⟨e, hfault, hexpand⟩
    · rw [hexpand]
      exact .cons hvalue (ih _)
    · rw [hexpand]
      exact .faulty hfault

/-- **Placeholders are replaced in one pass, up to the first fault.** A text has exactly one
reading as pieces. The answer is a text just when no piece is at fault, and then what the
pieces stand for, one after another; else it is the fault of the first piece that has one,
with the byte offset of that piece in the text as given. -/
theorem expand_pieces (env : Environment) (text : String) :
    ∃ ps, Pieces text.toList ps ∧ (∀ ps', Pieces text.toList ps' → ps' = ps) ∧
      ps.flatMap Piece.source = text.toList ∧
      (∀ out, expand env text = .ok out ↔
        ∃ values, List.Forall₂ (Stands env) ps values ∧ out.toList = values.flatten) ∧
      ∀ e, expand env text = .error e ↔
        ∃ before p after, ps = before ++ p :: after ∧ (∀ q ∈ before, ∃ value, Stands env q value) ∧
          Faulty env (Text.byteLength (before.flatMap Piece.source)) p e := by
  obtain ⟨ps, hps, hunique⟩ := existsUnique_pieces text.toList
  have houtcome : Outcome env 0 ps (expandFrom env 0 text.toList) := outcome_of_pieces hps 0
  refine ⟨ps, hps, hunique, hps.source_eq, fun out => ?_, fun e => ?_⟩
  · rw [← houtcome.ok_iff, expand]
    cases expandFrom env 0 text.toList with
    | error => simp [Except.map]
    | ok cs => simp [Except.map, ← String.toList_inj]
  · have herror := houtcome.error_iff e
    simp only [Nat.zero_add] at herror
    rw [← herror, expand]
    cases expandFrom env 0 text.toList <;> simp [Except.map]

/-- A value may look like a placeholder, and the offset of a fault does not depend on it. -/
example : expand (fun name => if name = "A" then some "\x7d$\x7b" else none)
    "µ$$\x7bA\x7d\x7d$\x7b\x7d$\x7bB" = .error (.empty 8) := by decide +kernel

end

end Condition.Placeholder
