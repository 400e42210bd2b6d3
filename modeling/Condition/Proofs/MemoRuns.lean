/-
A memo cannot be told from evaluation without one.

Whatever calls a memo has answered, it holds each expression that was met and can be
parsed, once, with its own tree (`Keeps`); a call keeps this for the expressions met so
far and its own. Main statement: `run_answers`.
-/
import Condition.Memo
import Mathlib.Data.List.Dedup

namespace Condition

def Parses (text : String) : Prop := ∃ tree, parseExpression text = .ok tree

instance (text : String) : Decidable (Parses text) :=
  match h : parseExpression text with
  | .ok tree => .isTrue ⟨tree, h⟩
  | .error _ => .isFalse fun ⟨_, h'⟩ => by rw [h] at h'; cases h'

/-- The number of distinct texts among these that can be parsed. -/
def parsedCount (texts : List String) : Nat := (texts.filter (Parses ·)).dedup.length

namespace Memo

/-- A request for the value of an expression, or for whether it holds. -/
inductive Call
  | value (expression : String) (vars : Variables)
  | holds (expression : String) (vars : Variables)

inductive Answer
  | value (outcome : Outcome)
  | holds (outcome : Except EvalError Bool)

namespace Call

def expression : Call → String
  | value e _ | holds e _ => e

/-- The answer without a memo. -/
def answer : Call → Answer
  | value e vars => .value (Condition.evaluateValue e vars)
  | holds e vars => .holds (Condition.evaluate e vars)

end Call

def answer (memo : Memo) : Call → Answer × Memo
  | .value e vars => let (r, memo') := memo.evaluateValue e vars; (.value r, memo')
  | .holds e vars => let (r, memo') := memo.evaluate e vars; (.holds r, memo')

/-- The answers to the calls, each with the number of expressions kept then. -/
def run (memo : Memo) : List Call → List (Answer × Nat)
  | [] => []
  | c :: calls =>
    let (a, memo') := memo.answer c
    (a, memo'.size) :: memo'.run calls

/-! ## What a memo holds -/

/-- After calls with these expressions the memo holds those that can be parsed, each
once and with its tree. -/
structure Keeps (memo : Memo) (texts : List String) : Prop where
  nodup : (memo.trees.map (·.1)).Nodup
  parsed : ∀ e ∈ memo.trees, parseExpression e.1 = .ok e.2
  mem_iff : ∀ text, text ∈ memo.trees.map (·.1) ↔ text ∈ texts ∧ Parses text

theorem Keeps.empty : Keeps .empty [] where
  nodup := .nil
  parsed := by simp [Memo.empty]
  mem_iff := by simp [Memo.empty]

theorem Keeps.size {memo : Memo} {texts : List String} (h : Keeps memo texts) :
    memo.size = parsedCount texts := by
  have hperm : (memo.trees.map (·.1)).Perm (texts.filter (Parses ·)).dedup := by
    rw [List.perm_ext_iff_of_nodup h.nodup (List.nodup_dedup _)]
    intro text
    rw [h.mem_iff, List.mem_dedup, List.mem_filter, decide_eq_true_eq]
  rw [Memo.size, parsedCount, ← hperm.length_eq, List.length_map]

theorem find?_cases (memo : Memo) (text : String) :
    (∃ tree, memo.find? text = some tree ∧ (text, tree) ∈ memo.trees) ∨
      (memo.find? text = none ∧ text ∉ memo.trees.map (·.1)) := by
  unfold find?
  cases hf : memo.trees.find? (·.1 = text) with
  | some e =>
    have htext : e.1 = text := by simpa using List.find?_some hf
    refine .inl ⟨e.2, rfl, ?_⟩
    rw [← htext]
    exact List.mem_of_find?_eq_some hf
  | none =>
    refine .inr ⟨rfl, ?_⟩
    rw [List.mem_map]
    rintro ⟨e, he, hetext⟩
    simpa [hetext] using List.find?_eq_none.1 hf e he

theorem tree_of_some {memo : Memo} {text : String} {tree : Node}
    (h : memo.find? text = some tree) : memo.tree text = (.ok tree, memo) := by
  rw [Memo.tree, h]

theorem tree_of_error {memo : Memo} {text : String} {e : ParseError}
    (h : memo.find? text = none) (hparse : parseExpression text = .error e) :
    memo.tree text = (.error e, memo) := by
  simp only [Memo.tree, h, hparse]

theorem tree_of_ok {memo : Memo} {text : String} {tree : Node} (h : memo.find? text = none)
    (hparse : parseExpression text = .ok tree) :
    memo.tree text = (.ok tree, ⟨(text, tree) :: memo.trees⟩) := by
  simp only [Memo.tree, h, hparse]

/-- A call that leaves no trace: the expression is held already, or cannot be parsed. -/
theorem Keeps.unchanged {memo : Memo} {texts : List String} (h : Keeps memo texts) {text : String}
    (hheld : Parses text → text ∈ memo.trees.map (·.1)) : Keeps memo (texts ++ [text]) where
  nodup := h.nodup
  parsed := h.parsed
  mem_iff u := by
    rw [h.mem_iff, List.mem_append, List.mem_singleton]
    constructor
    · exact fun ⟨hu, hp⟩ => ⟨.inl hu, hp⟩
    · rintro ⟨hu | rfl, hp⟩
      · exact ⟨hu, hp⟩
      · exact (h.mem_iff u).1 (hheld hp)

theorem Keeps.added {memo : Memo} {texts : List String} (h : Keeps memo texts) {text : String}
    {tree : Node} (hparse : parseExpression text = .ok tree) (hnot : text ∉ memo.trees.map (·.1)) :
    Keeps ⟨(text, tree) :: memo.trees⟩ (texts ++ [text]) where
  nodup := List.nodup_cons.2 ⟨hnot, h.nodup⟩
  parsed e he := by
    rcases List.mem_cons.1 he with rfl | he
    · exact hparse
    · exact h.parsed e he
  mem_iff u := by
    rw [List.map_cons, List.mem_cons, h.mem_iff, List.mem_append, List.mem_singleton]
    constructor
    · rintro (rfl | ⟨hu, hp⟩)
      · exact ⟨.inr rfl, tree, hparse⟩
      · exact ⟨.inl hu, hp⟩
    · rintro ⟨hu | rfl, hp⟩
      · exact .inr ⟨hu, hp⟩
      · exact .inl rfl

theorem Keeps.tree {memo : Memo} {texts : List String} (h : Keeps memo texts) (text : String) :
    (memo.tree text).1 = parseExpression text ∧ Keeps (memo.tree text).2 (texts ++ [text]) := by
  rcases memo.find?_cases text with ⟨tree, hf, hmem⟩ | ⟨hf, hnot⟩
  · rw [tree_of_some hf]
    exact ⟨(h.parsed _ hmem).symm, h.unchanged fun _ => List.mem_map_of_mem hmem⟩
  · cases hparse : parseExpression text with
    | error e =>
      rw [tree_of_error hf hparse]
      refine ⟨rfl, h.unchanged fun ⟨tree, ht⟩ => ?_⟩
      rw [hparse] at ht
      cases ht
    | ok tree =>
      rw [tree_of_ok hf hparse]
      exact ⟨rfl, h.added hparse hnot⟩

theorem Keeps.evaluateValue {memo : Memo} {texts : List String} (h : Keeps memo texts)
    (text : String) (vars : Variables) :
    (memo.evaluateValue text vars).1 = Condition.evaluateValue text vars ∧
      Keeps (memo.evaluateValue text vars).2 (texts ++ [text]) := by
  obtain ⟨htree, hkeeps⟩ := h.tree text
  unfold Memo.evaluateValue Condition.evaluateValue
  rw [← htree]
  match hm : memo.tree text with
  | (.error e, memo') => exact ⟨rfl, by rwa [hm] at hkeeps⟩
  | (.ok tree, memo') => exact ⟨rfl, by rwa [hm] at hkeeps⟩

/-- One call: the memo answers as evaluation without it, and keeps what it has to. -/
theorem Keeps.answer {memo : Memo} {texts : List String} (h : Keeps memo texts) (c : Call) :
    (memo.answer c).1 = c.answer ∧ Keeps (memo.answer c).2 (texts ++ [c.expression]) := by
  cases c with
  | value text vars =>
    obtain ⟨hvalue, hkeeps⟩ := h.evaluateValue text vars
    exact ⟨by simp only [Memo.answer, Call.answer, hvalue], hkeeps⟩
  | holds text vars =>
    obtain ⟨hvalue, hkeeps⟩ := h.evaluateValue text vars
    have htruth : (memo.evaluate text vars).1 = Condition.evaluate text vars := by
      rw [Condition.evaluate, ← hvalue]
      rfl
    exact ⟨by simp only [Memo.answer, Call.answer, htruth], hkeeps⟩

/-- A run from a memo that holds what it has to for calls made before. -/
theorem Keeps.run_getElem? {memo : Memo} {texts : List String} (h : Keeps memo texts)
    (calls : List Call) (i : Nat) :
    (memo.run calls)[i]? = calls[i]?.map fun c =>
      (c.answer, parsedCount (texts ++ (calls.take (i + 1)).map Call.expression)) := by
  induction calls generalizing memo texts i with
  | nil => simp [run]
  | cons c calls ih =>
    obtain ⟨hanswer, hkeeps⟩ := h.answer c
    simp only [run]
    cases i with
    | zero => simp [hanswer, hkeeps.size]
    | succ i =>
      rw [List.getElem?_cons_succ, List.getElem?_cons_succ, ih hkeeps i]
      simp

/-- **The memo cannot be observed.** In every sequence of calls on one memo each is
answered as it is without a memo, and the memo then keeps as many expressions as there
are distinct ones so far that can be parsed. -/
theorem run_answers (calls : List Call) (i : Nat) :
    (empty.run calls)[i]? = calls[i]?.map fun c =>
      (c.answer, parsedCount ((calls.take (i + 1)).map Call.expression)) := by
  simpa using Keeps.empty.run_getElem? calls i

end Memo
end Condition
