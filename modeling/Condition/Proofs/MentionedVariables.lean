/-
The variables that an expression mentions.

A variable is looked up in one place only, at an identifier, and there by its value, where a name
that is not set is the same as one set to 0 (`step_congr`). So two evaluations of one tree go the
same way from the leaves up, errors and all that is in them included, when the variables have the
same values for the names in the tree (`Node.evaluate_congr`). An expression that is not read
mentions nothing, and its error is there before any variable. Main statement: `evaluate_mentions`.
-/
import Condition.Evaluation
import Condition.Proofs.TreeShape
import Mathlib.Data.List.Basic

namespace Condition

/-! ## Variables without a name -/

namespace Variables

/-- The variables but for the one of this name. -/
def erase (vars : Variables) (name : String) : Variables :=
  ⟨vars.entries.filter (·.1 ≠ name), vars.sorted.filter _⟩

theorem lookup_filter_ne (name : String) (es : List (String × Int64)) (x : String) :
    lookup x (es.filter (·.1 ≠ name)) = if name = x then none else lookup x es := by
  induction es with
  | nil => simp [lookup]
  | cons e es ih =>
    obtain ⟨n, v⟩ := e
    by_cases hn : n = name
    · rw [List.filter_cons_of_neg (by simp [hn]), ih]
      by_cases hx : name = x
      · rw [if_pos hx, if_pos hx]
      · rw [if_neg hx, if_neg hx, lookup, if_neg (hn ▸ hx)]
    · rw [List.filter_cons_of_pos (by simp [hn]), lookup, ih]
      by_cases hx : name = x
      · rw [if_pos hx, if_pos hx, if_neg (hx ▸ hn)]
      · rw [if_neg hx, if_neg hx, lookup]

theorem get?_erase (vars : Variables) (name x : String) :
    (vars.erase name).get? x = if name = x then none else vars.get? x :=
  lookup_filter_ne name vars.entries x

theorem value_erase_of_ne {vars : Variables} {name x : String} (h : name ≠ x) :
    (vars.erase name).value x = vars.value x := by
  rw [value, get?_erase, if_neg h, value]

theorem value_insert_of_ne {vars : Variables} {name x : String} (h : name ≠ x) (v : Int64) :
    (vars.insert name v).value x = vars.value x := by
  rw [value, get?_insert, if_neg h, value]

theorem value_erase_of_zero {vars : Variables} {name : String} (h : vars.get? name = some 0)
    (x : String) : (vars.erase name).value x = vars.value x := by
  by_cases hx : name = x
  · subst hx
    rw [value, get?_erase, if_pos rfl, value, h]
    rfl
  · exact value_erase_of_ne hx

end Variables

/-! ## The names in a tree -/

/-- The name is the text of an identifier in the tree. -/
def Node.Mentions (n : Node) (name : String) : Prop :=
  ∃ x ∈ n.preorder, x.token.kind = .identifier ∧ x.token.text = name

theorem Node.Mentions.of_operand {m n : Node} {name : String} (h : m.Mentions name)
    (hm : m.OperandOf n) : n.Mentions name := by
  obtain ⟨x, hx, hname⟩ := h
  exact ⟨x, mem_preorder_iff.2 (.inr ⟨m, hm, hx⟩), hname⟩

theorem Node.mentions_token {n : Node} (h : n.token.kind = .identifier) :
    n.Mentions n.token.text :=
  ⟨n, mem_preorder_iff.2 (.inl rfl), h, rfl⟩

/-- The variables have the same values for the names in the tree. -/
def Node.Agree (n : Node) (vars vars' : Variables) : Prop :=
  ∀ name, n.Mentions name → vars.value name = vars'.value name

theorem Node.Agree.operand {m n : Node} {vars vars' : Variables} (h : n.Agree vars vars')
    (hm : m.OperandOf n) : m.Agree vars vars' :=
  fun name hname => h name (hname.of_operand hm)

/-- A node looks up its own name and nothing else. -/
theorem step_congr {vars vars' : Variables} {t : Token}
    (h : t.kind = .identifier → vars.value t.text = vars'.value t.text) :
    step vars t = step vars' t := by
  funext left right
  unfold step
  cases hk : t.kind with
  | identifier => simp only [h hk]
  | operator o => cases o <;> rfl
  | number | not | leftParen | rightParen | endOfInput => rfl

theorem Node.Agree.step_eq {n : Node} {vars vars' : Variables} (h : n.Agree vars vars') :
    step vars n.token = step vars' n.token :=
  step_congr fun hk => h _ (mentions_token hk)

theorem Node.evaluate_congr {n : Node} {vars vars' : Variables} (h : n.Agree vars vars') :
    n.evaluate vars = n.evaluate vars' := by
  induction n with
  | leaf t =>
    have hstep : step vars t = step vars' t := h.step_eq
    rw [evaluate, evaluate, hstep]
  | unary t l ih =>
    have hstep : step vars t = step vars' t := h.step_eq
    rw [evaluate, evaluate, hstep, ih (h.operand (.inl rfl))]
  | rightOnly t r ih =>
    have hstep : step vars t = step vars' t := h.step_eq
    rw [evaluate, evaluate, hstep, ih (h.operand (.inr rfl))]
  | binary t l r ihl ihr =>
    have hstep : step vars t = step vars' t := h.step_eq
    rw [evaluate, evaluate, hstep, ihl (h.operand (.inl rfl)), ihr (h.operand (.inr rfl))]

/-! ## The names in an expression -/

/-- The name is the text of an identifier in the tree that the expression is read as. -/
def Mentions (expression name : String) : Prop :=
  ∃ tree, parseExpression expression = .ok tree ∧ tree.Mentions name

/-- The expression has one outcome with both, as a value and as a condition. -/
def SameAnswers (expression : String) (vars vars' : Variables) : Prop :=
  evaluateValue expression vars = evaluateValue expression vars' ∧
    evaluate expression vars = evaluate expression vars'

theorem sameAnswers_of_value_eq {expression : String} {vars vars' : Variables}
    (h : ∀ name, Mentions expression name → vars.value name = vars'.value name) :
    SameAnswers expression vars vars' := by
  have hvalue : evaluateValue expression vars = evaluateValue expression vars' := by
    unfold evaluateValue
    split
    · rfl
    · next tree htree => exact Node.evaluate_congr fun name hname => h name ⟨tree, htree, hname⟩
  exact ⟨hvalue, by rw [evaluate, evaluate, hvalue]⟩

/-- **Only what is mentioned matters.** Variables that have the same values for the names in an
expression, where a name that is not set has the value 0, give it the same outcome. So it is told
by no outcome whether a name that is not mentioned is set, to what it is set, or whether a name
that is set to 0 is set at all. -/
theorem evaluate_mentions (expression : String) (vars : Variables) :
    (∀ vars', (∀ name, Mentions expression name → vars.value name = vars'.value name) →
      SameAnswers expression vars vars') ∧
    (∀ name, ¬ Mentions expression name →
      (∀ v, SameAnswers expression vars (vars.insert name v)) ∧
        SameAnswers expression vars (vars.erase name)) ∧
    ∀ name, vars.get? name = some 0 → SameAnswers expression vars (vars.erase name) := by
  refine ⟨fun vars' => sameAnswers_of_value_eq, fun name hname => ⟨fun v => ?_, ?_⟩,
    fun name hzero => ?_⟩
  · refine sameAnswers_of_value_eq fun x hx => (Variables.value_insert_of_ne ?_ v).symm
    rintro rfl
    exact hname hx
  · refine sameAnswers_of_value_eq fun x hx => (Variables.value_erase_of_ne ?_).symm
    rintro rfl
    exact hname hx
  · exact sameAnswers_of_value_eq fun x _ => (Variables.value_erase_of_zero hzero x).symm

/-- Variables that have only one name in common bring about one overflow, of the same operands. -/
theorem evaluate_mentions_overflow :
    SameAnswers "x + 9223372036854775807 > w" (.ofList [("w", 0), ("x", 1), ("y", 5)])
      (.ofList [("x", 1), ("z", 7)]) ∧
    evaluateValue "x + 9223372036854775807 > w" (.ofList [("x", 1), ("z", 7)]) =
      .error (.overflow (.operator (.arithmetic .plus)) 1 Int64.maxValue) ∧
    SameAnswers "x + 9223372036854775807 > w" (.ofList [("w", 0), ("x", 1), ("y", 5)])
      ((Variables.ofList [("w", 0), ("x", 1), ("y", 5)]).insert "y" 9) ∧
    SameAnswers "x + 9223372036854775807 > w" (.ofList [("w", 0), ("x", 1), ("y", 5)])
      ((Variables.ofList [("w", 0), ("x", 1), ("y", 5)]).erase "w") := by
  have hparse : parseExpression "x + 9223372036854775807 > w" =
      .ok (.binary ⟨.operator (.comparison .greater), "", 24⟩
        (.binary ⟨.operator (.arithmetic .plus), "", 2⟩ (.leaf ⟨.identifier, "x", 0⟩)
          (.leaf ⟨.number, "9223372036854775807", 4⟩)) (.leaf ⟨.identifier, "w", 26⟩)) := by
    decide +kernel
  have hnames : ∀ name, Mentions "x + 9223372036854775807 > w" name → name = "x" ∨ name = "w" := by
    rintro name ⟨tree, htree, n, hn, hkind, rfl⟩
    cases hparse.symm.trans htree
    simp only [Node.preorder, List.cons_append, List.nil_append, List.mem_cons, List.not_mem_nil,
      or_false] at hn
    rcases hn with rfl | rfl | rfl | rfl | rfl <;> simp_all [Node.token]
  obtain ⟨hagree, hother, hzero⟩ := evaluate_mentions "x + 9223372036854775807 > w"
    (.ofList [("w", 0), ("x", 1), ("y", 5)])
  refine ⟨hagree _ fun name hname => ?_, by decide +kernel, (hother "y" fun hname => ?_).1 9,
    hzero "w" (by decide +kernel)⟩
  · rcases hnames name hname with rfl | rfl <;> decide +kernel
  · rcases hnames "y" hname with hy | hy <;> revert hy <;> decide

end Condition
