/-
What a run answers, told by the value of its expression.

A run that does not ask for the end of the input ends as evaluation of the input with the
resolved variables does: it shows the value, or fails with the same error, a parse error as
such and any other as an error of evaluation. The format and whether the tree is shown have
no part in this. A report in JSON is told by the document that is read from it
(`Report.read_json`). Main statement: `execute_lenient`.
-/
import Condition.Proofs.JsonWriting
import Condition.Proofs.NodeAnswers
import Condition.Run

namespace Condition

/-! ## Reports -/

/-- The value in a JSON document. -/
def Value.document : Value → Json.Value
  | .int n => .number (Integer.render n).toList
  | .bool b => .bool b

/-- The variables in a JSON document. -/
def Variables.document (vars : Variables) : Json.Value :=
  .object (vars.entries.map fun e => (some e.1, .number (Integer.render e.2).toList))

namespace Report

/-- The lines of a report in text: the tree, if it is shown, and the result. -/
def lines (v : Value) (tree : Option String) : List String :=
  (tree.map fun tree => "tree: " ++ tree).toList ++
    ["evaluated result is " ++ if v.truthy then "true" else "false"]

/-- The document of a report in JSON: the expression, the result, the tree if it is shown,
the value and the variables. -/
def document (expression : String) (v : Value) (vars : Variables) (tree : Option String) :
    Json.Value :=
  .object ([(some "expression", .string (some expression)), (some "result", .bool v.truthy)] ++
    (tree.map fun tree => (some "tree", .string (some tree))).toList ++
    [(some "value", v.document), (some "variables", vars.document)])

/-- The output reports the value of the expression. -/
def Shows (format : OutputFormat) (expression : String) (v : Value) (vars : Variables)
    (tree : Option String) (output : String) : Prop :=
  match format with
  | .text => output = "\n".intercalate (lines v tree)
  | .json => Json.read output = some (document expression v vars tree)

theorem text_eq (r : Report) : r.text = "\n".intercalate (lines r.value r.tree) := by
  unfold text lines
  cases r.tree with
  | none =>
    show _ = "\n".intercalate [_]
    rw [String.intercalate_singleton]
    rfl
  | some tree =>
    show _ = "\n".intercalate ["tree: " ++ tree, _]
    simp only [String.intercalate_cons_cons, String.intercalate_singleton, String.append_assoc]
    rfl

theorem writes_value (v : Value) : Json.Writes v.render.toList v.document := by
  cases v with
  | int n => exact Json.writes_number n
  | bool b => exact Json.writes_bool b

theorem writes_variables (vars : Variables) :
    Json.Writes (Json.writeObject 1
      (vars.entries.map fun e => (e.1, Integer.render e.2))).toList vars.document := by
  have hwrites := Json.writes_object 1
    (vars.entries.map fun e => (e.1, Integer.render e.2, .number (Integer.render e.2).toList))
    fun f hf => by
      obtain ⟨e, -, rfl⟩ := List.mem_map.1 hf
      exact Json.writes_number e.2
  rw [List.map_map, List.map_map] at hwrites
  exact hwrites

/-- The fields of a report in JSON, each with the value that its text writes. -/
def written (r : Report) : List (String × String × Json.Value) :=
  [("expression", Json.quote r.expression, .string (some r.expression)),
    ("result", Json.writeBool r.result, .bool r.result)] ++
  (r.tree.map fun tree => ("tree", Json.quote tree, .string (some tree))).toList ++
  [("value", r.value.render, r.value.document),
    ("variables", Json.writeObject 1 (r.vars.entries.map fun e => (e.1, Integer.render e.2)),
      r.vars.document)]

theorem fields_eq (r : Report) : r.fields = r.written.map fun f => (f.1, f.2.1) := by
  unfold fields written
  cases r.tree <;> rfl

theorem document_eq (r : Report) :
    document r.expression r.value r.vars r.tree =
      .object (r.written.map fun f => (some f.1, f.2.2)) := by
  unfold document written
  cases r.tree <;> rfl

theorem writes_written (r : Report) : ∀ f ∈ r.written, Json.Writes f.2.1.toList f.2.2 := by
  intro f hf
  simp only [written, List.mem_append, List.mem_cons, List.not_mem_nil, or_false,
    Option.mem_toList, Option.map_eq_some_iff] at hf
  rcases hf with ((rfl | rfl) | ⟨tree, -, rfl⟩) | (rfl | rfl)
  · exact Json.writes_quote r.expression
  · exact Json.writes_bool r.result
  · exact Json.writes_quote tree
  · exact writes_value r.value
  · exact writes_variables r.vars

theorem read_json (r : Report) :
    Json.read r.json = some (document r.expression r.value r.vars r.tree) := by
  rw [json, fields_eq, document_eq]
  exact (Json.writes_object 0 r.written r.writes_written).read

theorem shows_render (r : Report) (format : OutputFormat) :
    Shows format r.expression r.value r.vars r.tree (r.render format) := by
  cases format with
  | text => exact r.text_eq
  | json => exact r.read_json

end Report

/-! ## Runs -/

/-- The error of a run for an error of evaluation: one of parsing is no error of evaluation. -/
def RunError.ofEvaluation : EvalError → RunError
  | .parse p => .parse p
  | e => .evaluation e

theorem RunError.ofEvaluation_of_ne_parse {e : EvalError} (h : ∀ p, e ≠ .parse p) :
    ofEvaluation e = .evaluation e := by
  cases e with
  | parse p => exact absurd rfl (h p)
  | _ => rfl

theorem RunError.ofEvaluation_ne_evaluation_parse (e : EvalError) (p : ParseError) :
    ofEvaluation e ≠ .evaluation (.parse p) := by
  cases e <;> simp [ofEvaluation]

theorem evaluate_ne_parse {input : String} {tree : Node} (h : parseExpression input = .ok tree)
    (vars : Variables) (p : ParseError) : tree.evaluate vars ≠ .error (.parse p) := by
  intro he
  obtain ⟨x, -, -, hfault⟩ := exists_fault (writable_of_parseExpression h).regular he
  cases hfault

namespace Run

theorem parseInput_lenient (input : String) : parseInput input false = parseExpression input := by
  unfold parseInput parseExpression
  cases Parser.ofString input with
  | error e => rfl
  | ok p =>
    rcases hrun : p.parse 0 with ⟨e | tree, p'⟩
    · simp [hrun]
    · simp [hrun]

section

variable {w : Workspace} {o : Options} {vars : Variables}

theorem execute_of_report {w : Workspace} {o : Options} {r : Report} (h : report w o = .ok r) :
    execute w o = .ok (r.render o.format) := by
  rw [execute, h]
  rfl

theorem execute_of_report_error {w : Workspace} {o : Options} {e : RunError}
    (h : report w o = .error e) : execute w o = .error e := by
  rw [execute, h]
  rfl

/-- A run shows something exactly if it reports a result, and else fails with the same error. -/
theorem execute_map_eq (w : Workspace) (o : Options) :
    (execute w o).map (fun _ => ()) = ((report w o).map Report.result).map fun _ => () := by
  unfold execute
  cases report w o with
  | error e => rfl
  | ok r => rfl

theorem report_of_resolved (hblank : isBlankInput o.input = false)
    (hvars : resolveVariables w o.config o.assignments = .ok vars) :
    report w o = do
      let tree ← (parseInput o.input o.strict).mapError RunError.parse
      let value ← (tree.evaluate vars).mapError RunError.evaluation
      return ⟨o.input, value, vars, if o.tree then some tree.render else none⟩ := by
  rw [report, hblank, hvars]
  rfl

theorem report_of_parse_error {e : ParseError} (hblank : isBlankInput o.input = false)
    (hvars : resolveVariables w o.config o.assignments = .ok vars)
    (h : parseInput o.input o.strict = .error e) : report w o = .error (.parse e) := by
  rw [report_of_resolved hblank hvars, h]
  rfl

theorem report_of_tree_error {tree : Node} {e : EvalError} (hblank : isBlankInput o.input = false)
    (hvars : resolveVariables w o.config o.assignments = .ok vars)
    (h : parseInput o.input o.strict = .ok tree) (he : tree.evaluate vars = .error e) :
    report w o = .error (.evaluation e) := by
  rw [report_of_resolved hblank hvars, h]
  show (tree.evaluate vars).mapError RunError.evaluation >>= _ = _
  rw [he]
  rfl

theorem report_of_tree_value {tree : Node} {v : Value} (hblank : isBlankInput o.input = false)
    (hvars : resolveVariables w o.config o.assignments = .ok vars)
    (h : parseInput o.input o.strict = .ok tree) (hv : tree.evaluate vars = .ok v) :
    report w o = .ok ⟨o.input, v, vars, if o.tree then some tree.render else none⟩ := by
  rw [report_of_resolved hblank hvars, h]
  show (tree.evaluate vars).mapError RunError.evaluation >>= _ = _
  rw [hv]
  rfl

/-- A lenient run reports the tree and the value of its input, or the error of its evaluation. -/
theorem report_lenient (hstrict : o.strict = false) (hblank : isBlankInput o.input = false)
    (hvars : resolveVariables w o.config o.assignments = .ok vars) :
    (∃ tree v, parseExpression o.input = .ok tree ∧ evaluateValue o.input vars = .ok v ∧
      report w o = .ok ⟨o.input, v, vars, if o.tree then some tree.render else none⟩) ∨
    ∃ e, evaluateValue o.input vars = .error e ∧ report w o = .error (.ofEvaluation e) := by
  have hparse : parseInput o.input o.strict = parseExpression o.input := by
    rw [hstrict, parseInput_lenient]
  unfold evaluateValue
  cases htree : parseExpression o.input with
  | error p => exact .inr ⟨.parse p, rfl, report_of_parse_error hblank hvars (hparse.trans htree)⟩
  | ok tree =>
    cases hv : tree.evaluate vars with
    | ok v =>
      exact .inl ⟨tree, v, rfl, hv, report_of_tree_value hblank hvars (hparse.trans htree) hv⟩
    | error e =>
      refine .inr ⟨e, hv, ?_⟩
      rw [RunError.ofEvaluation_of_ne_parse fun p hp => evaluate_ne_parse htree vars p (hp ▸ hv)]
      exact report_of_tree_error hblank hvars (hparse.trans htree) hv

theorem report_map_result (hstrict : o.strict = false) (hblank : isBlankInput o.input = false)
    (hvars : resolveVariables w o.config o.assignments = .ok vars) :
    (report w o).map Report.result =
      (evaluate o.input vars).mapError RunError.ofEvaluation := by
  unfold evaluate
  rcases report_lenient hstrict hblank hvars with ⟨tree, v, -, hv, hreport⟩ | ⟨e, he, hreport⟩
  · rw [hreport, hv]
    rfl
  · rw [hreport, he]
    rfl

theorem execute_modes (hstrict : o.strict = false) (hblank : isBlankInput o.input = false)
    (hvars : resolveVariables w o.config o.assignments = .ok vars) (format : OutputFormat)
    (tree : Bool) :
    (report w { o with format, tree }).map Report.result = (report w o).map Report.result ∧
      (execute w { o with format, tree }).map (fun _ => ()) = (execute w o).map fun _ => () := by
  have hsame : (report w { o with format, tree }).map Report.result =
      (report w o).map Report.result := by
    rw [report_map_result hstrict hblank hvars]
    exact report_map_result (o := { o with format, tree }) hstrict hblank hvars
  exact ⟨hsame, by rw [execute_map_eq, hsame, ← execute_map_eq]⟩

/-- **A lenient run ends as evaluation of its input does.** It shows the value, with the tree
if this is asked for, or fails with the error, which is one of evaluation only if it is none of
parsing; neither the format nor whether the tree is shown changes the result or the error. -/
theorem execute_lenient (hstrict : o.strict = false) (hblank : isBlankInput o.input = false)
    (hvars : resolveVariables w o.config o.assignments = .ok vars) :
    (∀ v, evaluateValue o.input vars = .ok v →
      ∃ tree output, parseExpression o.input = .ok tree ∧ execute w o = .ok output ∧
        Report.Shows o.format o.input v vars (if o.tree then some tree.render else none) output) ∧
    (∀ p, evaluateValue o.input vars = .error (.parse p) → execute w o = .error (.parse p)) ∧
    (∀ e, (∀ p, e ≠ .parse p) → evaluateValue o.input vars = .error e →
      execute w o = .error (.evaluation e)) ∧
    (∀ p, execute w o ≠ .error (.evaluation (.parse p))) ∧
    ∀ format tree,
      (report w { o with format, tree }).map Report.result = (report w o).map Report.result ∧
      (execute w { o with format, tree }).map (fun _ => ()) =
        (execute w o).map fun _ => () := by
  have hmodes := execute_modes hstrict hblank hvars
  rcases report_lenient hstrict hblank hvars with ⟨tree, v, htree, hv, hreport⟩ | ⟨e, he, hreport⟩
  · have hok := execute_of_report hreport
    refine ⟨fun u hu => ?_, fun p hp => ?_, fun e _ he => ?_, fun p hp => ?_, hmodes⟩
    · obtain rfl : v = u := Except.ok.inj (hv.symm.trans hu)
      exact ⟨tree, _, htree, hok, Report.shows_render _ o.format⟩
    · cases hv.symm.trans hp
    · cases hv.symm.trans he
    · cases hok.symm.trans hp
  · have hfails := execute_of_report_error hreport
    refine ⟨fun v hv => ?_, fun p hp => ?_, fun d hd he' => ?_, fun p hp => ?_, hmodes⟩
    · cases he.symm.trans hv
    · obtain rfl : e = .parse p := Except.error.inj (he.symm.trans hp)
      exact hfails
    · obtain rfl : e = d := Except.error.inj (he.symm.trans he')
      rw [← RunError.ofEvaluation_of_ne_parse hd]
      exact hfails
    · have herror := Except.error.inj (hfails.symm.trans hp)
      exact RunError.ofEvaluation_ne_evaluation_parse e p herror

end

/-- What follows on the expression has no part in its value, and the tree is a field of its own. -/
theorem execute_lenient_tree_in_json :
    ∃ output, execute (.ofFiles [] []) ⟨"a * 3 b", "a = -2", none, false, true, 0, .json⟩ =
        .ok output ∧
      Json.read output = some (.object [
        (some "expression", .string (some "a * 3 b")), (some "result", .bool false),
        (some "tree", .string (some "(* a 3)")), (some "value", .number ['-', '6']),
        (some "variables", .object [(some "a", .number ['-', '2'])])]) := by
  have hvars : resolveVariables (.ofFiles [] []) none "a = -2" =
      .ok (Variables.empty.insert "a" (-2)) := by rfl
  have hvalue : evaluateValue "a * 3 b" (Variables.empty.insert "a" (-2)) = .ok (.int (-6)) := by
    decide +kernel
  obtain ⟨tree, output, htree, hok, hshows⟩ :=
    (execute_lenient (o := ⟨"a * 3 b", "a = -2", none, false, true, 0, .json⟩) rfl
      (by decide +kernel) hvars).1 _ hvalue
  have hrender : (parseExpression "a * 3 b").map Node.render = .ok "(* a 3)" := by
    decide +kernel
  rw [htree] at hrender
  have hsix : (Integer.render (-6)).toList = ['-', '6'] := by decide +kernel
  have htwo : (Integer.render (-2)).toList = ['-', '2'] := by decide +kernel
  refine ⟨output, hok, ?_⟩
  rw [← hsix, ← htwo, ← Except.ok.inj hrender]
  exact hshows

end Run
end Condition
