/-
Assignments joined by a comma.

A comma ends an entry wherever it stands, so the entries of two texts with a comma between them
are those of the first and then those of the second (`splitEntries_comma`), also when the texts
are blank or malformed where they meet. Entries are read from the left, each by itself, and a
later one wins. Hence the texts are read one after the other, and the variables of the second are
laid over those of the first (`Overlays`), as the assignments of a run are laid over its settings
file. Main statement: `parseAssignments_comma`.
-/
import Condition.Proofs.ResolvedVariables

namespace Condition

theorem Text.split_append_cons (sep : Char) (as bs : List Char) :
    split sep (as ++ sep :: bs) = split sep as ++ split sep bs := by
  simp only [split_eq_splitOn]
  exact List.splitOn_append_cons_self as bs

namespace Variables

/-! ## One variables over another -/

/-- The second variables are laid over the first: a name that the second have has its value
there, and every other name has its value in the first. -/
structure Overlays (vars first second : Variables) : Prop where
  mem_names : ∀ name, name ∈ vars.names ↔ name ∈ first.names ∨ name ∈ second.names
  of_mem : ∀ name, name ∈ second.names → vars.get? name = second.get? name
  of_not_mem : ∀ name, name ∉ second.names → vars.get? name = first.get? name

theorem get?_of_not_mem_names {vars : Variables} {name : String} (h : name ∉ vars.names) :
    vars.get? name = none := by
  rwa [mem_names_iff, Option.not_isSome_iff_eq_none] at h

/-- There is one way to lay variables over others, and it is their union. -/
theorem overlays_iff {vars first second : Variables} :
    Overlays vars first second ↔ vars = first.union second := by
  constructor
  · intro h
    refine eq_of_get? fun name => ?_
    rw [get?_union]
    by_cases hname : name ∈ second.names
    · obtain ⟨v, hv⟩ := Option.isSome_iff_exists.1 (mem_names_iff.1 hname)
      rw [h.of_mem name hname, hv]
      rfl
    · rw [h.of_not_mem name hname, get?_of_not_mem_names hname]
      rfl
  · rintro rfl
    refine ⟨fun name => mem_names_union, fun name hname => ?_, fun name hname => ?_⟩
    · obtain ⟨v, hv⟩ := Option.isSome_iff_exists.1 (mem_names_iff.1 hname)
      rw [get?_union, hv]
      rfl
    · rw [get?_union, get?_of_not_mem_names hname]
      rfl

theorem get?_foldl_insert_ofList (es : List (String × Int64)) (vars : Variables) (name : String) :
    (es.foldl (fun vars e => vars.insert e.1 e.2) vars).get? name =
      ((ofList es).get? name).or (vars.get? name) := by
  by_cases hname : name ∈ es.map (·.1)
  · obtain ⟨before, v, after, rfl, hafter⟩ := exists_last_entry hname
    rw [get?_ofList_last hafter, List.foldl_append, List.foldl_cons,
      get?_foldl_insert_of_not_mem hafter, get?_insert, if_pos rfl]
    rfl
  · rw [get?_ofList_of_not_mem hname, get?_foldl_insert_of_not_mem hname]
    rfl

theorem ofList_append (es ds : List (String × Int64)) :
    ofList (es ++ ds) = (ofList es).union (ofList ds) := by
  refine eq_of_get? fun name => ?_
  rw [get?_union, ofList, List.foldl_append, get?_foldl_insert_ofList]
  rfl

/-! ## Entries in two parts -/

theorem splitEntries_comma (as bs : List Char) :
    splitEntries (as ++ ',' :: bs) = splitEntries as ++ splitEntries bs := by
  rw [splitEntries, Text.split_append_cons, List.map_append, List.filter_append]
  rfl

/-- The first error decides, and entries behind it have no say. -/
theorem parseEntries_append (es ds : List (List Char)) :
    parseEntries (es ++ ds) =
      (parseEntries es >>= fun first => (parseEntries ds).map (first ++ ·)) := by
  induction es with
  | nil =>
    cases h : parseEntries ds <;> simp [parseEntries, h, bind, Except.bind, Except.map]
  | cons e es ih =>
    simp only [List.cons_append, parseEntries, ih]
    cases parseEntry e with
    | error _ => rfl
    | ok first =>
    cases parseEntries es with
    | error _ => rfl
    | ok rest => cases parseEntries ds <;> rfl

theorem parseAssignments_append (a b : String) :
    parseAssignments (a ++ "," ++ b) =
      (parseAssignments a >>= fun first => (parseAssignments b).map first.union) := by
  have hsplit : (a ++ "," ++ b).toList = a.toList ++ ',' :: b.toList := by simp
  simp only [parseAssignments, hsplit, splitEntries_comma, parseEntries_append]
  cases parseEntries (splitEntries a.toList) with
  | error _ => rfl
  | ok first =>
  cases parseEntries (splitEntries b.toList) with
  | error _ => rfl
  | ok second => exact congrArg Except.ok (ofList_append first second)

/-- **A comma joins assignments.** Texts with a comma between them have the error of the first, if
it has one, and else that of the second. If neither has one, the variables of the second are laid
over those of the first. So are those of the assignments of a run over those of its settings. -/
theorem parseAssignments_comma (a b : String) :
    (∀ e, parseAssignments a = .error e → parseAssignments (a ++ "," ++ b) = .error e) ∧
    (∀ first e, parseAssignments a = .ok first → parseAssignments b = .error e →
      parseAssignments (a ++ "," ++ b) = .error e) ∧
    (∀ first second, parseAssignments a = .ok first → parseAssignments b = .ok second →
      ∃ vars, parseAssignments (a ++ "," ++ b) = .ok vars ∧ Overlays vars first second) ∧
    ∀ w config first second, Run.settingsVariables w config = .ok first →
      parseAssignments b = .ok second →
        ∃ vars, Run.resolveVariables w config b = .ok vars ∧ Overlays vars first second := by
  rw [parseAssignments_append]
  refine ⟨fun e ha => ?_, fun first e ha hb => ?_, fun first second ha hb => ?_,
    fun w config first second hfile hb => ?_⟩
  · rw [ha]
    rfl
  · rw [ha, hb]
    rfl
  · rw [ha, hb]
    exact ⟨_, rfl, overlays_iff.2 rfl⟩
  · rw [Run.resolveVariables, hfile, hb]
    exact ⟨_, rfl, overlays_iff.2 rfl⟩

/-- Blank entries where the texts meet, a name that the second text has again, and errors in the
first text and in the second, with further ones behind them. -/
theorem parseAssignments_comma_overridden :
    (∃ vars, parseAssignments ("x=1, y = 2 ," ++ "," ++ " ,z=3,y=-9223372036854775808") = .ok vars ∧
      vars.get? "x" = some 1 ∧ vars.get? "y" = some Int64.minValue) ∧
    parseAssignments ("x=1,y" ++ "," ++ "NOT=1") = .error (.missingSeparator "y") ∧
    parseAssignments ("x=1, y = 2 ," ++ "," ++ "y= 2 3,NOT=1") = .error (.invalidValue "y" "2 3") ∧
    ∃ vars, Run.resolveVariables
        ⟨fun _ => .ok "\x7b\"variables\": \x7b\"x\": 7, \"y\": 8\x7d\x7d", fun _ => none⟩
        (some "c.json") " ,z=3,y=-9223372036854775808" = .ok vars ∧
      vars.get? "x" = some 7 ∧ vars.get? "y" = some Int64.minValue := by
  obtain ⟨first, hfirst, hxy⟩ : ∃ vars, parseAssignments "x=1, y = 2 ," = .ok vars ∧
      vars.entries = [("x", 1), ("y", 2)] := Except.map_eq_ok_iff.1 (by decide +kernel)
  obtain ⟨second, hsecond, hyz⟩ : ∃ vars,
      parseAssignments " ,z=3,y=-9223372036854775808" = .ok vars ∧
      vars.entries = [("y", Int64.minValue), ("z", 3)] :=
    Except.map_eq_ok_iff.1 (by decide +kernel)
  obtain ⟨file, hfile, hxy'⟩ : ∃ vars, Run.settingsVariables
      ⟨fun _ => .ok "\x7b\"variables\": \x7b\"x\": 7, \"y\": 8\x7d\x7d", fun _ => none⟩
      (some "c.json") = .ok vars ∧ vars.entries = [("x", 7), ("y", 8)] :=
    Except.map_eq_ok_iff.1 (by decide +kernel)
  have hnot : "x" ∉ second.names := by simp [names, hyz]
  have hmem : "y" ∈ second.names := by simp [names, hyz]
  have hlast : second.get? "y" = some Int64.minValue := by simp [get?, hyz, lookup]
  obtain ⟨-, -, hboth, hrun⟩ := parseAssignments_comma "x=1, y = 2 ," " ,z=3,y=-9223372036854775808"
  obtain ⟨vars, hvars, hover⟩ := hboth _ _ hfirst hsecond
  obtain ⟨vars', hvars', hover'⟩ := hrun _ _ _ _ hfile hsecond
  refine ⟨⟨vars, hvars, ?_, (hover.of_mem _ hmem).trans hlast⟩,
    (parseAssignments_comma "x=1,y" "NOT=1").1 _ (by rfl),
    (parseAssignments_comma "x=1, y = 2 ," "y= 2 3,NOT=1").2.1 first _ hfirst (by rfl),
    vars', hvars', ?_, (hover'.of_mem _ hmem).trans hlast⟩
  · rw [hover.of_not_mem _ hnot]
    simp [get?, hxy, lookup]
  · rw [hover'.of_not_mem _ hnot]
    simp [get?, hxy', lookup]

end Variables
end Condition
