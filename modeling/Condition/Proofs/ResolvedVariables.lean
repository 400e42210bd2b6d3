/-
The variables that a run evaluates with.

They come from a settings file and from assignments, and both refuse every name that the
scanner does not read as one identifier. So a variable is never out of reach: as an expression
its name has its value (`evaluateValue_name`). Which value that is, is told by the text of the
assignments (`Assignments`): the last one that it assigns to the name, and else the value in
the file. Main statement: `resolveVariables_ok`.
-/
import Condition.Proofs.NameRule
import Condition.Proofs.Precedence
import Condition.Run
import Mathlib.Data.List.Forall2
import Mathlib.Data.List.TakeWhile

namespace Condition

/-! ## Outcomes of steps -/

theorem Except.bind_eq_ok_iff {ε α β : Type} {x : Except ε α} {f : α → Except ε β} {b : β} :
    x >>= f = .ok b ↔ ∃ a, x = .ok a ∧ f a = .ok b := by
  cases x with
  | error e => exact ⟨nofun, fun ⟨_, h, _⟩ => nomatch h⟩
  | ok a => exact ⟨fun h => ⟨a, rfl, h⟩, fun ⟨_, h, hf⟩ => Except.ok.inj h ▸ hf⟩

theorem Except.map_eq_ok_iff {ε α β : Type} {x : Except ε α} {f : α → β} {b : β} :
    x.map f = .ok b ↔ ∃ a, x = .ok a ∧ f a = b := by
  cases x with
  | error e => simp [Except.map]
  | ok a => simp [Except.map]

theorem Except.mapError_eq_ok_iff {ε ε' α : Type} {x : Except ε α} {f : ε → ε'} {a : α} :
    x.mapError f = .ok a ↔ x = .ok a := by
  cases x with
  | error e => simp [Except.mapError]
  | ok a => simp [Except.mapError]

theorem Except.bind_eq_error_iff {ε α β : Type} {x : Except ε α} {f : α → Except ε β} {e : ε} :
    x >>= f = .error e ↔ x = .error e ∨ ∃ a, x = .ok a ∧ f a = .error e := by
  cases x with
  | error d => simp [bind, Except.bind]
  | ok a => simp [bind, Except.bind]

theorem Except.mapError_eq_error_iff {ε ε' α : Type} {x : Except ε α} {f : ε → ε'} {e : ε'} :
    x.mapError f = .error e ↔ ∃ d, x = .error d ∧ f d = e := by
  cases x with
  | error d => simp [Except.mapError]
  | ok a => simp [Except.mapError]

/-! ## Text without white space at its ends -/

namespace Unicode

theorem trim_append_left {gap : List Char} (h : ∀ c ∈ gap, isWhiteSpace c = true)
    (cs : List Char) : trim (gap ++ cs) = trim cs := by
  rw [trim, trimLeft, trimLeft, List.dropWhile_append_of_pos h]
  rfl

theorem trim_append_right {gap : List Char} (h : ∀ c ∈ gap, isWhiteSpace c = true)
    (cs : List Char) : trim (cs ++ gap) = trim cs := by
  have hgap : ∀ c ∈ gap.reverse, isWhiteSpace c = true := fun c hc => h c (List.mem_reverse.1 hc)
  unfold trim trimLeft
  rw [List.dropWhile_append]
  split
  · next hnil =>
    rw [List.isEmpty_iff.1 hnil, List.dropWhile_eq_nil_iff.2 h]
  · rw [List.reverse_append, List.dropWhile_append_of_pos hgap]

theorem exists_trim (cs : List Char) :
    ∃ before after, cs = before ++ (trim cs ++ after) ∧
      (∀ c ∈ before, isWhiteSpace c = true) ∧ ∀ c ∈ after, isWhiteSpace c = true := by
  have hall (ds : List Char) : ∀ c ∈ ds.takeWhile isWhiteSpace, isWhiteSpace c = true :=
    List.all_eq_true.1 List.all_takeWhile
  refine ⟨cs.takeWhile isWhiteSpace, ((trimLeft cs).reverse.takeWhile isWhiteSpace).reverse, ?_,
    hall cs, fun c hc => hall _ c (List.mem_reverse.1 hc)⟩
  unfold trim
  rw [← List.reverse_append]
  show cs = _ ++ ((trimLeft cs).reverse.takeWhile _ ++ (trimLeft cs).reverse.dropWhile _).reverse
  rw [List.takeWhile_append_dropWhile, List.reverse_reverse]
  exact (List.takeWhile_append_dropWhile).symm

end Unicode

/-! ## Parts of a text -/

namespace Text

theorem split_ne_nil (sep : Char) (cs : List Char) : split sep cs ≠ [] := by
  cases cs with
  | nil => simp [split]
  | cons c cs =>
    simp only [split]
    split
    · simp
    · split <;> simp

theorem split_eq_splitOn (sep : Char) (cs : List Char) : split sep cs = cs.splitOn sep := by
  induction cs with
  | nil => rfl
  | cons c cs ih =>
    obtain ⟨part, parts, hsplit⟩ := List.exists_cons_of_ne_nil (split_ne_nil sep cs)
    rw [List.splitOn_cons_eq_if_modifyHead, ← ih, split, hsplit]
    simp only [beq_iff_eq, List.modifyHead_cons]

theorem not_mem_of_mem_split {sep : Char} {cs : List Char} :
    ∀ part ∈ split sep cs, sep ∉ part := by
  induction cs with
  | nil => simp [split]
  | cons c cs ih =>
    obtain ⟨part, parts, hsplit⟩ := List.exists_cons_of_ne_nil (split_ne_nil sep cs)
    rw [hsplit] at ih
    obtain ⟨hpart, hparts⟩ := List.forall_mem_cons.1 ih
    simp only [split, hsplit]
    by_cases hc : c = sep
    · rw [if_pos hc]
      exact List.forall_mem_cons.2 ⟨by simp, List.forall_mem_cons.2 ⟨hpart, hparts⟩⟩
    · rw [if_neg hc]
      refine List.forall_mem_cons.2 ⟨fun hmem => ?_, hparts⟩
      rcases List.mem_cons.1 hmem with he | hmem
      · exact hc he.symm
      · exact hpart hmem

theorem split_spec (sep : Char) (cs : List Char) :
    [sep].intercalate (split sep cs) = cs ∧ ∀ part ∈ split sep cs, sep ∉ part := by
  refine ⟨?_, not_mem_of_mem_split⟩
  rw [split_eq_splitOn, List.intercalate_splitOn]

end Text

/-! ## Assignments as text -/

namespace Variables

/-- The text assigns a value to a name, with any white space around either. -/
def Assigns (text : List Char) (e : String × Int64) : Prop :=
  ∃ before after, text = before ++ '=' :: after ∧ '=' ∉ before ∧
    e.1 = String.ofList (Unicode.trim before) ∧
    Integer.readDecimal? (String.ofList (Unicode.trim after)) = some e.2

/-- The entries that the text assigns one after another, each between two commas; between them
there may also be nothing but white space. -/
def Assignments (raw : String) (es : List (String × Int64)) : Prop :=
  ∃ parts, [','].intercalate parts = raw.toList ∧ (∀ part ∈ parts, ',' ∉ part) ∧
    List.Forall₂ Assigns (parts.filter fun part => !(Unicode.trim part).isEmpty) es

theorem assigns_of_trim {text : List Char} {e : String × Int64}
    (h : Assigns (Unicode.trim text) e) : Assigns text e := by
  obtain ⟨before, after, htext, hname, he⟩ := h
  obtain ⟨front, back, hsplit, hfront, hback⟩ := Unicode.exists_trim text
  refine ⟨front ++ before, after ++ back, ?_, fun hmem => ?_, ?_⟩
  · rw [htext] at hsplit
    simpa using hsplit
  · rcases List.mem_append.1 hmem with hmem | hmem
    · exact absurd (hfront _ hmem) (by decide)
    · exact hname hmem
  · rw [Unicode.trim_append_left hfront, Unicode.trim_append_right hback]
    exact he

theorem parseEntry_ok {entry : List Char} {e : String × Int64} (h : parseEntry entry = .ok e) :
    Assigns entry e ∧ checkName e.1 = .ok () := by
  unfold parseEntry at h
  split at h
  · cases h
  next before after hcut =>
  obtain ⟨hentry, hname⟩ := Text.cut?_eq_some hcut
  obtain ⟨_, hcheck, h⟩ := Except.bind_eq_ok_iff.1 h
  split at h
  · next n hn =>
    cases h
    exact ⟨⟨before, after, hentry, hname, rfl, hn⟩, hcheck⟩
  · cases h

theorem parseEntries_ok {parts : List (List Char)} {es : List (String × Int64)}
    (h : parseEntries (parts.map Unicode.trim) = .ok es) :
    List.Forall₂ Assigns parts es ∧ ∀ e ∈ es, checkName e.1 = .ok () := by
  induction parts generalizing es with
  | nil =>
    cases h
    exact ⟨.nil, by simp⟩
  | cons part parts ih =>
    obtain ⟨e, he, h⟩ := Except.bind_eq_ok_iff.1 h
    obtain ⟨ds, hds, h⟩ := Except.bind_eq_ok_iff.1 h
    cases h
    obtain ⟨hassigns, hcheck⟩ := parseEntry_ok he
    obtain ⟨hparts, hnames⟩ := ih hds
    exact ⟨.cons (assigns_of_trim hassigns) hparts, List.forall_mem_cons.2 ⟨hcheck, hnames⟩⟩

theorem parseAssignments_ok {raw : String} {vars : Variables}
    (h : parseAssignments raw = .ok vars) :
    ∃ es, Assignments raw es ∧ (∀ e ∈ es, checkName e.1 = .ok ()) ∧ vars = ofList es := by
  obtain ⟨es, hes, rfl⟩ := Except.map_eq_ok_iff.1 h
  rw [splitEntries, List.filter_map] at hes
  obtain ⟨hassigns, hnames⟩ := parseEntries_ok hes
  obtain ⟨hjoin, hparts⟩ := Text.split_spec ',' raw.toList
  exact ⟨es, ⟨_, hjoin, hparts, hassigns⟩, hnames, rfl⟩

/-! ## Entries put in one after another -/

theorem mem_names_iff {vars : Variables} {name : String} :
    name ∈ vars.names ↔ (vars.get? name).isSome = true := by
  obtain ⟨es, hsorted⟩ := vars
  show name ∈ es.map (·.1) ↔ (lookup name es).isSome = true
  clear hsorted
  induction es with
  | nil => simp [lookup]
  | cons e es ih =>
    obtain ⟨n, v⟩ := e
    simp only [List.map_cons, List.mem_cons, lookup, ih]
    by_cases hn : n = name
    · simp [hn]
    · simp [hn, Ne.symm hn]

theorem get?_of_mem {vars : Variables} {e : String × Int64} (h : e ∈ vars.entries) :
    vars.get? e.1 = some e.2 := by
  obtain ⟨es, hsorted⟩ := vars
  show lookup e.1 es = some e.2
  induction es with
  | nil => cases h
  | cons d es ih =>
    obtain ⟨n, v⟩ := d
    rw [List.pairwise_cons] at hsorted
    rcases List.mem_cons.1 h with rfl | h
    · simp [lookup]
    · have hlt : n < e.1 := hsorted.1 e h
      have hne : n ≠ e.1 := fun he => String.lt_irrefl n (by rwa [← he] at hlt)
      rw [lookup, if_neg hne]
      exact ih hsorted.2 h

theorem get?_foldl_insert_of_not_mem {es : List (String × Int64)} {name : String}
    (h : name ∉ es.map (·.1)) (vars : Variables) :
    (es.foldl (fun vars e => vars.insert e.1 e.2) vars).get? name = vars.get? name := by
  induction es generalizing vars with
  | nil => rfl
  | cons e es ih =>
    rw [List.map_cons, List.mem_cons, not_or] at h
    rw [List.foldl_cons, ih h.2, get?_insert, if_neg fun he => h.1 he.symm]

theorem get?_ofList_last {before after : List (String × Int64)} {name : String} {v : Int64}
    (h : name ∉ after.map (·.1)) : (ofList (before ++ (name, v) :: after)).get? name = some v := by
  rw [ofList, List.foldl_append, List.foldl_cons, get?_foldl_insert_of_not_mem h, get?_insert,
    if_pos rfl]

theorem get?_ofList_of_not_mem {es : List (String × Int64)} {name : String}
    (h : name ∉ es.map (·.1)) : (ofList es).get? name = none :=
  get?_foldl_insert_of_not_mem h empty

theorem exists_last_entry {es : List (String × Int64)} {name : String}
    (h : name ∈ es.map (·.1)) :
    ∃ before v after, es = before ++ (name, v) :: after ∧ name ∉ after.map (·.1) := by
  induction es with
  | nil => simp at h
  | cons e es ih =>
    by_cases hes : name ∈ es.map (·.1)
    · obtain ⟨before, v, after, rfl, hafter⟩ := ih hes
      exact ⟨e :: before, v, after, rfl, hafter⟩
    · rcases List.mem_cons.1 h with rfl | h
      · exact ⟨[], e.2, es, rfl, hes⟩
      · exact absurd h hes

theorem mem_names_ofList {es : List (String × Int64)} {name : String} :
    name ∈ (ofList es).names ↔ name ∈ es.map (·.1) := by
  rw [mem_names_iff]
  by_cases h : name ∈ es.map (·.1)
  · obtain ⟨before, v, after, rfl, hafter⟩ := exists_last_entry h
    simp [get?_ofList_last hafter]
  · simp only [get?_ofList_of_not_mem h, h, Option.isSome_none, Bool.false_eq_true]

theorem mem_names_union {first second : Variables} {name : String} :
    name ∈ (first.union second).names ↔ name ∈ first.names ∨ name ∈ second.names := by
  rw [mem_names_iff, mem_names_iff, mem_names_iff, get?_union, Option.isSome_or, Bool.or_eq_true]
  exact or_comm

end Variables

/-! ## The two sources -/

/-- The variables that the settings file gives: those of its text, placeholders replaced. -/
def FileVariables (w : Workspace) (config : Option String) (vars : Variables) : Prop :=
  match config with
  | none => vars = .empty
  | some path => ∃ raw text s, w.read path = .ok raw ∧ Placeholder.expand w.env raw = .ok text ∧
      Settings.decode? (.ofPath path) text = some s ∧ s.vars = vars

theorem Settings.checkName_of_nameIssues {name : String} (h : nameIssues name = []) :
    Variables.checkName name = .ok () := by
  unfold nameIssues at h
  split at h
  · next hok => exact hok
  · cases h

theorem Settings.checkName_of_check {s s' : Settings} (h : s.check = .ok s') :
    s' = s ∧ ∀ name ∈ s.vars.names, Variables.checkName name = .ok () := by
  unfold check at h
  split at h
  · next hissues =>
    cases h
    refine ⟨rfl, fun name hname => checkName_of_nameIssues ?_⟩
    obtain ⟨-, hnames⟩ := List.append_eq_nil_iff.1 (List.isEmpty_iff.1 hissues)
    exact List.flatMap_eq_nil_iff.1 hnames name hname
  · cases h

theorem Run.settingsVariables_ok {w : Workspace} {config : Option String} {vars : Variables}
    (h : Run.settingsVariables w config = .ok vars) :
    FileVariables w config vars ∧ ∀ name ∈ vars.names, Variables.checkName name = .ok () := by
  cases config with
  | none =>
    cases h
    exact ⟨rfl, fun name hname => by cases hname⟩
  | some path =>
    obtain ⟨s, hload, rfl⟩ := Except.map_eq_ok_iff.1 (Except.mapError_eq_ok_iff.1 h)
    obtain ⟨raw, hraw, hload⟩ := Except.bind_eq_ok_iff.1 hload
    obtain ⟨text, htext, hload⟩ := Except.bind_eq_ok_iff.1 hload
    split at hload
    · next s' hs' =>
      obtain ⟨rfl, hnames⟩ := Settings.checkName_of_check hload
      exact ⟨⟨raw, text, s, Except.mapError_eq_ok_iff.1 hraw, Except.mapError_eq_ok_iff.1 htext,
        hs', rfl⟩, hnames⟩
    · cases hload

/-- Without the variables a run fails for the settings or for the assignments. -/
theorem Run.resolveVariables_error {w : Workspace} {config : Option String} {raw : String}
    {e : RunError} (h : Run.resolveVariables w config raw = .error e) :
    (∃ d, e = .settings d) ∨ ∃ d, e = .assignments d := by
  rcases Except.bind_eq_error_iff.1 h with hfile | ⟨first, -, h⟩
  · cases config with
    | none => cases hfile
    | some path =>
      obtain ⟨d, -, rfl⟩ := Except.mapError_eq_error_iff.1 hfile
      exact .inl ⟨d, rfl⟩
  · rcases Except.bind_eq_error_iff.1 h with hraw | ⟨second, -, h⟩
    · obtain ⟨d, -, rfl⟩ := Except.mapError_eq_error_iff.1 hraw
      exact .inr ⟨d, rfl⟩
    · cases h

theorem evaluateValue_name {name : String} (h : Variables.checkName name = .ok ())
    (vars : Variables) : evaluateValue name vars = .ok (.int (vars.value name)) := by
  have hone : tokenize name = .ok ([⟨.identifier, name, 0⟩] ++ endAt name.utf8ByteSize :: []) :=
    oneIdentifier_iff.2 (Variables.wellFormed_of_checkName h 0)
  have hsentence : Sentence [⟨.identifier, name, 0⟩] (.leaf ⟨.identifier, name, 0⟩) :=
    ⟨_, [], .last (by simp) (.atom (.inr rfl)), .operand⟩
  obtain ⟨p, p', hp, hparse, -⟩ := Parser.parse_sentence_prefix hone rfl hsentence
  have htree : parseExpression name = .ok (.leaf ⟨.identifier, name, 0⟩) := by
    rw [parseExpression, hp]
    show (p.parse 0).1 = _
    rw [hparse]
  rw [evaluateValue, htree]
  rfl

/-- **Every resolved variable is the right one and can be read.** The names are those of the file
and those of the assignments; a name has the value of its last entry among the assignments,
or else the one in the file. Every name is one identifier, and as an expression it has its value. -/
theorem Run.resolveVariables_ok {w : Workspace} {config : Option String} {raw : String}
    {vars : Variables} (h : Run.resolveVariables w config raw = .ok vars) :
    ∃ file es, FileVariables w config file ∧ Variables.Assignments raw es ∧
      (∀ name, name ∈ vars.names ↔ name ∈ file.names ∨ name ∈ es.map (·.1)) ∧
      (∀ before name v after, es = before ++ (name, v) :: after → name ∉ after.map (·.1) →
        vars.get? name = some v) ∧
      (∀ name, name ∉ es.map (·.1) → vars.get? name = file.get? name) ∧
      ∀ e ∈ vars.entries, OneIdentifier e.1 ∧ evaluateValue e.1 vars = .ok (.int e.2) := by
  obtain ⟨file, hfile, h⟩ := Except.bind_eq_ok_iff.1 h
  obtain ⟨second, hsecond, h⟩ := Except.bind_eq_ok_iff.1 h
  obtain ⟨es, hes, hnames, rfl⟩ :=
    Variables.parseAssignments_ok (Except.mapError_eq_ok_iff.1 hsecond)
  obtain ⟨hvars, hfileNames⟩ := Run.settingsVariables_ok hfile
  obtain rfl : file.union (.ofList es) = vars := Except.ok.inj h
  have hmem (name : String) : name ∈ (file.union (.ofList es)).names ↔
      name ∈ file.names ∨ name ∈ es.map (·.1) := by
    rw [Variables.mem_names_union, Variables.mem_names_ofList]
  refine ⟨file, es, hvars, hes, hmem, ?_, ?_, ?_⟩
  -- The assignments are looked up first, and in them only the last entry of a name is left.
  · intro before name v after he hafter
    rw [Variables.get?_union, he, Variables.get?_ofList_last hafter]
    rfl
  · intro name hname
    rw [Variables.get?_union, Variables.get?_ofList_of_not_mem hname]
    rfl
  · intro e he
    have hcheck : Variables.checkName e.1 = .ok () := by
      rcases (hmem e.1).1 (List.mem_map_of_mem he) with hname | hname
      · exact hfileNames e.1 hname
      · obtain ⟨d, hd, heq⟩ := List.mem_map.1 hname
        rw [← heq]
        exact hnames d hd
    refine ⟨oneIdentifier_iff.2 (Variables.wellFormed_of_checkName hcheck 0), ?_⟩
    rw [evaluateValue_name hcheck, Variables.value, Variables.get?_of_mem he]
    rfl

/-- The file takes one value from the environment, and the assignments replace the other twice. -/
theorem Run.resolveVariables_overridden :
    ∃ vars, Run.resolveVariables
        ⟨fun _ => .ok "\x7b\"variables\": \x7b\"a\": $\x7bA\x7d, \"b\": 1\x7d\x7d",
          fun _ => some "7"⟩ (some "c.json") "b=2, c = -3 ,, b=5" = .ok vars ∧
      vars.entries = [("a", 7), ("b", 5), ("c", -3)] ∧
      evaluateValue "a" vars = .ok (.int 7) ∧ evaluateValue "b" vars = .ok (.int 5) := by
  have hentries : (Run.resolveVariables
      ⟨fun _ => .ok "\x7b\"variables\": \x7b\"a\": $\x7bA\x7d, \"b\": 1\x7d\x7d",
        fun _ => some "7"⟩ (some "c.json") "b=2, c = -3 ,, b=5").map Variables.entries =
        .ok [("a", 7), ("b", 5), ("c", -3)] := by decide +kernel
  obtain ⟨vars, hok, hlist⟩ := Except.map_eq_ok_iff.1 hentries
  obtain ⟨file, es, -, -, -, -, -, hread⟩ := Run.resolveVariables_ok hok
  have ha : ("a", 7) ∈ vars.entries := by simp [hlist]
  have hb : ("b", 5) ∈ vars.entries := by simp [hlist]
  exact ⟨vars, hok, hlist, (hread _ ha).2, (hread _ hb).2⟩

end Condition
