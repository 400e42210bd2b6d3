/-
Variables written as text, and read back.

Entries stand one behind another between commas, among them blank ones, and white space may stand
at either end of a name, of a number and so of an entry (`Written`). No name and no number has a
comma, an equals sign or white space in it, so a text that is written like this assigns its
entries (`Written.assigns`), and reading misses none of what a text assigns
(`parseAssignments_of_assignments`). Main statement: `parseAssignments_written`.
-/
import Condition.Proofs.Numerals
import Condition.Proofs.ParsedPrefix
import Condition.Proofs.ResolvedVariables
import Mathlib.Data.List.Basic

namespace Condition

/-! ## White space -/

theorem not_mem_of_class {p : Char → Bool} {cs : List Char} (h : ∀ c ∈ cs, p c = true) {c : Char}
    (hc : p c = false) : c ∉ cs := by
  intro hmem
  rw [h c hmem] at hc
  cases hc

namespace Unicode

/-- White space only, or nothing. -/
def Gap (cs : List Char) : Prop := ∀ c ∈ cs, isWhiteSpace c = true

instance (cs : List Char) : Decidable (Gap cs) :=
  decidable_of_iff (cs.all isWhiteSpace = true) List.all_eq_true

theorem gap_nil : Gap [] := by simp [Gap]

theorem Gap.not_mem {gap : List Char} (h : Gap gap) {c : Char} (hc : isWhiteSpace c = false) :
    c ∉ gap :=
  not_mem_of_class h hc

theorem trim_padded {before cs after : List Char} (hbefore : Gap before) (hafter : Gap after)
    (h : ∀ c ∈ cs, isWhiteSpace c = false) : trim (before ++ (cs ++ after)) = cs := by
  have hleft : ∀ ds : List Char, (∀ c ∈ ds, isWhiteSpace c = false) → trimLeft ds = ds := by
    intro ds hds
    refine List.dropWhile_eq_self_iff.2 fun hlen => ?_
    simp [hds ds[0] (List.getElem_mem hlen)]
  have hreverse : ∀ c ∈ cs.reverse, isWhiteSpace c = false := fun c hc =>
    h c (List.mem_reverse.1 hc)
  rw [trim_append_left hbefore, trim_append_right hafter, trim, hleft cs h,
    hleft cs.reverse hreverse, List.reverse_reverse]

end Unicode

theorem isWhiteSpace_of_isWordChar {c : Char} (h : isWordChar c = true) :
    Unicode.isWhiteSpace c = false := by
  refine Bool.eq_false_iff.2 fun hw => ?_
  rw [isWordChar_of_isWhiteSpace hw] at h
  cases h

namespace Variables

/-! ## Texts that are written -/

/-- The text writes the entry, with any white space at the ends of its name and of its number. -/
def WritesEntry (text : List Char) (e : String × Int64) : Prop :=
  ∃ before behind front numeral after,
    text = (before ++ (e.1.toList ++ behind)) ++ '=' :: (front ++ (numeral ++ after)) ∧
      Unicode.Gap before ∧ Unicode.Gap behind ∧ Unicode.Gap front ∧ Unicode.Gap after ∧
      Integer.Numeral numeral e.2

/-- The parts are blank, or they write the entries one after another. -/
inductive Written : List (List Char) → List (String × Int64) → Prop
  | nil : Written [] []
  | blank {part parts es} : Unicode.Gap part → Written parts es → Written (part :: parts) es
  | entry {part parts e es} : WritesEntry part e → Written parts es →
      Written (part :: parts) (e :: es)

/-- The text writes the entries in their order, with commas between them. -/
def WrittenAs (raw : String) (es : List (String × Int64)) : Prop :=
  ∃ parts, raw.toList = [','].intercalate parts ∧ Written parts es

/-- Every name is accepted. -/
def NamesAccepted (es : List (String × Int64)) : Prop := ∀ e ∈ es, checkName e.1 = .ok ()

instance (es : List (String × Int64)) : Decidable (NamesAccepted es) :=
  inferInstanceAs (Decidable (∀ e ∈ es, checkName e.1 = .ok ()))

theorem isWordChar_of_mem_name {name : String} (h : checkName name = .ok ()) :
    ∀ c ∈ name.toList, isWordChar c = true :=
  (wellFormed_of_checkName h 0).2.1

theorem isWhiteSpace_of_mem_numeral {cs : List Char} {i : Int64} (h : Integer.Numeral cs i) :
    ∀ c ∈ cs, Unicode.isWhiteSpace c = false := by
  intro c hc
  rcases h.mem c hc with hc | rfl | rfl
  · exact isWhiteSpace_of_isWordChar (isWordChar_of_isDigit hc)
  · decide
  · decide

/-- What writes an entry assigns it, and is no more than one part. -/
theorem WritesEntry.assigns {text : List Char} {e : String × Int64} (h : WritesEntry text e)
    (hname : checkName e.1 = .ok ()) : Assigns text e ∧ ',' ∉ text := by
  obtain ⟨before, behind, front, numeral, after, rfl, hbefore, hbehind, hfront, hafter,
    hnumeral⟩ := h
  have hword := isWordChar_of_mem_name hname
  have hequals : '=' ∉ before ++ (e.1.toList ++ behind) := by
    simp only [List.mem_append, not_or]
    exact ⟨hbefore.not_mem (by decide), not_mem_of_class hword (by decide),
      hbehind.not_mem (by decide)⟩
  refine ⟨⟨_, _, rfl, hequals, ?_, ?_⟩, ?_⟩
  · rw [Unicode.trim_padded hbefore hbehind fun c hc => isWhiteSpace_of_isWordChar (hword c hc),
      String.ofList_toList]
  · rw [Unicode.trim_padded hfront hafter (isWhiteSpace_of_mem_numeral hnumeral)]
    exact hnumeral.readDecimal?_eq
  · have hdigits : ',' ∉ numeral := fun hmem => by
      rcases hnumeral.mem _ hmem with h | h | h <;> revert h <;> decide
    simp only [List.mem_append, List.mem_cons, not_or]
    exact ⟨⟨hbefore.not_mem (by decide), not_mem_of_class hword (by decide),
        hbehind.not_mem (by decide)⟩,
      by decide, hfront.not_mem (by decide), hdigits, hafter.not_mem (by decide)⟩

theorem Assigns.mem_trim {text : List Char} {e : String × Int64} (h : Assigns text e) :
    '=' ∈ Unicode.trim text := by
  obtain ⟨before, after, htext, -⟩ := h
  obtain ⟨front, back, hsplit, hfront, hback⟩ := Unicode.exists_trim text
  have hmem : '=' ∈ front ++ (Unicode.trim text ++ back) := by
    rw [← hsplit, htext]
    simp
  simp only [List.mem_append] at hmem
  rcases hmem with hmem | hmem | hmem
  · exact absurd hmem (Unicode.Gap.not_mem hfront (by decide))
  · exact hmem
  · exact absurd hmem (Unicode.Gap.not_mem hback (by decide))

/-- Written parts that are not blank assign the entries. -/
theorem Written.assigns {parts : List (List Char)} {es : List (String × Int64)}
    (h : Written parts es) (hnames : NamesAccepted es) :
    (∀ part ∈ parts, ',' ∉ part) ∧
      List.Forall₂ Assigns (parts.filter fun part => !(Unicode.trim part).isEmpty) es := by
  induction h with
  | nil => exact ⟨by simp, .nil⟩
  | @blank part parts es hgap _ ih =>
    obtain ⟨hcomma, hassigns⟩ := ih hnames
    have htrim : Unicode.trim part = [] := by
      rw [← List.append_nil part, Unicode.trim_append_left hgap]
      rfl
    refine ⟨List.forall_mem_cons.2 ⟨hgap.not_mem (by decide), hcomma⟩, ?_⟩
    rwa [List.filter_cons_of_neg (by simp [htrim])]
  | entry hentry _ ih =>
    obtain ⟨hname, hnames⟩ := List.forall_mem_cons.1 hnames
    obtain ⟨hcomma, hassigns⟩ := ih hnames
    obtain ⟨hassign, hnot⟩ := hentry.assigns hname
    refine ⟨List.forall_mem_cons.2 ⟨hnot, hcomma⟩, ?_⟩
    rw [List.filter_cons_of_pos (by simpa using List.ne_nil_of_mem hassign.mem_trim)]
    exact .cons hassign hassigns

/-! ## Reading -/

theorem Assigns.trim {text : List Char} {e : String × Int64} (h : Assigns text e) :
    Assigns (Unicode.trim text) e := by
  obtain ⟨before', after', htrim, hbefore'⟩ := List.eq_append_cons_of_mem h.mem_trim
  obtain ⟨before, after, htext, hbefore, he, hvalue⟩ := h
  obtain ⟨front, back, hsplit, hfront, hback⟩ := Unicode.exists_trim text
  -- The first equals sign of the trimmed text is that of the text.
  have hnot : '=' ∉ front ++ before' := by
    simp only [List.mem_append, not_or]
    exact ⟨Unicode.Gap.not_mem hfront (by decide), hbefore'⟩
  have hcut : Text.cut? '=' text = some (front ++ before', after' ++ back) := by
    rw [hsplit, htrim, ← Text.cut?_append hnot]
    simp
  rw [htext, Text.cut?_append hbefore, Option.some.injEq, Prod.mk.injEq] at hcut
  obtain ⟨rfl, rfl⟩ := hcut
  rw [Unicode.trim_append_left hfront] at he
  rw [Unicode.trim_append_right hback] at hvalue
  exact ⟨before', after', htrim, hbefore', he, hvalue⟩

theorem parseEntry_of_assigns {entry : List Char} {e : String × Int64} (h : Assigns entry e)
    (hname : checkName e.1 = .ok ()) : parseEntry entry = .ok e := by
  obtain ⟨before, after, rfl, hbefore, he, hvalue⟩ := h
  simp only [parseEntry, Text.cut?_append hbefore, ← he, hname, hvalue, bind, Except.bind]
  rfl

theorem parseEntries_of_assigns {parts : List (List Char)} {es : List (String × Int64)}
    (h : List.Forall₂ Assigns parts es) (hnames : NamesAccepted es) :
    parseEntries (parts.map Unicode.trim) = .ok es := by
  induction h with
  | nil => rfl
  | cons hassign _ ih =>
    obtain ⟨hname, hnames⟩ := List.forall_mem_cons.1 hnames
    simp only [List.map_cons, parseEntries, parseEntry_of_assigns hassign.trim hname, ih hnames,
      bind, Except.bind]
    rfl

/-- Text that assigns entries with names that are accepted is read as the variables of them. -/
theorem parseAssignments_of_assignments {raw : String} {es : List (String × Int64)}
    (h : Assignments raw es) (hnames : NamesAccepted es) :
    parseAssignments raw = .ok (ofList es) := by
  obtain ⟨parts, hjoin, hcomma, hassigns⟩ := h
  have hparts : splitEntries raw.toList =
      (parts.filter fun part => !(Unicode.trim part).isEmpty).map Unicode.trim := by
    rw [splitEntries, List.filter_map, Text.split_eq_splitOn, ← hjoin]
    by_cases hnil : parts = []
    · subst hnil
      rfl
    · rw [List.splitOn_intercalate ',' hcomma hnil]
      rfl
  rw [parseAssignments, hparts, parseEntries_of_assigns hassigns hnames]
  rfl

theorem parseAssignments_of_writtenAs {raw : String} {es : List (String × Int64)}
    (h : WrittenAs raw es) (hnames : NamesAccepted es) :
    parseAssignments raw = .ok (ofList es) := by
  obtain ⟨parts, hraw, hwritten⟩ := h
  obtain ⟨hcomma, hassigns⟩ := hwritten.assigns hnames
  exact parseAssignments_of_assignments ⟨parts, hraw.symm, hcomma, hassigns⟩ hnames

/-! ## Variables as text -/

/-- The entries one behind another, with nothing between them but commas. -/
def render (vars : Variables) : String :=
  ",".intercalate (vars.entries.map fun e => e.1 ++ "=" ++ Integer.render e.2)

theorem writtenAs_render (vars : Variables) : WrittenAs vars.render vars.entries := by
  refine ⟨vars.entries.map fun e => e.1.toList ++ '=' :: (Integer.render e.2).toList, ?_, ?_⟩
  · rw [render, String.toList_intercalate, List.map_map]
    congr 1
    refine List.map_congr_left fun e _ => ?_
    simp
  · have hnone := Unicode.gap_nil
    induction vars.entries with
    | nil => exact .nil
    | cons e es ih =>
      have hentry : WritesEntry (e.1.toList ++ '=' :: (Integer.render e.2).toList) e :=
        ⟨[], [], [], _, [], by simp, hnone, hnone, hnone, hnone, Integer.numeral_render e.2⟩
      exact .entry hentry ih

theorem ofList_entries (vars : Variables) : ofList vars.entries = vars := by
  refine eq_of_get? fun name => ?_
  rw [ofList, get?_foldl_insert vars.sorted, get?_empty, Option.or_none]
  rfl

/-- **Reading undoes writing.** However entries are written, they are read: the variables are
those that are listed, each with the last value that is listed for it. In particular variables
are read back from their text. -/
theorem parseAssignments_written :
    (∀ raw es, WrittenAs raw es → NamesAccepted es →
      ∃ vars, parseAssignments raw = .ok vars ∧
        (∀ name, name ∈ vars.names ↔ name ∈ es.map (·.1)) ∧
        ∀ before name v after, es = before ++ (name, v) :: after → name ∉ after.map (·.1) →
          vars.get? name = some v) ∧
      ∀ vars : Variables, (∀ name ∈ vars.names, checkName name = .ok ()) →
        parseAssignments vars.render = .ok vars := by
  constructor
  · intro raw es hwritten hnames
    refine ⟨ofList es, parseAssignments_of_writtenAs hwritten hnames,
      fun name => mem_names_ofList, ?_⟩
    rintro before name v after rfl hlast
    exact get?_ofList_last hlast
  · intro vars hvars
    have hnames : NamesAccepted vars.entries := fun e he => hvars e.1 (List.mem_map_of_mem he)
    rw [parseAssignments_of_writtenAs (writtenAs_render vars) hnames, ofList_entries]

/-- Blank entries, white space of several kinds, a sign and zeros that could be left out, both
bounds of the integers, and a name that is listed twice. -/
theorem parseAssignments_written_padded :
    (∃ vars, parseAssignments
        ", x=1,\u3000é\t= -9223372036854775808 ,,b=+07,x =9223372036854775807," = .ok vars ∧
        vars.get? "x" = some Int64.maxValue ∧ vars.get? "é" = some Int64.minValue ∧
        vars.get? "b" = some 7 ∧ "a" ∉ vars.names) ∧
      parseAssignments (ofList [("é", Int64.minValue), ("x", Int64.maxValue)]).render =
        .ok (ofList [("é", Int64.minValue), ("x", Int64.maxValue)]) := by
  have hone : WritesEntry " x=1".toList ("x", 1) :=
    ⟨[' '], [], [], ['1'], [], by decide +kernel, by decide, by decide, by decide, by decide,
      .plain (n := 1) (by decide) (by decide)⟩
  have hmin : WritesEntry "\u3000é\t= -9223372036854775808 ".toList ("é", Int64.minValue) :=
    ⟨['\u3000'], ['\t'], [' '], '-' :: "9223372036854775808".toList, [' '], by decide +kernel,
      by decide, by decide, by decide, by decide,
      .minus (n := 9223372036854775808) (by decide) (by decide)⟩
  have hseven : WritesEntry "b=+07".toList ("b", 7) :=
    ⟨[], [], [], ['+', '0', '7'], [], by decide +kernel, by decide, by decide, by decide,
      by decide, .plus (n := 7) (by decide) (by decide)⟩
  have hmax : WritesEntry "x =9223372036854775807".toList ("x", Int64.maxValue) :=
    ⟨[], [' '], [], "9223372036854775807".toList, [], by decide +kernel, by decide, by decide,
      by decide, by decide, .plain (n := 9223372036854775807) (by decide) (by decide)⟩
  have hwritten : WrittenAs ", x=1,\u3000é\t= -9223372036854775808 ,,b=+07,x =9223372036854775807,"
      [("x", 1), ("é", Int64.minValue), ("b", 7), ("x", Int64.maxValue)] :=
    ⟨_, by decide +kernel, .blank Unicode.gap_nil (.entry hone (.entry hmin
      (.blank Unicode.gap_nil (.entry hseven (.entry hmax (.blank Unicode.gap_nil .nil))))))⟩
  obtain ⟨vars, hvars, hnames, hlast⟩ :=
    parseAssignments_written.1 _ _ hwritten (by decide +kernel)
  refine ⟨⟨vars, hvars, hlast [_, _, _] _ _ [] rfl (by simp), hlast [_] _ _ [_, _] rfl (by simp),
    hlast [_, _] _ _ [_] rfl (by simp), ?_⟩,
    parseAssignments_written.2 _ (by decide +kernel)⟩
  rw [hnames]
  simp

end Variables
end Condition
