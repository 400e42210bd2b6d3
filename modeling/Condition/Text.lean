/-
Measures and cuts of text. Positions in text are byte offsets of its UTF-8 form.
-/

namespace Condition.Text

/-- The length of the UTF-8 form in bytes. -/
def byteLength : List Char → Nat
  | [] => 0
  | c :: cs => c.utf8Size + byteLength cs

@[simp] theorem byteLength_nil : byteLength [] = 0 := rfl

@[simp] theorem byteLength_cons (c : Char) (cs : List Char) :
    byteLength (c :: cs) = c.utf8Size + byteLength cs := rfl

@[simp] theorem byteLength_append (as bs : List Char) :
    byteLength (as ++ bs) = byteLength as + byteLength bs := by
  induction as with
  | nil => simp
  | cons c as ih => simp [ih, Nat.add_assoc]

theorem byteLength_ofList (cs : List Char) : byteLength cs = (String.ofList cs).utf8ByteSize := by
  induction cs with
  | nil => simp [String.ofList_nil]
  | cons c cs ih =>
    have hsplit : String.ofList (c :: cs) = String.singleton c ++ String.ofList cs := by
      rw [String.singleton_eq_ofList, ← String.ofList_append]; rfl
    rw [byteLength_cons, ih, hsplit, String.utf8ByteSize_append, String.utf8ByteSize_singleton]

theorem byteLength_toList (s : String) : byteLength s.toList = s.utf8ByteSize := by
  rw [byteLength_ofList, String.ofList_toList]

theorem append_inj_byteLength {as bs as' bs' : List Char} (h : as ++ bs = as' ++ bs')
    (hlength : byteLength as = byteLength as') : as = as' ∧ bs = bs' := by
  induction as generalizing as' with
  | nil =>
    cases as' with
    | nil => exact ⟨rfl, h⟩
    | cons c as' =>
      have := c.utf8Size_pos
      simp only [byteLength_nil, byteLength_cons] at hlength
      omega
  | cons c as ih =>
    cases as' with
    | nil =>
      have := c.utf8Size_pos
      simp only [byteLength_nil, byteLength_cons] at hlength
      omega
    | cons d as' =>
      simp only [List.cons_append, List.cons.injEq] at h
      obtain ⟨rfl, h⟩ := h
      obtain ⟨rfl, hbs⟩ := ih h (by simpa using hlength)
      exact ⟨rfl, hbs⟩

/-! ## Cuts at a byte offset -/

/-- The parts of a text before and behind a byte offset, if that is a place in the text and not
within a character. -/
def partsAt? : Nat → List Char → Option (List Char × List Char)
  | 0, cs => some ([], cs)
  | _ + 1, [] => none
  | pos + 1, c :: cs =>
    if c.utf8Size ≤ pos + 1 then
      (partsAt? (pos + 1 - c.utf8Size) cs).map fun parts => (c :: parts.1, parts.2)
    else none

theorem partsAt?_append (before after : List Char) :
    partsAt? (byteLength before) (before ++ after) = some (before, after) := by
  induction before with
  | nil => cases after <;> rfl
  | cons c before ih =>
    have hpos := c.utf8Size_pos
    obtain ⟨pos, hlength⟩ : ∃ pos, byteLength (c :: before) = pos + 1 :=
      ⟨byteLength (c :: before) - 1, by rw [byteLength_cons]; omega⟩
    have hle : c.utf8Size ≤ pos + 1 := by rw [← hlength, byteLength_cons]; omega
    have hrest : pos + 1 - c.utf8Size = byteLength before := by
      rw [← hlength, byteLength_cons]; omega
    rw [hlength, List.cons_append, partsAt?, if_pos hle, hrest, ih]
    rfl

theorem eq_append_of_partsAt? {pos : Nat} {cs before after : List Char}
    (h : partsAt? pos cs = some (before, after)) :
    cs = before ++ after ∧ pos = byteLength before := by
  fun_induction partsAt? pos cs generalizing before with
  | case1 => cases h; exact ⟨rfl, rfl⟩
  | case2 => cases h
  | case3 pos c cs hle ih =>
    obtain ⟨⟨front, back⟩, hparts, heq⟩ := Option.map_eq_some_iff.1 h
    cases heq
    obtain ⟨rfl, hpos⟩ := ih hparts
    refine ⟨rfl, ?_⟩
    rw [byteLength_cons, ← hpos]
    omega
  | case4 => cases h

theorem isSome_partsAt?_iff {s : String} {pos : Nat} :
    (partsAt? pos s.toList).isSome ↔ String.Pos.Raw.IsValid s ⟨pos⟩ := by
  rw [Option.isSome_iff_exists, String.Pos.Raw.isValid_iff_exists_append]
  constructor
  · rintro ⟨⟨before, after⟩, h⟩
    obtain ⟨htext, hpos⟩ := eq_append_of_partsAt? h
    refine ⟨String.ofList before, String.ofList after, ?_, ?_⟩
    · rw [← String.ofList_append, ← htext, String.ofList_toList]
    · rw [hpos, byteLength_ofList]
      rfl
  · rintro ⟨s₁, s₂, rfl, hpos⟩
    refine ⟨(s₁.toList, s₂.toList), ?_⟩
    have hlength : pos = byteLength s₁.toList := by
      rw [byteLength_toList]
      exact congrArg String.Pos.Raw.byteIdx hpos
    rw [hlength, String.toList_append, partsAt?_append]

/-- The part of a text from one byte offset to another, if both are places in the text, in this
order. -/
def slice? (start stop : Nat) (cs : List Char) : Option (List Char) :=
  (partsAt? stop cs).bind fun parts => (partsAt? start parts.1).map Prod.snd

theorem slice?_append (before part after : List Char) :
    slice? (byteLength before) (byteLength before + byteLength part) (before ++ (part ++ after)) =
      some part := by
  rw [slice?, ← byteLength_append, ← List.append_assoc, partsAt?_append, Option.bind_some,
    partsAt?_append]
  rfl

/-- The text with `new` in the place of the part that starts at the byte offset `pos` and is so
many bytes long, if this part begins and ends at places in the text. -/
def splice? (pos length : Nat) (new cs : List Char) : Option (List Char) := do
  let (before, _) ← partsAt? pos cs
  let (_, after) ← partsAt? (pos + length) cs
  return before ++ (new ++ after)

theorem splice?_append (before old after new : List Char) :
    splice? (byteLength before) (byteLength old) new (before ++ (old ++ after)) =
      some (before ++ (new ++ after)) := by
  have hstart := partsAt?_append before (old ++ after)
  have hstop := partsAt?_append (before ++ old) after
  rw [List.append_assoc, byteLength_append] at hstop
  rw [splice?, hstart, hstop]
  rfl

/-! ## Cuts at a character -/

/-- The parts before and after the first occurrence of the character. -/
def cut? (sep : Char) : List Char → Option (List Char × List Char)
  | [] => none
  | c :: cs =>
    if c = sep then some ([], cs)
    else (cut? sep cs).map fun (before, after) => (c :: before, after)

theorem cut?_eq_some {sep : Char} {cs before after : List Char}
    (h : cut? sep cs = some (before, after)) : cs = before ++ sep :: after ∧ sep ∉ before := by
  induction cs generalizing before with
  | nil => simp [cut?] at h
  | cons c cs ih =>
    simp only [cut?] at h
    split at h
    · next hc => simp_all
    · next hc =>
      obtain ⟨⟨b, a⟩, hba, he⟩ := Option.map_eq_some_iff.1 h
      injection he with hb ha
      subst hb; subst ha
      obtain ⟨h1, h2⟩ := ih hba
      exact ⟨by simp [h1], by simp [h2]; exact fun e => hc e.symm⟩

theorem cut?_eq_none {sep : Char} {cs : List Char} : cut? sep cs = none ↔ sep ∉ cs := by
  induction cs with
  | nil => simp [cut?]
  | cons c cs ih =>
    by_cases hc : c = sep
    · simp [cut?, hc]
    · simp [cut?, hc, ih, Ne.symm hc]

theorem cut?_append {sep : Char} {before : List Char} (h : sep ∉ before) (after : List Char) :
    cut? sep (before ++ sep :: after) = some (before, after) := by
  induction before with
  | nil => simp [cut?]
  | cons c before ih =>
    simp only [List.mem_cons, not_or] at h
    simp [cut?, Ne.symm h.1, ih h.2]

/-- The parts between the occurrences of the character, at least one. -/
def split (sep : Char) : List Char → List (List Char)
  | [] => [[]]
  | c :: cs =>
    if c = sep then [] :: split sep cs
    else match split sep cs with
      | [] => [[c]]
      | part :: parts => (c :: part) :: parts

end Condition.Text
