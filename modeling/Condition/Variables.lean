/-
The variables of a run: each name at most once, in the order of names by code
points, which is the order in which they are shown.

`get?_insert` and `get?_union` say what the operations do to look-up, and
`eq_of_get?` that look-up determines the variables.
-/

namespace Condition

/-- Entries in strictly increasing order of their names. -/
structure Variables where
  entries : List (String × Int64)
  sorted : entries.Pairwise fun a b => a.1 < b.1

namespace Variables

def empty : Variables := ⟨[], .nil⟩

/-- The value of the first entry with this name. -/
def lookup (name : String) : List (String × Int64) → Option Int64
  | [] => none
  | (n, v) :: es => if n = name then some v else lookup name es

/-- The value of a name. -/
def get? (vars : Variables) (name : String) : Option Int64 := lookup name vars.entries

/-- The value of a name, which is 0 when it is not set. -/
def value (vars : Variables) (name : String) : Int64 := (vars.get? name).getD 0

def size (vars : Variables) : Nat := vars.entries.length

def names (vars : Variables) : List String := vars.entries.map (·.1)

/-- Puts an entry in its place, instead of the one of the same name. -/
def place (name : String) (v : Int64) : List (String × Int64) → List (String × Int64)
  | [] => [(name, v)]
  | (n, w) :: es =>
    if name < n then (name, v) :: (n, w) :: es
    else if name = n then (name, v) :: es
    else (n, w) :: place name v es

theorem mem_place {name : String} {v : Int64} {es : List (String × Int64)} {e : String × Int64}
    (h : e ∈ place name v es) : e = (name, v) ∨ e ∈ es := by
  induction es with
  | nil => simpa [place] using h
  | cons d es ih =>
    obtain ⟨n, w⟩ := d
    simp only [place] at h
    split at h
    · simpa using h
    · split at h
      · simp only [List.mem_cons] at h ⊢
        exact h.imp_right .inr
      · simp only [List.mem_cons] at h ⊢
        rcases h with h | h
        · exact .inr (.inl h)
        · exact (ih h).imp_right .inr

theorem place_sorted {name : String} {v : Int64} {es : List (String × Int64)}
    (h : es.Pairwise fun a b => a.1 < b.1) : (place name v es).Pairwise fun a b => a.1 < b.1 := by
  induction es with
  | nil => simp [place]
  | cons d es ih =>
    obtain ⟨n, w⟩ := d
    rw [List.pairwise_cons] at h
    simp only [place]
    split
    · next hlt =>
      refine List.pairwise_cons.2 ⟨fun e he => ?_, List.pairwise_cons.2 h⟩
      rcases List.mem_cons.1 he with rfl | he
      · exact hlt
      · exact String.lt_trans hlt (h.1 e he)
    · split
      · next heq => exact List.pairwise_cons.2 ⟨fun e he => heq ▸ h.1 e he, h.2⟩
      · next hlt hne =>
        refine List.pairwise_cons.2 ⟨fun e he => ?_, ih h.2⟩
        rcases mem_place he with rfl | he
        · refine Decidable.byContradiction fun hnot => hne ?_
          exact String.le_antisymm (String.not_lt.1 hnot) (String.not_lt.1 hlt)
        · exact h.1 e he

/-- The variables with this one set. -/
def insert (vars : Variables) (name : String) (v : Int64) : Variables :=
  ⟨place name v vars.entries, place_sorted vars.sorted⟩

/-- All variables of both, with the second one's value where both have the name. -/
def union (first second : Variables) : Variables :=
  second.entries.foldl (fun vars e => vars.insert e.1 e.2) first

/-- The variables of a list of names and values, of which a later one wins. -/
def ofList (entries : List (String × Int64)) : Variables :=
  entries.foldl (fun vars e => vars.insert e.1 e.2) empty

/-! ## Look-up -/

theorem lookup_place (name : String) (v : Int64) (es : List (String × Int64)) (x : String) :
    lookup x (place name v es) = if name = x then some v else lookup x es := by
  induction es with
  | nil => simp [place, lookup]
  | cons e es ih =>
    obtain ⟨n, w⟩ := e
    simp only [place]
    split
    · simp [lookup]
    · split
      · next heq => subst heq; simp only [lookup]; split <;> rfl
      · next hne =>
        simp only [lookup, ih]
        by_cases hn : n = x
        · subst hn; simp [hne]
        · simp [hn]

theorem get?_insert (vars : Variables) (name : String) (v : Int64) (x : String) :
    (vars.insert name v).get? x = if name = x then some v else vars.get? x :=
  lookup_place name v vars.entries x

theorem get?_empty (x : String) : empty.get? x = none := rfl

theorem lookup_eq_none {es : List (String × Int64)} {x : String} (h : ∀ e ∈ es, x < e.1) :
    lookup x es = none := by
  induction es with
  | nil => rfl
  | cons e es ih =>
    obtain ⟨n, w⟩ := e
    have hn : n ≠ x := fun he => String.lt_irrefl n (by simpa [he] using h (n, w) (by simp))
    simp only [lookup, hn, if_false]
    exact ih fun e he => h e (by simp [he])

theorem get?_foldl_insert {es : List (String × Int64)} (h : es.Pairwise fun a b => a.1 < b.1)
    (vars : Variables) (x : String) :
    (es.foldl (fun vars e => vars.insert e.1 e.2) vars).get? x =
      (lookup x es).or (vars.get? x) := by
  induction es generalizing vars with
  | nil => simp [lookup]
  | cons e es ih =>
    obtain ⟨n, w⟩ := e
    rw [List.pairwise_cons] at h
    rw [List.foldl_cons, ih h.2, get?_insert]
    by_cases hn : n = x
    · subst hn
      simp [lookup, lookup_eq_none h.1]
    · simp [lookup, hn]

theorem get?_union (first second : Variables) (x : String) :
    (first.union second).get? x = (second.get? x).or (first.get? x) :=
  get?_foldl_insert second.sorted first x

theorem eq_of_lookup {es ds : List (String × Int64)} (he : es.Pairwise fun a b => a.1 < b.1)
    (hd : ds.Pairwise fun a b => a.1 < b.1) (h : ∀ x, lookup x es = lookup x ds) : es = ds := by
  induction es generalizing ds with
  | nil =>
    cases ds with
    | nil => rfl
    | cons d ds => simpa [lookup] using h d.1
  | cons e es ih =>
    cases ds with
    | nil => simpa [lookup] using h e.1
    | cons d ds =>
      obtain ⟨n, w⟩ := e
      obtain ⟨m, u⟩ := d
      rw [List.pairwise_cons] at he hd
      have absent {n m : String} {u : Int64} {ds : List (String × Int64)} (hlt : n < m)
          (hds : ∀ e ∈ ds, m < e.1) : lookup n ((m, u) :: ds) = none :=
        lookup_eq_none fun e hmem => by
          rcases List.mem_cons.1 hmem with rfl | hmem
          · exact hlt
          · exact String.lt_trans hlt (hds e hmem)
      have hnm : n = m := by
        refine String.le_antisymm (String.not_lt.1 fun hlt => ?_) (String.not_lt.1 fun hlt => ?_)
        · have := h m
          rw [absent hlt he.1] at this
          simp [lookup] at this
        · have := h n
          rw [absent hlt hd.1] at this
          simp [lookup] at this
      subst hnm
      have hwu : w = u := by simpa [lookup] using h n
      subst hwu
      rw [ih he.2 hd.2 fun x => ?_]
      by_cases hx : n = x
      · subst hx
        rw [lookup_eq_none he.1, lookup_eq_none hd.1]
      · simpa [lookup, hx] using h x

/-- Variables with the same values are the same. -/
theorem eq_of_get? {first second : Variables} (h : ∀ x, first.get? x = second.get? x) :
    first = second := by
  obtain ⟨es, he⟩ := first
  obtain ⟨ds, hd⟩ := second
  obtain rfl : es = ds := eq_of_lookup he hd h
  rfl

end Variables
end Condition
