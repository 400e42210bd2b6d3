/-
Signed 64-bit integers as the language computes with them: an exact integer is
taken over only when it is in range (`fit?`), and a text is read as a number
only when all of it is one (`read?`, `readDecimal?`).
-/

namespace Condition.Integer

/-- The 64-bit integer of this value, if there is one. -/
def fit? (n : Int) : Option Int64 :=
  if Int64.minValue.toInt ≤ n ∧ n ≤ Int64.maxValue.toInt then some (Int64.ofInt n) else none

theorem fit?_eq_some_iff {n : Int} {i : Int64} : fit? n = some i ↔ i.toInt = n := by
  have hmin : Int64.minValue.toInt = -9223372036854775808 := by decide
  have hmax : Int64.maxValue.toInt = 9223372036854775807 := by decide
  constructor
  · intro h
    simp only [fit?, hmin, hmax] at h
    split at h
    · injection h with h
      subst h
      exact Int64.toInt_ofInt_of_le (by omega) (by omega)
    · simp at h
  · rintro rfl
    have h1 := i.minValue_le_toInt
    have h2 := i.toInt_le
    rw [hmin] at h1
    simp only [fit?, hmin, hmax]
    rw [if_pos ⟨h1, by omega⟩, Int64.ofInt_toInt]

/-- The value of an ASCII digit below the base, with letters of either case from ten on. -/
def digit? (base : Nat) (c : Char) : Option Nat :=
  let value :=
    if c.isDigit then some (c.toNat - '0'.toNat)
    else if 'a' ≤ c ∧ c ≤ 'z' then some (c.toNat - 'a'.toNat + 10)
    else if 'A' ≤ c ∧ c ≤ 'Z' then some (c.toNat - 'A'.toNat + 10)
    else none
  value.filter (· < base)

/-- The number that the digits of this base write after the digits of `high`. -/
def digits? (base : Nat) (high : Nat) : List Char → Option Nat
  | [] => some high
  | c :: cs => (digit? base c).bind fun d => digits? base (high * base + d) cs

/-- The number written by one or more digits. -/
def natural? (base : Nat) : List Char → Option Nat
  | [] => none
  | cs => digits? base 0 cs

/-- The number written by digits that may have one sign in front. -/
def signed? (base : Nat) : List Char → Option Int
  | '+' :: cs => (natural? base cs).map Int.ofNat
  | '-' :: cs => (natural? base cs).map fun n => -Int.ofNat n
  | cs => (natural? base cs).map Int.ofNat

/-- The 64-bit integer that the whole text writes in this base, an optional sign first. -/
def read? (base : Nat) (cs : List Char) : Option Int64 := (signed? base cs).bind fit?

/-- The 64-bit integer that the whole text writes in decimal, an optional sign first. -/
def readDecimal? (text : String) : Option Int64 := read? 10 text.toList

/-- The decimal numeral, with a minus sign when the integer is negative. -/
def render (i : Int64) : String := toString i.toInt

end Condition.Integer
