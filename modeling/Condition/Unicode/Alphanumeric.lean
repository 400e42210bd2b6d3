/-
Which characters are letters or digits in the sense of Unicode: those with the
property Alphabetic and those of the categories Nd, Nl and No. On ASCII these are
the letters and the ten digits, and there the test does not look at the tables.
-/
import Condition.Unicode.Alphabetic
import Condition.Unicode.Numeric

namespace Condition.Unicode

/-- Some range of the table holds the code point. -/
def inRanges (ranges : List (Nat × Nat)) (code : Nat) : Bool :=
  ranges.any fun r => r.1 ≤ code && code ≤ r.2

/-- Unicode letters and digits. -/
def isAlphanumeric (c : Char) : Bool :=
  if c.toNat < 0x80 then c.isAlphanum
  else inRanges alphabeticRanges c.toNat || inRanges numericRanges c.toNat

theorem isAlphanumeric_ascii {c : Char} (h : c.toNat < 0x80) : isAlphanumeric c = c.isAlphanum := by
  simp [isAlphanumeric, h]

end Condition.Unicode
