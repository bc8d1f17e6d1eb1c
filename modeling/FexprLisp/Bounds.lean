/-!
# Bounds of integers

The integers of the language are the signed 32-bit ones.

## Main definitions

- `minInt`, `maxInt` — the least and the greatest integer
- `inBounds` — whether a whole number is one of them
-/

namespace FexprLisp

/-- The least integer. -/
def minInt : Int := -2147483648

/-- The greatest integer. -/
def maxInt : Int := 2147483647

/-- Whether a whole number is an integer of the language. -/
def inBounds (n : Int) : Bool :=
  minInt ≤ n && n ≤ maxInt

theorem inBounds_iff {n : Int} : inBounds n = true ↔ minInt ≤ n ∧ n ≤ maxInt := by
  simp [inBounds]

end FexprLisp
