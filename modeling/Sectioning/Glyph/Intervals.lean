/-
Sets of characters as lists of closed intervals of code points.
-/

namespace Sectioning

abbrev Intervals := List (Nat × Nat)

namespace Intervals

def contains (intervals : Intervals) (c : Char) : Bool :=
  intervals.any fun i => i.1 ≤ c.toNat && c.toNat ≤ i.2

theorem contains_iff {intervals : Intervals} {c : Char} :
    intervals.contains c = true ↔ ∃ i ∈ intervals, i.1 ≤ c.toNat ∧ c.toNat ≤ i.2 := by
  simp [contains]

end Intervals
end Sectioning
