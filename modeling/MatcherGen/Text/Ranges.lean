/-
Sets of scalars given as lists of closed ranges of code points.
-/

namespace MatcherGen

/-- a set of code points: the union of closed ranges -/
abbrev RangeTable := List (Nat × Nat)

/-- does one of the ranges hold `n`? -/
def RangeTable.holds (table : RangeTable) (n : Nat) : Bool :=
  table.any fun r => r.1 ≤ n && n ≤ r.2

theorem RangeTable.holds_iff (table : RangeTable) (n : Nat) :
    table.holds n = true ↔ ∃ r ∈ table, r.1 ≤ n ∧ n ≤ r.2 := by
  simp [RangeTable.holds]

end MatcherGen
