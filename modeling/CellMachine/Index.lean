/-!
# Indexes

Positions in a queue and counts of cells are signed numbers of 64 bits. An integer outside their
range is refused as such, before anything is looked up or made.
-/

namespace CellMachine.Index

/-- Indexes lie below this limit, and not below its negative. -/
def limit : Int := 0x8000000000000000

/-- Is this integer an index? -/
def fits (i : Int) : Bool := decide (-limit ≤ i) && decide (i < limit)

/-- The wording for an integer that is no index. -/
def refusal : String := "cannot fit 'int' into an index-sized integer"

/-- The indexes are the integers of 64 bits with a sign. -/
theorem fits_iff (i : Int) :
    fits i = true ↔ -0x8000000000000000 ≤ i ∧ i < 0x8000000000000000 := by
  rw [fits, limit, Bool.and_eq_true, decide_eq_true_eq, decide_eq_true_eq]

end CellMachine.Index
