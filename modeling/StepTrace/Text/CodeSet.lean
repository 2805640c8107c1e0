/-!
# Sets of code points

A large set of characters is stored as the ascending list of the code points at which membership
changes, the first change being from outside to inside.  A code point belongs to the set exactly
when an odd number of changes lies at or before it.
-/

namespace StepTrace.Text

/-- A set of code points, given by the ascending points at which membership changes. -/
structure CodeSet where
  changes : Array Nat

namespace CodeSet

/-- The number of changes at or before `c`, found by halving the window `[lo, hi)`: all changes
before `lo` are at or before `c`, all from `hi` on are after it. -/
def countFrom (s : CodeSet) (c lo hi : Nat) : Nat :=
  if lo < hi then
    let mid := (lo + hi) / 2
    if s.changes.getD mid 0 ≤ c then s.countFrom c (mid + 1) hi else s.countFrom c lo mid
  else lo
termination_by hi - lo

/-- The number of changes at or before `c`. -/
def count (s : CodeSet) (c : Nat) : Nat :=
  s.countFrom c 0 s.changes.size

/-- Membership: an odd number of changes lies at or before `c`. -/
def contains (s : CodeSet) (c : Nat) : Bool :=
  s.count c % 2 == 1

/-- The first code point of the run of members that `c` lies in, if it lies in one. -/
def runStart? (s : CodeSet) (c : Nat) : Option Nat :=
  if s.contains c then s.changes[s.count c - 1]? else none

end CodeSet

end StepTrace.Text
