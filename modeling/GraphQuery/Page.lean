/-!
# GraphQuery.Page — pages of a result

The page a request asks for: how many rows to skip, at most how many rows follow, and whether the
number of all rows is wanted.
-/

namespace GraphQuery

/-- The part of the rows that a request asks for, and whether it asks for their number. -/
structure PageRequest where
  offset : Nat
  /-- Unbounded where absent. -/
  size : Option Nat
  returnTotal : Bool
deriving Repr, DecidableEq

namespace PageRequest

/-- All rows, without a total. -/
def everything : PageRequest := ⟨0, none, false⟩

end PageRequest

end GraphQuery
