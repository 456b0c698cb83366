import DeclAnalysis.Numeric.Binary64

/-!
# Constants

The values that are known before a program runs.
-/

namespace DeclAnalysis

/-- A known value: an integer of any size, or a double. -/
inductive Constant where
  /-- An integer. -/
  | int (value : Int)
  /-- A floating-point number. -/
  | float (value : Binary64)
deriving DecidableEq

end DeclAnalysis
