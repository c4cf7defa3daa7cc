import SolidScript.Scalar

/-!
# Configuration
-/

namespace SolidScript

/-- The order in which entries are evaluated. -/
inductive EvaluationOrder where
  /-- Category by category. What is named before it exists is reported and skipped. -/
  | category
  /-- Each entry after those that it needs. -/
  | dependency
deriving DecidableEq, Repr

namespace EvaluationOrder

def name : EvaluationOrder → String
  | category => "category"
  | dependency => "dependency"

def ofName? : String → Option EvaluationOrder
  | "category" => some category
  | "dependency" => some dependency
  | _ => none

end EvaluationOrder

structure Config where
  order : EvaluationOrder := .category
  /-- Steps around round solids that name no count. -/
  segments : Nat := 32
  sphereRings : Nat := 16
  /-- Steps across a rounded edge. -/
  filletSegments : Nat := 8
  logFilter : String := "warn"
deriving DecidableEq, Repr

end SolidScript
