import SolidScript.Mesh.Guarded

/-!
# Draft

Tapers a mesh along a pull direction, so that its outermost points lean toward the middle. Points in
the neutral plane stay.
-/

namespace SolidScript

open Scalar

structure Drafted (α : Type) where
  mesh : Mesh α
  /-- The angle that was used, in degrees. -/
  applied : α

namespace Draft

variable {α : Type} [Scalar α]

/-- No cross-section shrinks below this part of itself. -/
def minTaper : α := 0.05

def maxAngle : α := 89

def greatestOf (items : List α) : α := items.foldl greatest 0

/-- The part of a vector at right angles to a unit vector. -/
def across (pull v : Vec3 α) : Vec3 α := v - pull * v.dot pull

/-- Greatest angle in degrees for points that reach so far from the middle and so far past the
neutral plane. -/
def limit (reach lean : α) : α :=
  if ulpOne < lean then least maxAngle (degrees (arctan ((1 - minTaper) * reach / lean))) else maxAngle

/-- A point moved toward the middle axis by its height above the neutral plane. -/
def movePoint (center pull : Vec3 α) (neutral slope : α) (p : Vec3 α) : Vec3 α :=
  let taper := 1 - (p.dot pull - neutral) * slope
  p - across pull (p - center) * (1 - greatest taper minTaper)

/-- Without a neutral plane the lowest point stays. -/
def taper (m : Mesh α) (pull : Vec3 α) (angle : α) (neutral : Option α) :
    Except (OperatorError α) (Drafted α) := do
  let center := m.bounds.center
  let points := m.vertices.toList
  let reach := greatestOf (points.map fun p => (across pull (p - center)).norm)
  if reach ≤ ulpOne then return ⟨m, angle⟩
  let heights := points.map fun p => p.dot pull
  let neutral := neutral.getD (heights.foldl least infinity)
  let lean := greatestOf (heights.map fun h => (h - neutral) * sign angle)
  let limit := limit reach lean
  let applied ← Fault.clamp (-limit) limit angle
  let slope := tan (radians applied) / reach
  let moved := { m with vertices := m.vertices.map (movePoint center pull neutral slope) }
  return ⟨← Mesh.Guarded.recomputeNormals moved, applied⟩

end Draft

/-- Empty meshes and meshes without width stay as they are. -/
def Mesh.draft {α : Type} [Scalar α] (m : Mesh α) (angle : α) (direction : Vec3 α) (neutral : Option α) :
    Except (OperatorError α) (Drafted α) := do
  let pull ← match direction.normalize? with
    | some pull => pure pull
    | none => throw .zeroDirection
  if !Scalar.isFinite angle then throw (.nonFinite "angle")
  if neutral.any fun n => !Scalar.isFinite n then throw (.nonFinite "neutral")
  if m.isEmpty then return ⟨m, angle⟩
  Draft.taper m pull angle neutral

end SolidScript
