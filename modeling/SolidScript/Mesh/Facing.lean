import SolidScript.Mesh.Guarded

/-!
# Faces over vertices of a mesh

Faces are added by the places of their corners and turned to look outward. A corner that does not
exist is a fault.
-/

namespace SolidScript

open Scalar

namespace Mesh

variable {α : Type} [Scalar α]

/-- A triangle turned to face `outward`. One without area is left out. -/
def addIndexedFacing (m : Mesh α) (t : Triangle) (outward : Vec3 α) : Except (OperatorError α) (Mesh α) := do
  let n ← Guarded.triangleNormal m t
  if n.norm ≤ flatNormal then return m
  (m.addTriangle (if n.dot outward < 0 then t.flip else t)).mapError .mesh

/-- The quad `a b c d`, split along `a c`. -/
def addQuadIndexedFacing (m : Mesh α) (a b c d : Nat) (outward : Vec3 α) :
    Except (OperatorError α) (Mesh α) := do
  let m ← m.addIndexedFacing ⟨a, b, c⟩ outward
  m.addIndexedFacing ⟨a, c, d⟩ outward

/-! ## Strips -/

/-- Two vertices side by side, each with its normal. -/
structure Rung (α : Type) where
  left : Vec3 α
  leftNormal : Vec3 α
  right : Vec3 α
  rightNormal : Vec3 α

def addRung (m : Mesh α) (r : Rung α) : Mesh α :=
  (m.addVertexWithNormal r.left r.leftNormal).addVertexWithNormal r.right r.rightNormal

/-- Rungs joined by one quad for each outward direction. After the last rung comes the first. -/
def addStrip (m : Mesh α) (rungs : List (Rung α)) (outward : List (Vec3 α)) :
    Except (OperatorError α) (Mesh α) :=
  let base := m.vertexCount
  let m := rungs.foldl addRung m
  outward.zipIdx.foldlM (fun m (direction, k) =>
    let next := (k + 1) % rungs.length
    m.addQuadIndexedFacing (base + 2 * k) (base + 2 * k + 1) (base + 2 * next + 1) (base + 2 * next)
      direction) m

end Mesh

end SolidScript
