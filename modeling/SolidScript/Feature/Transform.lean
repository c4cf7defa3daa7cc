import SolidScript.Mesh.Combine
import SolidScript.OperatorError
import SolidScript.Shape.Primitive

/-!
# Moving, turning and scaling

A transform acts on a mesh, and on the primitive the mesh came from as long as the result is still
one.
-/

namespace SolidScript

open Scalar

inductive Transform (α : Type) where
  | translate (offset : Vec3 α)
  /-- The angle is in degrees. -/
  | rotate (axis : Vec3 α) (angle : α) (pivot : Vec3 α)
  | scale (factor pivot : Vec3 α)
deriving DecidableEq, Repr

namespace Transform

variable {α : Type} [Scalar α]

def checkOffset (offset : Vec3 α) : Except (OperatorError α) Unit :=
  if offset.isFinite then pure () else throw (.nonFinite "offset")

/-- The axis as a unit vector, and the angle in radians. -/
def checkRotation (axis : Vec3 α) (angle : α) : Except (OperatorError α) (Vec3 α × α) :=
  match axis.normalize? with
  | none => throw .zeroAxis
  | some axis => if Scalar.isFinite angle then pure (axis, radians angle) else throw (.nonFinite "angle")

def checkFactor (factor : Vec3 α) : Except (OperatorError α) Unit :=
  if !factor.isFinite then throw (.nonFinite "factor")
  else if factor.toList.any fun f => magnitude f < ulpOne then throw .zeroScale
  else pure ()

def toMatrix : Transform α → Except (OperatorError α) (Matrix4 α)
  | translate offset => do
    checkOffset offset
    return Matrix4.translation offset
  | rotate axis angle pivot => do
    let (axis, angle) ← checkRotation axis angle
    return Matrix4.about pivot (Matrix4.rotation axis angle)
  | scale factor pivot => do
    checkFactor factor
    return Matrix4.about pivot (Matrix4.scaling factor)

end Transform

variable {α : Type} [Scalar α]

/-- Only scaling goes through a matrix. -/
def Mesh.apply (m : Mesh α) : Transform α → Except (OperatorError α) (Mesh α)
  | .translate offset => do
    Transform.checkOffset offset
    return m.translate offset
  | .rotate axis angle pivot => do
    let (axis, angle) ← Transform.checkRotation axis angle
    return m.map (Vec3.rotateAbout pivot axis angle) fun n => n.rotate axis angle
  | .scale factor pivot => do
    return m.transform (← (Transform.scale factor pivot).toMatrix)

namespace Primitive

def scalePoint (factor pivot p : Vec3 α) : Vec3 α := pivot + Vec3.zipWith (· * ·) (p - pivot) factor

/-- Factors closer than this keep a circle round. -/
def roundness : α := 1e-12

/-- A round solid stays one only if its circles do. A cone must not be turned upside down. -/
def scale? (factor pivot : Vec3 α) (p : Primitive α) : Option (Primitive α) :=
  let f := factor.map magnitude
  let uniform : Bool := magnitude (f.x - f.z) < roundness
  let move := scalePoint factor pivot
  match p with
  | box size center => some (box (Vec3.zipWith (· * ·) size f) (move center))
  | cylinder radius height center segments =>
    if uniform then some (cylinder (radius * f.x) (height * f.y) (move center) segments) else none
  | cone radius radiusTop height center segments =>
    if uniform && 0 < factor.y then
      some (cone (radius * f.x) (radiusTop * f.x) (height * f.y) (move center) segments)
    else none
  | sphere radius center segments rings =>
    if uniform && magnitude (f.x - f.y) < roundness then
      some (sphere (radius * f.x) (move center) segments rings)
    else none

/-- A turned primitive is no primitive. -/
def transform? (p : Primitive α) : Transform α → Option (Primitive α)
  | .translate offset => some (p.translate offset)
  | .rotate .. => none
  | .scale factor pivot => p.scale? factor pivot

end Primitive

end SolidScript
