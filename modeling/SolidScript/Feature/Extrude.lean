import SolidScript.OperatorError
import SolidScript.Shape.Primitive

/-!
# Extruding a face

The face moves along its normal and the opposite face stays. A face pulled inward stops before the
solid vanishes.
-/

namespace SolidScript

open Scalar

structure Extrusion (α : Type) where
  primitive : Primitive α
  /-- How far the face moved. -/
  applied : α

namespace Extrusion

variable {α : Type} [Scalar α]

def minExtent : α := 1e-3

/-- The extent after a face has moved, and how far it moved. -/
def grow (extent distance : α) : α × α :=
  let target := greatest (extent + distance) minExtent
  (target, target - extent)

/-- The center follows the face by half its way. -/
def moveCenter (center : Vec3 α) (face : Face) (applied : α) : Vec3 α :=
  center.set (center.get face.axis + face.sign * applied / 2) face.axis

def unsupported (p : Primitive α) (face : Face) : OperatorError α :=
  .unsupportedTarget "extrude" (p.kind ++ " face `" ++ face.name ++ "`")

end Extrusion

namespace Primitive

variable {α : Type} [Scalar α]

open Extrusion

/-- Boxes extrude at every face, cylinders and cones at the top and the bottom. -/
def extrude (p : Primitive α) (face : Face) (distance : α) : Except (OperatorError α) (Extrusion α) :=
  if !Scalar.isFinite distance then throw (.nonFinite "distance")
  else match p with
    | box size center =>
      let (extent, applied) := grow (magnitude (size.get face.axis)) distance
      pure ⟨box (size.set extent face.axis) (moveCenter center face applied), applied⟩
    | cylinder radius height center segments =>
      if face.axis = .y then
        let (extent, applied) := grow (magnitude height) distance
        pure ⟨cylinder radius extent (moveCenter center face applied) segments, applied⟩
      else throw (unsupported p face)
    | cone radius radiusTop height center segments =>
      if face.axis = .y then
        let (extent, applied) := grow (magnitude height) distance
        pure ⟨cone radius radiusTop extent (moveCenter center face applied) segments, applied⟩
      else throw (unsupported p face)
    | sphere .. => throw (unsupported p face)

end Primitive

end SolidScript
