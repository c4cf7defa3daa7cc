import SolidScript.Shape.BoxFrame
import SolidScript.Shape.Round

/-!
# Primitive solids

Solids that are known by a few dimensions. Sizes count by their magnitude.
-/

namespace SolidScript

open Scalar

inductive Primitive (α : Type) where
  | box (size center : Vec3 α)
  | cylinder (radius height : α) (center : Vec3 α) (segments : Nat)
  | sphere (radius : α) (center : Vec3 α) (segments rings : Nat)
  | cone (radius radiusTop height : α) (center : Vec3 α) (segments : Nat)
deriving DecidableEq, Repr

namespace Primitive

variable {α : Type}

def kind : Primitive α → String
  | box .. => "box"
  | cylinder .. => "cylinder"
  | sphere .. => "sphere"
  | cone .. => "cone"

def center : Primitive α → Vec3 α
  | box _ center => center
  | cylinder _ _ center _ => center
  | sphere _ center _ _ => center
  | cone _ _ _ center _ => center

variable [Scalar α]

def translate (offset : Vec3 α) : Primitive α → Primitive α
  | box size center => box size (center + offset)
  | cylinder radius height center segments => cylinder radius height (center + offset) segments
  | sphere radius center segments rings => sphere radius (center + offset) segments rings
  | cone radius radiusTop height center segments => cone radius radiusTop height (center + offset) segments

/-- Every dimension, and the center. -/
def isFinite (p : Primitive α) : Bool :=
  p.center.isFinite && match p with
    | box size _ => size.isFinite
    | cylinder radius height _ _ => Scalar.isFinite radius && Scalar.isFinite height
    | sphere radius _ _ _ => Scalar.isFinite radius
    | cone radius radiusTop height _ _ =>
      Scalar.isFinite radius && Scalar.isFinite radiusTop && Scalar.isFinite height

/-! ## Boxes -/

/-- Signs of the corners, first around the back and then around the front. -/
def boxSigns : List (Vec3 α) :=
  [⟨-1, -1, -1⟩, ⟨1, -1, -1⟩, ⟨1, 1, -1⟩, ⟨-1, 1, -1⟩, ⟨-1, -1, 1⟩, ⟨1, -1, 1⟩, ⟨1, 1, 1⟩, ⟨-1, 1, 1⟩]

/-- Two triangles for each of front, back, right, left, top and bottom. -/
def boxTriangles : List Triangle :=
  [⟨4, 5, 6⟩, ⟨4, 6, 7⟩, ⟨1, 0, 3⟩, ⟨1, 3, 2⟩, ⟨5, 1, 2⟩, ⟨5, 2, 6⟩,
    ⟨0, 4, 7⟩, ⟨0, 7, 3⟩, ⟨7, 6, 2⟩, ⟨7, 2, 3⟩, ⟨0, 1, 5⟩, ⟨0, 5, 4⟩]

def boxSurface (size center : Vec3 α) : Mesh α :=
  let h := BoxFrame.half size
  { vertices := (boxSigns.map fun s => center + Vec3.zipWith (· * ·) s h).toArray
    triangles := boxTriangles.toArray
    normals := none }

def boxMesh (size center : Vec3 α) : Mesh α := (boxSurface size center).recomputeNormals

/-! ## Meshes -/

def toMesh : Primitive α → Mesh α
  | box size center => boxMesh size center
  | cylinder radius height center segments => Round.frustum radius radius height center segments
  | sphere radius center segments rings => Round.sphere radius center segments rings
  | cone radius radiusTop height center segments => Round.frustum radius radiusTop height center segments

/-- Only spheres have two counts whose product may be too large. -/
def requireRoom : Primitive α → Except (OperatorError α) Unit
  | sphere _ _ segments rings => Round.requireSphereRoom segments rings
  | _ => pure ()

/-- The mesh, if there is room for it. -/
def build (p : Primitive α) : Except (OperatorError α) (Mesh α) := do
  p.requireRoom
  match p with
  | box size center => Mesh.Guarded.recomputeNormals (boxSurface size center)
  | cylinder radius height center segments =>
    Mesh.Guarded.recomputeNormals (Round.frustumSurface radius radius height center segments)
  | sphere radius center segments rings => return Round.sphere radius center segments rings
  | cone radius radiusTop height center segments =>
    Mesh.Guarded.recomputeNormals (Round.frustumSurface radius radiusTop height center segments)

end Primitive

end SolidScript
