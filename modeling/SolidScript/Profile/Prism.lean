import SolidScript.Mesh.Combine
import SolidScript.Mesh.Facing
import SolidScript.Profile.Basic
import SolidScript.Profile.EarClipping

/-!
# Prisms

A profile placed in space is swept straight along the normal of its plane, and both ends are capped.
-/

namespace SolidScript

open Scalar

variable {α : Type} [Scalar α]

/-- Adds a flat cap over the placed points of a profile, facing `outward`. -/
def Mesh.addCap (m : Mesh α) (ring : List (Vec3 α)) (profile : List (Vec2 α)) (outward : Vec3 α)
    (cutter : PolygonCutter α := EarClipping.earcut) : Except (OperatorError α) (Mesh α) := do
  let triangles ← Profile.triangulate profile cutter
  let normal := outward.normalize
  let base := m.vertexCount
  let m := ring.foldl (fun m p => m.addVertexWithNormal p normal) m
  triangles.foldlM (fun m (a, b, c) => m.addIndexedFacing ⟨base + a, base + b, base + c⟩ normal) m

/-- Where the plane of a profile lies. The two directions in the plane are unit vectors. -/
structure ProfileFrame (α : Type) where
  origin : Vec3 α
  u : Vec3 α
  v : Vec3 α
  axis : Vec3 α

namespace ProfileFrame

def spanning (origin u v : Vec3 α) : ProfileFrame α :=
  let u := u.normalize
  let v := v.normalize
  ⟨origin, u, v, u.cross v⟩

/-- The point of a profile at a height above its plane. -/
def place (f : ProfileFrame α) (p : Vec2 α) (height : α) : Vec3 α :=
  f.origin + f.u * p.x + f.v * p.y + f.axis * height

def direction (f : ProfileFrame α) (d : Vec2 α) : Vec3 α := f.u * d.x + f.v * d.y

end ProfileFrame

/-- A corner of a profile. Edges between two corners with normals are shaded as one curve. -/
structure ProfileCorner (α : Type) where
  point : Vec2 α
  normal : Option (Vec2 α)

namespace ProfileCorner

def sharp (u v : α) : ProfileCorner α := ⟨⟨u, v⟩, none⟩

def smooth (u v : α) (normal : Vec2 α) : ProfileCorner α := ⟨⟨u, v⟩, some normal⟩

end ProfileCorner

namespace Prism

/-- Heights of the layer borders, from one end to the other. -/
def levels (halfLength : α) (layers : Nat) : List α :=
  (List.range (layers + 1)).map fun k => -halfLength + 2 * halfLength * ofNat k / ofNat layers

/-- One side face in layers. -/
def addSide (frame : ProfileFrame α) (levels : List α) (m : Mesh α)
    (edge : ProfileCorner α × ProfileCorner α) :
    Except (OperatorError α) (Mesh α) :=
  let (p, q) := edge
  let face := Profile.edgeOutward p.point q.point
  let (np, nq) := match p.normal, q.normal with
    | some a, some b => (a, b)
    | _, _ => (face, face)
  let rungs := levels.map fun w =>
    (⟨frame.place p.point w, frame.direction np, frame.place q.point w, frame.direction nq⟩ : Mesh.Rung α)
  m.addStrip rungs (List.replicate (levels.length - 1) (frame.direction face))

/-- The profile turns counter-clockwise and is swept as far below its plane as above. -/
def sweep (profile : List (ProfileCorner α)) (frame : ProfileFrame α) (halfLength : α) (layers : Nat)
    (cutter : PolygonCutter α := EarClipping.earcut) : Except (OperatorError α) (Mesh α) := do
  if profile.length < 3 then throw (.profileTooShort 3 profile.length)
  let m ← (Cyclic.pairs profile).foldlM (addSide frame (levels halfLength (max layers 1))) Mesh.empty
  let points := profile.map ProfileCorner.point
  let m ← m.addCap (points.map (frame.place · halfLength)) points frame.axis cutter
  m.addCap (points.map (frame.place · (-halfLength))) points (-frame.axis) cutter

end Prism

end SolidScript
