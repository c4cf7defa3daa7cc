import SolidScript.Mesh.Guarded

/-!
# Copies in patterns

Copies of a mesh are moved rigidly and joined into one mesh.
-/

namespace SolidScript

open Scalar

namespace Pattern

variable {α : Type} [Scalar α]

/-- Angles this close to a full turn, in degrees, count as one. -/
def fullTurnTolerance : α := 1e-6

/-- Degrees from one copy to the next. A full turn has no copy at its end. -/
def circularStep (angle : α) (count : Nat) : α :=
  if magnitude (magnitude angle - 360) < fullTurnTolerance then angle / ofNat (max count 1)
  else if 1 < count then angle / ofNat (count - 1)
  else 0

/-- The copies from the zeroth on, one after another. -/
def copies (count : Nat) (copy : Nat → Mesh α) : Except (OperatorError α) (Mesh α) := do
  Room.requireList Room.meshBytes count
  Mesh.Guarded.concat ((List.range count).map copy)

def requireDirection (v : Vec3 α) (missing : OperatorError α) : Except (OperatorError α) (Vec3 α) :=
  match v.normalize? with
  | some d => pure d
  | none => throw missing

def requireFinite (name : String) (a : α) : Except (OperatorError α) Unit :=
  if Scalar.isFinite a then pure () else throw (.nonFinite name)

def rotated (m : Mesh α) (center axis : Vec3 α) (angle : α) : Mesh α :=
  m.map (Vec3.rotateAbout center axis angle) fun n => n.rotate axis angle

end Pattern

namespace Mesh

open Pattern

variable {α : Type} [Scalar α]

def linearPattern (m : Mesh α) (direction : Vec3 α) (count : Nat) (spacing : α) :
    Except (OperatorError α) (Mesh α) := do
  let direction ← requireDirection direction .zeroDirection
  requireFinite "spacing" spacing
  copies count fun i => m.translate (direction * spacing * (ofNat i : α))

/-- The copies span an angle in degrees. -/
def circularPattern (m : Mesh α) (axis center : Vec3 α) (count : Nat) (angle : α) :
    Except (OperatorError α) (Mesh α) := do
  let axis ← requireDirection axis .zeroAxis
  requireFinite "angle" angle
  let step := radians (circularStep angle count)
  copies count fun i => rotated m center axis (step * ofNat i)

/-- A linear pattern of linear patterns. -/
def gridPattern (m : Mesh α) (direction₁ : Vec3 α) (count₁ : Nat) (spacing₁ : α) (direction₂ : Vec3 α)
    (count₂ : Nat) (spacing₂ : α) : Except (OperatorError α) (Mesh α) := do
  let row ← m.linearPattern direction₁ count₁ spacing₁
  row.linearPattern direction₂ count₂ spacing₂

/-- Copies that turn about an axis, climb along it and move away from it. Each amount is for one copy,
the angle in degrees. -/
def spiralPattern (m : Mesh α) (axis center : Vec3 α) (count : Nat) (angle pitch growth : α) :
    Except (OperatorError α) (Mesh α) := do
  let axis ← requireDirection axis .zeroAxis
  requireFinite "angle" angle
  requireFinite "pitch" pitch
  requireFinite "radius_growth" growth
  let offset := m.bounds.center - center
  let radial := ((offset - axis * offset.dot axis).normalize?).getD axis.anyPerpendicular
  copies count fun i =>
    let i : α := ofNat i
    let moved := m.translate (radial * growth * i)
    (rotated moved center axis (radians (angle * i))).translate (axis * pitch * i)

/-- The mirror image in a plane, behind the mesh itself if that is kept. -/
def mirror (m : Mesh α) (normal point : Vec3 α) (keep : Bool) : Except (OperatorError α) (Mesh α) := do
  let normal ← requireDirection normal .zeroDirection
  -- Reflected normals point outward already.
  let image := (m.map (Vec3.reflectPoint point normal) (Vec3.reflect normal)).flipTriangles
  if keep then Guarded.merge m image else return image

end Mesh

end SolidScript
