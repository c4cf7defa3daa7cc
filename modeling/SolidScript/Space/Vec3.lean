import SolidScript.Scalar

/-!
# Points and vectors of space

One type serves for both. The operations keep the order of their terms, since floats round after
each one.
-/

namespace SolidScript

open Scalar

structure Vec3 (α : Type) where
  x : α
  y : α
  z : α
deriving DecidableEq, Repr

namespace Vec3

variable {α : Type} [Scalar α]

def zero : Vec3 α := ⟨0, 0, 0⟩
def unitX : Vec3 α := ⟨1, 0, 0⟩
def unitY : Vec3 α := ⟨0, 1, 0⟩
def unitZ : Vec3 α := ⟨0, 0, 1⟩

def splat (s : α) : Vec3 α := ⟨s, s, s⟩

instance : Inhabited (Vec3 α) := ⟨zero⟩

instance : Add (Vec3 α) := ⟨fun a b => ⟨a.x + b.x, a.y + b.y, a.z + b.z⟩⟩
instance : Sub (Vec3 α) := ⟨fun a b => ⟨a.x - b.x, a.y - b.y, a.z - b.z⟩⟩
instance : Neg (Vec3 α) := ⟨fun a => ⟨-a.x, -a.y, -a.z⟩⟩
instance : HMul (Vec3 α) α (Vec3 α) := ⟨fun a s => ⟨a.x * s, a.y * s, a.z * s⟩⟩
instance : HDiv (Vec3 α) α (Vec3 α) := ⟨fun a s => ⟨a.x / s, a.y / s, a.z / s⟩⟩

def map (f : α → α) (a : Vec3 α) : Vec3 α := ⟨f a.x, f a.y, f a.z⟩

def zipWith (f : α → α → α) (a b : Vec3 α) : Vec3 α := ⟨f a.x b.x, f a.y b.y, f a.z b.z⟩

def toList (a : Vec3 α) : List α := [a.x, a.y, a.z]

def dot (a b : Vec3 α) : α := a.x * b.x + a.y * b.y + a.z * b.z

def cross (a b : Vec3 α) : Vec3 α :=
  ⟨a.y * b.z - a.z * b.y, a.z * b.x - a.x * b.z, a.x * b.y - a.y * b.x⟩

def norm (a : Vec3 α) : α := sqrt (dot a a)

def distance (a b : Vec3 α) : α := norm (a - b)

def same (a b : Vec3 α) : Bool := Scalar.same a.x b.x && Scalar.same a.y b.y && Scalar.same a.z b.z

def isFinite (a : Vec3 α) : Bool := Scalar.isFinite a.x && Scalar.isFinite a.y && Scalar.isFinite a.z

/-- The smaller of two numbers, or the second when they cannot be compared. -/
def lesser (a b : α) : α := if a ≤ b then a else b

/-- The larger of two numbers, or the second when they cannot be compared. -/
def larger (a b : α) : α := if b ≤ a then a else b

/-- The smallest component. One that is no number makes the next one count. -/
def minimum (a : Vec3 α) : α := lesser (lesser a.x a.y) a.z

/-- The greatest magnitude of a component. One that is no number makes the next one count. -/
def maxAbs (a : Vec3 α) : α := larger (larger (magnitude a.x) (magnitude a.y)) (magnitude a.z)

/-- Lengths up to this one count as zero. -/
def shortLength : α := 1e-12

def normalize? (v : Vec3 α) : Option (Vec3 α) :=
  let length := norm v
  if shortLength < length && Scalar.isFinite length then some (v / length) else none

/-- The zero vector stands for a direction that is missing. -/
def normalize (v : Vec3 α) : Vec3 α := (normalize? v).getD zero

/-- Normal of a triangle, as long as twice its area. -/
def triangleNormal (a b c : Vec3 α) : Vec3 α := cross (b - a) (c - a)

/-- A unit vector at right angles to `v`. -/
def anyPerpendicular (v : Vec3 α) : Vec3 α :=
  normalize (cross v (if magnitude v.x < 0.9 then unitX else unitY))

/-! ## Rotation and reflection -/

/-- `v` turned about the unit vector `axis` by `angle` radians. -/
def rotate (v axis : Vec3 α) (angle : α) : Vec3 α :=
  let s := sin angle
  let c := cos angle
  v * c + cross axis v * s + axis * (dot axis v * (1 - c))

def rotateAbout (center axis : Vec3 α) (angle : α) (p : Vec3 α) : Vec3 α :=
  center + rotate (p - center) axis angle

/-- Mirror image of a point in the plane through `origin` with unit normal `n`. -/
def reflectPoint (origin n p : Vec3 α) : Vec3 α := p - n * (2 * dot (p - origin) n)

def reflect (n v : Vec3 α) : Vec3 α := v - n * (2 * dot v n)

def midpoint (a b : Vec3 α) : Vec3 α := (a + b) * (0.5 : α)

end Vec3

end SolidScript
