import SolidScript.Space.Vec3

/-!
# Bounding boxes

Boxes along the axes. Coordinates that are not numbers do not move a face.
-/

namespace SolidScript

open Scalar

structure Bounds (α : Type) where
  low : Vec3 α
  high : Vec3 α
deriving DecidableEq, Repr

namespace Bounds

variable {α : Type} [Scalar α]

/-- Infinite faces the wrong way round, so that the first point takes both. -/
def empty : Bounds α := ⟨Vec3.splat infinity, Vec3.splat (-infinity)⟩

def isEmpty (b : Bounds α) : Bool :=
  b.high.x < b.low.x || b.high.y < b.low.y || b.high.z < b.low.z

def insert (b : Bounds α) (p : Vec3 α) : Bounds α :=
  ⟨b.low.zipWith least p, b.high.zipWith greatest p⟩

def ofPoints (points : List (Vec3 α)) : Bounds α := points.foldl insert empty

/-- The smallest box around both. -/
def union (a b : Bounds α) : Bounds α :=
  if a.isEmpty then b else if b.isEmpty then a else (a.insert b.low).insert b.high

def center (b : Bounds α) : Vec3 α := Vec3.midpoint b.low b.high

def size (b : Bounds α) : Vec3 α := b.high - b.low

/-- Least coordinates first, then the greatest. -/
def toList (b : Bounds α) : List α := b.low.toList ++ b.high.toList

def approx (a b : Bounds α) (tolerance : α) : Bool :=
  (a.low - b.low).maxAbs < tolerance && (a.high - b.high).maxAbs < tolerance

end Bounds

end SolidScript
