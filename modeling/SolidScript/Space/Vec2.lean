import SolidScript.Scalar

/-!
# Points and vectors of the plane
-/

namespace SolidScript

open Scalar

structure Vec2 (α : Type) where
  x : α
  y : α
deriving DecidableEq, Repr

namespace Vec2

variable {α : Type} [Scalar α]

instance : Inhabited (Vec2 α) := ⟨⟨0, 0⟩⟩

instance : Add (Vec2 α) := ⟨fun a b => ⟨a.x + b.x, a.y + b.y⟩⟩
instance : Sub (Vec2 α) := ⟨fun a b => ⟨a.x - b.x, a.y - b.y⟩⟩
instance : Neg (Vec2 α) := ⟨fun a => ⟨-a.x, -a.y⟩⟩
instance : HMul (Vec2 α) α (Vec2 α) := ⟨fun a s => ⟨a.x * s, a.y * s⟩⟩
instance : HDiv (Vec2 α) α (Vec2 α) := ⟨fun a s => ⟨a.x / s, a.y / s⟩⟩

def dot (a b : Vec2 α) : α := a.x * b.x + a.y * b.y

/-- Third component of the cross product. -/
def perp (a b : Vec2 α) : α := a.x * b.y - a.y * b.x

def norm (a : Vec2 α) : α := sqrt (dot a a)

def distance (a b : Vec2 α) : α := norm (a - b)

def isFinite (a : Vec2 α) : Bool := Scalar.isFinite a.x && Scalar.isFinite a.y

end Vec2

/-! ## Lists as cycles

The points of an outline close on themselves: behind the last member comes the first.
-/

namespace Cyclic

variable {β : Type}

/-- One place on. -/
def rotate : List β → List β
  | [] => []
  | b :: rest => rest ++ [b]

/-- Each member with the next. -/
def pairs (items : List β) : List (β × β) := items.zip (rotate items)

/-- The cycle from each of its places. -/
def rotations (items : List β) : List (List β) :=
  (List.range items.length).map fun i => items.drop i ++ items.take i

end Cyclic

end SolidScript
