import SolidScript.OperatorError
import SolidScript.Space.Vec2

/-!
# Profiles

Closed polygons in a plane of their own, counter-clockwise once they are prepared.
-/

namespace SolidScript

open Scalar

namespace Profile

variable {α : Type} [Scalar α]

/-- Points no farther apart than this are one. -/
def mergeDistance : α := 1e-9

def isFinite (points : List (Vec2 α)) : Bool := points.all Vec2.isFinite

/-! ## Cleaning -/

/-- Drops each point that is too close to the last one kept. -/
def dropRepeats (last : Vec2 α) : List (Vec2 α) → List (Vec2 α)
  | [] => []
  | p :: rest =>
    if mergeDistance < Vec2.distance p last then p :: dropRepeats p rest else dropRepeats last rest

/-- Drops points at the end that are too close to the first. -/
def dropClosing (first : Vec2 α) (rest : List (Vec2 α)) : List (Vec2 α) :=
  (rest.reverse.dropWhile fun p => Vec2.distance first p ≤ mergeDistance).reverse

/-- Without repeated points, also where the profile closes. -/
def clean : List (Vec2 α) → List (Vec2 α)
  | [] => []
  | first :: rest => first :: dropClosing first (dropRepeats first rest)

/-! ## Area and edges -/

/-- Positive for counter-clockwise profiles. -/
def signedArea (points : List (Vec2 α)) : α :=
  (Cyclic.pairs points).foldl (fun sum (a, b) => sum + (a.x * b.y - b.x * a.y)) 0 / 2

/-- Outward normal of the edge from `a` to `b` of a counter-clockwise profile. -/
def edgeOutward (a b : Vec2 α) : Vec2 α :=
  let d := b - a
  let n : Vec2 α := ⟨d.y, -d.x⟩
  let length := n.norm
  if 0 < length then n / length else n

/-- Cleaned, with at least `required` points and counter-clockwise. -/
def prepare (points : List (Vec2 α)) (required : Nat) : Except (OperatorError α) (List (Vec2 α)) :=
  if !isFinite points then throw (.nonFinite "profile")
  else
    let cleaned := clean points
    if cleaned.length < required then throw (.profileTooShort required cleaned.length)
    else if signedArea cleaned < 0 then pure cleaned.reverse
    else pure cleaned

end Profile

end SolidScript
