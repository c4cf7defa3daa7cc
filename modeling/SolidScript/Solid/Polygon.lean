import SolidScript.Space.Vec2
import SolidScript.Space.Vec3

/-!
# Planes and polygons

A plane tells the front of space from the back, and everything close to it belongs to neither. A
convex polygon that lies on both sides is cut in two along the plane.
-/

namespace SolidScript

open Scalar

structure Corner (α : Type) where
  position : Vec3 α
  normal : Vec3 α
deriving DecidableEq, Repr

/-- The points `p` with `normal · p = offset`. -/
structure Plane (α : Type) where
  normal : Vec3 α
  offset : α
deriving DecidableEq, Repr

/-- Convex and flat. The plane faces the way the corners turn counter-clockwise. -/
structure Polygon (α : Type) where
  corners : List (Corner α)
  plane : Plane α
deriving DecidableEq, Repr

inductive Side where
  | coplanar
  | front
  | back
deriving DecidableEq, Repr

variable {α : Type} [Scalar α]

namespace Corner

def flip (c : Corner α) : Corner α := { c with normal := -c.normal }

/-- The corner a fraction `t` of the way to another. -/
def interpolate (c d : Corner α) (t : α) : Corner α :=
  { position := c.position + (d.position - c.position) * t
    normal := c.normal + (d.normal - c.normal) * t }

end Corner

namespace Plane

/-- Distance up to which a point counts as lying in a plane. -/
def thickness : α := 1e-5

/-- The plane through three points, unless they lie in a line. -/
def ofPoints? (a b c : Vec3 α) : Option (Plane α) :=
  let n := Vec3.triangleNormal a b c
  let length := n.norm
  if length ≤ ulpOne then none
  else
    let n := n / length
    some ⟨n, n.dot a⟩

def flip (p : Plane α) : Plane α := ⟨-p.normal, -p.offset⟩

/-- How far a point lies in front, in units of the normal. -/
def height (p : Plane α) (q : Vec3 α) : α := p.normal.dot q - p.offset

def side (p : Plane α) (q : Vec3 α) : Side :=
  let t := p.height q
  if t < -thickness then .back else if thickness < t then .front else .coplanar

/-- Where the edge between two corners meets the plane. -/
def cut (p : Plane α) (c d : Corner α) : Corner α :=
  c.interpolate d ((p.offset - p.normal.dot c.position) / p.normal.dot (d.position - c.position))

end Plane

namespace Polygon

/-- The plane is taken from the first three corners, which must not lie in a line. -/
def ofCorners? (corners : List (Corner α)) : Option (Polygon α) :=
  match corners with
  | a :: b :: c :: _ => (Plane.ofPoints? a.position b.position c.position).map (⟨corners, ·⟩)
  | _ => none

/-- Seen from the other side. -/
def flip (p : Polygon α) : Polygon α := ⟨p.corners.reverse.map Corner.flip, p.plane.flip⟩

end Polygon

/-- What a plane makes of polygons, each part in the order of the polygons. -/
structure Pieces (α : Type) where
  coplanarFront : List (Polygon α)
  coplanarBack : List (Polygon α)
  front : List (Polygon α)
  back : List (Polygon α)

namespace Pieces

def none : Pieces α := ⟨[], [], [], []⟩

def append (p q : Pieces α) : Pieces α :=
  { coplanarFront := p.coplanarFront ++ q.coplanarFront
    coplanarBack := p.coplanarBack ++ q.coplanarBack
    front := p.front ++ q.front
    back := p.back ++ q.back }

end Pieces

namespace Plane

/-- A corner on the given side belongs to the fragment on the side `keep` and to the one it lies
between. An edge from one side to the other adds the point where it meets the plane. -/
def fragmentCorners (p : Plane α) (keep : Side) (c d : Corner α) : List (Corner α) :=
  let s := p.side c.position
  let t := p.side d.position
  let own := if s = keep ∨ s = .coplanar then [c] else []
  let crossing := (s = .front ∧ t = .back) ∨ (s = .back ∧ t = .front)
  if crossing then own ++ [p.cut c d] else own

def fragment (p : Plane α) (keep : Side) (polygon : Polygon α) : List (Polygon α) :=
  let corners := (Cyclic.pairs polygon.corners).flatMap fun (c, d) => p.fragmentCorners keep c d
  if 3 ≤ corners.length then [⟨corners, polygon.plane⟩] else []

/-- A polygon in the plane goes by the way it faces. One on both sides is cut. -/
def split (p : Plane α) (polygon : Polygon α) : Pieces α :=
  let sides := polygon.corners.map fun c => p.side c.position
  match sides.any (· == .front), sides.any (· == .back) with
  | false, false =>
    if 0 < p.normal.dot polygon.plane.normal then { Pieces.none with coplanarFront := [polygon] }
    else { Pieces.none with coplanarBack := [polygon] }
  | true, false => { Pieces.none with front := [polygon] }
  | false, true => { Pieces.none with back := [polygon] }
  | true, true =>
    { Pieces.none with front := p.fragment .front polygon, back := p.fragment .back polygon }

def splitAll (p : Plane α) (polygons : List (Polygon α)) : Pieces α :=
  polygons.foldr (fun polygon pieces => (p.split polygon).append pieces) Pieces.none

end Plane

end SolidScript
