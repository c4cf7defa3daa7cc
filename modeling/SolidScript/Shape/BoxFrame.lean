import SolidScript.Shape.Face

/-!
# Edges and faces of a box

Edges 0 to 3 go around the bottom and 4 to 7 around the top, both from back left over back right and
front right. Edges 8 to 11 stand on the corners in the same order.
-/

namespace SolidScript

open Scalar

structure BoxEdge (α : Type) where
  index : Nat
  start : Vec3 α
  stop : Vec3 α
  /-- The two faces that meet. -/
  faces : Face × Face

structure BoxFace (α : Type) where
  face : Face
  center : Vec3 α
  /-- Half the extent along each of the other axes. -/
  halfExtents : α × α

namespace BoxEdge

variable {α : Type} [Scalar α]

def direction (e : BoxEdge α) : Vec3 α := (e.stop - e.start).normalize

def length (e : BoxEdge α) : α := (e.stop - e.start).norm

def midpoint (e : BoxEdge α) : Vec3 α := Vec3.midpoint e.start e.stop

def name (e : BoxEdge α) : String := e.faces.1.name ++ "-" ++ e.faces.2.name

end BoxEdge

namespace BoxFrame

variable {α : Type} [Scalar α]

/-- Half of each side. Sizes count by their magnitude. -/
def half (size : Vec3 α) : Vec3 α := size.map magnitude / (2 : α)

/-- Signs of the corners going around, along the first and the third axis. -/
def loopSigns : Nat → α × α
  | 0 => (-1, -1)
  | 1 => (1, -1)
  | 2 => (1, 1)
  | _ => (-1, 1)

/-- The side face below each edge of the loop. -/
def loopFace : Nat → Face
  | 0 => .back
  | 1 => .right
  | 2 => .front
  | _ => .left

/-- The side faces that meet at each corner of the loop. -/
def uprightFaces : Nat → Face × Face
  | 0 => (.left, .back)
  | 1 => (.right, .back)
  | 2 => (.right, .front)
  | _ => (.left, .front)

def corner (size center : Vec3 α) (place : Nat) (level : α) : Vec3 α :=
  let h := half size
  let (sx, sz) := loopSigns (α := α) place
  center + ⟨sx * h.x, level * h.y, sz * h.z⟩

/-- An edge of the loop around the bottom or the top. -/
def loopEdge (size center : Vec3 α) (first : Nat) (level : α) (cap : Face) (i : Nat) : BoxEdge α :=
  { index := first + i
    start := corner size center i level
    stop := corner size center ((i + 1) % 4) level
    faces := (cap, loopFace i) }

def uprightEdge (size center : Vec3 α) (i : Nat) : BoxEdge α :=
  { index := 8 + i
    start := corner size center i (-1)
    stop := corner size center i 1
    faces := uprightFaces i }

def edges (size center : Vec3 α) : List (BoxEdge α) :=
  (List.range 4).map (loopEdge size center 0 (-1) .bottom) ++
    (List.range 4).map (loopEdge size center 4 1 .top) ++ (List.range 4).map (uprightEdge size center)

def edgeCount : Nat := 12

def isEdgeIndex (index : Int) : Bool := 0 ≤ index && index < edgeCount

/-- The edge with an index. Where there is none, edge 0 takes its place. -/
def edge (size center : Vec3 α) (index : Int) : BoxEdge α :=
  let i := if isEdgeIndex index then index.toNat else 0
  ((edges size center)[i]?).getD (loopEdge size center 0 (-1) .bottom 0)

def face (size center : Vec3 α) (f : Face) : BoxFace α :=
  let h := half size
  let (s, t) := f.axis.others
  { face := f
    center := center + Vec3.along f.axis (f.sign * h.get f.axis)
    halfExtents := (h.get s, h.get t) }

def faces (size center : Vec3 α) : List (BoxFace α) := Face.all.map (face size center)

end BoxFrame

end SolidScript
