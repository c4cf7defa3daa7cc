import SolidScript.OperatorError
import SolidScript.Space.Vec2

/-!
# Ear clipping

A polygon is cut into triangles by taking off one ear after another: a convex corner whose triangle
holds no other corner. Where no ear is left, flat corners are dropped, then crossing neighbours are
untied, and at last the polygon is split along a diagonal.

Large polygons and those that a split leaves look for corners in a triangle only near it: the corners
are numbered along a curve through the cells of a grid, and only numbers between those of the ends of
the box around the triangle count.
-/

namespace SolidScript

namespace EarClipping

open Scalar

structure Node (α : Type) where
  /-- Place in the polygon that is cut. -/
  index : Nat
  point : Vec2 α
  /-- Number of the cell of the grid, if there is a grid. -/
  cell : Nat

variable {α : Type} [Scalar α]

/-- The nodes still to cut, as a cycle that turns clockwise. -/
abbrev Ring (α : Type) := List (Node α)

/-- Corners by their place in the polygon. -/
abbrev Corners := Nat × Nat × Nat

def samePoint (a b : Node α) : Bool := same a.point.x b.point.x && same a.point.y b.point.y

/-- Twice the area of a triangle, negative for an outer corner. -/
def area (a b c : Node α) : α :=
  (b.point.y - a.point.y) * (c.point.x - b.point.x) - (b.point.x - a.point.x) * (c.point.y - b.point.y)

/-- The node before the head. -/
def before (head : Node α) (rest : Ring α) : Node α := rest.getLastD head

/-- The node behind the head. -/
def behind (head : Node α) (rest : Ring α) : Node α := rest.headD head

/-! ## Cells -/

/-- Binary digits of a cell number along one axis. -/
def cellDigits : Nat := 15

/-- Cells along the longer side of the box around a polygon. -/
def cellsAlong : Nat := twoTo cellDigits - 1

/-- The binary digits of two numbers in turn, those of the first in the lower places. -/
def interleave : (digits : Nat) → (x y : Nat) → Nat
  | 0, _, _ => 0
  | digits + 1, x, y => x % 2 + 2 * (y % 2) + 4 * interleave digits (x / 2) (y / 2)

/-- Number of the cell of a point that is not left of or below the origin. Points at infinity have none. -/
def cell? (perUnit : α) (p : Vec2 α) : Option Nat :=
  let x := p.x * perUnit
  let y := p.y * perUnit
  if Scalar.isFinite x && Scalar.isFinite y then some (interleave cellDigits (floorNat x) (floorNat y)) else none

/-- The ring with its nodes numbered. -/
def numbered? (perUnit : α) (ring : Ring α) : Option (Ring α) :=
  ring.mapM fun node => do return { node with cell := ← cell? perUnit node.point }

/-- The first and the last cell number near a triangle. -/
def cellRange (perUnit : α) (a b c : Node α) : Nat × Nat :=
  let low : Vec2 α := ⟨least a.point.x (least b.point.x c.point.x), least a.point.y (least b.point.y c.point.y)⟩
  let high : Vec2 α :=
    ⟨greatest a.point.x (greatest b.point.x c.point.x), greatest a.point.y (greatest b.point.y c.point.y)⟩
  ((cell? perUnit low).getD 0, (cell? perUnit high).getD 0)

/-! ## Ears -/

def inTriangle (a b c p : Node α) : Bool :=
  let side (s t : Node α) : α :=
    (s.point.x - p.point.x) * (t.point.y - p.point.y) - (t.point.x - p.point.x) * (s.point.y - p.point.y)
  0 ≤ side c a && 0 ≤ side a b && 0 ≤ side b c

/-- Each inner node of a list with its two neighbours. -/
def triples : List (Node α) → List (Node α × Node α × Node α)
  | a :: b :: c :: rest => (a, b, c) :: triples (b :: c :: rest)
  | _ => []

/-- The nodes that may lie in the triangle of the head, with their neighbours. Where only a triangle is
left, its own corners are looked at, so that a flat one keeps it from being cut. -/
def rivals (ear : Node α) : Ring α → List (Node α × Node α × Node α)
  | [] => []
  | [a] => [(a, ear, a)]
  | [c, a] => [(c, a, ear), (a, ear, c), (ear, c, a)]
  | rest => triples rest

/-- The nodes away from the triangle of the head whose cell numbers are near it. -/
def nearRivals (perUnit : α) (ear : Node α) (rest : Ring α) : List (Node α × Node α × Node α) :=
  let (low, high) := cellRange perUnit (before ear rest) ear (behind ear rest)
  (triples rest).filter fun (_, p, _) => low ≤ p.cell && p.cell ≤ high

/-- Whether the head is no inward corner and none of the rivals is an inward corner in its triangle.
With a grid only the near ones are looked at. -/
def isEar (grid : Option α) (ear : Node α) (rest : Ring α) : Bool :=
  let a := before ear rest
  let c := behind ear rest
  if 0 ≤ area a ear c then false
  else
    let others := match grid with
      | some perUnit => nearRivals perUnit ear rest
      | none => rivals ear rest
    !others.any fun (o, p, q) => inTriangle a ear c p && 0 ≤ area o p q

/-- Takes ears off, going around from the head, until none is found. After an ear the next node is
passed over. -/
def clip (grid : Option α) (ring : Ring α) (tried : Nat) (out : Array Corners) : Ring α × Array Corners :=
  match ring with
  | ear :: next :: rest =>
    if tried < rest.length + 2 then
      if isEar grid ear (next :: rest) then
        let previous := before ear (next :: rest)
        clip grid (rest ++ [next]) 0 (out.push (previous.index, ear.index, next.index))
      else clip grid (next :: rest ++ [ear]) (tried + 1) out
    else (ear :: next :: rest, out)
  | ring => (ring, out)
termination_by (ring.length, ring.length - tried)
decreasing_by
  all_goals simp only [List.length_cons, List.length_append, List.length_nil]
  · apply Prod.Lex.left
    omega
  · apply Prod.Lex.right'
    · omega
    · omega

/-! ## Repairs -/

/-- Drops nodes that repeat the next one or lie on a line between their neighbours. After each the
whole ring is looked at again; otherwise `left` nodes are. -/
def dropFlat (ring : Ring α) (left : Nat) : Ring α :=
  match ring, left with
  | p :: next :: rest, left + 1 =>
    let previous := before p (next :: rest)
    if samePoint p next || same (area previous p next) 0 then
      let kept := (next :: rest).dropLast
      dropFlat (previous :: kept) (kept.length + 1)
    else dropFlat (next :: rest ++ [p]) left
  | ring, _ => ring
termination_by (ring.length, left)
decreasing_by
  · apply Prod.Lex.left
    simp
  · simp_all
    apply Prod.Lex.right
    omega

/-- The open segments cross, or have the same ends. -/
def cross (p1 q1 p2 q2 : Node α) : Bool :=
  (samePoint p1 p2 && samePoint q1 q2) || (samePoint p1 q2 && samePoint q1 p2) ||
    ((decide (0 < area p1 q1 p2) != decide (0 < area p1 q1 q2)) &&
      (decide (0 < area p2 q2 p1) != decide (0 < area p2 q2 q1)))

/-- A node with its neighbours. -/
structure Site (α : Type) where
  previous : Node α
  node : Node α
  next : Node α

/-- Whether the diagonal from one node to another starts inside the polygon. -/
def Site.looksInside (a : Site α) (b : Node α) : Bool :=
  if area a.previous a.node a.next < 0 then 0 ≤ area a.node b a.next && 0 ≤ area a.node a.previous b
  else area a.node b a.previous < 0 || area a.node a.next b < 0

/-- The node before the head `p`, when the edge between them crosses the one from `next` to `b` and
the far ends see each other. -/
def knot? (p next b : Node α) (rest : Ring α) : Option (Node α) :=
  let a := before b rest
  let beforeA := before next (b :: rest).dropLast
  let behindB := behind p rest
  if !samePoint a b && cross a p next b && Site.looksInside ⟨beforeA, a, p⟩ b &&
      Site.looksInside ⟨next, b, behindB⟩ a then some a
  else none

/-- Cuts off each crossing of two edges with one between them, in one tour around the ring. -/
def untie (ring : Ring α) (passed : Nat) (out : Array Corners) : Ring α × Array Corners :=
  match ring with
  | p :: next :: b :: rest =>
    if passed < rest.length + 3 then
      match knot? p next b rest with
      | some a => untie (rest ++ [b]) 1 (out.push (a.index, p.index, b.index))
      | none => untie (next :: b :: rest ++ [p]) (passed + 1) out
    else (p :: next :: b :: rest, out)
  | ring => (ring, out)
termination_by (ring.length, ring.length - passed)
decreasing_by
  all_goals simp only [List.length_cons, List.length_append, List.length_nil]
  · apply Prod.Lex.left
    omega
  · apply Prod.Lex.right'
    · omega
    · omega

/-! ## Splitting -/

/-- Whether an edge that shares no corner with the diagonal crosses it. -/
def crossesRing (a b : Node α) (ring : Ring α) : Bool :=
  (Cyclic.pairs ring).any fun (p, q) =>
    p.index != a.index && q.index != a.index && p.index != b.index && q.index != b.index && cross p q a b

/-- Whether the middle of the diagonal lies in the polygon. -/
def middleInside (a b : Node α) (ring : Ring α) : Bool :=
  let x := (a.point.x + b.point.x) / 2
  let y := (a.point.y + b.point.y) / 2
  (Cyclic.pairs ring).foldl (fun inside (p, q) =>
    if (decide (y < p.point.y) != decide (y < q.point.y)) && !same q.point.y p.point.y &&
        decide (x < (q.point.x - p.point.x) * (y - p.point.y) / (q.point.y - p.point.y) + p.point.x) then
      !inside
    else inside) false

/-- Whether the head and a node farther on see each other. The node lies between two others. -/
def isDiagonal (ring : Ring α) (a : Site α) (b : Site α) : Bool :=
  a.next.index != b.node.index && a.previous.index != b.node.index && !crossesRing a.node b.node ring &&
    a.looksInside b.node && b.looksInside a.node && middleInside a.node b.node ring

/-- The two sides of the first diagonal from the head of a ring. -/
def splitHead? (ring : Ring α) : Option (Ring α × Ring α) :=
  match ring with
  | [] => none
  | head :: rest =>
    let a : Site α := ⟨before head rest, head, behind head rest⟩
    let candidates := (triples rest).zipIdx
    (candidates.find? fun ((o, p, q), _) => head.index != p.index && isDiagonal ring a ⟨o, p, q⟩).map
      fun ((_, p, _), i) => (head :: rest.drop (i + 1), p :: head :: rest.take (i + 1))

/-- The first diagonal is looked for from one node after another. -/
def split? (ring : Ring α) : Option (Ring α × Ring α) := (Cyclic.rotations ring).findSome? splitHead?

/-- The ring with its nodes numbered, where there is a grid. -/
def onGrid? (grid : Option α) (ring : Ring α) : Option (Ring α) :=
  match grid with
  | some perUnit => numbered? perUnit ring
  | none => some ring

/-- Takes ears off. When none is left the first two repairs have their turns. -/
def clipRepaired (grid : Option α) (ring : Ring α) (out : Array Corners) : Ring α × Array Corners :=
  let (ring, out) := clip grid ring 0 out
  if ring.length < 3 then (ring, out)
  else
    let (ring, out) := clip grid (dropFlat ring ring.length) 0 out
    if ring.length < 3 then (ring, out)
    else
      let (ring, out) := untie ring 0 out
      clip grid ring 0 out

/-- A ring that no repair helps is split. The depth counts splits one inside another. There is no answer
when a corner has no place on the grid. -/
def cut : (depth : Nat) → (grid : Option α) → Ring α → Array Corners → Option (Array Corners)
  | 0, grid, ring, out => (onGrid? grid ring).map fun ring => (clipRepaired grid ring out).2
  | depth + 1, grid, ring, out => do
    let ring ← onGrid? grid ring
    let (ring, out) := clipRepaired grid ring out
    if ring.length < 3 then return out
    match split? ring with
    | some (one, other) =>
      let grid := some (grid.getD 0)
      cut depth grid (dropFlat other 1) (← cut depth grid (dropFlat one 1) out)
    | none => return out

/-! ## Polygons -/

/-- Sum over the edges that is positive for clockwise polygons. -/
def turning (points : List (Vec2 α)) : α :=
  let pairs := (points.getLastD default, points.headD default) :: points.zip (points.drop 1)
  pairs.foldl (fun sum (p, q) => sum + (p.x - q.x) * (q.y + p.y)) 0

/-- The ring starts at the node that was put in last. -/
def ringOf (points : List (Vec2 α)) : Ring α :=
  let nodes := points.zipIdx.map fun (p, i) => (⟨i, p, 0⟩ : Node α)
  let placed := if 0 < turning points then nodes else nodes.reverse
  match placed.reverse, placed with
  | last :: _, first :: _ =>
    if samePoint last first then placed.dropLast else last :: placed.dropLast
  | _, _ => []

/-- Polygons with at least this many corners are cut on a grid. -/
def largePolygon : Nat := 40

/-- Opposite corners of the box around some points. -/
def box (points : List (Vec2 α)) : Vec2 α × Vec2 α :=
  let first := points.headD default
  points.foldl (fun (low, high) p =>
    (⟨least low.x p.x, least low.y p.y⟩, ⟨greatest high.x p.x, greatest high.y p.y⟩)) (first, first)

/-- Cells for each unit of length. All cells of a box without extent are one. -/
def cellsPerUnit (low high : Vec2 α) : α :=
  let extent := greatest (high.x - low.x) (high.y - low.y)
  if same extent 0 then 0 else ofNat cellsAlong / extent

/-- Triangles of a simple polygon in the order in which they are cut off. There are none to tell when a
corner of a large polygon, or of one that had to be split, is not finite. -/
def triangles? (points : List (Vec2 α)) : Option (List Corners) := do
  let ring := ringOf points
  let found ←
    if points.length < largePolygon then cut points.length none ring #[]
    else
      let (low, high) := box points
      let moved := ring.map fun node => { node with point := node.point - low }
      cut points.length (some (cellsPerUnit low high)) moved #[]
  return found.toList

/-- The largest finite scalar. -/
def largest : α := 1.7976931348623157e308

/-- Cuts a polygon that has a leftmost corner. -/
def earcut (points : List (Vec2 α)) : Except (OperatorError α) (List Corners) :=
  if !points.any fun p => p.x < largest then throw (.fault .noLeftmost)
  else match triangles? points with
    | none => throw (.triangulation "Unknown")
    | some triangles => pure triangles

end EarClipping

/-- How simple polygons are cut into triangles between their corners. -/
abbrev PolygonCutter (α : Type) := List (Vec2 α) → Except (OperatorError α) (List EarClipping.Corners)

namespace Profile

open Scalar

variable {α : Type} [Scalar α]

/-- Turned to be counter-clockwise. -/
def orient (points : Array (Vec2 α)) (t : EarClipping.Corners) : Except (OperatorError α) EarClipping.Corners := do
  let (a, b, c) := t
  let p ← Fault.item points a
  let q ← Fault.item points b
  let r ← Fault.item points c
  return if Vec2.perp (q - p) (r - p) < 0 then (a, c, b) else (a, b, c)

/-- Counter-clockwise triangles that cover a simple polygon. -/
def triangulate (points : List (Vec2 α)) (cutter : PolygonCutter α := EarClipping.earcut) :
    Except (OperatorError α) (List EarClipping.Corners) := do
  if points.length < 3 then throw (.profileTooShort 3 points.length)
  let triangles ← cutter points
  if triangles.isEmpty then throw (.triangulation "polygon has no area")
  triangles.mapM (orient points.toArray)

end Profile

end SolidScript
