import SolidScript.Solid.Polygon

/-!
# Partitions of space

A tree of planes, each with the polygons that lie in it. What is behind a plane without a child
there is solid, and what is in front of one without a child is empty. Nodes stand in an array in the
order in which they were made, so that a child always comes after its parent.
-/

namespace SolidScript

open Scalar

/-- The two ways on from a node. -/
inductive Branch where
  | front
  | back
deriving DecidableEq, Repr

structure BspNode (α : Type) where
  plane : Option (Plane α)
  front : Option Nat
  back : Option Nat
  polygons : List (Polygon α)

namespace BspNode

variable {α : Type}

/-- A node that waits for its plane. -/
def fresh : BspNode α := ⟨none, none, none, []⟩

instance : Inhabited (BspNode α) := ⟨fresh⟩

def child? (n : BspNode α) : Branch → Option Nat
  | .front => n.front
  | .back => n.back

def attach (n : BspNode α) (b : Branch) (c : Nat) : BspNode α :=
  match b with
  | .front => { n with front := some c }
  | .back => { n with back := some c }

/-- Swaps the solid and the empty side. -/
def flip [Scalar α] (n : BspNode α) : BspNode α :=
  ⟨n.plane.map Plane.flip, n.back, n.front, n.polygons.map Polygon.flip⟩

end BspNode

structure BspTree (α : Type) where
  nodes : Array (BspNode α)

namespace BspTree

variable {α : Type} [Scalar α]

/-- The root alone. -/
def root : BspTree α := ⟨#[BspNode.fresh]⟩

def node (t : BspTree α) (i : Nat) : BspNode α := t.nodes.getD i BspNode.fresh

def modify (t : BspTree α) (i : Nat) (f : BspNode α → BspNode α) : BspTree α := ⟨t.nodes.modify i f⟩

/-! ## Building -/

/-- The child of a node, made when it is missing. -/
def child (t : BspTree α) (i : Nat) (b : Branch) : BspTree α × Nat :=
  match (t.node i).child? b with
  | some c => (t, c)
  | none =>
    let c := t.nodes.size
    (BspTree.modify ⟨t.nodes.push BspNode.fresh⟩ i fun n => n.attach b c, c)

/-- Hands polygons to the child of a node. A child that would get none is not made. -/
def handOn (t : BspTree α) (i : Nat) (b : Branch) (polygons : List (Polygon α)) :
    BspTree α × List (Nat × List (Polygon α)) :=
  if polygons.isEmpty then (t, [])
  else
    let (t, c) := t.child i b
    (t, [(c, polygons)])

/-- Gives a node its plane, and the polygons in the plane. -/
def keep (t : BspTree α) (i : Nat) (plane : Plane α) (pieces : Pieces α) : BspTree α :=
  t.modify i fun n =>
    { n with
      plane := some plane
      polygons := n.polygons ++ pieces.coplanarFront ++ pieces.coplanarBack }

/-- Cuts polygons at the plane of a node, which keeps those in the plane. A node without a plane takes
that of the first polygon. What is left goes to the children, which are made before either is filled;
the back comes first. -/
def settle (t : BspTree α) (i : Nat) (first : Polygon α) (rest : List (Polygon α)) :
    BspTree α × List (Nat × List (Polygon α)) :=
  let plane := (t.node i).plane.getD first.plane
  let pieces := plane.splitAll (first :: rest)
  let t := t.keep i plane pieces
  let (t, front) := t.handOn i .front pieces.front
  let (t, back) := t.handOn i .back pieces.back
  (t, back ++ front)

/-- A tree that is being built. Each list of polygons waits at a node, and the first is served next. -/
structure Construction (α : Type) where
  tree : BspTree α
  waiting : List (Nat × List (Polygon α))

namespace Construction

/-- Serves the first list that waits. -/
def step : Construction α → Construction α
  | ⟨t, []⟩ => ⟨t, []⟩
  | ⟨t, (_, []) :: waiting⟩ => ⟨t, waiting⟩
  | ⟨t, (i, first :: rest) :: waiting⟩ =>
    let (t, handedOn) := t.settle i first rest
    ⟨t, handedOn ++ waiting⟩

/-- Serves all lists. There is no result when others keep coming without end. -/
def finish (c : Construction α) : Option (BspTree α) :=
  if c.waiting.isEmpty then some c.tree
  else by
    apply finish
    exact c.step
partial_fixpoint

end Construction

/-- Sends polygons down from the root. -/
def insert (t : BspTree α) (polygons : List (Polygon α)) : Option (BspTree α) :=
  Construction.finish ⟨t, [(0, polygons)]⟩

def ofPolygons (polygons : List (Polygon α)) : Option (BspTree α) := root.insert polygons

/-! ## Clipping -/

/-- What is left of polygons in front of a node without a plane, or in front of every plane that
has no front child; the rest is inside. A child comes after its parent. -/
def clipFrom (t : BspTree α) (i : Nat) (polygons : List (Polygon α)) (out : Array (Polygon α)) :
    Array (Polygon α) :=
  match (t.node i).plane with
  | none => out ++ polygons
  | some plane =>
    let parts := polygons.map plane.split
    let front := parts.flatMap fun p => p.front ++ p.coplanarFront
    let back := parts.flatMap fun p => p.back ++ p.coplanarBack
    let out := match (t.node i).front with
      | some _ => out
      | none => out ++ front
    let out := match (t.node i).back with
      | some c => if i < c ∧ c < t.nodes.size then clipFrom t c back out else out
      | none => out
    match (t.node i).front with
    | some c => if i < c ∧ c < t.nodes.size then clipFrom t c front out else out
    | none => out
termination_by t.nodes.size - i

/-- The parts of polygons outside the solid. -/
def clip (t : BspTree α) (polygons : List (Polygon α)) : List (Polygon α) :=
  (clipFrom t 0 polygons #[]).toList

/-- Clips the polygons of every node by another tree. -/
def clipTo (t other : BspTree α) : BspTree α :=
  ⟨t.nodes.map fun n => { n with polygons := other.clip n.polygons }⟩

def invert (t : BspTree α) : BspTree α := ⟨t.nodes.map BspNode.flip⟩

def polygons (t : BspTree α) : List (Polygon α) := t.nodes.toList.flatMap BspNode.polygons

end BspTree

end SolidScript
