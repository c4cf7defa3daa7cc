import Std.Data.TreeMap
import SolidScript.Mesh.Weld

/-!
# Edges of meshes

A mesh is closed when every edge lies on two triangles, and consistently wound when no edge is
passed twice in the same direction.
-/

namespace SolidScript

/-- An edge without direction. -/
structure Edge where
  low : Nat
  high : Nat
deriving DecidableEq, Repr

namespace Edge

def between (a b : Nat) : Edge := if a < b then ⟨a, b⟩ else ⟨b, a⟩

def compare : Edge → Edge → Ordering := compareLex (compareOn Edge.low) (compareOn Edge.high)

end Edge

/-- The edges of a triangle in the direction of its corners. -/
def Triangle.directedEdges (t : Triangle) : List (Nat × Nat) := [(t.a, t.b), (t.b, t.c), (t.c, t.a)]

namespace Mesh

variable {α : Type}

def directedEdges (m : Mesh α) : List (Nat × Nat) := m.triangles.toList.flatMap Triangle.directedEdges

def edges (m : Mesh α) : List Edge := m.directedEdges.map fun (a, b) => Edge.between a b

/-- How often each member of a list occurs in it. -/
def tally {β : Type} (cmp : β → β → Ordering) (items : List β) : Std.TreeMap β Nat cmp :=
  items.foldl (fun counts b => counts.insert b (counts.getD b 0 + 1)) ∅

/-- Number of triangles along each edge, in the order of edges. -/
def edgeCounts (m : Mesh α) : List (Edge × Nat) := (tally Edge.compare m.edges).toList

/-- How often each edge is passed in a direction. Edges that lead from a vertex to itself have none. -/
def windingCounts (m : Mesh α) :
    Std.TreeMap (Nat × Nat) Nat (compareLex (compareOn Prod.fst) (compareOn Prod.snd)) :=
  tally _ (m.directedEdges.filter fun (a, b) => a != b)

/-- No edge lies on more than two triangles. -/
def isManifold (m : Mesh α) : Bool := m.edgeCounts.all fun (_, count) => count ≤ 2

def isClosed (m : Mesh α) : Bool := m.edgeCounts.all fun (_, count) => count == 2

/-- Each edge is passed once, and backward once at most. -/
def hasConsistentWinding (m : Mesh α) : Bool :=
  m.windingCounts.toList.all fun (e, count) => count == 1 && decide (m.windingCounts.getD e.swap 0 ≤ 1)

def boundaryEdges (m : Mesh α) : List Edge := (m.edgeCounts.filter fun (_, count) => count == 1).map Prod.fst

/-- What the edges of a mesh say about its surface. -/
structure EdgeReport where
  isManifold : Bool
  isClosed : Bool
  hasConsistentWinding : Bool
  edgeCount : Nat
  boundaryEdgeCount : Nat
deriving DecidableEq, Repr

def edgeReport (m : Mesh α) : EdgeReport :=
  { isManifold := m.isManifold
    isClosed := m.isClosed
    hasConsistentWinding := m.hasConsistentWinding
    edgeCount := m.edgeCounts.length
    boundaryEdgeCount := m.edgeCounts.countP fun (_, count) => count == 1 }

def withoutRepeatedCorners (m : Mesh α) : Mesh α :=
  { m with triangles := m.triangles.filter fun t => !t.repeatsCorner }

variable [Scalar α]

/-- Closed once equal positions are one vertex. Triangles that collapse do not count, and neither
does any triangle of a mesh with vertices at infinity. -/
def isWatertight (m : Mesh α) (epsilon : α) : Bool :=
  let welded := m.weld epsilon
  welded.hasNonFinite || welded.withoutRepeatedCorners.isClosed

end Mesh

end SolidScript
