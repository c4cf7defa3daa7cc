import Std.Data.HashMap
import SolidScript.Mesh.Basic

/-!
# Welding

Vertices in the same cell of a grid become one. The first of them keeps its position.
-/

namespace SolidScript

open Scalar

namespace Mesh

variable {α : Type} [Scalar α]

/-- Cells along one axis for each unit of length, for cells as wide as `epsilon`. -/
def cellsPerUnit (epsilon : α) : α := 1 / greatest epsilon 1e-12

/-- Cell of a point in a grid. -/
def cell (perUnit : α) (p : Vec3 α) : Int × Int × Int :=
  (nearestInt (p.x * perUnit), nearestInt (p.y * perUnit), nearestInt (p.z * perUnit))

/-- Vertices kept so far, the new place of each vertex seen, and the kept vertex of each cell. -/
structure Welding (α : Type) where
  kept : Array (Vec3 α)
  places : Array Nat
  found : Std.HashMap (Int × Int × Int) Nat

namespace Welding

def start : Welding α := ⟨#[], #[], ∅⟩

def add (perUnit : α) (w : Welding α) (p : Vec3 α) : Welding α :=
  let key := cell perUnit p
  match w.found[key]? with
  | some i => { w with places := w.places.push i }
  | none =>
    let i := w.kept.size
    { kept := w.kept.push p, places := w.places.push i, found := w.found.insert key i }

end Welding

/-- Normals are made anew if there were any. -/
def weld (m : Mesh α) (epsilon : α) : Mesh α :=
  if m.vertices.isEmpty then m
  else
    let w := m.vertices.foldl (Welding.add (cellsPerUnit epsilon)) Welding.start
    let welded : Mesh α :=
      { vertices := w.kept
        triangles := m.triangles.map (·.map fun i => w.places.getD i 0)
        normals := none }
    if m.normals.isSome then welded.recomputeNormals else welded

/-- How many vertices welding takes away. -/
def weldCount (m : Mesh α) (epsilon : α) : Nat := m.vertexCount - (m.weld epsilon).vertexCount

end Mesh

end SolidScript
