import SolidScript.Mesh.Guarded
import SolidScript.Solid.Bsp

/-!
# Booleans of solids

A solid is a list of polygons that bound it. Each boolean clips the polygons of both solids by each
other and puts what is left into one tree.
-/

namespace SolidScript

open Scalar

inductive BooleanKind where
  | union
  | subtract
  | intersect
deriving DecidableEq, Repr

def BooleanKind.name : BooleanKind → String
  | union => "union"
  | subtract => "subtract"
  | intersect => "intersect"

structure Solid (α : Type) where
  polygons : List (Polygon α)

/-- How booleans of solids are worked out. -/
abbrev BooleanBackend (α : Type) := Solid α → Solid α → BooleanKind → Except (OperatorError α) (Solid α)

namespace Solid

variable {α : Type} [Scalar α]

def empty : Solid α := ⟨[]⟩

def isEmpty (s : Solid α) : Bool := s.polygons.isEmpty

/-- Space in either solid. -/
def union (s t : Solid α) : Option (Solid α) := do
  let a ← BspTree.ofPolygons s.polygons
  let b ← BspTree.ofPolygons t.polygons
  let a := a.clipTo b
  let b := ((b.clipTo a).invert.clipTo a).invert
  let a ← a.insert b.polygons
  return ⟨a.polygons⟩

/-- Space in the first solid and not in the second. -/
def subtract (s t : Solid α) : Option (Solid α) := do
  let a ← BspTree.ofPolygons s.polygons
  let b ← BspTree.ofPolygons t.polygons
  let a := a.invert.clipTo b
  let b := ((b.clipTo a).invert.clipTo a).invert
  let a ← a.insert b.polygons
  return ⟨a.invert.polygons⟩

/-- Space in both solids. -/
def intersect (s t : Solid α) : Option (Solid α) := do
  let a ← BspTree.ofPolygons s.polygons
  let b ← BspTree.ofPolygons t.polygons
  let a := a.invert
  let b := (b.clipTo a).invert
  let a := a.clipTo b
  let b := b.clipTo a
  let a ← a.insert b.polygons
  return ⟨a.invert.polygons⟩

def combine? (s t : Solid α) : BooleanKind → Option (Solid α)
  | .union => s.union t
  | .subtract => s.subtract t
  | .intersect => s.intersect t

/-- The backend that partitions space. -/
def combine : BooleanBackend α := fun s t kind =>
  match s.combine? t kind with
  | some r => pure r
  | none => throw (.boolean "no end of cuts")

/-! ## To and from meshes -/

/-- One polygon for each triangle that has a plane. -/
def ofMesh (m : Mesh α) : Solid α :=
  let normals := m.ensureNormals.normals.getD #[]
  let corner (i : Nat) : Corner α := ⟨m.point i, normals.getD i Vec3.zero⟩
  ⟨m.triangles.toList.filterMap fun t => Polygon.ofCorners? (t.toList.map corner)⟩

/-- The same, where each corner has to exist. -/
def readMesh (m : Mesh α) : Except (OperatorError α) (Solid α) := do
  let source ← Mesh.Guarded.ensureNormals m
  let normals := source.normals.getD #[]
  let corner (i : Nat) : Except (OperatorError α) (Corner α) := do
    return ⟨← Mesh.Guarded.point source i, ← Fault.item normals i⟩
  let faces ← m.triangles.toList.mapM fun t => t.toList.mapM corner
  return ⟨faces.filterMap Polygon.ofCorners?⟩

/-- Adds a polygon as a fan of triangles around its first corner. -/
def addFan (m : Mesh α) (p : Polygon α) : Mesh α :=
  let base := m.vertexCount
  let m := p.corners.foldl (fun m c => m.addVertexWithNormal c.position c.normal.normalize) m
  (List.range (p.corners.length - 2)).foldl
    (fun m i => m.pushTriangle ⟨base, base + i + 1, base + i + 2⟩) m

def toMesh (s : Solid α) : Mesh α := s.polygons.foldl addFan Mesh.empty

end Solid

namespace Mesh

variable {α : Type} [Scalar α]

/-- A boolean of meshes, worked out on solids. -/
def combine (backend : BooleanBackend α) (m n : Mesh α) (kind : BooleanKind) :
    Except (OperatorError α) (Mesh α) := do
  let result := (← backend (← Solid.readMesh m) (← Solid.readMesh n) kind).toMesh
  match result.fault? with
  | some e => throw (.mesh e)
  | none => return result

end Mesh

end SolidScript
