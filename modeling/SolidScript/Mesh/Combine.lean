import SolidScript.Mesh.Build
import SolidScript.Space.Matrix4

/-!
# Joining and moving meshes
-/

namespace SolidScript

open Scalar

namespace Mesh

variable {α : Type} [Scalar α]

omit [Scalar α] in
/-- The second mesh behind the first. There are normals if both meshes have them. -/
def append (m n : Mesh α) : Mesh α where
  vertices := m.vertices ++ n.vertices
  triangles := m.triangles ++ n.triangles.map (·.map (· + m.vertexCount))
  normals := match m.normals, n.normals with
    | some a, some b => some (a ++ b)
    | _, _ => none

/-- The second mesh behind the first. When only one of them has normals, the other gets its own. -/
def merge (m n : Mesh α) : Mesh α :=
  let m := if n.normals.isSome then m.ensureNormals else m
  m.append (if m.normals.isSome then n.ensureNormals else n)

def concat (meshes : List (Mesh α)) : Mesh α := meshes.foldl merge empty

/-- Moves positions by one map and normals by another, then brings normals to unit length. -/
def map (m : Mesh α) (point direction : Vec3 α → Vec3 α) : Mesh α :=
  { m with
    vertices := m.vertices.map point
    normals := m.normals.map fun ns => ns.map fun n => (direction n).normalize }

/-- Normals go by the inverse transpose where there is one. A matrix that reflects also turns the
triangles around. -/
def transform (m : Mesh α) (matrix : Matrix4 α) : Mesh α :=
  let moved := m.map matrix.applyPoint (matrix.inverseTranspose?.getD matrix).applyDirection
  if matrix.linear.det < 0 then moved.flipTriangles else moved

def translate (m : Mesh α) (offset : Vec3 α) : Mesh α := { m with vertices := m.vertices.map (· + offset) }

end Mesh

end SolidScript
