import SolidScript.Mesh.Basic

/-!
# Building meshes

Vertices and triangles are added one by one or by flat faces. A face that is to look outward gets
its vertex order from a direction.
-/

namespace SolidScript

open Scalar

namespace Mesh

variable {α : Type} [Scalar α]

/-- The new vertex comes last. If the mesh has normals, the new one is zero. -/
def addVertex (m : Mesh α) (p : Vec3 α) : Mesh α :=
  { vertices := m.vertices.push p
    triangles := m.triangles
    normals := m.normals.map (·.push Vec3.zero) }

/-- The new vertex comes last. Vertices before the first normal get zero normals. -/
def addVertexWithNormal (m : Mesh α) (p n : Vec3 α) : Mesh α :=
  let count := m.vertices.size
  { vertices := m.vertices.push p
    triangles := m.triangles
    normals := some ((m.normals.getD (Array.replicate count Vec3.zero)).push n) }

/-- For triangles whose corners are known to exist. -/
def pushTriangle (m : Mesh α) (t : Triangle) : Mesh α := { m with triangles := m.triangles.push t }

def addTriangle (m : Mesh α) (t : Triangle) : Except MeshError (Mesh α) :=
  if t.top < m.vertexCount then pure (m.pushTriangle t)
  else throw (.indexOutOfRange t.top m.vertexCount)

/-! ## Flat faces with vertices of their own -/

structure Quad (α : Type) where
  p0 : Vec3 α
  p1 : Vec3 α
  p2 : Vec3 α
  p3 : Vec3 α

namespace Quad

def reverse (q : Quad α) : Quad α := ⟨q.p3, q.p2, q.p1, q.p0⟩

/-- Sum of the normals of the two triangles on either side of the diagonal `p0 p2`. -/
def normal (q : Quad α) : Vec3 α := Vec3.triangleNormal q.p0 q.p1 q.p2 + Vec3.triangleNormal q.p0 q.p2 q.p3

def map (q : Quad α) (f : Vec3 α → Vec3 α) : Quad α := ⟨f q.p0, f q.p1, f q.p2, f q.p3⟩

end Quad

/-- Corners in counter-clockwise order seen from the front, all with one normal. -/
def addQuad (m : Mesh α) (q : Quad α) (normal : Vec3 α) : Mesh α :=
  let i := m.vertexCount
  ((((((m.addVertexWithNormal q.p0 normal).addVertexWithNormal q.p1 normal).addVertexWithNormal
    q.p2 normal).addVertexWithNormal q.p3 normal).pushTriangle ⟨i, i + 1, i + 2⟩).pushTriangle
      ⟨i, i + 2, i + 3⟩)

def addQuadFacing (m : Mesh α) (q : Quad α) (outward : Vec3 α) : Mesh α :=
  m.addQuad (if q.normal.dot outward < 0 then q.reverse else q) outward.normalize

def addTriangleFacing (m : Mesh α) (p0 p1 p2 outward : Vec3 α) : Mesh α :=
  let n := outward.normalize
  let (q1, q2) := if (Vec3.triangleNormal p0 p1 p2).dot outward < 0 then (p2, p1) else (p1, p2)
  let i := m.vertexCount
  (((m.addVertexWithNormal p0 n).addVertexWithNormal q1 n).addVertexWithNormal q2 n).pushTriangle
    ⟨i, i + 1, i + 2⟩

end Mesh

end SolidScript
