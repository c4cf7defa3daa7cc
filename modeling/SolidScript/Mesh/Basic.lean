import SolidScript.Space.Bounds

/-!
# Triangle meshes

A mesh is a list of positions, a list of triangles over them, and perhaps a normal for each
position. `Mesh.Valid` says that triangles name positions that exist and that normals are as many
as positions; `Mesh.ofBuffers` checks it, and each operation on meshes keeps it.
-/

namespace SolidScript

open Scalar

/-- Corners by their place among the vertices, in counter-clockwise order seen from the front. -/
structure Triangle where
  a : Nat
  b : Nat
  c : Nat
deriving DecidableEq, Repr

namespace Triangle

def toList (t : Triangle) : List Nat := [t.a, t.b, t.c]

def map (f : Nat → Nat) (t : Triangle) : Triangle := ⟨f t.a, f t.b, f t.c⟩

/-- Seen from the other side. -/
def flip (t : Triangle) : Triangle := ⟨t.a, t.c, t.b⟩

/-- Greatest index that is named. -/
def top (t : Triangle) : Nat := max (max t.a t.b) t.c

def repeatsCorner (t : Triangle) : Bool := t.a == t.b || t.b == t.c || t.a == t.c

/-- Consecutive threes of a list, and what is left over. -/
def ofIndices : List Nat → List Triangle
  | a :: b :: c :: rest => ⟨a, b, c⟩ :: ofIndices rest
  | _ => []

end Triangle

structure Mesh (α : Type) where
  vertices : Array (Vec3 α)
  triangles : Array Triangle
  normals : Option (Array (Vec3 α))
deriving DecidableEq

inductive MeshError where
  | raggedIndices (count : Nat)
  | indexOutOfRange (index vertexCount : Nat)
  | normalCountMismatch (normals vertices : Nat)
  | nonFiniteVertex (position : Nat)
deriving DecidableEq, Repr

def MeshError.message : MeshError → String
  | raggedIndices count => s!"index buffer length {count} is not a multiple of 3"
  | indexOutOfRange index vertexCount => s!"index {index} out of range for {vertexCount} vertices"
  | normalCountMismatch normals vertices =>
    s!"normal count {normals} does not match vertex count {vertices}"
  | nonFiniteVertex position => s!"vertex {position} has a non-finite coordinate"

namespace Mesh

variable {α : Type}

def empty : Mesh α := ⟨#[], #[], none⟩

instance : Inhabited (Mesh α) := ⟨empty⟩

def vertexCount (m : Mesh α) : Nat := m.vertices.size

def triangleCount (m : Mesh α) : Nat := m.triangles.size

def isEmpty (m : Mesh α) : Bool := m.triangles.isEmpty

/-- The corners of all triangles in one list. -/
def indices (m : Mesh α) : List Nat := m.triangles.toList.flatMap Triangle.toList

/-- Triangles name vertices that exist, and normals are as many as vertices. -/
structure Valid (m : Mesh α) : Prop where
  inRange : ∀ t ∈ m.triangles, t.top < m.vertexCount
  normalCount : ∀ ns ∈ m.normals, ns.size = m.vertexCount

variable [Scalar α]

/-- Position of a vertex. -/
def point (m : Mesh α) (i : Nat) : Vec3 α := m.vertices.getD i Vec3.zero

def hasNonFinite (m : Mesh α) : Bool := m.vertices.any fun v => !v.isFinite

/-- The first fault of a mesh, if it has one. The vertices have to be finite as well. -/
def fault? (m : Mesh α) : Option MeshError :=
  match m.indices.find? (m.vertexCount ≤ ·) with
  | some i => some (.indexOutOfRange i m.vertexCount)
  | none =>
    match m.normals with
    | some ns =>
      if ns.size ≠ m.vertexCount then some (.normalCountMismatch ns.size m.vertexCount) else nonFinite
    | none => nonFinite
where
  nonFinite : Option MeshError := (m.vertices.findIdx? fun v => !v.isFinite).map .nonFiniteVertex

def ofBuffers (vertices : Array (Vec3 α)) (indices : List Nat) (normals : Option (Array (Vec3 α))) :
    Except MeshError (Mesh α) :=
  if indices.length % 3 ≠ 0 then throw (.raggedIndices indices.length)
  else
    let m : Mesh α := ⟨vertices, (Triangle.ofIndices indices).toArray, normals⟩
    match m.fault? with
    | some e => throw e
    | none => pure m

/-- Equality of buffers, number by number. -/
def same (m n : Mesh α) : Bool :=
  sameList m.vertices.toList n.vertices.toList && m.triangles == n.triangles &&
    match m.normals, n.normals with
    | none, none => true
    | some a, some b => sameList a.toList b.toList
    | _, _ => false
where
  sameList (a b : List (Vec3 α)) : Bool := a.length == b.length && (a.zip b).all fun (v, w) => v.same w

/-! ## Measures -/

def bounds (m : Mesh α) : Bounds α := Bounds.ofPoints m.vertices.toList

/-- Normal of a triangle by its corners, as long as twice the area. -/
def triangleNormal (m : Mesh α) (t : Triangle) : Vec3 α :=
  Vec3.triangleNormal (m.point t.a) (m.point t.b) (m.point t.c)

/-- Volume between a triangle and the origin. -/
def signedCone (m : Mesh α) (t : Triangle) : α :=
  (m.point t.a).dot ((m.point t.b).cross (m.point t.c)) / 6

/-- Enclosed volume, above zero for closed meshes whose triangles face outward. -/
def signedVolume (m : Mesh α) : α := m.triangles.foldl (fun v t => v + m.signedCone t) 0

/-! ## Normals -/

/-- Normals up to this length belong to triangles without area. -/
def flatNormal : α := 1e-14

/-- Adds the normal of one triangle to the sums at its corners. -/
def addFaceNormal (m : Mesh α) (sums : Array (Vec3 α)) (t : Triangle) : Array (Vec3 α) :=
  let n := m.triangleNormal t
  if flatNormal < n.norm then
    t.toList.foldl (fun sums i => sums.modify i (· + n)) sums
  else sums

/-- A sum of face normals brought to unit length. Where there is no direction it points upward. -/
def vertexNormal (sum : Vec3 α) : Vec3 α :=
  let n := sum.normalize
  if n.same Vec3.zero then Vec3.unitY else n

/-- For each vertex the normals of its triangles, weighted by area. -/
def faceNormalSums (m : Mesh α) : Array (Vec3 α) :=
  m.triangles.foldl m.addFaceNormal (Array.replicate m.vertexCount Vec3.zero)

def recomputeNormals (m : Mesh α) : Mesh α := { m with normals := some (m.faceNormalSums.map vertexNormal) }

def ensureNormals (m : Mesh α) : Mesh α := if m.normals.isSome then m else m.recomputeNormals

def clearNormals (m : Mesh α) : Mesh α := { m with normals := none }

/-! ## Winding -/

/-- The other vertex order for every triangle. Normals stay. -/
def flipTriangles (m : Mesh α) : Mesh α := { m with triangles := m.triangles.map Triangle.flip }

/-- Triangles and normals to the other side. -/
def reverseWinding (m : Mesh α) : Mesh α :=
  { m.flipTriangles with normals := m.normals.map fun ns => ns.map (-·) }

def orientOutward (m : Mesh α) : Mesh α := if m.signedVolume < 0 then m.reverseWinding else m

end Mesh

end SolidScript
