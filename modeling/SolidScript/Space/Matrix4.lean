import SolidScript.Space.Vec3

/-!
# Matrices of homogeneous coordinates

Four rows by four columns. A point has a fourth coordinate of one, a direction one of zero.
-/

namespace SolidScript

open Scalar

structure Vec4 (α : Type) where
  x : α
  y : α
  z : α
  w : α
deriving DecidableEq, Repr

namespace Vec4

variable {α : Type} [Scalar α]

def toList (a : Vec4 α) : List α := [a.x, a.y, a.z, a.w]

def scale (a : Vec4 α) (s : α) : Vec4 α := ⟨a.x * s, a.y * s, a.z * s, a.w * s⟩

instance : Add (Vec4 α) := ⟨fun a b => ⟨a.x + b.x, a.y + b.y, a.z + b.z, a.w + b.w⟩⟩

def xyz (a : Vec4 α) : Vec3 α := ⟨a.x, a.y, a.z⟩

/-- The components but one, which is named by its place. -/
def without (a : Vec4 α) : Fin 4 → Vec3 α
  | 0 => ⟨a.y, a.z, a.w⟩
  | 1 => ⟨a.x, a.z, a.w⟩
  | 2 => ⟨a.x, a.y, a.w⟩
  | 3 => ⟨a.x, a.y, a.z⟩

end Vec4

/-- Three rows by three columns. -/
structure Matrix3 (α : Type) where
  row0 : Vec3 α
  row1 : Vec3 α
  row2 : Vec3 α
deriving DecidableEq, Repr

structure Matrix4 (α : Type) where
  row0 : Vec4 α
  row1 : Vec4 α
  row2 : Vec4 α
  row3 : Vec4 α
deriving DecidableEq, Repr

namespace Matrix3

variable {α : Type} [Scalar α]

def apply (m : Matrix3 α) (v : Vec3 α) : Vec3 α := ⟨m.row0.dot v, m.row1.dot v, m.row2.dot v⟩

def det (m : Matrix3 α) : α :=
  let a := m.row0
  let b := m.row1
  let c := m.row2
  a.x * (b.y * c.z - c.y * b.z) - a.y * (b.x * c.z - c.x * b.z) + a.z * (b.x * c.y - c.x * b.y)

/-- The same determinant, summed over the six permutations. -/
def permutationSum (m : Matrix3 α) : α :=
  let a := m.row0
  let b := m.row1
  let c := m.row2
  a.x * b.y * c.z - a.x * c.y * b.z - a.y * b.x * c.z + a.y * c.x * b.z + a.z * b.x * c.y - a.z * c.x * b.y

end Matrix3

namespace Matrix4

variable {α : Type} [Scalar α]

def rows (m : Matrix4 α) : List (Vec4 α) := [m.row0, m.row1, m.row2, m.row3]

/-- A row times a matrix. -/
def combine (m : Matrix4 α) (a : Vec4 α) : Vec4 α :=
  m.row0.scale a.x + m.row1.scale a.y + m.row2.scale a.z + m.row3.scale a.w

def mul (m n : Matrix4 α) : Matrix4 α :=
  ⟨n.combine m.row0, n.combine m.row1, n.combine m.row2, n.combine m.row3⟩

instance : Mul (Matrix4 α) := ⟨mul⟩

def linear (m : Matrix4 α) : Matrix3 α := ⟨m.row0.xyz, m.row1.xyz, m.row2.xyz⟩

/-- What is left without one row and one column. -/
def minor (m : Matrix4 α) (row column : Fin 4) : Matrix3 α :=
  let r0 := m.row0.without column
  let r1 := m.row1.without column
  let r2 := m.row2.without column
  let r3 := m.row3.without column
  match row with
  | 0 => ⟨r1, r2, r3⟩
  | 1 => ⟨r0, r2, r3⟩
  | 2 => ⟨r0, r1, r3⟩
  | 3 => ⟨r0, r1, r2⟩

def cofactor (m : Matrix4 α) (row column : Fin 4) : α :=
  let d := (m.minor row column).permutationSum
  if (row.val + column.val) % 2 = 0 then d else -d

def det (m : Matrix4 α) : α :=
  m.row0.x * m.cofactor 0 0 + m.row1.x * m.cofactor 1 0 + m.row2.x * m.cofactor 2 0 +
    m.row3.x * m.cofactor 3 0

/-- Inverse of the transposed matrix, which maps normals. -/
def inverseTranspose? (m : Matrix4 α) : Option (Matrix4 α) :=
  let d := m.det
  if same d 0 then none
  else
    let row (i : Fin 4) : Vec4 α :=
      Vec4.scale ⟨m.cofactor i 0, m.cofactor i 1, m.cofactor i 2, m.cofactor i 3⟩ (1 / d)
    some ⟨row 0, row 1, row 2, row 3⟩

/-- Divides by the fourth coordinate of the image unless that is zero. -/
def applyPoint (m : Matrix4 α) (p : Vec3 α) : Vec3 α :=
  let w := m.row3.xyz.dot p + m.row3.w
  let q := m.linear.apply p + ⟨m.row0.w, m.row1.w, m.row2.w⟩
  if same w 0 then q else q / w

/-- Directions too are divided by the fourth coordinate of their image. -/
def applyDirection (m : Matrix4 α) (v : Vec3 α) : Vec3 α :=
  let w := m.row3.xyz.dot v
  m.linear.apply (if same w 0 then v else v / w)

def translation (offset : Vec3 α) : Matrix4 α :=
  ⟨⟨1, 0, 0, offset.x⟩, ⟨0, 1, 0, offset.y⟩, ⟨0, 0, 1, offset.z⟩, ⟨0, 0, 0, 1⟩⟩

def scaling (factor : Vec3 α) : Matrix4 α :=
  ⟨⟨factor.x, 0, 0, 0⟩, ⟨0, factor.y, 0, 0⟩, ⟨0, 0, factor.z, 0⟩, ⟨0, 0, 0, 1⟩⟩

/-- Turns about the unit vector `axis` by `angle` radians. -/
def rotation (axis : Vec3 α) (angle : α) : Matrix4 α :=
  let s := sin angle
  let c := cos angle
  let k := 1 - c
  let xx := axis.x * axis.x
  let yy := axis.y * axis.y
  let zz := axis.z * axis.z
  let xy := axis.x * axis.y * k
  let xz := axis.x * axis.z * k
  let yz := axis.y * axis.z * k
  { row0 := ⟨xx + (1 - xx) * c, xy - axis.z * s, xz + axis.y * s, 0⟩
    row1 := ⟨xy + axis.z * s, yy + (1 - yy) * c, yz - axis.x * s, 0⟩
    row2 := ⟨xz - axis.y * s, yz + axis.x * s, zz + (1 - zz) * c, 0⟩
    row3 := ⟨0, 0, 0, 1⟩ }

/-- The same map with the origin moved to `pivot`. -/
def about (pivot : Vec3 α) (m : Matrix4 α) : Matrix4 α := translation pivot * m * translation (-pivot)

end Matrix4

end SolidScript
