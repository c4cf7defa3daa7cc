import SolidScript.Profile.Prism
import SolidScript.Shape.Primitive

/-!
# Rounded and beveled edges of boxes

One edge is treated by sweeping the cross-section of the box along it, with the corner at the edge
rounded or cut off. Treating all edges leaves a smaller face on each side and joins them. The amount is
moved into limits that the sides of the box set.
-/

namespace SolidScript

open Scalar

variable {α : Type} [Scalar α]

namespace BoxFrame

/-- The shortest half side. -/
def shortestHalf (size : Vec3 α) : α := (half size).minimum

/-- The cross-section along an edge: its frame, half of its width and height, and half of the length
of the edge. -/
def crossSection (size center : Vec3 α) (index : Int) : ProfileFrame α × α × α × α :=
  let edge := edge size center index
  let (n, n') := (edge.faces.1.normal, edge.faces.2.normal)
  let h := half size
  let frame := ProfileFrame.spanning center n n'
  (frame, h.dot (n.map magnitude), h.dot (n'.map magnitude), h.dot (frame.axis.map magnitude))

end BoxFrame

/-- What is done to edges of a box by an amount. -/
structure EdgeTreatment (α : Type) where
  /-- What the amount is called. -/
  parameter : String
  /-- The greatest amount, as a part of the shortest half side. -/
  limit : α
  /-- The treated box by its size, its center and an amount within the limits. -/
  build (size center : Vec3 α) (amount : α) : Except (OperatorError α) (Mesh α)

namespace EdgeTreatment

/-- The amount that is used for a box. -/
def effective (t : EdgeTreatment α) (size : Vec3 α) (amount : α) : Except (OperatorError α) α :=
  Fault.clamp 0 (BoxFrame.shortestHalf size * t.limit) amount

/-- An amount of nothing leaves the box. -/
def apply (t : EdgeTreatment α) (size center : Vec3 α) (amount : α) : Except (OperatorError α) (Mesh α) := do
  if !Scalar.isFinite amount then throw (.nonFinite t.parameter)
  let amount ← t.effective size amount
  if amount ≤ 0 then return ← (Primitive.box size center).build
  t.build size center amount

end EdgeTreatment

/-! ## Fillets -/

namespace Fillet

def radiusLimit : α := 0.9

/-- Steps along a rounded edge. -/
def lengthSegments : Nat := 4

/-- Angle of the `k`-th of `n` steps of a quarter turn. -/
def quarterAngle (k n : Nat) : α := pi / 2 * ofNat k / ofNat n

/-- The cross-section with one corner replaced by an arc. -/
def profile (a b r : α) (segments : Nat) : List (ProfileCorner α) :=
  let arc := (List.range (segments + 1)).map fun k =>
    let angle : α := quarterAngle k segments
    ProfileCorner.smooth (a - r + r * cos angle) (b - r + r * sin angle) ⟨cos angle, sin angle⟩
  .sharp (-a) (-b) :: .sharp a (-b) :: arc ++ [.sharp (-a) b]

/-- One edge is rounded. -/
def ofEdge (index : Int) (segments : Nat) (cutter : PolygonCutter α := EarClipping.earcut) : EdgeTreatment α where
  parameter := "radius"
  limit := radiusLimit
  build size center r :=
    let (frame, a, b, halfLength) := BoxFrame.crossSection size center index
    Prism.sweep (profile a b r (max segments 1)) frame halfLength lengthSegments cutter

/-- Signs along the first and the third axis, quadrant by quadrant around the second. -/
def quadrantSigns : Nat → α × α
  | 0 => (1, 1)
  | 1 => (-1, 1)
  | 2 => (-1, -1)
  | _ => (1, -1)

/-- Angle of a place in a row of arcs with `n` steps each, where neighbouring arcs share an angle. -/
def arcAngle (place n : Nat) : α :=
  pi / 2 * (ofNat (place / (n + 1)) + ofNat (place % (n + 1)) / ofNat n)

/-- Direction at a place of the grid, the way it bulges. -/
def bulge (n row column : Nat) : Vec3 α := Round.direction (arcAngle row n) (arcAngle column n)

/-- Center of the corner sphere at a place of the grid. -/
def cornerCenter (inner : Vec3 α) (n row column : Nat) : Vec3 α :=
  let sy : α := if row / (n + 1) = 0 then 1 else -1
  let (sx, sz) := quadrantSigns (α := α) (column / (n + 1))
  ⟨sx * inner.x, sy * inner.y, sz * inner.z⟩

/-- The flat face on top or at the bottom. -/
def cap (center inner : Vec3 α) (r sy : α) : Mesh.Quad α :=
  let y := sy * (inner.y + r)
  let corner (k : Nat) : Vec3 α :=
    let (sx, sz) := quadrantSigns (α := α) k
    center + ⟨sx * inner.x, y, sz * inner.z⟩
  ⟨corner 0, corner 1, corner 2, corner 3⟩

/-- A box with rounded edges. Eight octants of a sphere, quarter cylinders and side faces form one
grid from pole to pole, between two flat caps. -/
def rounded (segments : Nat) (size center : Vec3 α) (r : α) : Except (OperatorError α) (Mesh α) := do
  let n := max segments 1
  let inner := BoxFrame.half size - Vec3.splat r
  let columns := 4 * (n + 1)
  let rows := 2 * (n + 1)
  Room.requireMesh (rows * columns + 8) (2 * rows * columns + 4)
  let places := (List.range rows).flatMap fun row => (List.range columns).map fun column => (row, column)
  let m := places.foldl (fun (m : Mesh α) (row, column) =>
    let d := bulge n row column
    m.addVertexWithNormal (center + cornerCenter inner n row column + d * r) d) Mesh.empty
  let cells := (List.range (rows - 1)).flatMap fun row => (List.range columns).map fun column => (row, column)
  let m ← cells.foldlM (fun (m : Mesh α) (row, column) =>
    let next := (column + 1) % columns
    let outward := bulge n row column + bulge n row next + bulge n (row + 1) column + bulge n (row + 1) next
    m.addQuadIndexedFacing (row * columns + column) (row * columns + next) ((row + 1) * columns + next)
      ((row + 1) * columns + column) outward) m
  let m := m.addQuadFacing (cap center inner r 1) Vec3.unitY
  return m.addQuadFacing (cap center inner r (-1)) (-Vec3.unitY)

/-- Every edge is rounded. -/
def ofAll (segments : Nat) : EdgeTreatment α where
  parameter := "radius"
  limit := radiusLimit
  build := rounded segments

def effectiveRadius (size : Vec3 α) (radius : α) : Except (OperatorError α) α := (ofAll 1).effective size radius

def edge (size center : Vec3 α) (index : Int) (radius : α) (segments : Nat) : Except (OperatorError α) (Mesh α) :=
  (ofEdge index segments).apply size center radius

def all (size center : Vec3 α) (radius : α) (segments : Nat) : Except (OperatorError α) (Mesh α) :=
  (ofAll segments).apply size center radius

end Fillet

/-! ## Chamfers -/

namespace Chamfer

def edgeLimit : α := 0.9

/-- Cuts at all edges meet in the corners and have to stay apart. -/
def allEdgesLimit : α := 0.45

/-- The cross-section with one corner cut off. -/
def profile (a b d : α) : List (ProfileCorner α) :=
  [.sharp (-a) (-b), .sharp a (-b), .sharp a (b - d), .sharp (a - d) b, .sharp (-a) b]

/-- One edge is cut off. -/
def ofEdge (index : Int) (cutter : PolygonCutter α := EarClipping.earcut) : EdgeTreatment α where
  parameter := "distance"
  limit := edgeLimit
  build size center d :=
    let (frame, a, b, halfLength) := BoxFrame.crossSection size center index
    Prism.sweep (profile a b d) frame halfLength 1 cutter

/-- Where the corner with the given signs touches the face across an axis. -/
def touch (h center : Vec3 α) (d : α) (signs : Vec3 α) (axis : Axis) : Vec3 α :=
  let reach (i : Axis) : α := signs.get i * if i = axis then h.get i else h.get i - d
  center + ⟨reach .x, reach .y, reach .z⟩

/-- Signs of the four corners of a face, going around. -/
def faceSigns : List (α × α) := [(-1, -1), (1, -1), (1, 1), (-1, 1)]

/-- Signs along the axes, from one axis on. -/
def signsFrom (axis : Axis) (s t u : α) : Vec3 α :=
  ((Vec3.zero.set s axis).set t axis.next).set u axis.next.next

/-- The face that is left on one side. -/
def face (touch : Vec3 α → Axis → Vec3 α) (axis : Axis) (side : α) : Mesh.Quad α :=
  let corner (su sv : α) := touch (signsFrom axis side su sv) axis
  ⟨corner (-1) (-1), corner 1 (-1), corner 1 1, corner (-1) 1⟩

/-- The cut along an edge that runs along an axis. -/
def bevel (touch : Vec3 α → Axis → Vec3 α) (axis : Axis) (su sv : α) : Mesh.Quad α :=
  let corner (side : α) (onto : Axis) := touch (signsFrom axis side su sv) onto
  let u := axis.next
  let v := u.next
  ⟨corner (-1) u, corner 1 u, corner 1 v, corner (-1) v⟩

/-- Signs of the eight corners, the first axis changing fastest. -/
def cornerSigns : List (Vec3 α) :=
  [⟨-1, -1, -1⟩, ⟨1, -1, -1⟩, ⟨-1, 1, -1⟩, ⟨1, 1, -1⟩, ⟨-1, -1, 1⟩, ⟨1, -1, 1⟩, ⟨-1, 1, 1⟩, ⟨1, 1, 1⟩]

/-- A box with edges cut off: six smaller faces, twelve cuts and a triangle at each corner. -/
def beveled (size center : Vec3 α) (d : α) : Mesh α :=
  let touch := touch (BoxFrame.half size) center d
  let m := Axis.all.foldl (fun (m : Mesh α) axis =>
    [-1, 1].foldl (fun (m : Mesh α) side => m.addQuadFacing (face touch axis side) (Vec3.along axis side)) m)
    Mesh.empty
  let m := Axis.all.foldl (fun (m : Mesh α) axis =>
    faceSigns.foldl (fun (m : Mesh α) (su, sv) =>
      m.addQuadFacing (bevel touch axis su sv) (signsFrom axis 0 su sv)) m) m
  cornerSigns.foldl (fun m s => m.addTriangleFacing (touch s .x) (touch s .y) (touch s .z) s) m

/-- Every edge is cut off. -/
def ofAll : EdgeTreatment α where
  parameter := "distance"
  limit := allEdgesLimit
  build size center d := return beveled size center d

/-- The distance that is used for a box. -/
def effectiveDistance (size : Vec3 α) (distance : α) (allEdges : Bool) : Except (OperatorError α) α :=
  (if allEdges then ofAll else ofEdge 0).effective size distance

def edge (size center : Vec3 α) (index : Int) (distance : α) : Except (OperatorError α) (Mesh α) :=
  (ofEdge index).apply size center distance

def all (size center : Vec3 α) (distance : α) : Except (OperatorError α) (Mesh α) := ofAll.apply size center distance

end Chamfer

end SolidScript
