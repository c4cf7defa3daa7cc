import SolidScript.Mesh.Facing
import SolidScript.Shape.Primitive
import SolidScript.Space.Vec2

/-!
# Hollow solids

A shell keeps the surface of a solid and adds an inner one that faces the other way. Where a side is
open, a rim joins the two.
-/

namespace SolidScript

open Scalar

variable {α : Type} [Scalar α]

namespace Shell

def thicknessLimit : α := 0.9

/-- Half the angle of an opening at a pole, in degrees. -/
def openingAngle : α := 30

def boxThickness (size : Vec3 α) (thickness : α) : Except (OperatorError α) α :=
  Fault.clamp 0 ((BoxFrame.half size).minimum * thicknessLimit) thickness

def cylinderThickness (radius height thickness : α) : Except (OperatorError α) α :=
  Fault.clamp 0 (least (magnitude radius) (magnitude height / 2) * thicknessLimit) thickness

def sphereThickness (radius thickness : α) : Except (OperatorError α) α :=
  Fault.clamp 0 (magnitude radius * thicknessLimit) thickness

def checkThickness (thickness : α) : Except (OperatorError α) Unit :=
  if Scalar.isFinite thickness then pure () else throw (.nonFinite "thickness")

/-! ## Boxes -/

/-- The cavity of a box: its least and greatest coordinates, from the center. On an open side it
reaches the outside. -/
def cavity (h : Vec3 α) (t : α) (isOpen : Face → Bool) : Vec3 α × Vec3 α :=
  Face.all.foldl (fun (low, high) face =>
    let axis := face.axis
    if !isOpen face then (low, high)
    else if face.isPositive then (low, high.set (h.get axis) axis)
    else (low.set (-h.get axis) axis, high)) (-h + Vec3.splat t, h - Vec3.splat t)

/-- A rectangle across an axis, between two corners of which only the other coordinates count. -/
def rectangle (center : Vec3 α) (axis : Axis) (plane : α) (low high : Vec3 α) : Mesh.Quad α :=
  let u := axis.next
  let v := u.next
  let corner (a b : Vec3 α) : Vec3 α := center + ((Vec3.along axis plane).set (a.get u) u).set (b.get v) v
  ⟨corner low low, corner high low, corner high high, corner low high⟩

def quadArea (q : Mesh.Quad α) : α :=
  ((Vec3.triangleNormal q.p0 q.p1 q.p2).norm + (Vec3.triangleNormal q.p0 q.p2 q.p3).norm) / 2

/-- The four sides between two rectangles, one around the other. -/
def rim (outer inner : Mesh.Quad α) : List (Mesh.Quad α) :=
  [⟨outer.p0, outer.p1, inner.p1, inner.p0⟩, ⟨outer.p1, outer.p2, inner.p2, inner.p1⟩,
    ⟨outer.p2, outer.p3, inner.p3, inner.p2⟩, ⟨outer.p3, outer.p0, inner.p0, inner.p3⟩]

/-- One side of the box: its rim when it is open, or else its outer and its inner face. Sides of a
rim that vanish are left out. -/
def addBoxSide (center h : Vec3 α) (cavity : Vec3 α × Vec3 α) (isOpen : Face → Bool) (m : Mesh α)
    (face : Face) : Mesh α :=
  let axis := face.axis
  let plane := face.sign * h.get axis
  let (low, high) := cavity
  let outer := rectangle center axis plane (-h) h
  if isOpen face then
    (rim outer (rectangle center axis plane low high)).foldl
      (fun m q => if ulpOne < quadArea q then m.addQuadFacing q face.normal else m) m
  else
    let inner := rectangle center axis ((if face.isPositive then high else low).get axis) low high
    (m.addQuadFacing outer face.normal).addQuadFacing inner (-face.normal)

def box (size center : Vec3 α) (thickness : α) (openFaces : List Face) :
    Except (OperatorError α) (Mesh α) := do
  checkThickness thickness
  let t ← boxThickness size thickness
  let h := BoxFrame.half size
  let isOpen := openFaces.contains
  return Face.all.foldl (addBoxSide center h (cavity h t isOpen) isOpen) Mesh.empty

/-! ## Cylinders -/

/-- Angle in the middle of the `j`-th of `n` steps around. -/
def midAngle (j n : Nat) : α := tau * (ofNat j + 0.5) / ofNat n

/-- The wall between two rings, facing away from the axis or toward it. -/
def addWall (lower upper : List (Vec3 α)) (sign : α) (m : Mesh α) : Mesh α :=
  let n := lower.length
  ((Cyclic.pairs lower).zip (Cyclic.pairs upper)).zipIdx.foldl (fun m (((a, b), (d, c)), j) =>
    let angle : α := midAngle j n
    m.addQuadFacing ⟨a, b, c, d⟩ ((⟨cos angle, 0, sin angle⟩ : Vec3 α) * sign)) m

/-- The flat ring between two circles. -/
def addAnnulus (inner outer : List (Vec3 α)) (up : Vec3 α) (m : Mesh α) : Mesh α :=
  ((Cyclic.pairs inner).zip (Cyclic.pairs outer)).foldl
    (fun m ((a, d), (b, c)) => m.addQuadFacing ⟨a, b, c, d⟩ up) m

/-- The outer and the inner disk of a closed end, sector by sector. -/
def addDisks (outerHub innerHub : Vec3 α) (outer inner : List (Vec3 α)) (up : Vec3 α) (m : Mesh α) : Mesh α :=
  ((Cyclic.pairs outer).zip (Cyclic.pairs inner)).foldl (fun m ((a, b), (c, d)) =>
    (m.addTriangleFacing outerHub a b up).addTriangleFacing innerHub c d (-up)) m

def addEnd (center : Vec3 α) (r ri outerHeight innerHeight : α) (n : Nat) (isOpen : Bool) (up : Vec3 α)
    (m : Mesh α) : Mesh α :=
  let outer := Round.circle center r outerHeight n
  if isOpen then addAnnulus (Round.circle center ri outerHeight n) outer up m
  else
    addDisks (center + ⟨0, outerHeight, 0⟩) (center + ⟨0, innerHeight, 0⟩) outer
      (Round.circle center ri innerHeight n) up m

def cylinder (radius height : α) (center : Vec3 α) (segments : Nat) (thickness : α)
    (openTop openBottom : Bool) : Except (OperatorError α) (Mesh α) := do
  checkThickness thickness
  let t ← cylinderThickness radius height thickness
  let r := magnitude radius
  let half := magnitude height / 2
  let ri := r - t
  let topInner := if openTop then half else half - t
  let bottomInner := if openBottom then -half else -half + t
  let n := max segments 3
  let ring (r y : α) := Round.circle center r y n
  let m := addWall (ring r (-half)) (ring r half) 1 Mesh.empty
  let m := addWall (ring ri bottomInner) (ring ri topInner) (-1) m
  let m := addEnd center r ri half topInner n openTop Vec3.unitY m
  return addEnd center r ri (-half) bottomInner n openBottom (-Vec3.unitY) m

/-! ## Spheres -/

/-- Where the rows of a sphere start and end, measured from the upper pole. -/
structure Span (α : Type) where
  start : α
  stop : α
  rows : Nat

def Span.angle (s : Span α) (i : Nat) : α := s.start + (s.stop - s.start) * ofNat i / ofNat s.rows

/-- A sphere between two angles from the pole, its front outside or inside. -/
def addSphere (center : Vec3 α) (span : Span α) (n : Nat) (radius sign : α) (m : Mesh α) :
    Except (OperatorError α) (Mesh α) := do
  let base := m.vertexCount
  let points := (List.range (span.rows + 1)).flatMap fun i => (List.range n).map fun j =>
    Round.direction (span.angle i) (Round.stepAngle (α := α) j n)
  let m := points.foldl (fun (m : Mesh α) d => m.addVertexWithNormal (center + d * radius) (d * sign)) m
  let place (i j : Nat) := base + (i * n + j % n)
  let cells := (List.range span.rows).flatMap fun i => (List.range n).map fun j => (i, j)
  cells.foldlM (fun (m : Mesh α) (i, j) =>
    let middle := (span.angle i + span.angle (i + 1)) / 2
    m.addQuadIndexedFacing (place i j) (place i (j + 1)) (place (i + 1) (j + 1)) (place (i + 1) j)
      (Round.direction middle (midAngle (α := α) j n) * sign)) m

/-- The rim of an opening, part of a cone toward the center. -/
def addRim (center : Vec3 α) (r ri angle : α) (n : Nat) (towardPole : α) (m : Mesh α) : Mesh α :=
  (List.range n).foldl (fun (m : Mesh α) j =>
    let d := Round.direction angle (Round.stepAngle j n)
    let d' := Round.direction angle (Round.stepAngle ((j + 1) % n) n)
    let middle : α := midAngle j n
    let outward : Vec3 α := ⟨cos angle * cos middle, -sin angle, cos angle * sin middle⟩
    m.addQuadFacing ⟨center + d * ri, center + d * r, center + d' * r, center + d' * ri⟩
      (outward * towardPole)) m

def sphere (radius : α) (center : Vec3 α) (segments rings : Nat) (thickness : α)
    (openTop openBottom : Bool) (opening : α) : Except (OperatorError α) (Mesh α) := do
  checkThickness thickness
  if !Scalar.isFinite opening then throw (.nonFinite "opening_angle")
  let t ← sphereThickness radius thickness
  let r := magnitude radius
  let ri := r - t
  let opening ← Fault.clamp 0 (pi / 2 - 1e-3) (radians opening)
  let span : Span α :=
    { start := if openTop then opening else 0
      stop := if openBottom then pi - opening else pi
      rows := max rings 2 }
  let n := max segments 3
  let m ← addSphere center span n r 1 Mesh.empty
  let m ← addSphere center span n ri (-1) m
  let m := if openTop then addRim center r ri (span.angle 0) n (-1) m else m
  return if openBottom then addRim center r ri (span.angle span.rows) n 1 m else m

/-! ## Any mesh -/

/-- The surface moved inward along its normals. Edges of open meshes are not joined. -/
def ofMesh (m : Mesh α) (thickness : α) : Except (OperatorError α) (Mesh α) := do
  checkThickness thickness
  let outer ← Mesh.Guarded.ensureNormals m
  let normals := outer.normals.getD #[]
  let inner : Mesh α :=
    { vertices := outer.vertices.zipWith (fun v n => v - n * thickness) normals
      triangles := outer.triangles.map Triangle.flip
      normals := if outer.vertices.isEmpty then none else some (normals.map (-·)) }
  Mesh.Guarded.merge outer inner

end Shell

end SolidScript
