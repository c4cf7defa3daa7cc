import SolidScript.Mesh.Guarded

/-!
# Round solids

Frustums, spheres and tori around the vertical axis, in equal steps of angle. Each surface is closed
and faces outward.
-/

namespace SolidScript

open Scalar

/-! ## Rings

A ring is a run of `n` vertices that closes on itself. Between two rings, and between a ring and a single vertex, the
triangles of one sector after another close a surface.
-/

namespace Ring

/-- Place of the `j`-th vertex of a ring, counted around it. -/
def place (base n j : Nat) : Nat := base + j % n

/-- From a vertex to one edge of a ring, taken in its own direction. -/
def fanForward (hub base n j : Nat) : Triangle := ⟨hub, place base n j, place base n (j + 1)⟩

/-- From a vertex to one edge of a ring, taken against its direction. -/
def fanBackward (hub base n j : Nat) : Triangle := ⟨hub, place base n (j + 1), place base n j⟩

/-- The quad between two rings in one sector. -/
def band (upper lower n j : Nat) : List Triangle :=
  [⟨place upper n j, place upper n (j + 1), place lower n j⟩,
    ⟨place upper n (j + 1), place lower n (j + 1), place lower n j⟩]

def sectors (n : Nat) (triangles : Nat → List Triangle) : List Triangle := (List.range n).flatMap triangles

end Ring

namespace Round

variable {α : Type} [Scalar α]

def minSegments : Nat := 3

def minRings : Nat := 2

/-- Angle of the `j`-th of `n` steps around. -/
def stepAngle (j n : Nat) : α := tau * ofNat j / ofNat n

/-! ## Frustums -/

/-- Point at a height and a distance from the axis, in the direction of an angle. -/
def onCircle (center : Vec3 α) (radius height angle : α) : Vec3 α :=
  center + ⟨radius * cos angle, height, radius * sin angle⟩

def circle (center : Vec3 α) (radius height : α) (n : Nat) : List (Vec3 α) :=
  (List.range n).map fun j => onCircle center radius height (stepAngle j n)

/-- The bottom ring comes right behind the middle of the bottom, the top ring behind that of the
top. Instead of a top ring there may be an apex. -/
def frustumTriangles (n : Nat) (hasApex : Bool) : List Triangle :=
  let bottom := 1
  let summit := n + 1
  let top := n + 2
  let sides := Ring.sectors n fun j =>
    if hasApex then [Ring.fanBackward summit bottom n j]
    else Ring.fanBackward summit top n j :: Ring.band top bottom n j
  sides ++ Ring.sectors n fun j => [Ring.fanForward 0 bottom n j]

/-- A frustum whose top is too narrow ends in an apex. -/
def frustumSurface (bottomRadius topRadius height : α) (center : Vec3 α) (segments : Nat) : Mesh α :=
  let n := max segments minSegments
  let half := magnitude height / 2
  let top := magnitude topRadius
  let hasApex : Bool := top ≤ ulpOne
  let base := (center + ⟨0, -half, 0⟩) :: circle center (magnitude bottomRadius) (-half) n
  let summit := center + ⟨0, half, 0⟩
  let upper := if hasApex then [summit] else summit :: circle center top half n
  { vertices := (base ++ upper).toArray
    triangles := (frustumTriangles n hasApex).toArray
    normals := none }

def frustum (bottomRadius topRadius height : α) (center : Vec3 α) (segments : Nat) : Mesh α :=
  (frustumSurface bottomRadius topRadius height center segments).recomputeNormals

/-! ## Spheres -/

/-- Unit vector at an angle from the pole and an angle around the axis. -/
def direction (polar around : α) : Vec3 α :=
  ⟨sin polar * cos around, cos polar, sin polar * sin around⟩

/-- The poles come first and last, and one ring after another in between. -/
def sphereDirections (n rings : Nat) : List (Vec3 α) :=
  let ring (i : Nat) : List (Vec3 α) := (List.range n).map fun j =>
    direction (pi * ofNat (i + 1) / ofNat rings : α) (stepAngle j n)
  (List.range (rings - 1)).flatMap ring

def sphereTriangles (n rings : Nat) : List Triangle :=
  let ring (i : Nat) := 1 + i * n
  let south := ring (rings - 1)
  let last := ring (rings - 2)
  let caps := Ring.sectors n fun j =>
    [Ring.fanBackward 0 1 n j, ⟨Ring.place last n j, Ring.place last n (j + 1), south⟩]
  caps ++ (List.range (rings - 2)).flatMap fun i => Ring.sectors n (Ring.band (ring i) (ring (i + 1)) n)

def sphere (radius : α) (center : Vec3 α) (segments rings : Nat) : Mesh α :=
  let n := max segments minSegments
  let rings := max rings minRings
  let r := magnitude radius
  let inner : List (Vec3 α) := sphereDirections n rings
  let up : Vec3 α := Vec3.unitY
  { vertices := ((center + up * r) :: inner.map (fun d => center + d * r) ++ [center - up * r]).toArray
    triangles := (sphereTriangles n rings).toArray
    normals := some (up :: inner ++ [-up]).toArray }

/-- Room for the vertices, and for two triangles at each step of each ring. -/
def requireSphereRoom (segments rings : Nat) : Except (OperatorError α) Unit :=
  let n := max segments minSegments
  let rings := max rings minRings
  Room.requireMesh (2 + (rings - 1) * n) (2 * rings * n)

/-! ## Tori -/

def minTubeRadius : α := 1e-3

/-- Radii of the ring and of the tube. The tube is never too thin, and the ring never narrower than
the tube. -/
def torusRadii (major minor : α) : α × α :=
  let tube := greatest (magnitude minor) minTubeRadius
  (greatest (magnitude major) tube, tube)

/-- `n` rings of `m` vertices, each around the tube. -/
def torusTriangles (n m : Nat) : List Triangle :=
  let place (j k : Nat) := j % n * m + k % m
  (List.range n).flatMap fun j => (List.range m).flatMap fun k =>
    let a := place j k
    let b := place (j + 1) k
    let c := place (j + 1) (k + 1)
    let d := place j (k + 1)
    [⟨a, c, b⟩, ⟨a, d, c⟩]

/-- The vertices with their normals. -/
def torusPoints (ring tube : α) (center : Vec3 α) (n m : Nat) : List (Vec3 α × Vec3 α) :=
  (List.range n).flatMap fun j =>
    let around : α := stepAngle j n
    let radial : Vec3 α := ⟨cos around, 0, sin around⟩
    (List.range m).map fun k =>
      let along : α := stepAngle k m
      let normal := radial * cos along + (Vec3.unitY : Vec3 α) * sin along
      (center + radial * ring + normal * tube, normal)

def torusSurface (major minor : α) (center : Vec3 α) (segments tubeSegments : Nat) : Mesh α :=
  let n := max segments minSegments
  let m := max tubeSegments minSegments
  let (ring, tube) := torusRadii major minor
  let points := torusPoints ring tube center n m
  { vertices := (points.map Prod.fst).toArray
    triangles := (torusTriangles n m).toArray
    normals := some (points.map Prod.snd).toArray }

def torus (major minor : α) (center : Vec3 α) (segments tubeSegments : Nat) : Mesh α :=
  (torusSurface major minor center segments tubeSegments).orientOutward

/-- The torus, if there is room for it. -/
def buildTorus (major minor : α) (center : Vec3 α) (segments tubeSegments : Nat) :
    Except (OperatorError α) (Mesh α) := do
  let n := max segments minSegments
  let m := max tubeSegments minSegments
  Room.requireMesh (n * m) (2 * n * m)
  Mesh.Guarded.orientOutward (torusSurface major minor center segments tubeSegments)

end Round

end SolidScript
