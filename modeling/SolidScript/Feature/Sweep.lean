import SolidScript.Feature.Pattern
import SolidScript.Profile.Prism

/-!
# Sweeping profiles

A profile is moved along a path, around an axis, or through sections stacked one above the other. The
surface behind each edge of the profile is one strip.
-/

namespace SolidScript

open Scalar

variable {α : Type} [Scalar α]

/-! ## Paths -/

/-- A plane across a path, with the directions of a profile in it. -/
structure PathFrame (α : Type) where
  origin : Vec3 α
  tangent : Vec3 α
  normal : Vec3 α
  binormal : Vec3 α

namespace PathFrame

def place (f : PathFrame α) (p : Vec2 α) : Vec3 α := f.origin + f.normal * p.x + f.binormal * p.y

def direction (f : PathFrame α) (d : Vec2 α) : Vec3 α := f.normal * d.x + f.binormal * d.y

end PathFrame

namespace Path

/-- Points no farther apart than this are one. -/
def minStep : α := 1e-9

def dropRepeats (last : Vec3 α) : List (Vec3 α) → List (Vec3 α)
  | [] => []
  | p :: rest =>
    if minStep < Vec3.distance p last then p :: dropRepeats p rest else dropRepeats last rest

def clean : List (Vec3 α) → List (Vec3 α)
  | [] => []
  | first :: rest => first :: dropRepeats first rest

/-- At each point the direction from the one before to the one behind, where they exist. -/
def tangents (points : List (Vec3 α)) : List (Vec3 α) :=
  let ahead := points.drop 1 ++ points.drop (points.length - 1)
  let behind := points.take 1 ++ points
  (behind.zip ahead).map fun (a, b) => ((b - a).normalize?).getD Vec3.unitZ

/-- The normal turned along with the tangent. -/
def turn (previous current normal : Vec3 α) : Vec3 α :=
  let turned := match (previous.cross current).normalize? with
    | some axis =>
      let c := previous.dot current
      normal.rotate axis (arccos (if c < -1 then -1 else if 1 < c then 1 else c))
    | none => normal
  -- Rounding must not let the normal drift toward the tangent.
  ((turned - current * turned.dot current).normalize?).getD current.anyPerpendicular

/-- The normals for tangents that follow one whose normal is known. -/
def normalsFrom (tangent normal : Vec3 α) : List (Vec3 α) → List (Vec3 α)
  | [] => []
  | next :: rest =>
    let n := turn tangent next normal
    n :: normalsFrom next n rest

/-- Frames that turn no more than the path does. -/
def frames (path : List (Vec3 α)) : Except (OperatorError α) (List (PathFrame α)) :=
  if path.any fun p => !p.isFinite then throw (.nonFinite "path")
  else
    let points := clean path
    if points.length < 2 then throw (.pathTooShort points.length)
    else
      let tangents := tangents points
      let normals := match tangents with
        | [] => []
        | first :: rest =>
          let n := first.anyPerpendicular
          n :: normalsFrom first n rest
      pure ((points.zip (tangents.zip normals)).map fun (p, t, n) => ⟨p, t, n, t.cross n⟩)

end Path

namespace Sweep

/-- The strip behind one edge of a profile. -/
def addSide (frames : List (PathFrame α)) (m : Mesh α) (edge : Vec2 α × Vec2 α) :
    Except (OperatorError α) (Mesh α) :=
  let (p, q) := edge
  let face := Profile.edgeOutward p q
  let rungs := frames.map fun f =>
    (⟨f.place p, f.direction face, f.place q, f.direction face⟩ : Mesh.Rung α)
  let outward := (frames.zip (frames.drop 1)).map fun (f, g) => f.direction face + g.direction face
  m.addStrip rungs outward

/-- A profile swept along a path, with both ends capped. -/
def alongPath (profile : List (Vec2 α)) (path : List (Vec3 α)) (cutter : PolygonCutter α := EarClipping.earcut) :
    Except (OperatorError α) (Mesh α) := do
  let profile ← Profile.prepare profile 3
  let frames ← Path.frames path
  let m ← (Cyclic.pairs profile).foldlM (addSide frames) Mesh.empty
  match frames.head?, frames.getLast? with
  | some first, some last =>
    let m ← m.addCap (profile.map first.place) profile (-first.tangent) cutter
    m.addCap (profile.map last.place) profile last.tangent cutter
  | _, _ => return m

end Sweep

/-! ## Helices -/

structure Helix (α : Type) where
  radius : α
  /-- Rise of one turn. -/
  pitch : α
  turns : α
  tubeRadius : α
  center : Vec3 α
  /-- Steps of one turn. -/
  segments : Nat

namespace Helix

/-- Corners of the cross-section. -/
def tubeSegments : Nat := 12

def steps (h : Helix α) : Nat := max 1 (ceilNat (ofNat (max h.segments 3) * magnitude h.turns))

/-- The point after a part of all turns. -/
def pointAt (h : Helix α) (part : α) : Vec3 α :=
  let angle := tau * h.turns * part
  h.center + ⟨h.radius * cos angle, h.pitch * h.turns * part, h.radius * sin angle⟩

def path (h : Helix α) : Except (OperatorError α) (List (Vec3 α)) := do
  Room.requireList Room.positionBytes (h.steps + 1)
  return (List.range (h.steps + 1)).map fun i => h.pointAt (ofNat i / ofNat h.steps)

def tube (radius : α) : List (Vec2 α) :=
  (List.range tubeSegments).map fun i =>
    let angle : α := tau * ofNat i / ofNat tubeSegments
    ⟨radius * cos angle, radius * sin angle⟩

/-- A round tube along the helix. -/
def mesh (h : Helix α) (cutter : PolygonCutter α := EarClipping.earcut) : Except (OperatorError α) (Mesh α) := do
  Pattern.requireFinite "radius" h.radius
  Pattern.requireFinite "pitch" h.pitch
  Pattern.requireFinite "turns" h.turns
  Pattern.requireFinite "tube_radius" h.tubeRadius
  Sweep.alongPath (tube h.tubeRadius) (← h.path) cutter

end Helix

/-! ## Revolving -/

namespace Revolve

/-- The direction of the first profile coordinate: the first axis off the axis of revolution, or the
third if that is the first. -/
def radialDirection (axis : Vec3 α) : Vec3 α :=
  let project (candidate : Vec3 α) : Option (Vec3 α) :=
    let p := candidate - axis * axis.dot candidate
    if 1e-6 < p.norm then some (p / p.norm) else none
  match project Vec3.unitX with
  | some d => d
  | none => (project Vec3.unitZ).getD axis.anyPerpendicular

/-- Whether an angle in degrees closes the surface. -/
def isFull (angle : α) : Bool :=
  magnitude (magnitude angle - 360) < Pattern.fullTurnTolerance || 360 < magnitude angle

/-- Steps for a part of a turn, in proportion. -/
def partialSteps (segments : Nat) (sweep : α) : Nat :=
  max 1 (min (twoTo 32 - 1) (ceilNat (ofNat segments * magnitude sweep / tau)))

/-- A turn in equal steps. -/
structure Tour (α : Type) where
  axis : Vec3 α
  center : Vec3 α
  /-- Radians of the whole turn. -/
  sweep : α
  steps : Nat
  full : Bool

namespace Tour

def angle (t : Tour α) (k : Nat) : α := t.sweep * ofNat k / ofNat t.steps

/-- Places of the profile. A full turn has none at its end. -/
def rings (t : Tour α) : Nat := if t.full then t.steps else t.steps + 1

def turn (t : Tour α) (angle : α) (p : Vec3 α) : Vec3 α := Vec3.rotateAbout t.center t.axis angle p

/-- The strip behind one edge, given by its placed ends and its outward normal. -/
def addSide (t : Tour α) (m : Mesh α) (side : (Vec3 α × Vec3 α) × Vec3 α) :
    Except (OperatorError α) (Mesh α) :=
  let ((p, q), face) := side
  let rungs := (List.range t.rings).map fun k =>
    let angle := t.angle k
    let normal := face.rotate t.axis angle
    (⟨t.turn angle p, normal, t.turn angle q, normal⟩ : Mesh.Rung α)
  let outward := (List.range t.steps).map fun k => face.rotate t.axis ((t.angle k + t.angle (k + 1)) / 2)
  m.addStrip rungs outward

/-- Caps that face against the way the middle of the profile moves, and along it at the end. -/
def addCaps (t : Tour α) (placed : List (Vec3 α)) (profile : List (Vec2 α)) (cutter : PolygonCutter α) (m : Mesh α) :
    Except (OperatorError α) (Mesh α) := do
  let centroid := placed.foldl (· + ·) Vec3.zero / (ofNat placed.length : α)
  let travel := ((t.axis.cross (centroid - t.center) * sign t.sweep).normalize?).getD Vec3.unitZ
  let m ← m.addCap placed profile (-travel) cutter
  m.addCap (placed.map (t.turn t.sweep)) profile (travel.rotate t.axis t.sweep) cutter

end Tour

/-- The profile turned about an axis by an angle in degrees. Its points are given by their distance
from the axis and their height along it. -/
def mesh (profile : List (Vec2 α)) (axis : Vec3 α) (angle : α) (center : Vec3 α) (segments : Nat)
    (cutter : PolygonCutter α := EarClipping.earcut) : Except (OperatorError α) (Mesh α) := do
  let axis ← Pattern.requireDirection axis .zeroAxis
  Pattern.requireFinite "angle" angle
  if !center.isFinite then throw (.nonFinite "center")
  let profile ← Profile.prepare profile 3
  let full := isFull angle
  let sweep := if full then tau * sign (radians angle) else radians angle
  if same sweep 0 then throw .zeroAngle
  let segments := max segments 3
  let tour : Tour α := ⟨axis, center, sweep, if full then segments else partialSteps segments sweep, full⟩
  let radial := radialDirection axis
  let lift (p : Vec2 α) : Vec3 α := radial * p.x + axis * p.y
  let placed := profile.map fun p => center + lift p
  let faces := (Cyclic.pairs profile).map fun (a, b) => lift (Profile.edgeOutward a b)
  let m ← ((Cyclic.pairs placed).zip faces).foldlM tour.addSide Mesh.empty
  let m ← if full then pure m else tour.addCaps placed profile cutter m
  Mesh.Guarded.orientOutward m

end Revolve

/-! ## Lofting -/

namespace Loft

/-- Least distance between consecutive heights. -/
def minGap : α := 1e-3

/-- Pushes each height past the one before. -/
def separateFrom (rising : Bool) (previous : α) : List α → List α
  | [] => []
  | h :: rest =>
    let moved := if rising then greatest h (previous + minGap) else least h (previous - minGap)
    moved :: separateFrom rising moved rest

/-- Heights pushed apart in the direction from the first to the last. -/
def separatedHeights : List α → List α
  | [] => []
  | first :: rest => first :: separateFrom (first ≤ rest.getLastD first) first rest

def lift (height : α) (p : Vec2 α) : Vec3 α := ⟨p.x, height, p.y⟩

/-- Adjacent corners of all sections at once, as one edge for each section. -/
def edges (sections : List (List (Vec2 α))) (n : Nat) : List (List (Vec2 α × Vec2 α)) :=
  (List.range n).map fun i => sections.map fun s => (s.getD i default, s.getD ((i + 1) % n) default)

/-- The strip through one edge of each section. -/
def addSide (heights : List α) (m : Mesh α) (edges : List (Vec2 α × Vec2 α)) :
    Except (OperatorError α) (Mesh α) :=
  let faces := edges.map fun (p, q) => lift (0 : α) (Profile.edgeOutward p q)
  let rungs := ((edges.zip heights).zip faces).map fun (((p, q), h), face) =>
    (⟨lift h p, face, lift h q, face⟩ : Mesh.Rung α)
  m.addStrip rungs ((faces.zip (faces.drop 1)).map fun (a, b) => a + b)

/-- The number of sections and heights, and their numbers. -/
def check (sections : List (List (Vec2 α))) (heights : List α) : Except (OperatorError α) Unit := do
  if sections.length < 2 then throw (.tooFewSections sections.length)
  if heights.length ≠ sections.length then throw (.heightCountMismatch sections.length heights.length)
  if heights.any (fun h => !Scalar.isFinite h) || sections.any fun s => !Profile.isFinite s then
    throw (.nonFinite "section")

/-- The sections cleaned, all with the number of points of the first, and turned around together if
the first is clockwise. -/
def prepare (sections : List (List (Vec2 α))) : Except (OperatorError α) (List (List (Vec2 α))) := do
  let cleaned := sections.map Profile.clean
  let first := cleaned.headD []
  if first.length < 3 then throw (.profileTooShort 3 first.length)
  match cleaned.find? fun s => s.length != first.length with
  | some s => throw (.sectionMismatch first.length s.length)
  | none => return if Profile.signedArea first < 0 then cleaned.map List.reverse else cleaned

/-- Sections in horizontal planes, each point joined to the point of the same place in the next. -/
def mesh (sections : List (List (Vec2 α))) (heights : List α) (cutter : PolygonCutter α := EarClipping.earcut) :
    Except (OperatorError α) (Mesh α) := do
  check sections heights
  let sections ← prepare sections
  let heights := separatedHeights heights
  let bottom := sections.headD []
  let top := sections.getLastD []
  let low := heights.headD 0
  let high := heights.getLastD 0
  let m ← (edges sections bottom.length).foldlM (addSide heights) Mesh.empty
  let up : Vec3 α := if low ≤ high then Vec3.unitY else -Vec3.unitY
  let m ← m.addCap (bottom.map (lift low)) bottom (-up) cutter
  let m ← m.addCap (top.map (lift high)) top up cutter
  Mesh.Guarded.orientOutward m

end Loft

end SolidScript
