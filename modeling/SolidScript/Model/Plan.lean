import SolidScript.Config.Basic
import SolidScript.Feature.Draft
import SolidScript.Feature.EdgeTreatment
import SolidScript.Feature.Extrude
import SolidScript.Feature.Pattern
import SolidScript.Feature.Shell
import SolidScript.Feature.Sweep
import SolidScript.Feature.Transform
import SolidScript.Model.ArtifactGraph
import SolidScript.Model.Diagnostic
import SolidScript.Model.Specification

/-!
# Plans

What an entry would do to a graph is worked out first and carried out afterwards. An entry that fails
leaves the graph as it was.
-/

namespace SolidScript

inductive OriginChange where
  | keep
  | set (p : Primitive Float)
  | clear

inductive Change where
  /-- A new solid is shown, after others have been hidden. -/
  | create (artifact : Artifact Float) (hidden : List String)
  /-- A solid gets other geometry. -/
  | update (id : String) (mesh : Mesh Float) (origin : OriginChange)

structure Plan where
  change : Change
  notes : List Finding

/-- Why there is no plan. -/
inductive Refusal where
  /-- A name means nothing, or a solid without geometry. -/
  | missing (reference : String)
  | failed (error : OperatorError Float)

namespace Change

def applyOrigin (change : OriginChange) (old : Option (Primitive Float)) : Option (Primitive Float) :=
  match change with
  | .keep => old
  | .set p => some p
  | .clear => none

def carryOut (g : ArtifactGraph Float) : Change → ArtifactGraph Float
  | create artifact hidden => (hidden.foldl ArtifactGraph.hide g).insertVisible artifact
  | update id mesh origin =>
    g.modify id fun a => { a with geometry := some mesh, origin := applyOrigin origin a.origin }

end Change

namespace Plan

/-- Amounts no farther apart than this are not reported. -/
def clampTolerance : Float := 1e-12

def clampNote (parameter : String) (requested applied : Float) : List Finding :=
  if requested.isFinite && clampTolerance < (requested - applied).abs then
    [.clamped parameter requested applied]
  else []

def edgeNote : EdgeSelection → List Finding
  | .index i => if BoxFrame.isEdgeIndex i then [] else [.edgeOutOfRange i]
  | .all => []

def op {β : Type} : Except (OperatorError Float) β → Except Refusal β
  | .ok b => .ok b
  | .error e => .error (.failed e)

/-- A solid with its geometry and the primitive that it is. -/
def source (g : ArtifactGraph Float) (id : String) : Except Refusal (Mesh Float × Option (Primitive Float)) :=
  match g.get? id with
  | some ⟨_, some mesh, origin⟩ => pure (mesh, origin)
  | _ => throw (.missing id)

def unsupported (operation : String) (origin : Option (Primitive Float)) : OperatorError Float :=
  .unsupportedTarget operation (match origin with
    | some p => p.kind
    | none => "a derived solid")

/-- Size and center of a solid that is still a box. -/
def boxOf (operation : String) :
    Option (Primitive Float) → Except (OperatorError Float) (Vec3 Float × Vec3 Float)
  | some (.box size center) => pure (size, center)
  | other => throw (unsupported operation other)

/-- The point that stays where a transform names none. -/
def defaultPivot (m : Mesh Float) : Vec3 Float := if m.isEmpty then Vec3.zero else m.bounds.center

/-- There are no copies for counts below zero. -/
def copyCount (n : Int) : Nat := n.toNat

def create (id : String) (mesh : Mesh Float) (notes : List Finding) : Plan :=
  ⟨.create ⟨id, some mesh, none⟩ [], notes⟩

/-! ## What operations do -/

def primitive (id : String) (p : Primitive Float) : Except Refusal Plan := do
  if !p.isFinite then throw (.failed (.nonFinite "dimensions"))
  return ⟨.create ⟨id, some (← op p.build), some p⟩ [], []⟩

def extrude (g : ArtifactGraph Float) (id : String) (face : Face) (distance : Float) :
    Except Refusal Plan := do
  match ← source g id with
  | (_, none) => throw (.failed (unsupported "extrude" none))
  | (_, some p) =>
    let r ← op (p.extrude face distance)
    let mesh ← op r.primitive.build
    return ⟨.update id mesh (.set r.primitive), clampNote "distance" distance r.applied⟩

/-- A solid that is still a box, with one edge treated or all of them. -/
def treat (operation : String) (g : ArtifactGraph Float) (id : String) (edges : EdgeSelection)
    (t : EdgeTreatment Float) (amount : Float) : Except Refusal Plan := do
  let (_, origin) ← source g id
  let (size, center) ← op (boxOf operation origin)
  let mesh ← op (t.apply size center amount)
  let applied ← op (t.effective size amount)
  return ⟨.update id mesh .keep, edgeNote edges ++ clampNote t.parameter amount applied⟩

def rounding (segments : Nat) : EdgeSelection → EdgeTreatment Float
  | .index i => Fillet.ofEdge i segments
  | .all => Fillet.ofAll segments

def beveling : EdgeSelection → EdgeTreatment Float
  | .index i => Chamfer.ofEdge i
  | .all => Chamfer.ofAll

def fillet (config : Config) (g : ArtifactGraph Float) (id : String) (edges : EdgeSelection) (radius : Float)
    (segments : Option Nat) : Except Refusal Plan :=
  treat "fillet" g id edges (rounding (segments.getD config.filletSegments) edges) radius

def chamfer (g : ArtifactGraph Float) (id : String) (edges : EdgeSelection) (distance : Float) :
    Except Refusal Plan :=
  treat "chamfer" g id edges (beveling edges) distance

/-- The two solids are hidden behind the result. -/
def boolean (backend : BooleanBackend Float) (g : ArtifactGraph Float) (id : String) (kind : BooleanKind)
    (first second : String) : Except Refusal Plan := do
  let (a, _) ← source g first
  let (b, _) ← source g second
  let mesh ← op (Mesh.combine backend a b kind)
  return ⟨.create ⟨id, some mesh, none⟩ [first, second], []⟩

def loft (id : String) (sections : List (List (Vec2 Float))) (heights : List Float) :
    Except Refusal Plan := do
  let mesh ← op (Loft.mesh sections heights)
  let notes := (heights.zip (Loft.separatedHeights heights)).zipIdx.flatMap fun ((requested, applied), i) =>
    clampNote s!"heights[{i}]" requested applied
  return create id mesh notes

def torus (config : Config) (id : String) (major minor : Float) (center : Vec3 Float)
    (segments tubeSegments : Option Nat) : Except Refusal Plan := do
  op (Pattern.requireFinite "major_radius" major)
  op (Pattern.requireFinite "minor_radius" minor)
  if !center.isFinite then throw (.failed (.nonFinite "center"))
  let (ring, tube) := Round.torusRadii major minor
  let segments := segments.getD config.segments
  let mesh ← op (Round.buildTorus ring tube center segments (tubeSegments.getD config.sphereRings))
  return create id mesh (clampNote "major_radius" major.abs ring ++ clampNote "minor_radius" minor.abs tube)

/-- Boxes, cylinders and spheres become hollow solids. Any other solid gets an inner surface. -/
def shell (g : ArtifactGraph Float) (id : String) (thickness : Float) (openFaces : List Face) :
    Except Refusal Plan := do
  let (mesh, origin) ← source g id
  let openTop := openFaces.contains .top
  let openBottom := openFaces.contains .bottom
  let (shelled, applied) ← match origin with
    | some (.box size center) => do
      let shelled ← op (Shell.box size center thickness openFaces)
      pure (shelled, ← op (Shell.boxThickness size thickness))
    | some (.cylinder radius height center segments) => do
      let shelled ← op (Shell.cylinder radius height center segments thickness openTop openBottom)
      pure (shelled, ← op (Shell.cylinderThickness radius height thickness))
    | some (.sphere radius center segments rings) => do
      let shelled ← op (Shell.sphere radius center segments rings thickness openTop openBottom
        Shell.openingAngle)
      pure (shelled, ← op (Shell.sphereThickness radius thickness))
    | _ => do
      let shelled ← op (Shell.ofMesh mesh thickness)
      pure (shelled, thickness)
  return ⟨.update id shelled .clear, clampNote "thickness" thickness applied⟩

/-- A transform about a point, or about the middle of the solid. -/
def transform (g : ArtifactGraph Float) (id : String) (motion : Vec3 Float → Transform Float)
    (pivot : Option (Vec3 Float)) : Except Refusal Plan := do
  let (mesh, origin) ← source g id
  let t := motion (pivot.getD (defaultPivot mesh))
  let moved ← op (mesh.apply t)
  let origin := match origin >>= (·.transform? t) with
    | some p => OriginChange.set p
    | none => .clear
  return ⟨.update id moved origin, []⟩

/-- Geometry worked out from the geometry before, which is no primitive any more. -/
def reshape (g : ArtifactGraph Float) (id : String)
    (f : Mesh Float → Except (OperatorError Float) (Mesh Float)) : Except Refusal Plan := do
  let (mesh, _) ← source g id
  return ⟨.update id (← op (f mesh)) .clear, []⟩

def draft (g : ArtifactGraph Float) (id : String) (angle : Float) (direction : Vec3 Float)
    (neutral : Option Float) : Except Refusal Plan := do
  let (mesh, _) ← source g id
  let r ← op (mesh.draft angle direction neutral)
  return ⟨.update id r.mesh .clear, clampNote "angle" angle r.applied⟩

/-- What an entry does to a graph. -/
def ofEntry (config : Config) (backend : BooleanBackend Float) (g : ArtifactGraph Float) (e : Entry) :
    Except Refusal Plan :=
  match e.operation with
  | .primitive shape => primitive e.id shape
  | .extrude source face distance => extrude g source face distance
  | .fillet source edges radius segments => fillet config g source edges radius segments
  | .chamfer source edges distance => chamfer g source edges distance
  | .boolean kind first second => boolean backend g e.id kind first second
  | .revolve profile axis angle center segments => do
    let mesh ← op (Revolve.mesh profile axis angle center (segments.getD config.segments))
    return create e.id mesh []
  | .linearPattern source direction count spacing =>
    reshape g source fun m => m.linearPattern direction (copyCount count) spacing
  | .circularPattern source axis center count angle =>
    reshape g source fun m => m.circularPattern axis center (copyCount count) angle
  | .shell source thickness openFaces => shell g source thickness openFaces
  | .mirror source normal point keepOriginal => reshape g source fun m => m.mirror normal point keepOriginal
  | .scale source factor center => transform g source (.scale factor) center
  | .rotate source axis angle center => transform g source (.rotate axis angle) center
  | .translate source offset => transform g source (fun _ => .translate offset) none
  | .sweep profile path => do return create e.id (← op (Sweep.alongPath profile path)) []
  | .loft sections heights => loft e.id sections heights
  | .draft source angle direction neutral => draft g source angle direction neutral
  | .torus major minor center segments tubeSegments =>
    torus config e.id major minor center segments tubeSegments
  | .helix radius pitch turns tubeRadius center segments => do
    let helix : Helix Float := ⟨radius, pitch, turns, tubeRadius, center, segments.getD config.segments⟩
    return create e.id (← op helix.mesh) []
  | .gridPattern source direction₁ count₁ spacing₁ direction₂ count₂ spacing₂ =>
    reshape g source fun m =>
      m.gridPattern direction₁ (copyCount count₁) spacing₁ direction₂ (copyCount count₂) spacing₂
  | .spiralPattern source axis center count angle pitch radiusGrowth =>
    reshape g source fun m => m.spiralPattern axis center (copyCount count) angle pitch radiusGrowth

end Plan

end SolidScript
