import SolidScript.Config.Basic
import SolidScript.Model.Specification
import SolidScript.Script.Arguments

/-!
# Calls

Each statement and the operation that it asks for. Arguments are looked at in the order in which they
are written here, so that of two faults the first is reported.
-/

namespace SolidScript.Script

open ArgumentType

namespace Call

def center (a : Arguments) (place : Nat) : Except ScriptError (Vec3 Float) :=
  a.getOr vector ["center"] place Vec3.zero

def box (a : Arguments) : Except ScriptError Operation := do
  let size ← a.getOr spread ["size"] 0 (Vec3.splat 1.0)
  return .primitive (.box size (← center a 1))

def cylinder (config : Config) (a : Arguments) : Except ScriptError Operation := do
  let radius ← a.getOr number ["radius", "r"] 0 1.0
  let height ← a.getOr number ["height", "h"] 1 1.0
  let center ← center a 2
  let segments ← a.getOr count ["segments"] 3 config.segments
  return .primitive (.cylinder radius height center segments)

def sphere (config : Config) (a : Arguments) : Except ScriptError Operation := do
  let radius ← a.getOr number ["radius", "r"] 0 1.0
  let center ← center a 1
  let segments ← a.getOr count ["segments"] 2 config.segments
  let rings ← a.getOr count ["rings"] 3 config.sphereRings
  return .primitive (.sphere radius center segments rings)

def cone (config : Config) (a : Arguments) : Except ScriptError Operation := do
  let radius ← a.getOr number ["radius", "r"] 0 1.0
  let height ← a.getOr number ["height", "h"] 1 1.0
  let center ← center a 2
  let segments ← a.getOr count ["segments"] 3 config.segments
  let radiusTop ← a.getOr number ["radius_top"] 4 0.0
  return .primitive (.cone radius radiusTop height center segments)

def extrude (a : Arguments) : Except ScriptError Operation := do
  let target ← a.need reference ["face", "target"] 0
  let face ← match target.part with
    | .face name =>
      match Face.parse? name with
      | some f => pure f
      | none => throw (.invalidArgument "face" "one of top, bottom, left, right, front, back")
    | _ => throw (.invalidArgument "face" "a face reference like `box1.face.top`")
  return .extrude target.name face (← a.need number ["distance"] 1)

/-- The box and the edges that an edge treatment is for. -/
def edges (a : Arguments) : Except ScriptError (String × EdgeSelection) := do
  let target ← a.need reference ["edge", "target"] 0
  match target.part with
  | .edge i => return (target.name, .index i)
  | .allEdges => return (target.name, .all)
  | _ => throw (.invalidArgument "edge" "an edge reference like `box1.edge[0]` or `box1.edges`")

def fillet (a : Arguments) : Except ScriptError Operation := do
  let (source, edges) ← edges a
  let radius ← a.need number ["radius"] 1
  return .fillet source edges radius (← a.optional count ["segments"] 2)

def chamfer (a : Arguments) : Except ScriptError Operation := do
  let (source, edges) ← edges a
  return .chamfer source edges (← a.need number ["distance"] 1)

def boolean (kind : BooleanKind) (a : Arguments) : Except ScriptError Operation := do
  let first ← a.solid ["a", "source_a"] 0
  return .boolean kind first (← a.solid ["b", "source_b"] 1)

def revolve (a : Arguments) : Except ScriptError Operation := do
  let points ← a.need profile ["profile"] 0
  let axis ← a.getOr vector ["axis"] 1 Vec3.unitY
  let angle ← a.getOr number ["angle"] 2 360.0
  let center ← center a 3
  return .revolve points axis angle center (← a.optional count ["segments"] 4)

def linearPattern (a : Arguments) : Except ScriptError Operation := do
  let source ← a.solid ["source"] 0
  let direction ← a.need vector ["direction"] 1
  let count ← a.need integer ["count"] 2
  return .linearPattern source direction count (← a.need number ["spacing"] 3)

def circularPattern (a : Arguments) : Except ScriptError Operation := do
  let source ← a.solid ["source"] 0
  let axis ← a.need vector ["axis"] 1
  let center ← center a 2
  let count ← a.need integer ["count"] 3
  return .circularPattern source axis center count (← a.getOr number ["angle"] 4 360.0)

def gridPattern (a : Arguments) : Except ScriptError Operation := do
  let source ← a.solid ["source"] 0
  let direction₁ ← a.need vector ["direction1"] 1
  let count₁ ← a.need integer ["count1"] 2
  let spacing₁ ← a.need number ["spacing1"] 3
  let direction₂ ← a.need vector ["direction2"] 4
  let count₂ ← a.need integer ["count2"] 5
  let spacing₂ ← a.need number ["spacing2"] 6
  return .gridPattern source direction₁ count₁ spacing₁ direction₂ count₂ spacing₂

def spiralPattern (a : Arguments) : Except ScriptError Operation := do
  let source ← a.solid ["source"] 0
  let axis ← a.getOr vector ["axis"] 1 Vec3.unitY
  let center ← center a 2
  let count ← a.need integer ["count"] 3
  let angle ← a.need number ["angle"] 4
  let pitch ← a.getOr number ["pitch"] 5 0.0
  let growth ← a.getOr number ["radius_growth"] 6 0.0
  return .spiralPattern source axis center count angle pitch growth

def shell (a : Arguments) : Except ScriptError Operation := do
  let source ← a.solid ["source"] 0
  let thickness ← a.need number ["thickness"] 1
  return .shell source thickness (← a.getOr faces ["open_faces"] 2 [])

def mirror (a : Arguments) : Except ScriptError Operation := do
  let source ← a.solid ["source"] 0
  let normal ← a.need vector ["normal", "plane"] 1
  let point ← a.getOr vector ["point"] 2 Vec3.zero
  return .mirror source normal point (← a.getOr ArgumentType.boolean ["keep_original"] 3 false)

def translate (a : Arguments) : Except ScriptError Operation := do
  let source ← a.solid ["source"] 0
  return .translate source (← a.need vector ["offset", "by"] 1)

def rotate (a : Arguments) : Except ScriptError Operation := do
  let source ← a.solid ["source"] 0
  let axis ← a.need vector ["axis"] 1
  let angle ← a.need number ["angle"] 2
  return .rotate source axis angle (← a.optional vector ["center"] 3)

/-- A factor that cannot be read is reported before the source, one that is missing behind it. -/
def scale (a : Arguments) : Except ScriptError Operation := do
  let factor ← a.optional spread ["factor"] 1
  let source ← a.solid ["source"] 0
  let factor ← a.require ["factor"] factor
  return .scale source factor (← a.optional vector ["center"] 2)

def sweep (a : Arguments) : Except ScriptError Operation := do
  let points ← a.need profile ["profile"] 0
  return .sweep points (← a.need path ["path"] 1)

def loft (a : Arguments) : Except ScriptError Operation := do
  let profiles ← a.need sections ["sections"] 0
  return .loft profiles (← a.need numbers ["heights"] 1)

def draft (a : Arguments) : Except ScriptError Operation := do
  let source ← a.solid ["source"] 0
  let angle ← a.need number ["angle"] 1
  let direction ← a.getOr vector ["direction"] 2 Vec3.unitY
  return .draft source angle direction (← a.optional number ["neutral"] 3)

def torus (a : Arguments) : Except ScriptError Operation := do
  let major ← a.need number ["major_radius"] 0
  let minor ← a.need number ["minor_radius"] 1
  let center ← center a 2
  let segments ← a.optional count ["segments"] 3
  return .torus major minor center segments (← a.optional count ["tube_segments"] 4)

def helix (a : Arguments) : Except ScriptError Operation := do
  let radius ← a.need number ["radius"] 0
  let pitch ← a.need number ["pitch"] 1
  let turns ← a.need number ["turns"] 2
  let tubeRadius ← a.getOr number ["tube_radius"] 3 0.1
  let center ← center a 4
  return .helix radius pitch turns tubeRadius center (← a.optional count ["segments"] 5)

end Call

/-- The operation that a call asks for. -/
def Arguments.operation (config : Config) (a : Arguments) : Except ScriptError Operation :=
  match a.statement with
  | "box" | "cube" => Call.box a
  | "cylinder" => Call.cylinder config a
  | "sphere" => Call.sphere config a
  | "cone" => Call.cone config a
  | "extrude" => Call.extrude a
  | "fillet" => Call.fillet a
  | "chamfer" => Call.chamfer a
  | "union" => Call.boolean .union a
  | "subtract" => Call.boolean .subtract a
  | "intersect" => Call.boolean .intersect a
  | "revolve" => Call.revolve a
  | "linear_pattern" => Call.linearPattern a
  | "circular_pattern" => Call.circularPattern a
  | "grid_pattern" => Call.gridPattern a
  | "spiral_pattern" => Call.spiralPattern a
  | "shell" => Call.shell a
  | "mirror" => Call.mirror a
  | "translate" => Call.translate a
  | "rotate" => Call.rotate a
  | "scale" => Call.scale a
  | "sweep" => Call.sweep a
  | "loft" => Call.loft a
  | "draft" => Call.draft a
  | "torus" => Call.torus a
  | "helix" => Call.helix a
  | other => throw (.unknownStatement other)

end SolidScript.Script
