import SolidScript.Json.Record
import SolidScript.Mesh.Basic
import SolidScript.Shape.Primitive
import SolidScript.Space.Vec2

/-!
# Geometry as JSON

Vectors and points are lists of numbers. A mesh is three lists, and a primitive names its kind in
`type`.
-/

namespace SolidScript

open Json

def Vec3.toJson (v : Vec3 Float) : Json := arr (v.toList.map number)

def Vec2.toJson (v : Vec2 Float) : Json := arr [number v.x, number v.y]

def Json.vec3? (j : Json) : Option (Vec3 Float) :=
  match listOf? float? j with
  | some [x, y, z] => some ⟨x, y, z⟩
  | _ => none

def Json.vec2? (j : Json) : Option (Vec2 Float) :=
  match listOf? float? j with
  | some [x, y] => some ⟨x, y⟩
  | _ => none

/-! ## Meshes -/

namespace Mesh

def vectorsJson (items : Array (Vec3 Float)) : Json := arr (items.toList.map Vec3.toJson)

/-- Without normals the field is left out. -/
def toJson (m : Mesh Float) : Json :=
  obj ([("vertices", vectorsJson m.vertices), ("indices", arr (m.indices.map natural))] ++
    match m.normals with
    | some ns => [("normals", vectorsJson ns)]
    | none => [])

/-- Refuses buffers that do not make a mesh. -/
def ofJson? (j : Json) : Option (Mesh Float) := do
  let r ← Record.of? ["vertices", "indices", "normals"] j
  let vertices ← r.need "vertices" (listOf? vec3?)
  let indices ← r.need "indices" (listOf? nat32?)
  let normals ← r.optional "normals" (listOf? vec3?)
  (ofBuffers vertices.toArray indices (normals.map List.toArray)).toOption

end Mesh

/-! ## Primitives -/

namespace Primitive

/-- The parameters by name, behind the kind. -/
def fields : Primitive Float → List (String × Json)
  | box size center => [("type", str "box"), ("size", size.toJson), ("center", center.toJson)]
  | cylinder radius height center segments =>
    [("type", str "cylinder"), ("radius", number radius), ("height", number height),
      ("center", center.toJson), ("segments", natural segments)]
  | sphere radius center segments rings =>
    [("type", str "sphere"), ("radius", number radius), ("center", center.toJson),
      ("segments", natural segments), ("rings", natural rings)]
  | cone radius radiusTop height center segments =>
    [("type", str "cone"), ("radius", number radius), ("radiusTop", number radiusTop),
      ("height", number height), ("center", center.toJson), ("segments", natural segments)]

def toJson (p : Primitive Float) : Json := obj p.fields

/-- Names of the parameters of a kind, in their order. -/
def parameterNames : String → List String
  | "box" => ["size", "center"]
  | "cylinder" => ["radius", "height", "center", "segments"]
  | "sphere" => ["radius", "center", "segments", "rings"]
  | "cone" => ["radius", "radiusTop", "height", "center", "segments"]
  | _ => []

/-- Reads the parameters of a kind. A cone without an upper radius ends in a point. -/
def ofRecord? (kind : String) (r : Record) : Option (Primitive Float) :=
  match kind with
  | "box" => do
    let size ← r.need "size" vec3?
    return box size (← r.need "center" vec3?)
  | "cylinder" => do
    let radius ← r.need "radius" float?
    let height ← r.need "height" float?
    let center ← r.need "center" vec3?
    return cylinder radius height center (← r.need "segments" nat32?)
  | "sphere" => do
    let radius ← r.need "radius" float?
    let center ← r.need "center" vec3?
    let segments ← r.need "segments" nat32?
    return sphere radius center segments (← r.need "rings" nat32?)
  | "cone" => do
    let radius ← r.need "radius" float?
    let radiusTop ← r.getOr "radiusTop" float? 0.0
    let height ← r.need "height" float?
    let center ← r.need "center" vec3?
    return cone radius radiusTop height center (← r.need "segments" nat32?)
  | _ => none

/-- An object, or a list of the kind and the parameters in order. -/
def ofJson? (j : Json) : Option (Primitive Float) :=
  match j with
  | obj fields => do
    let kind ← fields.lookup "type" >>= str?
    ofRecord? kind ⟨true, fields⟩
  | arr (first :: rest) => do
    let kind ← first.str?
    let r ← Record.of? (parameterNames kind) (arr rest)
    ofRecord? kind r
  | _ => none

end Primitive

end SolidScript
