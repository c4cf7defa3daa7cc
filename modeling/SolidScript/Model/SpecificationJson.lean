import SolidScript.Json.Geometry
import SolidScript.Model.Specification

/-!
# Specifications as JSON

One list of entries for each category. An entry is an object of its id, its line and the parameters of
its operation. What is optional may be missing, and what is missing is not written.
-/

namespace SolidScript

open Json

/-! ## Writing -/

def EdgeSelection.toJson : EdgeSelection → Json
  | .index i => obj [("index", int i)]
  | .all => str "all"

namespace Operation

def points2 (points : List (Vec2 Float)) : Json := arr (points.map Vec2.toJson)

def points3 (points : List (Vec3 Float)) : Json := arr (points.map Vec3.toJson)

/-- A field that is written only if there is a value. -/
def given {β : Type} (name : String) (write : β → Json) (b : Option β) : List (String × Json) :=
  (b.map fun b => (name, write b)).toList

/-- The parameters by name. -/
def fields : Operation → List (String × Json)
  | primitive shape => shape.fields
  | extrude source face distance =>
    [("sourceId", str source), ("face", str face.name), ("distance", number distance)]
  | fillet source edges radius segments =>
    [("sourceId", str source), ("edges", edges.toJson), ("radius", number radius)] ++
      given "segments" natural segments
  | chamfer source edges distance =>
    [("sourceId", str source), ("edges", edges.toJson), ("distance", number distance)]
  | boolean kind first second =>
    [("operation", str kind.name), ("sourceAId", str first), ("sourceBId", str second)]
  | revolve profile axis angle center segments =>
    [("profile", points2 profile), ("axis", axis.toJson), ("angle", number angle),
      ("center", center.toJson)] ++
      given "segments" natural segments
  | linearPattern source direction count spacing =>
    [("sourceId", str source), ("direction", direction.toJson), ("count", int count),
      ("spacing", number spacing)]
  | circularPattern source axis center count angle =>
    [("sourceId", str source), ("axis", axis.toJson), ("center", center.toJson), ("count", int count),
      ("angle", number angle)]
  | shell source thickness openFaces =>
    [("sourceId", str source), ("thickness", number thickness),
      ("openFaces", arr (openFaces.map fun f => str f.name))]
  | mirror source normal point keepOriginal =>
    [("sourceId", str source), ("normal", normal.toJson), ("point", point.toJson),
      ("keepOriginal", bool keepOriginal)]
  | scale source factor center =>
    [("sourceId", str source), ("factor", factor.toJson)] ++ given "center" Vec3.toJson center
  | rotate source axis angle center =>
    [("sourceId", str source), ("axis", axis.toJson), ("angle", number angle)] ++
      given "center" Vec3.toJson center
  | translate source offset => [("sourceId", str source), ("offset", offset.toJson)]
  | sweep profile path => [("profile", points2 profile), ("path", points3 path)]
  | loft sections heights =>
    [("sections", arr (sections.map points2)), ("heights", arr (heights.map number))]
  | draft source angle direction neutral =>
    [("sourceId", str source), ("angle", number angle), ("direction", direction.toJson)] ++
      given "neutral" number neutral
  | torus majorRadius minorRadius center segments tubeSegments =>
    [("majorRadius", number majorRadius), ("minorRadius", number minorRadius), ("center", center.toJson)] ++
      given "segments" natural segments ++ given "tubeSegments" natural tubeSegments
  | helix radius pitch turns tubeRadius center segments =>
    [("radius", number radius), ("pitch", number pitch), ("turns", number turns),
      ("tubeRadius", number tubeRadius), ("center", center.toJson)] ++ given "segments" natural segments
  | gridPattern source direction₁ count₁ spacing₁ direction₂ count₂ spacing₂ =>
    [("sourceId", str source), ("direction1", direction₁.toJson), ("count1", int count₁),
      ("spacing1", number spacing₁), ("direction2", direction₂.toJson), ("count2", int count₂),
      ("spacing2", number spacing₂)]
  | spiralPattern source axis center count angle pitch radiusGrowth =>
    [("sourceId", str source), ("axis", axis.toJson), ("center", center.toJson), ("count", int count),
      ("angle", number angle), ("pitch", number pitch), ("radiusGrowth", number radiusGrowth)]

end Operation

def Entry.toJson (e : Entry) : Json :=
  obj ([("id", str e.id), ("line", natural e.line)] ++ e.operation.fields)

/-- Categories without entries are left out. -/
def Specification.toJson (s : Specification) : Json :=
  obj (Category.all.filterMap fun c =>
    match s.inCategory c with
    | [] => none
    | entries => some (c.name, arr (entries.map Entry.toJson)))

/-! ## Reading -/

/-- All edges, or one by its index. -/
def EdgeSelection.ofJson? (j : Json) : Option EdgeSelection :=
  match j with
  | .obj [("index", i)] => (int64? i).map .index
  | j => if tag? j = some "all" then some .all else none

def BooleanKind.ofName? : String → Option BooleanKind
  | "union" => some .union
  | "subtract" => some .subtract
  | "intersect" => some .intersect
  | _ => none

namespace Operation

def readPoints2 : Json → Option (List (Vec2 Float)) := listOf? vec2?

/-- Kinds of primitives in the order by which numbers may stand for them. -/
def shapeKinds : List String := ["box", "cylinder", "sphere", "cone"]

def readShapeKind : Json → Option String
  | str kind => some kind
  | int n => if n < 0 then none else shapeKinds[n.toNat]?
  | _ => none

/-- Reads the parameters of an operation of a category. -/
def ofRecord? (c : Category) (r : Record) : Option Operation := do
  let source := r.need "sourceId" str?
  match c with
  | .primitives =>
    let kind ← r.need "type" readShapeKind
    return primitive (← Primitive.ofRecord? kind r)
  | .extrude => return extrude (← source) (← r.need "face" (oneOf? Face.ofName?)) (← r.need "distance" float?)
  | .fillet =>
    return fillet (← source) (← r.need "edges" EdgeSelection.ofJson?) (← r.need "radius" float?)
      (← r.optional "segments" nat32?)
  | .chamfer =>
    return chamfer (← source) (← r.need "edges" EdgeSelection.ofJson?) (← r.need "distance" float?)
  | .boolean =>
    return boolean (← r.need "operation" (oneOf? BooleanKind.ofName?)) (← r.need "sourceAId" str?)
      (← r.need "sourceBId" str?)
  | .revolve =>
    return revolve (← r.need "profile" readPoints2) (← r.need "axis" vec3?) (← r.need "angle" float?)
      (← r.need "center" vec3?) (← r.optional "segments" nat32?)
  | .linearPattern =>
    return linearPattern (← source) (← r.need "direction" vec3?) (← r.need "count" int64?)
      (← r.need "spacing" float?)
  | .circularPattern =>
    return circularPattern (← source) (← r.need "axis" vec3?) (← r.need "center" vec3?)
      (← r.need "count" int64?) (← r.need "angle" float?)
  | .shell =>
    return shell (← source) (← r.need "thickness" float?)
      (← r.getOr "openFaces" (listOf? (oneOf? Face.ofName?)) [])
  | .mirror =>
    return mirror (← source) (← r.need "normal" vec3?) (← r.need "point" vec3?)
      (← r.getOr "keepOriginal" bool? false)
  | .scale => return scale (← source) (← r.need "factor" vec3?) (← r.optional "center" vec3?)
  | .rotate =>
    return rotate (← source) (← r.need "axis" vec3?) (← r.need "angle" float?) (← r.optional "center" vec3?)
  | .translate => return translate (← source) (← r.need "offset" vec3?)
  | .sweep => return sweep (← r.need "profile" readPoints2) (← r.need "path" (listOf? vec3?))
  | .loft => return loft (← r.need "sections" (listOf? readPoints2)) (← r.need "heights" (listOf? float?))
  | .draft =>
    return draft (← source) (← r.need "angle" float?) (← r.need "direction" vec3?)
      (← r.optional "neutral" float?)
  | .torus =>
    return torus (← r.need "majorRadius" float?) (← r.need "minorRadius" float?) (← r.need "center" vec3?)
      (← r.optional "segments" nat32?) (← r.optional "tubeSegments" nat32?)
  | .helix =>
    return helix (← r.need "radius" float?) (← r.need "pitch" float?) (← r.need "turns" float?)
      (← r.need "tubeRadius" float?) (← r.need "center" vec3?) (← r.optional "segments" nat32?)
  | .gridPattern =>
    return gridPattern (← source) (← r.need "direction1" vec3?) (← r.need "count1" int64?)
      (← r.need "spacing1" float?) (← r.need "direction2" vec3?) (← r.need "count2" int64?)
      (← r.need "spacing2" float?)
  | .spiralPattern =>
    return spiralPattern (← source) (← r.need "axis" vec3?) (← r.need "center" vec3?)
      (← r.need "count" int64?) (← r.need "angle" float?) (← r.need "pitch" float?)
      (← r.getOr "radiusGrowth" float? 0.0)

end Operation

def Entry.ofJson? (c : Category) (j : Json) : Option Entry := do
  let r ← Record.ofObject? j
  return ⟨← r.need "id" str?, ← r.getOr "line" nat64? 0, ← Operation.ofRecord? c r⟩

namespace Specification

/-- Categories in the order in which lists may stand for them. -/
def listed : List Category :=
  [.primitives, .extrude, .fillet, .chamfer, .boolean, .revolve, .linearPattern, .circularPattern, .shell,
    .mirror, .scale, .rotate, .translate, .sweep, .loft, .draft, .torus, .helix, .gridPattern, .spiralPattern]

/-- All categories by name, those without entries with an empty list. -/
def toFullJson (s : Specification) : Json :=
  obj (listed.map fun c => (c.name, arr ((s.inCategory c).map Entry.toJson)))

def ofJson? (j : Json) : Option Specification := do
  let r ← Record.of? (listed.map Category.name) j
  let lists ← listed.mapM fun c => r.getOr c.name (listOf? (Entry.ofJson? c)) []
  return ofEntries lists.flatten

end Specification

end SolidScript
