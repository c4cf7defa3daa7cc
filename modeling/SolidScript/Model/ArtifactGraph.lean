import SolidScript.Json.Geometry
import SolidScript.NameMap

/-!
# Artifact graphs

Named solids, and the names of those that are shown. A solid that is hidden can still be named.
-/

namespace SolidScript

structure Artifact (α : Type) where
  id : String
  geometry : Option (Mesh α)
  /-- The primitive that the solid is, as long as it is one. -/
  origin : Option (Primitive α)

structure ArtifactGraph (α : Type) where
  /-- In the order in which they were first shown. -/
  visible : List String
  nodes : NameMap (Artifact α)

inductive GraphError where
  /-- The payload is of another type. -/
  | notObject (typeName : String)
  | malformed
  /-- A name is listed as visible and means nothing. -/
  | unknownArtifact (id : String)
deriving DecidableEq, Repr

def GraphError.message : GraphError → String
  | notObject typeName => "graph payload must be a JSON object, got " ++ typeName
  | malformed => "malformed graph payload"
  | unknownArtifact id => "artifact `" ++ id ++ "` is listed as visible but has no node"

namespace ArtifactGraph

variable {α : Type}

def empty : ArtifactGraph α := ⟨[], NameMap.empty⟩

def get? (g : ArtifactGraph α) (id : String) : Option (Artifact α) := g.nodes.get? id

def contains (g : ArtifactGraph α) (id : String) : Bool := g.nodes.contains id

def isVisible (g : ArtifactGraph α) (id : String) : Bool := g.visible.contains id

def mesh? (g : ArtifactGraph α) (id : String) : Option (Mesh α) := g.get? id >>= Artifact.geometry

/-- Adds a solid, or puts it in place of another one, and shows it. -/
def insertVisible (g : ArtifactGraph α) (a : Artifact α) : ArtifactGraph α :=
  { visible := if g.visible.contains a.id then g.visible else g.visible ++ [a.id]
    nodes := g.nodes.insert a.id a }

def hide (g : ArtifactGraph α) (id : String) : ArtifactGraph α :=
  { g with visible := g.visible.filter (· != id) }

/-- Changes a solid if it is there. -/
def modify (g : ArtifactGraph α) (id : String) (f : Artifact α → Artifact α) : ArtifactGraph α :=
  match g.get? id with
  | some a => { g with nodes := g.nodes.insert id (f a) }
  | none => g

def visibleArtifacts (g : ArtifactGraph α) : List (Artifact α) := g.visible.filterMap g.get?

/-- Around all geometry that is shown. -/
def bounds [Scalar α] (g : ArtifactGraph α) : Bounds α :=
  ((g.visibleArtifacts.filterMap Artifact.geometry).filter fun m => !m.isEmpty).foldl
    (fun b m => b.union m.bounds) Bounds.empty

end ArtifactGraph

/-! ## JSON -/

open Json

def Artifact.toJson (a : Artifact Float) : Json :=
  obj ([("id", str a.id), ("type", str "solid"), ("geometry", Json.ofOption (a.geometry.map Mesh.toJson))] ++
    match a.origin with
    | some p => [("spec", p.toJson)]
    | none => [])

/-- Every artifact is a solid. The name of its type may be the only field of an object, with `null`. -/
def Artifact.solidType? : Json → Option Unit
  | str "solid" | obj [("solid", null)] => some ()
  | _ => none

def Artifact.ofJson? (j : Json) : Option (Artifact Float) := do
  let r ← Record.of? ["id", "type", "geometry", "spec"] j
  let id ← r.need "id" str?
  let _ ← r.getOr "type" Artifact.solidType? ()
  -- Without its name, geometry is missing only at the end of what is written.
  if !r.named && (r.get? "geometry").isNone then none
  let geometry ← r.optional "geometry" Mesh.ofJson?
  return ⟨id, geometry, ← r.optional "spec" Primitive.ofJson?⟩

namespace ArtifactGraph

def toJson (g : ArtifactGraph Float) : Json :=
  obj [("artifacts", arr (g.visible.map str)),
    ("nodes", obj (g.nodes.entries.map fun (id, a) => (id, a.toJson)))]

/-- Reads visible names and nodes. -/
def ofFields? (j : Json) : Option (ArtifactGraph Float) := do
  let r ← Record.ofObject? j
  let visible ← r.need "artifacts" (listOf? str?)
  let fields ← r.need "nodes" obj?
  let nodes ← fields.mapM fun (id, node) => (Artifact.ofJson? node).map fun a => (id, a)
  return ⟨visible, NameMap.ofList nodes⟩

/-- A graph is an object, and every visible name has a node. -/
def ofJson (j : Json) : Except GraphError (ArtifactGraph Float) :=
  match j with
  | .obj _ =>
    match ofFields? j with
    | none => throw .malformed
    | some g =>
      match g.visible.find? fun id => !g.contains id with
      | some id => throw (.unknownArtifact id)
      | none => pure g
  | _ => throw (.notObject j.typeName)

end ArtifactGraph

end SolidScript
