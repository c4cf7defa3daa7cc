import SolidScript.Model.Plan
import SolidScript.Model.Schedule

/-!
# Evaluation

Entries are planned and carried out one after another. Whatever goes wrong is reported, and evaluation
goes on with the next entry.
-/

namespace SolidScript

structure Evaluation where
  graph : ArtifactGraph Float
  diagnostics : List Diagnostic
  /-- How often the boolean backend was asked. -/
  booleans : Nat

namespace Evaluation

def toJson (e : Evaluation) : Json :=
  .obj [("graph", e.graph.toJson), ("diagnostics", .arr (e.diagnostics.map Diagnostic.toJson))]

def hasErrors (e : Evaluation) : Bool := e.diagnostics.any Diagnostic.isError

/-- What is known between two entries. -/
structure Progress where
  graph : ArtifactGraph Float
  diagnostics : Array Diagnostic
  /-- Solids whose making has been tried. -/
  attempted : List String
  /-- Boxes that carry a treatment of their edges, and which. -/
  treated : List (String × String)
  booleans : Nat

/-! ## Order -/

def cycleReport (ids : List String) : Diagnostic :=
  ⟨.dependencyCycle ids, none, none, "entries reference each other: " ++ ", ".intercalate ids⟩

/-- The entries in the order of evaluation. Those on a cycle come last, as declared. -/
def ordered (order : EvaluationOrder) (spec : Specification) : List Entry × List Diagnostic :=
  match order with
  | .category => (spec.byCategory, [])
  | .dependency =>
    let entries := spec.byLine
    let schedule := Schedule.ofPrecedence (Precedence.ofEntries entries)
    let pick (places : List Nat) : List Entry := places.filterMap (entries[·]?)
    let cyclic := pick schedule.cyclic
    (pick schedule.order ++ cyclic, if cyclic.isEmpty then [] else [cycleReport (cyclic.map Entry.id)])

/-! ## Reports -/

/-- The box that an entry makes anew, and the treatment of edges that it leaves on it. -/
def rebuiltBox : Operation → Option (String × Option String)
  | .fillet source .. => some (source, some "fillet")
  | .chamfer source .. => some (source, some "chamfer")
  | .extrude source .. | .shell source .. => some (source, none)
  | _ => none

def noteMessage (target : String) : Finding → String
  | .edgeOutOfRange index => s!"edge index {index} is outside 0..=11, using edge 0"
  | .clamped parameter requested applied =>
    parameter ++ " " ++ Decimal.shortestText requested ++ " clamped to " ++ Decimal.shortestText applied
  | .rebuilt discarded => "`" ++ target ++ "` rebuilt from its box, dropping the earlier " ++ discarded
  | _ => ""

def report (e : Entry) (finding : Finding) (message : String) : Diagnostic :=
  ⟨finding, some e.id, Diagnostic.lineOf e.line, message⟩

/-- A name may come too early, or have lost its geometry, or be unknown. -/
def missingReport (spec : Specification) (p : Progress) (e : Entry) (reference : String) : Diagnostic :=
  let known := p.graph.contains reference
  let forward := !known && !p.attempted.contains reference && (spec.producerCategory? reference).isSome
  report e (.missingReference reference forward)
    (if forward then "`" ++ reference ++ "` is referenced before the entry producing it runs"
    else if known then "`" ++ reference ++ "` has no geometry"
    else "unknown id `" ++ reference ++ "`")

def failureReport (e : Entry) (error : OperatorError Float) : Diagnostic :=
  match error with
  | .unsupportedTarget .. => report e .unsupportedTarget error.message
  | _ => report e .operatorFailure error.message

/-! ## Entries -/

/-- The treatments after a box has been made anew. -/
def retreat (treated : List (String × String)) (target : String) (treatment : Option String) :
    List (String × String) :=
  let others := treated.filter fun t => t.1 != target
  match treatment with
  | some t => (target, t) :: others
  | none => others

/-- The findings of a plan, and the treatments known after it. -/
def notesOf (p : Progress) (e : Entry) (plan : Plan) : List Finding × List (String × String) :=
  match rebuiltBox e.operation with
  | some (target, treatment) =>
    (plan.notes ++ ((p.treated.lookup target).map .rebuilt).toList, retreat p.treated target treatment)
  | none => (plan.notes, p.treated)

def carryOut (p : Progress) (e : Entry) (plan : Plan) : Progress :=
  let (notes, treated) := notesOf p e plan
  let target := ((rebuiltBox e.operation).map Prod.fst).getD e.id
  { p with
    graph := plan.change.carryOut p.graph
    diagnostics := p.diagnostics ++ (notes.map fun n => report e n (noteMessage target n)).toArray
    treated := treated }

def isBoolean : Operation → Bool
  | .boolean .. => true
  | _ => false

/-- Evaluates one entry. A boolean of solids that exist asks the backend. -/
def step (config : Config) (backend : BooleanBackend Float) (spec : Specification) (p : Progress)
    (e : Entry) : Progress :=
  let asked := p.booleans + if isBoolean e.operation then 1 else 0
  let q := match Plan.ofEntry config backend p.graph e with
    | .ok plan => { carryOut p e plan with booleans := asked }
    | .error (.failed error) =>
      { p with diagnostics := p.diagnostics.push (failureReport e error), booleans := asked }
    | .error (.missing reference) =>
      { p with diagnostics := p.diagnostics.push (missingReport spec p e reference) }
  if e.isGenerative then { q with attempted := e.id :: q.attempted } else q

end Evaluation

/-- Evaluates all entries of a specification. -/
def Specification.evaluate (spec : Specification) (config : Config) (backend : BooleanBackend Float) :
    Evaluation :=
  let (entries, cycles) := Evaluation.ordered config.order spec
  let start : Evaluation.Progress := ⟨ArtifactGraph.empty, cycles.toArray, [], [], 0⟩
  let p := entries.foldl (Evaluation.step config backend spec) start
  ⟨p.graph, p.diagnostics.toList, p.booleans⟩

end SolidScript
