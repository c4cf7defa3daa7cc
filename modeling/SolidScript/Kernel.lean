import SolidScript.Model.Evaluation
import SolidScript.Script.Parse

/-!
# Running scripts

A kernel holds what does not change between scripts. A run gives a summary of what a script makes.
-/

namespace SolidScript

structure Kernel where
  config : Config
  backend : BooleanBackend Float

structure Preview where
  artifacts : List String
  /-- Missing when nothing can be seen. -/
  bounds : Option (Bounds Float)

structure RunResult where
  errors : List String
  /-- Missing when a run ended before evaluation. -/
  preview : Option Preview

namespace RunResult

def failure (message : String) : RunResult := ⟨[message], none⟩

def ok (r : RunResult) : Bool := r.errors.isEmpty

def ofEvaluation (e : Evaluation) : RunResult :=
  let b := e.graph.bounds
  { errors := (e.diagnostics.filter Diagnostic.isError).map Diagnostic.text
    preview := some ⟨e.graph.visible, if b.isEmpty then none else some b⟩ }

def boundsJson (b : Bounds Float) : Json := .arr (b.toList.map Json.number)

def toJson (r : RunResult) : Json :=
  .obj [("ok", .bool r.ok), ("errors", .arr (r.errors.map .str)),
    ("preview", Json.ofOption (r.preview.map fun p =>
      .obj [("artifacts", .arr (p.artifacts.map .str)), ("bbox", Json.ofOption (p.bounds.map boundsJson))]))]

end RunResult

namespace Kernel

/-- A kernel with the built-in booleans. -/
def standard (config : Config) : Kernel := ⟨config, Solid.combine⟩

/-- What the script itself is reported for comes before what its evaluation is. -/
def evaluateScript [Script.SyntaxReport] (k : Kernel) (script : String) : Evaluation :=
  let (spec, rejected) := Script.parse k.config script
  let e := spec.evaluate k.config k.backend
  { e with diagnostics := rejected ++ e.diagnostics }

def run [Script.SyntaxReport] (k : Kernel) (script : String) : RunResult := RunResult.ofEvaluation (k.evaluateScript script)

end Kernel

end SolidScript
