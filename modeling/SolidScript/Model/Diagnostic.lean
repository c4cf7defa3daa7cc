import SolidScript.Json.Basic
import SolidScript.OperatorError

/-!
# Diagnostics

What is reported on a script besides its geometry. The severity follows from the finding.
-/

namespace SolidScript

inductive Severity where
  | info
  | warning
  | error
deriving DecidableEq, Repr

def Severity.name : Severity → String
  | info => "info"
  | warning => "warning"
  | error => "error"

inductive Finding where
  /-- A statement was dropped. -/
  | parseRejection
  /-- An entry was skipped since a name is unknown, or known only further on. -/
  | missingReference (reference : String) (forward : Bool)
  /-- A parameter was moved to keep the geometry sound. -/
  | clamped (parameter : String) (requested applied : Float)
  /-- A box was made anew, which dropped an earlier treatment of its edges. -/
  | rebuilt (discarded : String)
  /-- There is no such edge, and edge 0 took its place. -/
  | edgeOutOfRange (index : Int)
  | unsupportedTarget
  /-- The operator failed and the solids stay as they were. -/
  | operatorFailure
  /-- Entries that need each other were evaluated as declared. -/
  | dependencyCycle (ids : List String)
deriving DecidableEq

namespace Finding

def severity : Finding → Severity
  | clamped .. | rebuilt .. => .info
  | missingReference .. | edgeOutOfRange .. | dependencyCycle .. => .warning
  | parseRejection | unsupportedTarget | operatorFailure => .error

def fields : Finding → List (String × Json)
  | parseRejection => [("kind", .str "parseRejection")]
  | missingReference reference forward =>
    [("kind", .str "missingReference"), ("reference", .str reference), ("forward", .bool forward)]
  | clamped parameter requested applied =>
    [("kind", .str "degenerateParameterClamp"), ("parameter", .str parameter),
      ("requested", .number requested), ("applied", .number applied)]
  | rebuilt discarded => [("kind", .str "rebuiltFromPrimitive"), ("discarded", .str discarded)]
  | edgeOutOfRange index => [("kind", .str "edgeIndexOutOfRange"), ("index", .int index)]
  | unsupportedTarget => [("kind", .str "unsupportedTarget")]
  | operatorFailure => [("kind", .str "operatorFailure")]
  | dependencyCycle ids => [("kind", .str "dependencyCycle"), ("ids", .arr (ids.map .str))]

end Finding

structure Diagnostic where
  finding : Finding
  entry : Option String
  line : Option Nat
  message : String
deriving DecidableEq

namespace Diagnostic

/-- Line zero is no line. -/
def lineOf (n : Nat) : Option Nat := if n = 0 then none else some n

def severity (d : Diagnostic) : Severity := d.finding.severity

def isError (d : Diagnostic) : Bool := d.severity == .error

/-- Severity, place and message in one line. -/
def text (d : Diagnostic) : String :=
  let line := match d.line with
    | some n => s!" [line {n}]"
    | none => ""
  let entry := match d.entry with
    | some id => " " ++ id
    | none => ""
  d.severity.name ++ line ++ entry ++ ": " ++ d.message

def toJson (d : Diagnostic) : Json :=
  .obj ([("severity", .str d.severity.name)] ++ d.finding.fields ++
    (d.entry.map fun id => ("entry", Json.str id)).toList ++
    (d.line.map fun n => ("line", Json.natural n)).toList ++ [("message", .str d.message)])

end Diagnostic

end SolidScript
