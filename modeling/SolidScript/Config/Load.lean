import SolidScript.Config.Basic
import SolidScript.Text.Reader
import SolidScript.Toml.Document

/-!
# Loading a configuration

A file gives values for some keys, and environment variables override them.
-/

namespace SolidScript

inductive ConfigError where
  | unreadable (path reason : String)
  | malformed (path : String)
  | invalidValue (key value : String)
deriving DecidableEq, Repr

def ConfigError.message : ConfigError → String
  | unreadable path reason => "failed to read config file " ++ path ++ ": " ++ reason
  | malformed path => "failed to parse config file " ++ path
  | invalidValue key value => "invalid value `" ++ value ++ "` for " ++ key

namespace Config

/-! ## Files -/

/-- The name of an order, or a table that holds nothing but something bare under that name. -/
def tomlOrder : TomlItem → Option EvaluationOrder
  | .value (.str s) => EvaluationOrder.ofName? s
  | .value (.table [([name], t)]) => if t.isBare then EvaluationOrder.ofName? name else none
  | .table _ [(name, item)] => if item.isBare then EvaluationOrder.ofName? name else none
  | _ => none

/-- A whole number of 32 bits. -/
def tomlCount : TomlItem → Option Nat
  | .value (.integer n) => if fitsUnsigned 32 n then some n.toNat else none
  | _ => none

def tomlText : TomlItem → Option String
  | .value (.str s) => some s
  | _ => none

/-- A key that is missing keeps its value. One of another type is refused. -/
def field {β : Type} (d : TomlDocument) (key : String) (read : TomlItem → Option β) (absent : β) :
    Option β :=
  match d.get? key with
  | some t => read t
  | none => some absent

/-- Keys without a meaning are passed over. -/
def ofToml? (d : TomlDocument) : Option Config := do
  let standard : Config := {}
  return { order := ← field d "order" tomlOrder standard.order
           segments := ← field d "default_segments" tomlCount standard.segments
           sphereRings := ← field d "sphere_rings" tomlCount standard.sphereRings
           filletSegments := ← field d "fillet_segments" tomlCount standard.filletSegments
           logFilter := ← field d "log_filter" tomlText standard.logFilter }

def ofText (path text : String) : Except ConfigError Config :=
  match TomlDocument.read? text >>= ofToml? with
  | some c => pure c
  | none => throw (.malformed path)

/-! ## Environment variables -/

/-- The name of an order in any case, with blanks around it. -/
def parseOrder? (text : String) : Option EvaluationOrder :=
  match String.ofList ((trim text.toList).map Char.toLower) with
  | "category" => some .category
  | "dependency" | "topological" => some .dependency
  | _ => none

def minSegments : Nat := 3

/-- Digits with blanks around them, perhaps behind a plus sign. -/
def parseSegments? (text : String) : Option Nat :=
  let digits := match trim text.toList with
    | '+' :: rest => rest
    | rest => rest
  let n := Decimal.natOfDigits digits
  if !digits.isEmpty && digits.all Char.isDigit && minSegments ≤ n && fitsUnsigned 32 n then some n else none

def overrideOrder (c : Config) : Option String → Except ConfigError Config
  | none => pure c
  | some text =>
    match parseOrder? text with
    | some order => pure { c with order := order }
    | none => throw (.invalidValue "order" text)

def overrideSegments (c : Config) : Option String → Except ConfigError Config
  | none => pure c
  | some text =>
    match parseSegments? text with
    | some n => pure { c with segments := n }
    | none => throw (.invalidValue "default_segments" text)

def overrideFilter (c : Config) : Option String → Config
  | none => c
  | some filter => { c with logFilter := filter }

/-- The names of the variables that are looked at. -/
def variableNames : List String := ["KCL_EVAL_ORDER", "KCL_SEGMENTS", "KCL_LOG"]

/-- One variable after another. The first bad one is reported, and those before it stay applied. -/
def applyOverrides (c : Config) (lookUp : String → Option String) : Config × Option ConfigError :=
  match c.overrideOrder (lookUp "KCL_EVAL_ORDER") with
  | .error e => (c, some e)
  | .ok c =>
    match c.overrideSegments (lookUp "KCL_SEGMENTS") with
    | .error e => (c, some e)
    | .ok c => (c.overrideFilter (lookUp "KCL_LOG"), none)

end Config

end SolidScript
