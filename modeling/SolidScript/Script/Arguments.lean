import SolidScript.Script.Value

/-!
# Arguments of calls

An argument is found by one of its names or else by its place. Names match without regard to case and
underscores.
-/

namespace SolidScript.Script

/-- A type of argument: what is said to be expected, and how it is read. -/
structure ArgumentType (β : Type) where
  expected : String
  read : Value → Option β

namespace ArgumentType

def number : ArgumentType Float := ⟨"a number", Value.number?⟩

def integer : ArgumentType Int := ⟨"an integer", Value.integer?⟩

def count : ArgumentType Nat := ⟨"a non-negative integer", Value.count?⟩

def boolean : ArgumentType Bool := ⟨"true or false", Value.boolean?⟩

def vector : ArgumentType (Vec3 Float) := ⟨"a list of 3 numbers", Value.vec3?⟩

def spread : ArgumentType (Vec3 Float) := ⟨"a number or a list of 3 numbers", Value.spread?⟩

def profile : ArgumentType (List (Vec2 Float)) := ⟨"a list of [x, y] points", Value.list? Value.vec2?⟩

def path : ArgumentType (List (Vec3 Float)) := ⟨"a list of [x, y, z] points", Value.list? Value.vec3?⟩

def sections : ArgumentType (List (List (Vec2 Float))) :=
  ⟨"a list of profiles", Value.list? (Value.list? Value.vec2?)⟩

def numbers : ArgumentType (List Float) := ⟨"a list of numbers", Value.list? Value.number?⟩

def reference : ArgumentType Reference := ⟨"a reference", Value.reference?⟩

def faces : ArgumentType (List Face) := ⟨"a list of face names", Value.list? Value.face?⟩

end ArgumentType

/-- The arguments of a call. Of two with one name the first in the list counts. -/
structure Arguments where
  statement : String
  named : List (String × Value)
  positional : List Value

namespace Arguments

/-- A name without underscores and in lower case. Names are ASCII. -/
def plainName (name : String) : String := String.ofList ((name.toList.filter (· != '_')).map Char.toLower)

/-- Of two arguments with one name the later one counts. -/
def add (a : Arguments) (argument : Argument) : Except ScriptError Arguments := do
  let v ← valueOf argument.term
  match argument.name with
  | some n => return { a with named := (plainName n, v) :: a.named }
  | none => return { a with positional := a.positional ++ [v] }

def ofStatement (s : Statement) : Except ScriptError Arguments := s.arguments.foldlM add ⟨s.callee, [], []⟩

def get? (a : Arguments) (names : List String) (place : Nat) : Option Value :=
  (names.findSome? fun n => a.named.lookup (plainName n)) <|> a.positional[place]?

variable {β : Type}

/-- An argument that may be missing. Errors name it by its first name. -/
def optional (a : Arguments) (type : ArgumentType β) (names : List String) (place : Nat) :
    Except ScriptError (Option β) :=
  match a.get? names place with
  | none => pure none
  | some v =>
    match type.read v with
    | some b => pure (some b)
    | none => throw (.invalidArgument (names.headD "") type.expected)

def getOr (a : Arguments) (type : ArgumentType β) (names : List String) (place : Nat) (absent : β) :
    Except ScriptError β := do
  return (← a.optional type names place).getD absent

def require (a : Arguments) (names : List String) : Option β → Except ScriptError β
  | some b => pure b
  | none => throw (.missingArgument a.statement (names.headD ""))

def need (a : Arguments) (type : ArgumentType β) (names : List String) (place : Nat) :
    Except ScriptError β := do
  a.require names (← a.optional type names place)

/-- Name of a whole solid. -/
def solid (a : Arguments) (names : List String) (place : Nat) : Except ScriptError String := do
  let r ← a.need .reference names place
  match r.part with
  | .whole => return r.name
  | _ => throw (.invalidArgument (names.headD "") "a plain reference")

end Arguments

end SolidScript.Script
