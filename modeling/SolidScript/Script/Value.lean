import SolidScript.Number.Decimal
import SolidScript.Script.Statement
import SolidScript.Shape.Face
import SolidScript.Space.Vec2

/-!
# Values of arguments
-/

namespace SolidScript.Script

inductive ScriptError where
  /-- The line is no statement. -/
  | malformed (report : String)
  | edgeIndex (literal : String)
  | unknownStatement (name : String)
  | missingArgument (statement argument : String)
  | invalidArgument (argument expected : String)
  | nonFinite (literal : String)
deriving DecidableEq, Repr

/-- What the library that reads scripts has to say of a text that is no statement, from a colon on. -/
class SyntaxReport where
  ofText : List Char → String

/-- Nothing is said. -/
instance : SyntaxReport := ⟨fun _ => ""⟩

def ScriptError.message : ScriptError → String
  | malformed report => "syntax error" ++ report
  | edgeIndex literal => "syntax error: bad edge index `" ++ literal ++ "`"
  | unknownStatement name => "unknown statement `" ++ name ++ "`"
  | missingArgument statement argument => "`" ++ statement ++ "` is missing argument `" ++ argument ++ "`"
  | invalidArgument argument expected => "argument `" ++ argument ++ "` must be " ++ expected
  | nonFinite literal => "non-finite number literal `" ++ literal ++ "`"

/-- The part of a solid that a reference means. -/
inductive Part where
  | whole
  | face (name : String)
  | edge (index : Int)
  | allEdges
deriving DecidableEq, Repr

structure Reference where
  name : String
  part : Part
deriving DecidableEq, Repr

inductive Value where
  | number (x : Float)
  | boolean (b : Bool)
  | text (s : String)
  | list (items : List Value)
  | reference (r : Reference)

/-! ## From terms -/

/-- The float nearest to a literal. One too large for floats is no number. -/
def numberOf (literal : String) : Except ScriptError Float :=
  match Decimal.read? literal.toList with
  | none => throw (.malformed (": bad number `" ++ literal ++ "`"))
  | some l => if l.toFloat.isFinite then pure l.toFloat else throw (.nonFinite literal)

/-- An edge index within the signed 64-bit range. -/
def edgeIndexOf (literal : String) : Except ScriptError Int :=
  let (negative, digits) := Decimal.takeSign literal.toList
  let i := Decimal.signedNat negative (Decimal.natOfDigits digits)
  if fitsSigned 64 i then pure i else throw (.edgeIndex literal)

def partOf : Selector → Except ScriptError Part
  | .whole => pure .whole
  | .face name => pure (.face name)
  | .edge literal => do return .edge (← edgeIndexOf literal)
  | .allEdges => pure .allEdges

mutual

def valueOf : Term → Except ScriptError Value
  | .number literal => do return .number (← numberOf literal)
  | .boolean b => pure (.boolean b)
  | .text s => pure (.text s)
  | .list items => do return .list (← valuesOf items)
  | .reference name selector => do return .reference ⟨name, ← partOf selector⟩

/-- From the first on, so that of two bad values the first is reported. -/
def valuesOf : List Term → Except ScriptError (List Value)
  | [] => pure []
  | t :: rest => do
    let v ← valueOf t
    return v :: (← valuesOf rest)

end

/-! ## Looking into values -/

namespace Value

def number? : Value → Option Float
  | number x => some x
  | _ => none

/-- A whole number of 64 bits with its sign, but not the least of them. -/
def integer? (v : Value) : Option Int := do
  let n ← v.number? >>= Binary64.toInt?
  if n.natAbs < twoTo 63 then some n else none

/-- A whole number of 32 bits. -/
def count? (v : Value) : Option Nat := do
  let n ← v.number? >>= Binary64.toInt?
  if fitsUnsigned 32 n then some n.toNat else none

def boolean? : Value → Option Bool
  | boolean b => some b
  | _ => none

def list? {β : Type} (read : Value → Option β) : Value → Option (List β)
  | list items => items.mapM read
  | _ => none

def vec2? (v : Value) : Option (Vec2 Float) :=
  match v.list? number? with
  | some [x, y] => some ⟨x, y⟩
  | _ => none

def vec3? (v : Value) : Option (Vec3 Float) :=
  match v.list? number? with
  | some [x, y, z] => some ⟨x, y, z⟩
  | _ => none

/-- A single number stands for all three components. -/
def spread? : Value → Option (Vec3 Float)
  | number x => some (Vec3.splat x)
  | v => v.vec3?

/-- A name, which may be put into quotes. -/
def reference? : Value → Option Reference
  | reference r => some r
  | text s => some ⟨s, .whole⟩
  | _ => none

def face? (v : Value) : Option Face :=
  match v.reference? with
  | some ⟨name, .whole⟩ => Face.parse? name
  | _ => none

end Value

end SolidScript.Script
