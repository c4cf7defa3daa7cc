import SolidScript.Number.Decimal

/-!
# JSON values

Whole numbers are kept apart from floats, so that a reader can ask for one or the other.
-/

namespace SolidScript

inductive Json where
  | null
  | bool (value : Bool)
  | int (value : Int)
  | float (value : Float)
  | str (text : String)
  | arr (items : List Json)
  | obj (fields : List (String × Json))
deriving Inhabited

namespace Json

def natural (n : Nat) : Json := int n

/-- A number, if it is finite. Any other float is `null`. -/
def number (x : Float) : Json := if x.isFinite then float x else null

/-- `null` stands for nothing. -/
def ofOption : Option Json → Json
  | some j => j
  | none => null

/-- What a value is, in a word. -/
def typeName : Json → String
  | null => "null"
  | bool _ => "boolean"
  | int _ | float _ => "number"
  | str _ => "string"
  | arr _ => "array"
  | obj _ => "object"

/-! ## Looking into values -/

def bool? : Json → Option Bool
  | bool b => some b
  | _ => none

def str? : Json → Option String
  | str s => some s
  | _ => none

def arr? : Json → Option (List Json)
  | arr items => some items
  | _ => none

def obj? : Json → Option (List (String × Json))
  | obj fields => some fields
  | _ => none

/-- Any number, as a float. -/
def float? : Json → Option Float
  | int n => some (Float.ofInt n)
  | float x => some x
  | _ => none

/-- A whole number without a sign that has so many bits. -/
def natural? (bits : Nat) : Json → Option Nat
  | int n => if fitsUnsigned bits n then some n.toNat else none
  | _ => none

/-- A field of an object. -/
def field? (j : Json) (name : String) : Option Json :=
  match j with
  | obj fields => fields.lookup name
  | _ => none

end Json

end SolidScript
