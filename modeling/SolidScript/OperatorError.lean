import SolidScript.Mesh.Basic
import SolidScript.Number.Decimal

/-!
# Failures of geometric operators
-/

namespace SolidScript

/-- A precondition that no input check covers. -/
inductive Fault (α : Type) where
  /-- A value was to be moved into limits that are no interval. -/
  | limits (low high : α)
  | missingVertex (index count : Nat)
  /-- No point of a profile has a first coordinate to start from. -/
  | noLeftmost
  /-- A list has more bytes than there are addresses for. -/
  | noRoom
  /-- A count does not fit into 64 bits. -/
  | countOverflow
deriving DecidableEq, Repr

inductive OperatorError (α : Type) where
  | zeroAxis
  | zeroDirection
  | profileTooShort (required provided : Nat)
  | pathTooShort (provided : Nat)
  | tooFewSections (provided : Nat)
  | sectionMismatch (expected found : Nat)
  | heightCountMismatch (sections heights : Nat)
  | triangulation (reason : String)
  | zeroAngle
  | zeroScale
  | nonFinite (parameter : String)
  | unsupportedTarget (operation target : String)
  | boolean (reason : String)
  | mesh (error : MeshError)
  | fault (broken : Fault α)
deriving DecidableEq, Repr

namespace Fault

variable {α : Type} [Scalar α]

/-- Moves a value into limits. -/
def clamp (low high a : α) : Except (OperatorError α) α :=
  match Scalar.clamp? low high a with
  | some b => pure b
  | none => throw (.fault (.limits low high))

/-- An item by its place, which has to exist. -/
def item {β : Type} (items : Array β) (i : Nat) : Except (OperatorError α) β :=
  match items[i]? with
  | some b => pure b
  | none => throw (.fault (.missingVertex i items.size))

/-- Very large and very small limits are written with an exponent. -/
def limitText (x : Float) : String := Decimal.floatText (-4) 16 x

def message : Fault Float → String
  | limits low high =>
    "min > max, or either was NaN. min = " ++ limitText low ++ ", max = " ++ limitText high
  | missingVertex index count => s!"index out of bounds: the len is {count} but the index is {index}"
  | noLeftmost => "called `Option::unwrap()` on a `None` value"
  | noRoom => "capacity overflow"
  | countOverflow => "attempt to multiply with overflow"

end Fault

def OperatorError.message : OperatorError Float → String
  | zeroAxis => "axis vector has zero length"
  | zeroDirection => "direction vector has zero length"
  | profileTooShort required provided => s!"profile needs at least {required} points, got {provided}"
  | pathTooShort provided => s!"path needs at least 2 distinct points, got {provided}"
  | tooFewSections provided => s!"loft needs at least 2 sections, got {provided}"
  | sectionMismatch expected found =>
    s!"loft sections have mismatched point counts ({expected} vs {found})"
  | heightCountMismatch sections heights =>
    s!"loft needs one height per section ({sections} sections, {heights} heights)"
  | triangulation reason => "polygon triangulation failed: " ++ reason
  | zeroAngle => "revolution angle is zero"
  | zeroScale => "scale factor has a zero component"
  | nonFinite parameter => "non-finite parameter `" ++ parameter ++ "`"
  | unsupportedTarget operation target => operation ++ " cannot target " ++ target
  | boolean reason => "boolean evaluation failed: " ++ reason
  | mesh error => error.message
  | fault broken => broken.message

/-! ## Room

What is to be built is counted first. Counts have 64 bits, and the bytes of one list are counted with a sign. Lists
within these limits are made, whatever they take.
-/

namespace Room

/-- Bytes of one list, in whole words of eight. -/
def maxBytes : Nat := twoTo 63 - 8

/-- Bytes of a position: three floats. -/
def positionBytes : Nat := 24

/-- Bytes of a mesh besides the items of its three lists. -/
def meshBytes : Nat := 72

variable {α : Type}

/-- Refuses a list of too many items. -/
def requireList (itemBytes count : Nat) : Except (OperatorError α) Unit :=
  if count * itemBytes ≤ maxBytes then pure () else throw (.fault .noRoom)

/-- Refuses a mesh whose triangles cannot be counted, or whose vertices have no room. -/
def requireMesh (vertices triangles : Nat) : Except (OperatorError α) Unit :=
  if fitsUnsigned 64 triangles then requireList positionBytes vertices else throw (.fault .countOverflow)

end Room

end SolidScript
