import SolidScript.Space.Axis

/-!
# Faces of boxes

A box has a face on either side of each axis. Up is the direction of the second axis.
-/

namespace SolidScript

open Scalar

inductive Face where
  | top
  | bottom
  | left
  | right
  | front
  | back
deriving DecidableEq, Repr

namespace Face

/-- Axis by axis, the positive side first. -/
def all : List Face := [right, left, top, bottom, front, back]

def axis : Face → Axis
  | left | right => .x
  | top | bottom => .y
  | front | back => .z

/-- Whether the face looks along its axis. -/
def isPositive : Face → Bool
  | right | top | front => true
  | left | bottom | back => false

def name : Face → String
  | top => "top"
  | bottom => "bottom"
  | left => "left"
  | right => "right"
  | front => "front"
  | back => "back"

def ofName? (name : String) : Option Face := all.find? fun f => f.name == name

def lowerAscii (name : String) : String := name.map Char.toLower

/-- Reads a name in any case, or a signed axis. -/
def parse? (text : String) : Option Face :=
  match lowerAscii text with
  | "top" | "up" | "+y" => some top
  | "bottom" | "down" | "-y" => some bottom
  | "left" | "-x" => some left
  | "right" | "+x" => some right
  | "front" | "+z" => some front
  | "back" | "-z" => some back
  | _ => none

/-- What is said of a text that names no face. -/
def unknownMessage (text : String) : String := "unknown face `" ++ lowerAscii text ++ "`"

variable {α : Type} [Scalar α]

def sign (f : Face) : α := if f.isPositive then 1 else -1

/-- Unit vector that points out of the box. -/
def normal (f : Face) : Vec3 α := Vec3.along f.axis f.sign

end Face

end SolidScript
