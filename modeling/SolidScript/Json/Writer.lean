import SolidScript.Json.Basic

/-!
# Writing JSON

On one line, or indented with one value per line.
-/

namespace SolidScript.Json

/-- Fewest digits that read back, with an exponent below a hundred-thousandth and from ten to the
sixteenth on. What is not finite is `null` here as well. -/
def shortestText (x : Float) : String := if x.isFinite then Decimal.floatText (-5) 16 x else "null"

def hexChar (n : Nat) : Char := Nat.digitChar (n % 16)

def escapeChar (c : Char) : List Char :=
  match c with
  | '"' => ['\\', '"']
  | '\\' => ['\\', '\\']
  | '\n' => ['\\', 'n']
  | '\r' => ['\\', 'r']
  | '\t' => ['\\', 't']
  | '\x08' => ['\\', 'b']
  | '\x0c' => ['\\', 'f']
  | c => if c.toNat < 0x20 then ['\\', 'u', '0', '0', hexChar (c.toNat / 16), hexChar c.toNat] else [c]

def quote (s : String) : String := String.ofList ('"' :: s.toList.flatMap escapeChar ++ ['"'])

/-- How floats are written, and what stands between values. -/
structure Layout where
  floatText : Float → String
  /-- Stands before each item at a depth of nesting and, one level up, before the closing mark. -/
  lineBreak : Nat → String
  afterColon : String

def compact : Layout := ⟨shortestText, fun _ => "", ""⟩

def indented : Layout :=
  ⟨shortestText, fun depth => "\n" ++ String.ofList (List.replicate (2 * depth) ' '), " "⟩

/-- Items between two marks. Without any, the marks stand together. -/
def enclose (layout : Layout) (depth : Nat) (opening closing : String) (items : List String) : String :=
  if items.isEmpty then opening ++ closing
  else
    let inner := layout.lineBreak (depth + 1)
    opening ++ inner ++ ("," ++ inner).intercalate items ++ layout.lineBreak depth ++ closing

mutual

def writeAt (layout : Layout) (depth : Nat) : Json → String
  | null => "null"
  | bool b => if b then "true" else "false"
  | int n => toString n
  | float x => layout.floatText x
  | str s => quote s
  | arr items => enclose layout depth "[" "]" (writeItems layout (depth + 1) items)
  | obj fields => enclose layout depth "\x7b" "\x7d" (writeFields layout (depth + 1) fields)

def writeItems (layout : Layout) (depth : Nat) : List Json → List String
  | [] => []
  | j :: rest => writeAt layout depth j :: writeItems layout depth rest

def writeFields (layout : Layout) (depth : Nat) : List (String × Json) → List String
  | [] => []
  | (name, j) :: rest =>
    (quote name ++ ":" ++ layout.afterColon ++ writeAt layout depth j) :: writeFields layout depth rest

end

def write (layout : Layout) (j : Json) : String := writeAt layout 0 j

end SolidScript.Json
