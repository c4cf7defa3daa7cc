import SolidScript.Json.Basic
import SolidScript.Text.Reader

/-!
# Reading JSON

A text holds one value and nothing else but blanks. Values nest to a limited depth, which is also
what the reader recurs on. Of two fields with one name the last one counts.
-/

namespace SolidScript.Json

def isBlank (c : Char) : Bool := c == ' ' || c == '\n' || c == '\t' || c == '\r'

def skipBlank (text : List Char) : List Char := text.dropWhile isBlank

/-! ## Numbers -/

def digits : Reader (List Char) := Reader.someOf Char.isDigit

/-- Digits without a needless zero in front. -/
def wholePart : Reader (List Char)
  | '0' :: rest => if (rest.headD ' ').isDigit then none else some (['0'], rest)
  | text => digits text

def fractionPart : Reader (List Char)
  | '.' :: rest => digits rest
  | text => some ([], text)

def exponentPart (text : List Char) : Option (Option Int × List Char) :=
  match text with
  | mark :: rest =>
    if mark = 'e' ∨ mark = 'E' then do
      let (down, rest) := Decimal.takeSign rest
      let (found, rest) ← digits rest
      return (some (Decimal.signedNat down (Decimal.natOfDigits found)), rest)
    else some (none, text)
  | [] => some (none, text)

/-- Puts digits behind those of `n`, as long as 64 bits hold the number, and gives the digits left over. -/
def gather (n : Nat) : List Char → Nat × List Char
  | [] => (n, [])
  | c :: rest =>
    let more := 10 * n + Decimal.natOfDigits [c]
    if fitsUnsigned 64 more then gather more rest else (n, c :: rest)

/-- Exponent of the largest power of ten among floats. -/
def greatestPower : Nat := 308

def powerOfTen (e : Nat) : Float := Decimal.toFloat ⟨1, e⟩

/-- `x` over ten to the power `e`, rounded after each division. -/
def divide (x : Float) (e : Nat) : Float :=
  if e ≤ greatestPower then x / powerOfTen e
  else if x == 0.0 then x
  else divide (x / powerOfTen greatestPower) (e - greatestPower)
termination_by e
decreasing_by
  simp only [greatestPower] at *
  omega

/-- `x` times ten to the power `e`. There is no number as large as infinity. -/
def multiply? (x : Float) (e : Nat) : Option Float :=
  if e ≤ greatestPower then
    let y := x * powerOfTen e
    if y.isFinite then some y else none
  else if x == 0.0 then some x
  else none

/-- The float of a whole number of 64 bits times a power of ten. Both the number and the product are
rounded. -/
def scaled? (n : Nat) (e : Int) : Option Float :=
  if e < 0 then some (divide (Float.ofNat n) e.natAbs) else multiply? (Float.ofNat n) e.natAbs

/-- A number in plain digits that fits into 64 bits is whole, unless it is minus zero. -/
def ofWhole (negative : Bool) (n : Nat) : Json :=
  if negative then
    if n = 0 ∨ !fitsSigned 64 (-(n : Int)) then float (-Float.ofNat n) else int (-(n : Int))
  else int n

/-- Digits that 64 bits do not hold only count by their places. -/
def numeral (negative : Bool) : Reader Json := fun text => do
  let (whole, rest) ← wholePart text
  let (places, rest) ← fractionPart rest
  let (exponent, rest) ← exponentPart rest
  let (n, dropped) := gather 0 whole
  if places.isEmpty && exponent.isNone && dropped.isEmpty then return (ofWhole negative n, rest)
  else
    let (m, ignored) := gather n places
    let e := (dropped.length : Int) - (places.length - ignored.length : Nat) + exponent.getD 0
    let x ← scaled? m e
    return (float (if negative then -x else x), rest)

/-! ## Strings -/

def hexDigit? (c : Char) : Option Nat :=
  if c.isDigit then some (c.toNat - '0'.toNat)
  else if 'a' ≤ c ∧ c ≤ 'f' then some (c.toNat - 'a'.toNat + 10)
  else if 'A' ≤ c ∧ c ≤ 'F' then some (c.toNat - 'A'.toNat + 10)
  else none

/-- Four hexadecimal digits. -/
def hexUnit : Reader Nat
  | a :: b :: c :: d :: rest => do
    let digits ← [a, b, c, d].mapM hexDigit?
    return (digits.foldl (fun n k => 16 * n + k) 0, rest)
  | _ => none

def isHighSurrogate (unit : Nat) : Bool := 0xD800 ≤ unit && unit < 0xDC00

def isLowSurrogate (unit : Nat) : Bool := 0xDC00 ≤ unit && unit < 0xE000

/-- The character behind `\u`. A pair of surrogates stands for one character, and neither stands alone. -/
def unicodeEscape : Reader Char := fun text => do
  let (unit, rest) ← hexUnit text
  if isHighSurrogate unit then
    match rest with
    | '\\' :: 'u' :: rest =>
      let (low, rest) ← hexUnit rest
      if isLowSurrogate low then
        return (Char.ofNat (0x10000 + (unit - 0xD800) * 0x400 + (low - 0xDC00)), rest)
      else none
    | _ => none
  else if isLowSurrogate unit then none
  else return (Char.ofNat unit, rest)

/-- The character behind a backslash. -/
def escape : Reader Char
  | '"' :: rest => some ('"', rest)
  | '\\' :: rest => some ('\\', rest)
  | '/' :: rest => some ('/', rest)
  | 'b' :: rest => some ('\x08', rest)
  | 'f' :: rest => some ('\x0c', rest)
  | 'n' :: rest => some ('\n', rest)
  | 'r' :: rest => some ('\r', rest)
  | 't' :: rest => some ('\t', rest)
  | 'u' :: rest => unicodeEscape rest
  | _ => none

/-- Reads up to the closing quote. The fuel bounds the number of characters. -/
def stringTail : (fuel : Nat) → Array Char → Reader String
  | fuel + 1, read, c :: rest =>
    if c = '"' then some (String.ofList read.toList, rest)
    else if c = '\\' then do
      let (e, rest) ← escape rest
      stringTail fuel (read.push e) rest
    else if c.toNat < 0x20 then none
    else stringTail fuel (read.push c) rest
  | _, _, _ => none

def string : Reader String := fun text =>
  match text with
  | '"' :: rest => stringTail text.length #[] rest
  | _ => none

/-! ## Lists and objects -/

/-- Items up to the closing mark, of which there is one at least. The fuel bounds their number. -/
def itemsTail {β : Type} (item : Reader β) (close : Char) : (fuel : Nat) → Array β → Reader (List β)
  | 0, _, _ => none
  | fuel + 1, read, text => do
    let (b, rest) ← item (skipBlank text)
    match skipBlank rest with
    | c :: rest =>
      if c = close then return ((read.push b).toList, rest)
      else if c = ',' then itemsTail item close fuel (read.push b) rest
      else none
    | [] => none

def items {β : Type} (item : Reader β) (close : Char) : Reader (List β) := fun text =>
  match skipBlank text with
  | c :: rest => if c = close then some ([], rest) else itemsTail item close text.length #[] (c :: rest)
  | [] => none

def fieldWith (value : Reader Json) : Reader (String × Json) := fun text => do
  let (name, rest) ← string text
  match skipBlank rest with
  | ':' :: rest =>
    let (j, rest) ← value (skipBlank rest)
    return ((name, j), rest)
  | _ => none

/-- Puts a field behind the others, in place of one with the same name. -/
def setField (fields : List (String × Json)) (field : String × Json) : List (String × Json) :=
  (fields.filter fun f => f.1 != field.1) ++ [field]

/-! ## Values -/

def keyword (word : String) (j : Json) : Reader Json := (Reader.exactly word).map fun _ => j

/-- Reads the value that starts the text. A list or an object takes one level of depth. -/
def value : (depth : Nat) → Reader Json
  | depth, text =>
    match text, depth with
    | '[' :: rest, depth + 1 => (items (value depth) ']' rest).map fun (found, rest) => (arr found, rest)
    | '\x7b' :: rest, depth + 1 =>
      (items (fieldWith (value depth)) '\x7d' rest).map fun (found, rest) =>
        (obj (found.foldl setField []), rest)
    | '"' :: _, _ => (string text).map fun (s, rest) => (str s, rest)
    | '-' :: rest, _ => numeral true rest
    | 't' :: _, _ => keyword "true" (bool true) text
    | 'f' :: _, _ => keyword "false" (bool false) text
    | 'n' :: _, _ => keyword "null" null text
    | _, _ => numeral false text

def maxDepth : Nat := 127

def read? (text : String) : Option Json :=
  match value maxDepth (skipBlank text.toList) with
  | some (j, rest) => if (skipBlank rest).isEmpty then some j else none
  | none => none

end SolidScript.Json
