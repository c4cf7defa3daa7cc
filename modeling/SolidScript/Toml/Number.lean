import SolidScript.Toml.Text

/-!
# Numbers, dates and times
-/

namespace SolidScript.Toml

/-! ## Numbers -/

/-- Digits of a base, with single underscores between them. -/
def digitsOf? (isDigit : Char → Bool) (text : List Char) : Option (List Char) :=
  let groups := text.splitOn '_'
  if groups.all fun g => !g.isEmpty && g.all isDigit then some groups.flatten else none

/-- A whole number in decimal digits without a needless zero in front. -/
def decimal? (text : List Char) : Option (List Char) := do
  let digits ← digitsOf? Char.isDigit text
  if 1 < digits.length ∧ digits.head? = some '0' then none else return digits

/-- Whole numbers have 64 bits with a sign. -/
def within64 (n : Int) : Option Toml := if fitsSigned 64 n then some (integer n) else none

def inBase (base : Nat) (isDigit : Char → Bool) (text : List Char) : Option Toml := do
  let digits ← digitsOf? isDigit text
  within64 (digits.foldl (fun n c => base * n + ((hexValue? [c]).getD 0)) 0 : Nat)

/-- A float has a point with digits on both sides, an exponent, or both. It is not too large. -/
def float? (negative : Bool) (text : List Char) : Option Toml := do
  let mantissa := text.takeWhile fun c => c != 'e' && c != 'E'
  let exponent := text.drop mantissa.length
  let whole ← decimal? (mantissa.takeWhile (· != '.'))
  let point := mantissa.dropWhile (· != '.')
  let places ← if point.isEmpty then some [] else digitsOf? Char.isDigit (point.drop 1)
  let (down, digits) := Decimal.takeSign (exponent.drop 1)
  let digits ← if exponent.isEmpty then some [] else digitsOf? Char.isDigit digits
  let e := Decimal.signedNat down (Decimal.natOfDigits digits)
  let x := Decimal.Literal.toFloat ⟨negative, Decimal.ofParts whole places e⟩
  if x == 1.0 / 0.0 then none else return float x

def unsigned? (negative : Bool) (text : List Char) : Option Toml :=
  if text = "inf".toList then some (float (if negative then -1.0 / 0.0 else 1.0 / 0.0))
  else if text = "nan".toList then some (float (0.0 / 0.0))
  else match decimal? text with
    | some digits => within64 (Decimal.signedNat negative (Decimal.natOfDigits digits))
    | none => float? negative text

def number? (text : List Char) : Option Toml :=
  match text with
  | '0' :: 'x' :: rest => inBase 16 (fun c => (hexValue? [c]).isSome) rest
  | '0' :: 'o' :: rest => inBase 8 (fun c => c.isDigit && c < '8') rest
  | '0' :: 'b' :: rest => inBase 2 (fun c => c == '0' || c == '1') rest
  | _ =>
    let (negative, rest) := Decimal.takeSign text
    unsigned? negative rest

def isNumberPart (c : Char) : Bool := c.isAlphanum || c == '_' || c == '+' || c == '-' || c == '.'

/-- A number or a truth value. -/
def number : Reader Toml := fun text => do
  let (word, rest) ← Reader.someOf isNumberPart text
  if word = "true".toList then return (boolean true, rest)
  else if word = "false".toList then return (boolean false, rest)
  else return (← number? word, rest)

/-! ## Dates and times -/

/-- A number in exactly `n` digits, within limits. -/
def digitsWithin (n low high : Nat) : Reader Nat := fun text =>
  let digits := text.take n
  let k := Decimal.natOfDigits digits
  if digits.length = n && digits.all Char.isDigit && low ≤ k && k ≤ high then some (k, text.drop n) else none

def daysIn (year month : Nat) : Nat :=
  if month = 2 then
    if year % 4 = 0 && (year % 100 != 0 || year % 400 = 0) then 29 else 28
  else if [4, 6, 9, 11].contains month then 30
  else 31

/-- A day of the calendar, such as `2024-02-29`. -/
def day : Reader Unit := fun text => do
  let (year, rest) ← digitsWithin 4 0 9999 text
  let (_, rest) ← Reader.exactly "-" rest
  let (month, rest) ← digitsWithin 2 1 12 rest
  let (_, rest) ← Reader.exactly "-" rest
  let (_, rest) ← digitsWithin 2 1 (daysIn year month) rest
  return ((), rest)

def hourMinute : Reader Unit := fun text => do
  let (_, rest) ← digitsWithin 2 0 23 text
  let (_, rest) ← Reader.exactly ":" rest
  let (_, rest) ← digitsWithin 2 0 59 rest
  return ((), rest)

/-- A time of the day, such as `07:32:00.5`. A minute may have a leap second. -/
def time : Reader Unit := fun text => do
  let (_, rest) ← hourMinute text
  let (_, rest) ← Reader.exactly ":" rest
  let (_, rest) ← digitsWithin 2 0 60 rest
  match rest with
  | '.' :: places => match Reader.someOf Char.isDigit places with
    | some (_, rest) => return ((), rest)
    | none => return ((), rest)
  | rest => return ((), rest)

/-- How far the clock is from that of Greenwich. -/
def offset : Reader Unit
  | 'Z' :: rest => some ((), rest)
  | 'z' :: rest => some ((), rest)
  | '+' :: rest => hourMinute rest
  | '-' :: rest => hourMinute rest
  | _ => none

/-- A time behind a date, perhaps with an offset. -/
def timeOfDay : Reader Unit
  | c :: rest => do
    if c = 'T' ∨ c = 't' ∨ c = ' ' then
      let (_, rest) ← time rest
      let (_, rest) ← Reader.optional offset rest
      return ((), rest)
    else none
  | [] => none

/-- A date, a time or both. -/
def dateOrTime : Reader Toml := fun text =>
  let found := match day text with
    | some (_, rest) => (Reader.optional timeOfDay rest).map Prod.snd
    | none => (time text).map Prod.snd
  found.map fun rest => (.date (String.ofList (text.take (text.length - rest.length))), rest)

end SolidScript.Toml
