import SolidScript.Number.Binary64

/-!
# Decimal numbers

A decimal is a natural number times a power of ten. Every text of a float goes through one: the
nearest decimal of a given digit count, or the shortest that still reads back as the same float.
-/

namespace SolidScript

/-- The value is `coefficient * 10 ^ exponent`. -/
structure Decimal where
  coefficient : Nat
  exponent : Int
deriving DecidableEq, Repr

namespace Decimal

def digitCount (n : Nat) : Nat := (Nat.toDigits 10 n).length

/-! ## From a fraction -/

/-- `num / den` to the nearest integer, a tie to the even one. -/
def roundHalfEven (num den : Nat) : Nat :=
  let q := num / den
  let r := num % den
  if 2 * r < den then q else if den < 2 * r then q + 1 else q + q % 2

/-- The `e` with `10 ^ e ≤ num / den < 10 ^ (e + 1)`, for a fraction above zero. -/
def magnitude (num den : Nat) : Int :=
  if den ≤ num then (digitCount (num / den) : Int) - 1 else -(digitCount ((den - 1) / num) : Int)

/-- `num / den` divided by `10 ^ e`, as a fraction. -/
def scaleDown (num den : Nat) (e : Int) : Nat × Nat :=
  (num * tenTo (-e).toNat, den * tenTo e.toNat)

/-- The decimal with `n` digits nearest to a fraction above zero, a tie to the even coefficient. -/
def nearest (n num den : Nat) : Decimal :=
  let e := magnitude num den - ((n : Int) - 1)
  let (num', den') := scaleDown num den e
  let c := roundHalfEven num' den'
  if c = tenTo n then ⟨tenTo (n - 1), e + 1⟩ else ⟨c, e⟩

/-! ## Shortest decimals -/

/-- Four times the ends of the interval that rounds to a float, and whether the ends belong to it.
All is counted in units of its last place. -/
structure Interval where
  low : Nat
  high : Nat
  closed : Bool

/-- The interval of a float with the given parts. Below a power of two the floats are denser. -/
def Interval.around (p : Binary64.Parts) : Interval :=
  let m := p.significand
  let narrow := m = twoTo 52 ∧ -1074 < p.exponent
  { low := 4 * m - (if narrow then 1 else 2), high := 4 * m + 2, closed := m % 2 == 0 }

/-- Whether `coefficient * 10 ^ e` lies in the interval, whose unit is `2 ^ binary`. -/
def Interval.covers (i : Interval) (binary : Int) (coefficient : Nat) (e : Int) : Bool :=
  let value := 4 * coefficient * tenTo e.toNat * twoTo (-binary).toNat
  let unit := tenTo (-e).toNat * twoTo binary.toNat
  if i.closed then i.low * unit ≤ value && value ≤ i.high * unit
  else i.low * unit < value && value < i.high * unit

/-- The decimal with `n` digits in the interval that is nearest to the float, if there is any. Of two
at the same distance it is the larger one. -/
def shortest? (p : Binary64.Parts) (n : Nat) : Option Decimal :=
  let (num, den) := p.fraction
  let e := magnitude num den - ((n : Int) - 1)
  let (num', den') := scaleDown num den e
  let below := num' / den'
  let interval := Interval.around p
  let inside := interval.covers p.exponent
  match inside below e, inside (below + 1) e with
  | true, true => some ⟨if 2 * (num' % den') < den' then below else below + 1, e⟩
  | true, false => some ⟨below, e⟩
  | false, true => some ⟨below + 1, e⟩
  | false, false => none

/-- Seventeen digits always tell floats apart. -/
def shortest (p : Binary64.Parts) : Decimal :=
  let fallback := nearest 17 p.fraction.1 p.fraction.2
  ((List.range 17).findSome? fun n => shortest? p (n + 1)).getD fallback

/-- The same value with no zero at the end of the coefficient. -/
def trimmed (d : Decimal) : Decimal := go (digitCount d.coefficient) d
where
  go : Nat → Decimal → Decimal
    | 0, d => d
    | fuel + 1, d =>
      if d.coefficient ≠ 0 ∧ d.coefficient % 10 = 0 then go fuel ⟨d.coefficient / 10, d.exponent + 1⟩ else d

/-! ## Writing -/

/-- Exponent of the first digit. -/
def leading (d : Decimal) : Int := d.exponent + (digitCount d.coefficient : Int) - 1

/-- No exponent: zeros are written out on either side of the point. -/
def positional (d : Decimal) : String :=
  let digits := Nat.toDigits 10 d.coefficient
  if 0 ≤ d.exponent then String.ofList (digits ++ List.replicate d.exponent.toNat '0')
  else
    let places := (-d.exponent).toNat
    let padded := List.replicate (places + 1 - digits.length) '0' ++ digits
    let whole := padded.length - places
    String.ofList (padded.take whole ++ '.' :: padded.drop whole)

/-- One digit before the point, and the exponent always written. -/
def scientific (d : Decimal) : String :=
  let mantissa := match Nat.toDigits 10 d.coefficient with
    | [] => []
    | [c] => [c]
    | c :: rest => c :: '.' :: rest
  String.ofList mantissa ++ "e" ++ toString d.leading

/-! ## Texts of floats -/

def signText (x : Float) : String := if Binary64.negative x then "-" else ""

/-- The finite ones are written by `body`. -/
def textOf (x : Float) (body : Binary64.Parts → String) : String :=
  if x.isNaN then "NaN"
  else if x.isInf then signText x ++ "inf"
  else signText x ++ body (Binary64.parts x)

/-- Fewest digits that read back, never with an exponent: `0`, `-2.5`, `100000`. -/
def shortestText (x : Float) : String :=
  textOf x fun p => if p.significand = 0 then "0" else (shortest p).trimmed.positional

/-- Like `positional`, with a digit after the point in every case. -/
def pointed (d : Decimal) : String := if 0 ≤ d.exponent then d.positional ++ ".0" else d.positional

/-- Fewest digits that read back, with a point or an exponent to tell a float from an integer.
The exponent is written for leading exponents outside `low ..< high`. -/
def floatText (low high : Int) (x : Float) : String :=
  textOf x fun p =>
    if p.significand = 0 then "0.0"
    else
      let d := (shortest p).trimmed
      if low ≤ d.leading ∧ d.leading < high then d.pointed else d.scientific

/-- `n` significant digits in scientific form, less the zeros at the end. Zero is `0`. -/
def significantText (n : Nat) (x : Float) : String :=
  if x.isFinite && (Binary64.parts x).significand == 0 then "0"
  else textOf x fun p =>
    (nearest n p.fraction.1 p.fraction.2).trimmed.scientific

/-- `n` digits after the point. -/
def fixedText (n : Nat) (x : Float) : String :=
  textOf x fun p =>
    positional ⟨roundHalfEven (p.fraction.1 * tenTo n) p.fraction.2, -(n : Int)⟩

/-! ## Reading -/

/-- The float nearest to `coefficient * 10 ^ exponent`. Far outside the range of floats the digits
do not matter. -/
def toFloat (d : Decimal) : Float :=
  if d.coefficient = 0 then 0.0
  else if 310 < d.leading then 1.0 / 0.0
  else if d.leading < -330 then 0.0
  else Float.ofScientific d.coefficient (d.exponent < 0) d.exponent.natAbs

/-- The number written by a list of digits. -/
def natOfDigits (digits : List Char) : Nat :=
  digits.foldl (fun n c => 10 * n + (c.toNat - '0'.toNat)) 0

/-- The number written as `whole.places` times ten to the power `e`. -/
def ofParts (whole places : List Char) (e : Int) : Decimal :=
  ⟨natOfDigits (whole ++ places), e - places.length⟩

/-- The integer written by an optional sign and digits. -/
def signedNat (negative : Bool) (n : Nat) : Int := if negative then -(n : Int) else n

structure Literal where
  negative : Bool
  magnitude : Decimal
deriving DecidableEq, Repr

def Literal.toFloat (l : Literal) : Float := if l.negative then -l.magnitude.toFloat else l.magnitude.toFloat

/-- A leading sign: whether it is a minus, and the rest. -/
def takeSign : List Char → Bool × List Char
  | '-' :: rest => (true, rest)
  | '+' :: rest => (false, rest)
  | rest => (false, rest)

/-- Digits with an optional sign, point and exponent, such as `-12`, `.5`, `3.` or `1e-9`. Digits
stand before or after the point, and behind the exponent mark. -/
def read? (text : List Char) : Option Literal :=
  let (negative, rest) := takeSign text
  let whole := rest.takeWhile Char.isDigit
  let rest := rest.dropWhile Char.isDigit
  let (places, rest) := match rest with
    | '.' :: rest => (rest.takeWhile Char.isDigit, rest.dropWhile Char.isDigit)
    | rest => ([], rest)
  if whole.isEmpty && places.isEmpty then none
  else match rest with
    | [] => some ⟨negative, ofParts whole places 0⟩
    | mark :: rest =>
      let (down, digits) := takeSign rest
      if (mark = 'e' || mark = 'E') && !digits.isEmpty && digits.all Char.isDigit then
        some ⟨negative, ofParts whole places (signedNat down (natOfDigits digits))⟩
      else none

end Decimal

end SolidScript
