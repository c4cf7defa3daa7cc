import SolidScript.Scalar

/-!
# Binary64 numbers

A finite float is a sign and a natural number times a power of two. Integers are read off these
parts exactly, so that no rounding mode is involved.
-/

namespace SolidScript

/-! ## Powers and widths -/

def twoTo (n : Nat) : Nat := Nat.pow 2 n

def tenTo (n : Nat) : Nat := Nat.pow 10 n

/-- Whether a whole number has so many bits and no sign. -/
def fitsUnsigned (bits : Nat) (n : Int) : Bool := 0 ≤ n && n < twoTo bits

/-- Whether a whole number has so many bits, one of them for the sign. -/
def fitsSigned (bits : Nat) (n : Int) : Bool := -(twoTo (bits - 1) : Int) ≤ n && n < twoTo (bits - 1)

namespace Binary64

/-! ## Parts -/

/-- The magnitude is `significand * 2 ^ exponent`. -/
structure Parts where
  negative : Bool
  significand : Nat
  exponent : Int
deriving DecidableEq, Repr

/-- The magnitude as a numerator and a denominator. -/
def Parts.fraction (p : Parts) : Nat × Nat :=
  (p.significand * twoTo p.exponent.toNat, twoTo (-p.exponent).toNat)

def parts (x : Float) : Parts :=
  let bits : Nat := x.toBits.toNat
  let biased : Nat := bits / twoTo 52 % twoTo 11
  let fraction : Nat := bits % twoTo 52
  { negative := bits / twoTo 63 == 1
    significand := if biased = 0 then fraction else twoTo 52 + fraction
    exponent := ((if biased = 0 then 1 else biased : Nat) : Int) - 1075 }

def negative (x : Float) : Bool := (parts x).negative

/-- Magnitude of a finite float as a fraction. -/
def fraction (x : Float) : Nat × Nat := (parts x).fraction

/-- A magnitude with its sign put back. -/
def signed (x : Float) (magnitude : Nat) : Int := if negative x then -(magnitude : Int) else magnitude

/-- The integer that a finite float is, when it is one. -/
def toInt? (x : Float) : Option Int :=
  if x.isFinite then
    let (num, den) := fraction x
    if num % den = 0 then some (signed x (num / den)) else none
  else none

/-- Ends of the signed 64-bit range. -/
def leastInt : Int := -(twoTo 63 : Int)

def greatestInt : Int := (twoTo 63 : Int) - 1

/-- Nearest integer, halves away from zero. Beyond the signed 64-bit range the nearest end of it is
taken, and zero for what is not a number. -/
def nearestInt (x : Float) : Int :=
  if x.isNaN then 0
  else if x.isInf then (if negative x then leastInt else greatestInt)
  else
    let (num, den) := fraction x
    max leastInt (min greatestInt (signed x ((2 * num + den) / (2 * den))))

/-- End of the unsigned 64-bit range. -/
def greatestNat : Nat := twoTo 64 - 1

/-- Least natural number that is not below `x`, within the unsigned 64-bit range. -/
def ceilNat (x : Float) : Nat :=
  if x.isNaN || negative x then 0
  else if x.isInf then greatestNat
  else
    let (num, den) := fraction x
    min greatestNat ((num + den - 1) / den)

/-- Greatest natural number that is not above `x`, within the unsigned 64-bit range. -/
def floorNat (x : Float) : Nat :=
  if x.isNaN || negative x then 0
  else if x.isInf then greatestNat
  else
    let (num, den) := fraction x
    min greatestNat (num / den)

instance : Scalar Float where
  ofNat := Float.ofNat
  ofScientific := OfScientific.ofScientific
  decLt := fun a b => inferInstanceAs (Decidable (a < b))
  decLe := fun a b => inferInstanceAs (Decidable (a ≤ b))
  magnitude := Float.abs
  signBit := negative
  isFinite := Float.isFinite
  infinity := 1.0 / 0.0
  ulpOne := Float.ofBits 0x3CB0000000000000
  pi := Float.ofBits 0x400921FB54442D18
  sqrt := Float.sqrt
  sin := Float.sin
  cos := Float.cos
  tan := Float.tan
  arctan := Float.atan
  arccos := Float.acos
  nearestInt := nearestInt
  ceilNat := ceilNat
  floorNat := floorNat

end Binary64

end SolidScript
