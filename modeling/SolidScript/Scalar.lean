/-!
# Scalars

The numbers that coordinates are made of. Geometry is written once over `Scalar`: the program runs
on binary64 floats, and a proof may read the same definitions over an ordered field.
-/

namespace SolidScript

/-- Comparison is partial: a value that is not a number is neither below nor above anything. -/
class Scalar (α : Type) extends Add α, Sub α, Mul α, Div α, Neg α, LT α, LE α where
  ofNat : Nat → α
  /-- `m` times ten to the power `e`, or to `-e` when the flag is set. -/
  ofScientific : Nat → Bool → Nat → α
  decLt : DecidableLT α
  decLe : DecidableLE α
  magnitude : α → α
  /-- Set on negative numbers and on a negative zero. -/
  signBit : α → Bool
  isFinite : α → Bool
  infinity : α
  /-- Distance from one to the next larger scalar. -/
  ulpOne : α
  pi : α
  sqrt : α → α
  sin : α → α
  cos : α → α
  tan : α → α
  arctan : α → α
  arccos : α → α
  /-- Nearest integer, halves away from zero, held within the signed 64-bit range. -/
  nearestInt : α → Int
  /-- Least natural number not below the scalar, held within the unsigned 64-bit range. -/
  ceilNat : α → Nat
  /-- Greatest natural number not above the scalar, held within the unsigned 64-bit range. -/
  floorNat : α → Nat

namespace Scalar

variable {α : Type} [Scalar α]

instance : DecidableLT α := decLt
instance : DecidableLE α := decLe

scoped instance (n : Nat) : OfNat α n := ⟨ofNat n⟩
scoped instance : OfScientific α := ⟨ofScientific⟩

instance : Inhabited α := ⟨0⟩

/-- Equality of numbers: both zeros are equal, and nothing equals a value that is not a number. -/
def same (a b : α) : Bool := a ≤ b && b ≤ a

def isNumber (a : α) : Bool := a ≤ a

/-- The smaller of two numbers. A value that is not a number loses to any other. -/
def least (a b : α) : α := if a ≤ a ∧ ¬ b < a then a else b

def greatest (a b : α) : α := if a ≤ a ∧ ¬ a < b then a else b

/-- One with the sign of `a`, also for zeros. What is not a number stays as it is. -/
def sign (a : α) : α := if isNumber a then (if signBit a then -1 else 1) else a

/-- `a` moved into `[lo, hi]`, which has to be an interval. -/
def clamp? (lo hi a : α) : Option α :=
  if lo ≤ hi then some (if a < lo then lo else if hi < a then hi else a) else none

def tau : α := 2 * pi

/-- Radians of an angle in degrees. -/
def radians (degrees : α) : α := degrees * (pi / 180)

/-- Degrees of an angle in radians. -/
def degrees (radians : α) : α := radians * (180 / pi)

/-- Radians of an angle in degrees, multiplied before dividing. -/
def radiansExact (degrees : α) : α := degrees * pi / 180

def lerp (a b t : α) : α := a + (b - a) * t

def approx (a b tolerance : α) : Bool := magnitude (a - b) < tolerance

end Scalar

end SolidScript
