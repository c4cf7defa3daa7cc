import Mathlib.Algebra.Order.Field.Basic
import Mathlib.Algebra.Order.Group.Unbundled.Abs
import SolidScript.Space.Vec3

/-!
# Exact scalars

Geometry reads over any ordered field. The order and the operations are those of the field. What a
field does not settle, such as roots and angles, is a matter of choice.
-/

namespace SolidScript

/-- A choice of what an ordered field leaves open. -/
class Elementary (K : Type) where
  infinity : K
  pi : K
  sqrt : K → K
  sin : K → K
  cos : K → K
  tan : K → K
  arctan : K → K
  arccos : K → K
  nearestInt : K → Int
  ceilNat : K → Nat
  floorNat : K → Nat

variable {K : Type} [Field K] [LinearOrder K]

/-- The square root is the root of every square. Other numbers need not have one. -/
class Elementary.TrueRoots (K : Type) [Field K] [LinearOrder K] [Elementary K] : Prop where
  sqrt_mul_self {a : K} : 0 ≤ a → Elementary.sqrt (a * a) = a

/-- Nothing is rounded, and every value is a number. -/
@[reducible] instance Scalar.exact [Elementary K] : Scalar K where
  ofNat n := n
  ofScientific m negative e := if negative then m / 10 ^ e else m * 10 ^ e
  decLt := inferInstance
  decLe := inferInstance
  magnitude a := max a (-a)
  signBit a := decide (a < 0)
  isFinite _ := true
  infinity := Elementary.infinity
  ulpOne := 1 / 2 ^ 52
  pi := Elementary.pi
  sqrt := Elementary.sqrt
  sin := Elementary.sin
  cos := Elementary.cos
  tan := Elementary.tan
  arctan := Elementary.arctan
  arccos := Elementary.arccos
  nearestInt := Elementary.nearestInt
  ceilNat := Elementary.ceilNat
  floorNat := Elementary.floorNat

namespace Scalar

variable [Elementary K]

theorem literal_eq (n : Nat) : @OfNat.ofNat K n (instOfNat n) = (n : K) := rfl

theorem greatest_eq_max (a b : K) : greatest a b = max a b := by
  unfold greatest
  rw [max_comm, max_def b a]
  exact if_congr (by simp) rfl rfl

theorem least_eq_min (a b : K) : least a b = min a b := by
  unfold least
  rw [min_def a b]
  exact if_congr (by simp) rfl rfl

end Scalar

namespace Vec3

/-- A point as a member of the vector space over the field. -/
def coordinates (v : Vec3 K) : K × K × K := (v.x, v.y, v.z)

end Vec3

end SolidScript
