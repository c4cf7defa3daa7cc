import SolidScript.Proofs.FloatValues
import SolidScript.Space.Vec2

/-!
# Distances of floats

Squares have no sign, and neither have their sums. So a distance between finite points is a number, even where it is
beyond all floats, and can be compared with every other number.
-/

namespace SolidScript

namespace Binary64

open Float.Model Float.Model.UnpackedFloat

def Unsigned : UnpackedFloat → Prop
  | .zero .positive | .infinity .positive | .finite .positive .. => True
  | _ => False

theorem Unsigned.ne_notANumber {x : UnpackedFloat} (h : Unsigned x) : x ≠ .notANumber := by
  rintro rfl
  exact h

theorem unsigned_roundWithAccuracy (m : Nat) (e : Int) (accuracy : Accuracy) :
    Unsigned (roundWithAccuracy Format.binary64 .positive m e accuracy) := by
  unfold roundWithAccuracy
  dsimp only
  split <;> trivial

theorem unsigned_mul_self {x : UnpackedFloat} (h : x ≠ .notANumber) : Unsigned (x.mul Format.binary64 x) := by
  cases x with
  | notANumber => exact absurd rfl h
  | infinity s | zero s => cases s <;> trivial
  | finite s m e hm => cases s <;> exact unsigned_roundWithAccuracy _ _ _

theorem unsigned_normalize {z : Int} (hz : 0 ≤ z) (e : Int) :
    Unsigned (UnpackedFloat.normalize Format.binary64 z e .positive) := by
  unfold UnpackedFloat.normalize
  split
  · rename_i hneg
    exact absurd (compare_lt_iff_lt.mp hneg) (not_lt_of_ge hz)
  · trivial
  · exact unsigned_roundWithAccuracy _ _ _

theorem unsigned_add {x y : UnpackedFloat} (hx : Unsigned x) (hy : Unsigned y) :
    Unsigned (x.add Format.binary64 y) := by
  match x, y, hx, hy with
  | .finite .positive .., .finite .positive .., _, _ =>
    exact unsigned_normalize (Int.add_nonneg (Int.natCast_nonneg _) (Int.natCast_nonneg _)) _
  | .finite .positive .., .infinity .positive, _, _ | .finite .positive .., .zero .positive, _, _ => trivial
  | .infinity .positive, .finite .positive .., _, _ | .zero .positive, .finite .positive .., _, _ => trivial
  | .infinity .positive, .infinity .positive, _, _ | .infinity .positive, .zero .positive, _, _ => trivial
  | .zero .positive, .infinity .positive, _, _ | .zero .positive, .zero .positive, _, _ => trivial

theorem unsigned_sqrt {x : UnpackedFloat} (h : Unsigned x) : Unsigned (x.sqrt Format.binary64) := by
  match x, h with
  | .zero .positive, _ | .infinity .positive, _ => trivial
  | .finite .positive .., _ => exact unsigned_roundWithAccuracy _ _ _

theorem unsigned_unpack_ofParts {e : BitVec 11} {m : BitVec 52} (h : IsNumber e m) :
    Unsigned (UnpackedFloat.unpack Format.binary64 (ofParts .positive e m)) := by
  unfold UnpackedFloat.unpack
  simp only [unpackMantissa_packComponents, unpackExponent_packComponents, unpackSign_ofParts, ofBitVec_toBitVec]
  split
  · rename_i he
    rw [if_pos (h he)]
    trivial
  · split
    · split <;> trivial
    · trivial

theorem unsigned_unpack_pack {x : UnpackedFloat} (h : Unsigned x) :
    Unsigned (UnpackedFloat.unpack Format.binary64 (x.pack Format.binary64)) := by
  match x, h with
  | .zero .positive, _ | .infinity .positive, _ => exact unsigned_unpack_ofParts fun _ => rfl
  | .finite .positive m e hm, _ =>
    show Unsigned (UnpackedFloat.unpack Format.binary64
      (if 2 ^ 11 ≤ (e + 1023 + 52).toNat + 1 then packedInfinity Format.binary64 .positive
      else if m.log2 + 1 = 53 then ofParts .positive (BitVec.ofNat 11 (e + 1023 + 52).toNat) (BitVec.ofNat 52 m)
      else ofParts .positive 0#11 (BitVec.ofNat 52 m)))
    split
    · exact unsigned_unpack_ofParts fun _ => rfl
    · rename_i hbiased
      split
      · refine unsigned_unpack_ofParts fun he => ?_
        have htop : (e + 1023 + 52).toNat % 2 ^ 11 = 2047 := congrArg BitVec.toNat he
        omega
      · exact unsigned_unpack_ofParts fun he => absurd he (by decide)

end Binary64

open Binary64

/-- A distance of finite points may be infinite, but it is a number. -/
theorem Vec2.number_distance {p q : Vec2 Float} (hp : p.isFinite = true) (hq : q.isFinite = true) :
    Number (Vec2.distance p q) := by
  have hsub {x y : Float} (hx : x.isFinite = true) (hy : y.isFinite = true) : Number (x - y) :=
    (rounds_sub (canonical_unpack x) (canonical_unpack y) hx hy).number.1
  have hsquare {x : Float} (hx : Number x) : Unsigned (x * x).toModel.unpack :=
    unsigned_unpack_pack (unsigned_mul_self hx)
  unfold Vec2.isFinite at hp hq
  rw [Bool.and_eq_true] at hp hq
  have hx := hsquare (hsub hp.1 hq.1)
  have hy := hsquare (hsub hp.2 hq.2)
  have hsum : Unsigned (Vec2.dot (p - q) (p - q)).toModel.unpack := unsigned_unpack_pack (unsigned_add hx hy)
  exact (unsigned_unpack_pack (unsigned_sqrt hsum)).ne_notANumber

end SolidScript
