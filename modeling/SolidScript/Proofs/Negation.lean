import Mathlib
import SolidScript.Number.Binary64

/-! # Negation of floats

A float is its sign, exponent and mantissa, and negation changes the sign. What is not a number has one
representation only, which stays.
-/

namespace SolidScript.Binary64

open Float.Model Float.Model.UnpackedFloat

abbrev Bits := BitVec Format.binary64.numBits

abbrev ofParts (s : Sign) (e : BitVec 11) (m : BitVec 52) : Bits := packComponents Format.binary64 s e m

/-! ## Parts of floats -/

theorem ofBitVec_toBitVec (s : Sign) : Sign.ofBitVec s.toBitVec = s := by
  cases s <;> rfl

theorem toBitVec_ofBitVec (b : BitVec 1) : (Sign.ofBitVec b).toBitVec = b := by
  revert b
  decide

theorem neg_neg_sign (s : Sign) : - -s = s := by
  cases s <;> rfl

theorem unpackSign_ofParts (s : Sign) (e : BitVec 11) (m : BitVec 52) : unpackSign (ofParts s e m) = s.toBitVec := by
  apply BitVec.eq_of_getLsbD_eq
  intro i hi
  have hzero : i = 0 := by omega
  subst hzero
  simp only [unpackSign, packComponents, BitVec.getLsbD_cast, BitVec.getLsbD_extractLsb, BitVec.getLsbD_append]
  simp

theorem ofParts_unpack (b : Bits) :
    ofParts (Sign.ofBitVec (unpackSign b)) (unpackExponent b) (unpackMantissa b) = b := by
  apply BitVec.eq_of_getLsbD_eq
  intro i hi
  have hi : i < 64 := hi
  simp only [packComponents, toBitVec_ofBitVec, unpackSign, unpackExponent, unpackMantissa, BitVec.getLsbD_append,
    BitVec.getLsbD_cast, BitVec.getLsbD_extractLsb]
  by_cases hm : i < 52
  · simp [hm]
  · by_cases he : i < 63
    · have hrest : i - 52 < 11 := by omega
      have hback : 52 + (i - 52) = i := by omega
      simp [hm, hrest, hback]
    · have hrest : ¬ i - 52 < 11 := by omega
      have hback : 52 + 11 + (i - 52 - 11) = i := by omega
      have hzero : i - 52 - 11 < 1 := by omega
      simp only [hm, hrest, decide_false, if_false, hback]
      simp [hzero]

theorem toNat_implicit (m : BitVec 52) : (1#1 ++ m).toNat = 2 ^ 52 + m.toNat := by
  rw [BitVec.toNat_append, ← Nat.shiftLeft_add_eq_or_of_lt m.isLt]
  rfl

theorem pack_subnormal (s : Sign) {m : BitVec 52} (hpos : 0 < m.toNat) :
    UnpackedFloat.pack Format.binary64 (.finite s m.toNat (0 - (1023 + 52) + 1) hpos) = ofParts s 0#11 m := by
  have hlog : m.toNat.log2 < 52 := (Nat.log2_lt (Nat.ne_of_gt hpos)).mpr m.isLt
  have hsubnormal : ¬ m.toNat.log2 + 1 = 53 := by omega
  show (if 2 ^ 11 ≤ ((0 : Int) - (1023 + 52) + 1 + 1023 + 52).toNat + 1 then packedInfinity Format.binary64 s
    else if m.toNat.log2 + 1 = 53 then ofParts s (BitVec.ofNat 11 1) (BitVec.ofNat 52 m.toNat)
    else ofParts s 0#11 (BitVec.ofNat 52 m.toNat)) = ofParts s 0#11 m
  rw [if_neg (by decide), if_neg hsubnormal, BitVec.ofNat_toNat, BitVec.setWidth_eq]

theorem pack_normal (s : Sign) {e : BitVec 11} (he : e ≠ -1#11) (m : BitVec 52) (hpos : 0 < (1#1 ++ m).toNat) :
    UnpackedFloat.pack Format.binary64 (.finite s (1#1 ++ m).toNat (e.toNat - (1023 + 52)) hpos) =
      ofParts s e m := by
  have hbiased : ((e.toNat : Int) - (1023 + 52) + 1023 + 52).toNat = e.toNat := by omega
  have hlt : ¬ 2 ^ 11 ≤ e.toNat + 1 := by
    intro hle
    have := e.isLt
    refine he (BitVec.eq_of_toNat_eq ?_)
    show e.toNat = 2047
    omega
  have hlog : (1#1 ++ m).toNat.log2 + 1 = 53 := by
    rw [toNat_implicit, (Nat.log2_eq_iff (by omega)).mpr ⟨Nat.le_add_right (2 ^ 52) _, ?_⟩]
    have := m.isLt
    omega
  have hmantissa : BitVec.ofNat 52 (1#1 ++ m).toNat = m := by
    apply BitVec.eq_of_toNat_eq
    rw [toNat_implicit, BitVec.toNat_ofNat, Nat.add_mod_left]
    exact Nat.mod_eq_of_lt m.isLt
  show (if 2 ^ 11 ≤ ((e.toNat : Int) - (1023 + 52) + 1023 + 52).toNat + 1 then _
    else if (1#1 ++ m).toNat.log2 + 1 = 53 then
      ofParts s (BitVec.ofNat 11 ((e.toNat : Int) - (1023 + 52) + 1023 + 52).toNat)
        (BitVec.ofNat 52 (1#1 ++ m).toNat)
    else _) = ofParts s e m
  rw [hbiased, if_neg hlt, if_pos hlog, hmantissa, BitVec.ofNat_toNat, BitVec.setWidth_eq]

def IsNumber (e : BitVec 11) (m : BitVec 52) : Prop := e = -1#11 → m = 0#52

theorem pack_unpack_ofParts (s : Sign) {e : BitVec 11} {m : BitVec 52} (h : IsNumber e m) :
    UnpackedFloat.pack Format.binary64 (UnpackedFloat.unpack Format.binary64 (ofParts s e m)) = ofParts s e m := by
  unfold UnpackedFloat.unpack
  simp only [unpackMantissa_packComponents, unpackExponent_packComponents, unpackSign_ofParts, ofBitVec_toBitVec]
  split
  -- With all ones in the exponent, a number is an infinity.
  · rename_i he
    rw [if_pos (h he), h he, he]
    rfl
  · rename_i he
    split
    · rename_i hzero
      rw [hzero]
      split
      · rename_i hm
        rw [hm]
        rfl
      · rename_i hm
        exact pack_subnormal s (Nat.pos_of_ne_zero fun h0 => hm (BitVec.eq_of_toNat_eq h0))
    · exact pack_normal s he m _

theorem neg_unpack_ofParts (s : Sign) {e : BitVec 11} {m : BitVec 52} :
    (UnpackedFloat.unpack Format.binary64 (ofParts s e m)).neg = UnpackedFloat.unpack Format.binary64 (ofParts (-s) e m) := by
  unfold UnpackedFloat.unpack
  simp only [unpackMantissa_packComponents, unpackExponent_packComponents, unpackSign_ofParts, ofBitVec_toBitVec]
  split
  · split <;> rfl
  · split
    · split <;> rfl
    · rfl

/-! ## Negation -/

def negBits (b : Bits) : Bits := UnpackedFloat.pack Format.binary64 (UnpackedFloat.unpack Format.binary64 b).neg

theorem negBits_ofParts (s : Sign) {e : BitVec 11} {m : BitVec 52} (h : IsNumber e m) :
    negBits (ofParts s e m) = ofParts (-s) e m := by
  unfold negBits
  rw [neg_unpack_ofParts, pack_unpack_ofParts (-s) h]

theorem negBits_negBits {b : Bits} (hvalid : Format.binary64.Valid b) : negBits (negBits b) = b := by
  by_cases h : IsNumber (unpackExponent b) (unpackMantissa b)
  · rw [← ofParts_unpack b, negBits_ofParts _ h, negBits_ofParts _ h, neg_neg_sign]
  · obtain ⟨he, hm⟩ := Classical.not_imp.mp h
    rw [hvalid.eq_packedNaN he hm]
    decide +kernel

theorem neg_neg_float (x : Float) : - -x = x := by
  obtain ⟨⟨bits, hvalid⟩⟩ := x
  have hbits : UInt64.ofBitVec (negBits (negBits bits.toBitVec)) = bits := by
    rw [negBits_negBits hvalid]
  have hmodel : -(-(⟨bits, hvalid⟩ : Float.Model)) = ⟨bits, hvalid⟩ := by
    rw [Float.Model.mk.injEq]
    exact hbits
  exact congrArg Float.ofModel hmodel

end SolidScript.Binary64
