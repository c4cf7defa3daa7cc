import SolidScript.Proofs.FloatLimits
import SolidScript.Script.Value

/-!
# Floats that are whole numbers

A float that is read as a whole number is that number exactly, and a cast that is held between the ends of a range
gives the same.
-/

namespace SolidScript.Binary64

open Float.Model Float.Model.UnpackedFloat

variable {x : Float} {n : Int}

/-! ## Parts of a float -/

theorem toNat_unpackMantissa (b : Bits) : (unpackMantissa b).toNat = b.toNat % twoTo 52 := by
  simp [unpackMantissa, BitVec.extractLsb_toNat, twoTo]

theorem toNat_unpackExponent (b : Bits) : (unpackExponent b).toNat = b.toNat / twoTo 52 % twoTo 11 := by
  simp [unpackExponent, BitVec.extractLsb_toNat, Nat.shiftRight_eq_div_pow, twoTo]

theorem ofBitVec_unpackSign (b : Bits) :
    Sign.ofBitVec (unpackSign b) = if b.toNat / twoTo 63 == 1 then .negative else .positive := by
  have hlt : b.toNat < 2 ^ 64 := b.isLt
  have hsign : (unpackSign b).toNat = b.toNat / twoTo 63 % 2 := by
    simp [unpackSign, BitVec.extractLsb_toNat, Nat.shiftRight_eq_div_pow, twoTo]
  have htop : b.toNat / twoTo 63 < 2 := by
    unfold twoTo
    simp only [Nat.pow_eq]
    omega
  rw [Nat.mod_eq_of_lt htop] at hsign
  have hzero : unpackSign b = 0#1 ↔ b.toNat / twoTo 63 = 0 := by
    rw [← hsign, ← BitVec.toNat_inj]
    rfl
  unfold Sign.ofBitVec
  generalize b.toNat / twoTo 63 = top at htop hzero
  rw [if_congr hzero rfl rfl]
  interval_cases top <;> rfl

def bits (x : Float) : Bits := x.toBits.toBitVec

theorem toNat_bits (x : Float) : (bits x).toNat = x.toBits.toNat := rfl

theorem unpack_eq (x : Float) : x.toModel.unpack = UnpackedFloat.unpack Format.binary64 (bits x) := rfl

theorem apply_eq_signed (x : Float) (magnitude : Nat) :
    (Sign.ofBitVec (unpackSign (bits x))).apply magnitude = signed x magnitude := by
  rw [ofBitVec_unpackSign, toNat_bits]
  unfold signed negative parts
  dsimp only
  split <;> rfl

theorem units_eq_parts (h : x.isFinite = true) :
    units x = signed x ((parts x).significand * 2 ^ ((parts x).exponent + 1074).toNat) := by
  have hfinite : x.toModel.unpack.isFinite = true := h
  have hexponent := toNat_unpackExponent (bits x)
  have hmantissa := toNat_unpackMantissa (bits x)
  rw [toNat_bits] at hexponent hmantissa
  rw [← apply_eq_signed]
  unfold units parts
  rw [unpack_eq] at hfinite ⊢
  unfold UnpackedFloat.unpack at hfinite ⊢
  dsimp only at hfinite ⊢
  rw [← hexponent, ← hmantissa]
  generalize Sign.ofBitVec (unpackSign (bits x)) = s at hfinite ⊢
  generalize unpackExponent (bits x) = e at hfinite ⊢
  -- The greatest exponent is for what is not finite, the least one for zeros and subnormal floats.
  by_cases hall : e = -1#11
  · rw [if_pos hall] at hfinite
    split at hfinite <;> cases hfinite
  · rw [if_neg hall]
    by_cases hzero : e = 0#11
    · rw [if_pos hzero, if_pos (by rw [hzero]; rfl), if_pos (by rw [hzero]; rfl)]
      split
      · rename_i hm
        rw [hm]
        cases s <;> simp [unpackedUnits, Sign.apply]
      · rw [hzero]
        rfl
    · have hpos : e.toNat ≠ 0 := fun h => hzero (BitVec.eq_of_toNat_eq h)
      rw [if_neg hzero, if_neg hpos, if_neg hpos]
      unfold unpackedUnits
      simp only [toNat_implicit]
      rfl

/-! ## Whole numbers -/

def placesBehind : Nat := 1074

def one : Nat := 2 ^ placesBehind

theorem one_pos : 0 < one := Nat.two_pow_pos _

theorem natAbs_signed (x : Float) (magnitude : Nat) : (signed x magnitude).natAbs = magnitude := by
  unfold signed
  split <;> omega

theorem signed_mul (x : Float) (a b : Nat) : signed x (a * b) = signed x a * b := by
  unfold signed
  split
  · rw [Nat.cast_mul, Int.neg_mul]
  · rw [Nat.cast_mul]

theorem fraction_eq (h : x.isFinite = true) :
    (units x).natAbs * (fraction x).2 = (fraction x).1 * one ∧ 0 < (fraction x).2 := by
  have hexponent : -1074 ≤ (parts x).exponent := by
    unfold parts
    dsimp only
    split <;> omega
  rw [units_eq_parts h, natAbs_signed]
  unfold fraction Parts.fraction twoTo one
  generalize (parts x).exponent = e at hexponent ⊢
  refine ⟨?_, Nat.two_pow_pos _⟩
  calc (parts x).significand * 2 ^ (e + 1074).toNat * 2 ^ (-e).toNat
    _ = (parts x).significand * 2 ^ ((e + 1074).toNat + (-e).toNat) := by rw [Nat.mul_assoc, ← Nat.pow_add]
    _ = (parts x).significand * 2 ^ (e.toNat + placesBehind) := by congr 2; unfold placesBehind; omega
    _ = (parts x).significand * 2 ^ e.toNat * 2 ^ placesBehind := by rw [Nat.mul_assoc, ← Nat.pow_add]

/-- A finite float is read as the integer that it is, if it is one. -/
theorem toInt?_eq_some_iff : toInt? x = some n ↔ x.isFinite = true ∧ units x = n * one := by
  unfold toInt?
  by_cases h : x.isFinite = true
  · obtain ⟨hfraction, hpos⟩ := fraction_eq h
    obtain ⟨magnitude, hunits⟩ : ∃ m, units x = signed x m := ⟨_, units_eq_parts h⟩
    rw [if_pos h, and_iff_right h]
    rw [hunits, natAbs_signed] at hfraction
    rw [hunits]
    generalize fraction x = f at hfraction hpos
    obtain ⟨num, den⟩ := f
    dsimp only at hfraction hpos ⊢
    -- Now `magnitude * den = num * one`, so that `den` divides `num` just where `one` divides the magnitude.
    constructor
    · intro hread
      split at hread
      · rename_i hmod
        obtain rfl := Option.some.inj hread
        obtain ⟨q, rfl⟩ := Nat.dvd_of_mod_eq_zero hmod
        have hmagnitude : magnitude = q * one :=
          Nat.eq_of_mul_eq_mul_right hpos (by rw [hfraction]; ring)
        rw [Nat.mul_div_cancel_left q hpos, hmagnitude, signed_mul]
      · cases hread
    · intro hvalue
      have hmagnitude : magnitude = n.natAbs * one := by
        rw [← natAbs_signed x magnitude, hvalue, Int.natAbs_mul, Int.natAbs_natCast]
      have hnum : num = n.natAbs * den :=
        Nat.eq_of_mul_eq_mul_right one_pos (by rw [← hfraction, hmagnitude]; ring)
      have hsigned : signed x n.natAbs = n := by
        rw [hmagnitude, signed_mul] at hvalue
        exact Int.eq_of_mul_eq_mul_right (by exact_mod_cast one_pos.ne') hvalue
      rw [hnum, Nat.mul_mod_left, Nat.mul_div_cancel _ hpos, hsigned]
      rfl
  · rw [if_neg h]
    exact ⟨nofun, fun hread => absurd hread.1 h⟩

/-- There are no digits behind the point. -/
def Whole (x : Float) : Prop := x.isFinite = true ∧ (one : Int) ∣ units x

theorem whole_iff : Whole x ↔ ∃ n, toInt? x = some n := by
  simp only [toInt?_eq_some_iff, exists_and_left]
  exact and_congr_right fun _ => ⟨fun ⟨n, hn⟩ => ⟨n, hn.trans (Int.mul_comm ..)⟩, fun ⟨n, hn⟩ => ⟨n, hn.trans (Int.mul_comm ..)⟩⟩

/-- Cut off at the point and held between two ends. What is not a number becomes zero. -/
def cast (low high : Int) (x : Float) : Int := if x.isNaN then 0 else max low (min high ((units x).tdiv one))

theorem isNaN_of_isFinite (h : x.isFinite = true) : x.isNaN = false := by
  have hfinite : x.toModel.unpack.isFinite = true := h
  show x.toModel.unpack.isNaN = false
  cases hx : x.toModel.unpack with
  | notANumber => rw [hx] at hfinite; cases hfinite
  | infinity | zero | finite => rfl

theorem cast_eq {low high : Int} (h : toInt? x = some n) (hlow : low ≤ n) (hhigh : n ≤ high) : cast low high x = n := by
  obtain ⟨hfinite, hunits⟩ := toInt?_eq_some_iff.mp h
  have hone : (one : Int) ≠ 0 := by exact_mod_cast one_pos.ne'
  unfold cast
  rw [isNaN_of_isFinite hfinite, hunits, Int.mul_tdiv_cancel n hone]
  simp only [Bool.false_eq_true, if_false]
  omega

theorem le_iff_of_toInt? {y : Float} {m : Int} (hx : toInt? x = some n) (hy : toInt? y = some m) : x ≤ y ↔ n ≤ m := by
  obtain ⟨hfx, hunits⟩ := toInt?_eq_some_iff.mp hx
  obtain ⟨hfy, hunits'⟩ := toInt?_eq_some_iff.mp hy
  have hone : (0 : Int) < one := by exact_mod_cast one_pos
  rw [le_iff, and_iff_right (number_of_isFinite hfx), and_iff_right (number_of_isFinite hfy), hunits, hunits']
  exact Int.mul_le_mul_right hone

theorem lt_iff_of_toInt? {y : Float} {m : Int} (hx : toInt? x = some n) (hy : toInt? y = some m) : x < y ↔ n < m := by
  obtain ⟨hfx, hunits⟩ := toInt?_eq_some_iff.mp hx
  obtain ⟨hfy, hunits'⟩ := toInt?_eq_some_iff.mp hy
  have hone : (0 : Int) < one := by exact_mod_cast one_pos
  rw [lt_iff, and_iff_right (number_of_isFinite hfx), and_iff_right (number_of_isFinite hfy), hunits, hunits']
  exact Int.mul_lt_mul_right hone

theorem toInt?_abs (h : toInt? x = some n) : toInt? x.abs = some n.natAbs := by
  obtain ⟨hfinite, hunits⟩ := toInt?_eq_some_iff.mp h
  refine toInt?_eq_some_iff.mpr ⟨isFinite_abs hfinite, ?_⟩
  rw [units_abs, hunits, Int.natAbs_mul, Int.natAbs_natCast, Nat.cast_mul]

end SolidScript.Binary64

namespace SolidScript.Script.Value

open Binary64

variable {v : Value}

def integerEnd : Float := 9223372036854775807

def countEnd : Float := 4294967295

@[simp]
theorem number?_eq_some_iff {x : Float} : v.number? = some x ↔ v = .number x := by
  cases v <;> simp [number?]

theorem integer?_iff_toInt? {n : Int} :
    v.integer? = some n ↔ ∃ x, v = .number x ∧ toInt? x = some n ∧ n.natAbs < twoTo 63 := by
  simp only [integer?, Option.bind_eq_bind, Option.bind_eq_some_iff, number?_eq_some_iff]
  constructor
  · rintro ⟨m, ⟨x, rfl, hm⟩, hguard⟩
    split at hguard
    · rename_i hlt
      obtain rfl := Option.some.inj hguard
      exact ⟨x, rfl, hm, hlt⟩
    · cases hguard
  · rintro ⟨x, rfl, hn, hlt⟩
    exact ⟨n, ⟨x, rfl, hn⟩, if_pos hlt⟩

theorem count?_iff_toInt? {n : Nat} :
    v.count? = some n ↔ ∃ x, v = .number x ∧ toInt? x = some (n : Int) ∧ n < twoTo 32 := by
  simp only [count?, Option.bind_eq_bind, Option.bind_eq_some_iff, number?_eq_some_iff]
  constructor
  · rintro ⟨m, ⟨x, rfl, hm⟩, hguard⟩
    split at hguard
    · rename_i hfits
      obtain rfl := Option.some.inj hguard
      simp only [fitsUnsigned, Bool.and_eq_true, decide_eq_true_eq] at hfits
      refine ⟨x, rfl, ?_, by omega⟩
      rwa [Int.toNat_of_nonneg hfits.1]
    · cases hguard
  · rintro ⟨x, rfl, hn, hlt⟩
    refine ⟨n, ⟨x, rfl, hn⟩, ?_⟩
    rw [if_pos (by simp [fitsUnsigned, hlt]), Int.toNat_natCast]

theorem integer?_iff_cast {n : Int} :
    v.integer? = some n ↔
      ∃ x, v = .number x ∧ Whole x ∧ x.abs < integerEnd ∧ n = cast leastInt greatestInt x ∧ units x = n * one := by
  have hend : toInt? integerEnd = some (twoTo 63) := rfl
  rw [integer?_iff_toInt?]
  refine exists_congr fun x => and_congr_right fun _ => ?_
  constructor
  · rintro ⟨hn, hlt⟩
    refine ⟨whole_iff.mpr ⟨n, hn⟩, ?_, ?_, (toInt?_eq_some_iff.mp hn).2⟩
    · rw [lt_iff_of_toInt? (toInt?_abs hn) hend]
      exact_mod_cast hlt
    -- Within the range of integers, nothing is cut off.
    · refine (cast_eq hn ?_ ?_).symm
      · unfold leastInt
        omega
      · unfold greatestInt
        omega
  · rintro ⟨hwhole, hlt, -, hunits⟩
    have hn : toInt? x = some n := toInt?_eq_some_iff.mpr ⟨hwhole.1, hunits⟩
    rw [lt_iff_of_toInt? (toInt?_abs hn) hend] at hlt
    exact ⟨hn, by exact_mod_cast hlt⟩

theorem count?_iff_cast {n : Nat} :
    v.count? = some n ↔
      ∃ x, v = .number x ∧ Whole x ∧ 0 ≤ x ∧ x ≤ countEnd ∧ n = cast 0 (twoTo 32 - 1) x ∧ units x = n * one := by
  have hend : toInt? countEnd = some (twoTo 32 - 1) := rfl
  have hzero : toInt? 0 = some 0 := toInt?_eq_some_iff.mpr ⟨rfl, (Int.zero_mul _).symm⟩
  rw [count?_iff_toInt?]
  refine exists_congr fun x => and_congr_right fun _ => ?_
  constructor
  · rintro ⟨hn, hlt⟩
    refine ⟨whole_iff.mpr ⟨n, hn⟩, ?_, ?_, (cast_eq hn (by omega) (by omega)).symm, (toInt?_eq_some_iff.mp hn).2⟩
    · rw [le_iff_of_toInt? hzero hn]
      omega
    · rw [le_iff_of_toInt? hn hend]
      omega
  · rintro ⟨hwhole, -, hle, -, hunits⟩
    have hn : toInt? x = some (n : Int) := toInt?_eq_some_iff.mpr ⟨hwhole.1, hunits⟩
    have hle : (n : Int) ≤ twoTo 32 - 1 := (le_iff_of_toInt? hn hend).mp hle
    exact ⟨hn, by omega⟩

end SolidScript.Script.Value
