import SolidScript.Model.Plan
import SolidScript.Proofs.Rounding

/-!
# Floats within limits

What is moved into limits stays when it is moved once more. Whether it has been moved is told by a
difference of floats, which is zero when it has not.
-/

namespace SolidScript

namespace Binary64

open Float.Model Float.Model.UnpackedFloat

variable {x y : Float}

/-! ## Order -/

theorem lt_irrefl_float (x : Float) : ¬ x < x := fun h => lt_irrefl _ (lt_iff.mp h).2.2

theorem le_refl_float (h : Number x) : x ≤ x := le_iff.mpr ⟨h, h, le_rfl⟩

theorem le_trans_float {z : Float} (h : x ≤ y) (h' : y ≤ z) : x ≤ z := by
  obtain ⟨hx, -, h⟩ := le_iff.mp h
  obtain ⟨-, hz, h'⟩ := le_iff.mp h'
  exact le_iff.mpr ⟨hx, hz, h.trans h'⟩

theorem not_lt_of_le_float (h : x ≤ y) : ¬ y < x := fun hlt => not_lt_of_ge (le_iff.mp h).2.2 (lt_iff.mp hlt).2.2

theorem abs_abs_float (x : Float) : x.abs.abs = x.abs := by
  have hunpack : x.abs.toModel.unpack.abs = x.toModel.unpack.abs := by
    rw [unpack_abs]
    cases x.toModel.unpack <;> rfl
  exact congrArg (fun u => Float.ofModel (Float.Model.pack u)) hunpack

theorem isFinite_abs (h : x.isFinite = true) : x.abs.isFinite = true := by
  obtain ⟨hnumber, hend⟩ := isFinite_iff.mp h
  rw [isFinite_iff, number_abs, units_abs]
  exact ⟨hnumber, hend⟩

theorem isFinite_of_between {z : Float} (hx : x.isFinite = true) (hz : z.isFinite = true) (hxy : x ≤ y) (hyz : y ≤ z) :
    y.isFinite = true := by
  obtain ⟨-, hx⟩ := isFinite_iff.mp hx
  obtain ⟨-, hz⟩ := isFinite_iff.mp hz
  obtain ⟨-, hy, hxy⟩ := le_iff.mp hxy
  obtain ⟨-, -, hyz⟩ := le_iff.mp hyz
  rw [isFinite_iff]
  exact ⟨hy, by omega⟩

theorem units_infinity : units (Scalar.infinity : Float) = unitsEnd := rfl

theorem not_infinity_lt (h : x.isFinite = true) : ¬ (Scalar.infinity : Float) < x := by
  intro hlt
  obtain ⟨-, -, hlt⟩ := lt_iff.mp hlt
  obtain ⟨-, hend⟩ := isFinite_iff.mp h
  rw [units_infinity] at hlt
  omega

theorem units_neg_infinity : units (-(Scalar.infinity : Float)) = -unitsEnd := rfl

theorem not_lt_neg_infinity (h : x.isFinite = true) : ¬ x < -(Scalar.infinity : Float) := by
  intro hlt
  obtain ⟨-, -, hlt⟩ := lt_iff.mp hlt
  obtain ⟨-, hend⟩ := isFinite_iff.mp h
  rw [units_neg_infinity] at hlt
  omega

/-! ## Differences -/

theorem near_error {exact rounded : Int} {k : Nat} (h : Near exact rounded) (hk : exact.natAbs < 2 ^ (k + 53)) :
    2 * (rounded - exact).natAbs ≤ 2 ^ k := by
  refine h.trans (Nat.pow_le_pow_right (by decide) ?_)
  rcases Nat.eq_zero_or_pos exact.natAbs with hzero | hpos
  · rw [hzero, Nat.log2_zero]
    exact Nat.zero_le k
  · have := (Nat.log2_lt hpos.ne').mpr hk
    omega

theorem near_zero {rounded : Int} (h : Near 0 rounded) : rounded = 0 := by
  have := near_error (k := 0) h (by decide)
  omega

theorem two_pow_lt_unitsEnd {k : Nat} (hk : k < places) : 2 ^ k < unitsEnd := Nat.pow_lt_pow_right (by decide) hk

theorem units_sub_self (h : x.isFinite = true) : units (x - x) = 0 := by
  have hend : (units x - units x).natAbs + 2 ^ (places - 54) < unitsEnd := by
    rw [Int.sub_self, Int.natAbs_zero, Nat.zero_add]
    exact two_pow_lt_unitsEnd (by decide)
  have hnear := (isFinite_units_sub h h hend).2
  rw [Int.sub_self] at hnear
  exact near_zero hnear

theorem unitsEnd_eq : unitsEnd = 2 ^ 53 * 2 ^ (places - 53) := by
  have hplaces : places = 53 + (places - 53) := by decide
  unfold unitsEnd
  generalize places - 53 = q at *
  rw [hplaces, Nat.pow_add]

theorem units_le_of_isFinite (h : x.isFinite = true) : (units x).natAbs + 2 ^ (places - 53) ≤ unitsEnd := by
  have hcanonical := canonical_unpack x
  have hlt := (isFinite_iff.mp h).2
  have hfinite : x.toModel.unpack.isFinite = true := h
  unfold units at *
  rw [unitsEnd_eq]
  cases hx : x.toModel.unpack with
  | notANumber | infinity =>
    rw [hx] at hfinite
    cases hfinite
  | zero => exact (Nat.zero_add _).trans_le (Nat.le_mul_of_pos_left _ (Nat.two_pow_pos 53))
  | finite s m e hm =>
    rw [hx] at hcanonical hlt
    rw [natAbs_unpackedUnits_finite] at *
    have hdigits : m < 2 ^ 53 :=
      lt_of_lt_of_le Nat.lt_log2_self (Nat.pow_le_pow_right (by decide) (Nat.succ_le_succ hcanonical.log2_le))
    -- With a greater exponent, the leading digit would stand past the end.
    have hk : (e + 1074).toNat ≤ places - 53 := by
      have hlog : (m * 2 ^ (e + 1074).toNat).log2 < places := (Nat.log2_lt (magnitude_pos hm e).ne').mpr hlt
      rw [log2_mul_two_pow hm.ne'] at hlog
      by_cases he : e = -1074
      · rw [he]
        exact Nat.zero_le _
      · have hge := hcanonical.exponent_ge
        have := hcanonical.log2_eq (by omega)
        omega
    calc m * 2 ^ (e + 1074).toNat + 2 ^ (places - 53)
      _ ≤ m * 2 ^ (places - 53) + 2 ^ (places - 53) :=
        Nat.add_le_add_right (Nat.mul_le_mul_left m (Nat.pow_le_pow_right (by decide) hk)) _
      _ = (m + 1) * 2 ^ (places - 53) := (Nat.succ_mul ..).symm
      _ ≤ 2 ^ 53 * 2 ^ (places - 53) := Nat.mul_le_mul_right _ hdigits

/-- What is small against the last digit of the greatest floats takes none of them out of the finite. -/
theorem near_end {a b : Nat} (ha : a + 2 ^ (places - 53) ≤ unitsEnd) (hb : b < 2 ^ (places - 54)) :
    a + b + 2 ^ (places - 54) < unitsEnd := by
  have hplaces : places - 53 = places - 54 + 1 := by decide
  have hdouble : 2 ^ (places - 53) = 2 * 2 ^ (places - 54) := by
    rw [hplaces]
    generalize places - 54 = p
    exact Nat.pow_succ'
  omega

theorem isFinite_add_of_small (hx : x.isFinite = true) (hy : y.isFinite = true)
    (hsmall : (units y).natAbs < 2 ^ (places - 54)) : (x + y).isFinite = true := by
  refine (isFinite_units_add hx hy ?_).1
  refine lt_of_le_of_lt (Nat.add_le_add_right (Int.natAbs_add_le _ _) _) ?_
  exact near_end (units_le_of_isFinite hx) hsmall

theorem isFinite_sub_of_small (hx : x.isFinite = true) (hy : y.isFinite = true)
    (hsmall : (units y).natAbs < 2 ^ (places - 54)) : (x - y).isFinite = true := by
  refine (isFinite_units_sub hx hy ?_).1
  refine lt_of_le_of_lt (Nat.add_le_add_right (Int.natAbs_sub_le _ _) _) ?_
  exact near_end (units_le_of_isFinite hx) hsmall

/-! ## Amounts that are not reported -/

def tolerancePlace : Nat := 982

theorem units_clampTolerance : units Plan.clampTolerance = (4951760157141521 * 2 ^ tolerancePlace : Nat) := by
  have hunpack : Plan.clampTolerance.toModel.unpack = .finite .positive 4951760157141521 (-92) (by decide) := rfl
  have hplace : ((-92 : Int) + 1074).toNat = tolerancePlace := rfl
  unfold units
  rw [hunpack, ← hplace]
  rfl

theorem not_clampTolerance_lt (h : (units x).natAbs ≤ 4951760157141521 * 2 ^ tolerancePlace) :
    ¬ Plan.clampTolerance < x.abs := by
  intro hlt
  have hlt := (lt_iff.mp hlt).2.2
  rw [units_clampTolerance, units_abs] at hlt
  omega

theorem not_number_sub_self (h : ¬ x.isFinite = true) : ¬ Number (x - x) := by
  have hnot : ¬ x.toModel.unpack.isFinite = true := h
  have hsub : UnpackedFloat.sub Format.binary64 x.toModel.unpack x.toModel.unpack = .notANumber := by
    cases hx : x.toModel.unpack with
    | notANumber => rfl
    | infinity s => cases s <;> rfl
    | zero | finite => exact absurd (by rw [hx]; rfl) hnot
  have hunpack : (x - x).toModel.unpack = (Float.Model.pack .notANumber).unpack :=
    congrArg (fun u => (Float.Model.pack u).unpack) hsub
  unfold Number
  rw [hunpack]
  exact fun hnumber => hnumber rfl

theorem not_clampTolerance_lt_sub_self (x : Float) : ¬ Plan.clampTolerance < (x - x).abs := by
  by_cases h : x.isFinite = true
  · apply not_clampTolerance_lt
    rw [units_sub_self h]
    exact Nat.zero_le _
  · exact fun hlt => not_number_sub_self h (number_abs.mp (lt_iff.mp hlt).2.1)

/-- Floats below which a sum is off by less than the tolerance. -/
def exactEnough : Float := 4096

theorem units_exactEnough : units exactEnough = (2 ^ (tolerancePlace + 104) : Nat) := by
  have hunpack : exactEnough.toModel.unpack = .finite .positive (2 ^ 52) (-40) (by decide) := rfl
  have hunits : unpackedUnits (.finite .positive (2 ^ 52) (-40) (by decide)) =
      (2 ^ 52 * 2 ^ ((-40 : Int) + 1074).toNat : Nat) := rfl
  have hplace : tolerancePlace + 104 = 52 + ((-40 : Int) + 1074).toNat := rfl
  unfold units
  rw [hunpack, hunits, ← Nat.pow_add, hplace]

theorem isFinite_of_abs_lt {c : Float} (h : x.abs < c) (hc : c.isFinite = true) : x.isFinite = true := by
  obtain ⟨hnumber, -, hlt⟩ := lt_iff.mp h
  obtain ⟨-, hend⟩ := isFinite_iff.mp hc
  rw [units_abs] at hlt
  exact isFinite_iff.mpr ⟨number_abs.mp hnumber, by omega⟩

theorem natAbs_units_lt (h : x.abs < exactEnough) : (units x).natAbs < 2 ^ (tolerancePlace + 104) := by
  have hlt := (lt_iff.mp h).2.2
  rw [units_abs, units_exactEnough] at hlt
  exact Int.ofNat_lt.mp hlt

theorem moderate_end {n : Nat} (h : n < 2 ^ (tolerancePlace + 106)) : n + 2 ^ (places - 54) < unitsEnd := by
  have hb : n < 2 ^ (places - 54) := h.trans_le (Nat.pow_le_pow_right (by decide) (by decide))
  have hend : 0 + 2 ^ (places - 53) ≤ unitsEnd := by
    rw [Nat.zero_add]
    exact Nat.pow_le_pow_right (by decide) (by decide)
  rw [← Nat.zero_add n]
  exact near_end hend hb

theorem isFinite_add_of_moderate (hx : x.abs < exactEnough) (hy : y.abs < exactEnough) : (x + y).isFinite = true := by
  have hunits_x := natAbs_units_lt hx
  have hunits_y := natAbs_units_lt hy
  refine (isFinite_units_add (isFinite_of_abs_lt hx rfl) (isFinite_of_abs_lt hy rfl) (moderate_end ?_)).1
  rw [Nat.pow_add] at *
  omega

/-- Among moderate floats, a sum that a term is taken away from again is as good as the other term. -/
theorem not_clampTolerance_lt_add_sub (hx : x.abs < exactEnough) (hy : y.abs < exactEnough) :
    ¬ Plan.clampTolerance < (y - ((x + y) - x)).abs := by
  have hfinite_x := isFinite_of_abs_lt hx rfl
  have hfinite_y := isFinite_of_abs_lt hy rfl
  have hunits_x := natAbs_units_lt hx
  have hunits_y := natAbs_units_lt hy
  have hpow (n : Nat) : 2 ^ (tolerancePlace + n) = 2 ^ n * 2 ^ tolerancePlace := by rw [Nat.add_comm, Nat.pow_add]
  have hpos : 0 < 2 ^ tolerancePlace := Nat.two_pow_pos _
  -- The sum is rounded, what is left of it is, and so is the difference that is compared.
  obtain ⟨hfinite_sum, hsum⟩ := isFinite_units_add hfinite_x hfinite_y (moderate_end (by
    rw [hpow] at *
    omega))
  have hsum_error := near_error (k := tolerancePlace + 52) hsum (by
    rw [hpow] at hunits_x hunits_y
    rw [Nat.add_assoc, hpow]
    omega)
  obtain ⟨hfinite_back, hback⟩ := isFinite_units_sub hfinite_sum hfinite_x (moderate_end (by
    rw [hpow] at *
    omega))
  have hback_error := near_error (k := tolerancePlace + 52) hback (by
    rw [hpow] at hunits_x hunits_y hsum_error
    rw [Nat.add_assoc, hpow]
    omega)
  obtain ⟨-, herror⟩ := isFinite_units_sub hfinite_y hfinite_back (moderate_end (by
    rw [hpow] at *
    omega))
  rw [hpow] at hsum_error hback_error
  have herror := near_error (k := tolerancePlace) herror (by
    rw [hpow]
    omega)
  apply not_clampTolerance_lt
  omega

end Binary64

open Binary64

structure Limits where
  low : Float
  high : Float

namespace Limits

def Keeps (l : Limits) (a : Float) : Prop := ¬ a < l.low ∧ ¬ l.high < a

def hold (l : Limits) (a : Float) : Float := if a < l.low then l.low else if l.high < a then l.high else a

variable {l : Limits} {a b low high : Float}

theorem hold_of_keeps (h : l.Keeps a) : l.hold a = a := by
  unfold hold
  rw [if_neg h.1, if_neg h.2]

theorem keeps_hold (h : l.low ≤ l.high) : l.Keeps (l.hold a) := by
  unfold hold Keeps
  split
  · exact ⟨lt_irrefl_float _, not_lt_of_le_float h⟩
  · rename_i hlow
    split
    · exact ⟨not_lt_of_le_float h, lt_irrefl_float _⟩
    · rename_i hhigh
      exact ⟨hlow, hhigh⟩

theorem isFinite_hold (ha : a.isFinite = true) (hlow : a < l.low → l.low.isFinite = true)
    (hhigh : l.high < a → l.high.isFinite = true) : (l.hold a).isFinite = true := by
  unfold hold
  split
  · rename_i h
    exact hlow h
  · split
    · rename_i h
      exact hhigh h
    · exact ha

theorem clamp_eq_ok_iff : Fault.clamp low high a = .ok b ↔ low ≤ high ∧ b = (⟨low, high⟩ : Limits).hold a := by
  unfold Fault.clamp Scalar.clamp?
  by_cases h : low ≤ high
  · rw [if_pos h]
    exact ⟨fun hb => ⟨h, (Except.ok.inj hb).symm⟩, fun hb => congrArg Except.ok hb.2.symm⟩
  · rw [if_neg h]
    constructor
    · intro hb
      cases hb
    · intro hb
      exact absurd hb.1 h

theorem clamp_of_clamp (h : Fault.clamp low high a = .ok b) : Fault.clamp low high b = .ok b := by
  obtain ⟨hle, hb⟩ := clamp_eq_ok_iff.mp h
  have hkeeps : (⟨low, high⟩ : Limits).Keeps b := by
    rw [hb]
    exact keeps_hold hle
  exact clamp_eq_ok_iff.mpr ⟨hle, (hold_of_keeps hkeeps).symm⟩

theorem isFinite_greatest (ha : a.isFinite = true) (hb : b.isFinite = true) :
    (Scalar.greatest a b).isFinite = true := by
  unfold Scalar.greatest
  split
  · exact ha
  · exact hb

theorem isFinite_of_clamp (ha : a.isFinite = true) (hlow : low.isFinite = true) (h : Fault.clamp low high a = .ok b) :
    b.isFinite = true := by
  obtain ⟨hle, rfl⟩ := clamp_eq_ok_iff.mp h
  refine isFinite_hold ha (fun _ => hlow) fun hlt => ?_
  have hle' : high ≤ a := by
    obtain ⟨hhigh, ha, hlt⟩ := lt_iff.mp hlt
    exact le_iff.mpr ⟨hhigh, ha, hlt.le⟩
  exact isFinite_of_between hlow ha hle hle'

theorem greatest_eq_hold (ha : a.isFinite = true) : Scalar.greatest a b = (⟨b, Scalar.infinity⟩ : Limits).hold a := by
  have hself : a ≤ a := le_refl_float (number_of_isFinite ha)
  show (if a ≤ a ∧ ¬ a < b then a else b) =
    if a < b then b else if Scalar.infinity < a then Scalar.infinity else a
  by_cases h : a < b
  · rw [if_neg fun hboth => hboth.2 h, if_pos h]
  · rw [if_pos ⟨hself, h⟩, if_neg h, if_neg (not_infinity_lt ha)]

theorem least_eq_hold (ha : a.isFinite = true) : Scalar.least a b = (⟨-Scalar.infinity, b⟩ : Limits).hold a := by
  have hself : a ≤ a := le_refl_float (number_of_isFinite ha)
  show (if a ≤ a ∧ ¬ b < a then a else b) =
    if a < -Scalar.infinity then -Scalar.infinity else if b < a then b else a
  rw [if_neg (not_lt_neg_infinity ha)]
  by_cases h : b < a
  · rw [if_neg fun hboth => hboth.2 h, if_pos h]
  · rw [if_pos ⟨hself, h⟩, if_neg h]

theorem le_greatest (ha : a.isFinite = true) (b : Float) : a ≤ Scalar.greatest a b := by
  have hself : a ≤ a := le_refl_float (number_of_isFinite ha)
  unfold Scalar.greatest
  split
  · exact hself
  · rename_i h
    have hlt : a < b := not_not.mp fun hnot => h ⟨hself, hnot⟩
    obtain ⟨ha, hb, hlt⟩ := lt_iff.mp hlt
    exact le_iff.mpr ⟨ha, hb, hlt.le⟩

theorem least_le (ha : a.isFinite = true) (b : Float) : Scalar.least a b ≤ a := by
  have hself : a ≤ a := le_refl_float (number_of_isFinite ha)
  unfold Scalar.least
  split
  · exact hself
  · rename_i h
    have hlt : b < a := not_not.mp fun hnot => h ⟨hself, hnot⟩
    obtain ⟨hb, ha, hlt⟩ := lt_iff.mp hlt
    exact le_iff.mpr ⟨hb, ha, hlt.le⟩

theorem greatest_greatest (a b : Float) : Scalar.greatest (Scalar.greatest a b) b = Scalar.greatest a b := by
  unfold Scalar.greatest
  split
  · rfl
  · exact ite_self b

theorem least_least (a b : Float) : Scalar.least (Scalar.least a b) b = Scalar.least a b := by
  unfold Scalar.least
  split
  · rfl
  · exact ite_self b

end Limits

end SolidScript
