import SolidScript.Proofs.Negation

/-!
# How large floats become

The leading digit of a sum, a product or a quotient stands at most two places above those of its terms, rounding
included. As long as it stays below place 1024, the result is finite.
-/

namespace SolidScript.Binary64

open Float.Model Float.Model.UnpackedFloat

/-! ## Leading digits -/

theorem log2_shiftLeft {m : Nat} (hm : m ≠ 0) (n : Nat) : (m <<< n).log2 = m.log2 + n := by
  have hpow : 0 < 2 ^ n := Nat.two_pow_pos n
  rw [Nat.shiftLeft_eq, Nat.log2_eq_iff (Nat.mul_ne_zero hm hpow.ne'), Nat.add_right_comm, Nat.pow_add, Nat.pow_add]
  exact ⟨Nat.mul_le_mul_right _ (Nat.log2_self_le hm), Nat.mul_lt_mul_of_pos_right Nat.lt_log2_self hpow⟩

theorem log2_div_two_pow (m n : Nat) : (m / 2 ^ n).log2 = m.log2 - n := by
  rw [Nat.log2_eq_log_two, Nat.log2_eq_log_two, Nat.log_div_base_pow]

theorem le_log2_of_div_ne_zero {m n : Nat} (h : m / 2 ^ n ≠ 0) : n ≤ m.log2 := by
  by_contra hlt
  apply h
  apply Nat.div_eq_of_lt
  exact lt_of_lt_of_le Nat.lt_log2_self (Nat.pow_le_pow_right (by decide) (by omega))

theorem log2_mono {m n : Nat} (h : m ≤ n) : m.log2 ≤ n.log2 := by
  rw [Nat.log2_eq_log_two, Nat.log2_eq_log_two]
  exact Nat.log_mono_right h

theorem log2_succ_le {m : Nat} (hm : m ≠ 0) : (m + 1).log2 ≤ m.log2 + 1 := by
  rw [← Nat.log2_two_mul hm]
  exact log2_mono (by omega)

theorem log2_mul_le {m n : Nat} (hm : m ≠ 0) (hn : n ≠ 0) : (m * n).log2 ≤ m.log2 + n.log2 + 1 := by
  have hlt : m * n < 2 ^ (m.log2 + 1) * 2 ^ (n.log2 + 1) := Nat.mul_lt_mul'' Nat.lt_log2_self Nat.lt_log2_self
  rw [← Nat.pow_add, ← Nat.log2_lt (Nat.mul_ne_zero hm hn)] at hlt
  omega

theorem log2_add_le_log2_mul {m n : Nat} (hm : m ≠ 0) (hn : n ≠ 0) : m.log2 + n.log2 ≤ (m * n).log2 := by
  rw [Nat.le_log2 (Nat.mul_ne_zero hm hn), Nat.pow_add]
  exact Nat.mul_le_mul (Nat.log2_self_le hm) (Nat.log2_self_le hn)

def leading (m : Nat) (e : Int) : Int := m.log2 + e

/-- The least exponent that a mantissa of 53 digits leaves to a number. -/
def leastExponent (m : Nat) (e : Int) : Int := max (leading m e - 52) (-1074)

theorem targetExponent_eq (m : Nat) (e : Int) :
    Format.binary64.targetExponent (totalExponent m e) = leastExponent m e := by
  simp only [Format.targetExponent, totalExponent, Format.mantissaBits, Format.minExponent, leastExponent, leading]
  norm_num
  omega

/-- A number that has its leading digit below a place, and as many digits as it needs. -/
def Below (k : Int) : UnpackedFloat → Prop
  | .zero _ => True
  | .finite _ m e _ => leading m e < k ∧ m.log2 ≤ 52 ∧ e ≤ leastExponent m e
  | _ => False

theorem Below.mono {k l : Int} {x : UnpackedFloat} (h : Below k x) (hkl : k ≤ l) : Below l x := by
  cases x with
  | zero => trivial
  | finite s m e hm => exact ⟨h.1.trans_le hkl, h.2⟩
  | infinity | notANumber => exact h

/-! ## Rounding -/

theorem mantissa_shiftRight (em : ExtendedMantissa) (n : Nat) : (em >>> n).mantissa = em.mantissa / 2 ^ n := by
  induction n with
  | zero => exact (Nat.div_one _).symm
  | succ n ih =>
    show (em >>> n).mantissa / 2 = _
    rw [ih, Nat.div_div_eq_div_mul, Nat.pow_succ]

theorem mantissa_ofMantissaAndAccuracy (m : Nat) (accuracy : Accuracy) :
    (ExtendedMantissa.ofMantissaAndAccuracy m accuracy).mantissa = m := by
  cases accuracy with
  | exact => rfl
  | inexact side => cases side <;> rfl

theorem roundedMantissa_bounds (em : ExtendedMantissa) :
    em.mantissa ≤ em.roundedMantissa ∧ em.roundedMantissa ≤ em.mantissa + 1 := by
  obtain ⟨m, round, sticky⟩ := em
  cases round <;> cases sticky <;>
    simp [ExtendedMantissa.roundedMantissa, ExtendedMantissa.accuracy, Accuracy.roundToNearestEven]
  omega

theorem shiftToTargetExponent_eq {m : Nat} {e : Int} (he : e ≤ leastExponent m e) (accuracy : Accuracy) :
    (shiftToTargetExponent Format.binary64 m e accuracy).1.mantissa = m / 2 ^ (leastExponent m e - e).toNat ∧
    (shiftToTargetExponent Format.binary64 m e accuracy).2 = leastExponent m e := by
  unfold shiftToTargetExponent shiftToExponent
  rw [targetExponent_eq]
  refine ⟨?_, ?_⟩
  · dsimp only
    rw [mantissa_shiftRight, mantissa_ofMantissaAndAccuracy]
  · dsimp only
    omega

/-- What is left of a mantissa, rounded to either side, leads at most one place higher, and needs no lower exponent. -/
theorem leading_rounded {m r : Nat} {e k : Int} (he : e ≤ leastExponent m e) (hk : -1074 ≤ k) (hlead : leading m e < k)
    (hle : m / 2 ^ (leastExponent m e - e).toNat ≤ r) (hle' : r ≤ m / 2 ^ (leastExponent m e - e).toNat + 1) :
    leading r (leastExponent m e) ≤ k ∧ leastExponent m e ≤ leastExponent r (leastExponent m e) := by
  have hlog := log2_div_two_pow m (leastExponent m e - e).toNat
  have hmono := log2_mono hle
  have hmono' := log2_mono hle'
  unfold leastExponent leading at *
  by_cases hzero : m / 2 ^ (max ((m.log2 : Int) + e - 52) (-1074) - e).toNat = 0
  · -- Rounding leaves one digit at most, and only subnormal numbers lose all others.
    rw [hzero] at hlog hmono'
    have hone : (0 + 1 : Nat).log2 = 0 := by decide
    rw [hone] at hmono'
    rw [Nat.log2_zero] at hlog
    omega
  · have hsucc := log2_succ_le hzero
    have hpos := le_log2_of_div_ne_zero hzero
    omega

theorem below_roundWithAccuracy {m : Nat} {e k : Int} (he : e ≤ leastExponent m e) (hk : -1074 ≤ k)
    (hlead : leading m e < k) (s : Sign) (accuracy : Accuracy) :
    Below (k + 1) (roundWithAccuracy Format.binary64 s m e accuracy) := by
  obtain ⟨hmantissa, hexponent⟩ := shiftToTargetExponent_eq he accuracy
  obtain ⟨hle, hle'⟩ := roundedMantissa_bounds (shiftToTargetExponent Format.binary64 m e accuracy).1
  rw [hmantissa] at hle hle'
  obtain ⟨hlead', hleast⟩ := leading_rounded he hk hlead hle hle'
  unfold roundWithAccuracy
  generalize shiftToTargetExponent Format.binary64 m e accuracy = first at *
  obtain ⟨em, t⟩ := first
  dsimp only at *
  rw [← hexponent] at hlead' hleast
  generalize em.roundedMantissa = r at *
  -- The second shift drops the digit that rounding may have added.
  obtain ⟨hfinal, hexponent'⟩ := shiftToTargetExponent_eq hleast .exact
  generalize shiftToTargetExponent Format.binary64 r t .exact = second at *
  obtain ⟨em', t'⟩ := second
  dsimp only at *
  split
  · trivial
  · rename_i hne
    have hlog := log2_div_two_pow r (leastExponent r t - t).toNat
    rw [← hfinal] at hlog
    have hpos : (leastExponent r t - t).toNat ≤ r.log2 := le_log2_of_div_ne_zero (hfinal ▸ hne)
    unfold Below leastExponent leading at *
    omega

/-! ## Packing -/

theorem below_unpack_subnormal (s : Sign) (m : BitVec 52) {k : Int} (hk : -1022 ≤ k) :
    Below k (UnpackedFloat.unpack Format.binary64 (ofParts s 0#11 m)) := by
  unfold UnpackedFloat.unpack
  simp only [unpackMantissa_packComponents, unpackExponent_packComponents, unpackSign_ofParts, ofBitVec_toBitVec]
  split
  · rename_i h
    exact absurd h (by decide)
  · split
    · split
      · trivial
      · rename_i hm
        have hne : m.toNat ≠ 0 := fun h => hm (BitVec.eq_of_toNat_eq h)
        have hlog : m.toNat.log2 < 52 := (Nat.log2_lt hne).mpr m.isLt
        show leading m.toNat (0 - (1023 + 52) + 1) < k ∧ m.toNat.log2 ≤ 52 ∧
          (0 - (1023 + 52) + 1 : Int) ≤ leastExponent m.toNat (0 - (1023 + 52) + 1)
        unfold leastExponent leading
        omega
    · rename_i h
      exact absurd trivial h

theorem below_unpack_normal (s : Sign) {e : BitVec 11} (he : e ≠ -1#11) (he' : e ≠ 0#11) (m : BitVec 52) {k : Int}
    (hk : (e.toNat : Int) - 1023 < k) :
    Below k (UnpackedFloat.unpack Format.binary64 (ofParts s e m)) := by
  unfold UnpackedFloat.unpack
  simp only [unpackMantissa_packComponents, unpackExponent_packComponents, unpackSign_ofParts, ofBitVec_toBitVec]
  rw [if_neg he, if_neg he']
  have hlog : (1#1 ++ m).toNat.log2 = 52 := by
    have hm := m.isLt
    rw [toNat_implicit, Nat.log2_eq_iff (by omega)]
    omega
  have hpos : e.toNat ≠ 0 := fun h => he' (BitVec.eq_of_toNat_eq h)
  show leading (1#1 ++ m).toNat (e.toNat - (1023 + 52)) < k ∧ (1#1 ++ m).toNat.log2 ≤ 52 ∧
    (e.toNat - (1023 + 52) : Int) ≤ leastExponent (1#1 ++ m).toNat (e.toNat - (1023 + 52))
  unfold leastExponent leading
  omega

theorem below_pack {k : Int} (hk : -1022 ≤ k) (hk' : k ≤ 1024) {x : UnpackedFloat} (h : Below k x) :
    Below k (Float.Model.pack x).unpack := by
  show Below k (UnpackedFloat.unpack Format.binary64 (UnpackedFloat.pack Format.binary64 x))
  cases x with
  | infinity | notANumber => exact h.elim
  | zero s => exact below_unpack_subnormal s 0 hk
  | finite s m e hm =>
    obtain ⟨hlead, hdigits, hleast⟩ := h
    have hbiased : ¬ 2 ^ 11 ≤ (e + 1023 + 52).toNat + 1 := by
      unfold leastExponent leading at *
      omega
    show Below k (UnpackedFloat.unpack Format.binary64
      (if 2 ^ 11 ≤ (e + 1023 + 52).toNat + 1 then packedInfinity Format.binary64 s
      else if m.log2 + 1 = 53 then ofParts s (BitVec.ofNat 11 (e + 1023 + 52).toNat) (BitVec.ofNat 52 m)
      else ofParts s 0#11 (BitVec.ofNat 52 m)))
    rw [if_neg hbiased]
    split
    · rename_i hlog
      -- A mantissa of 53 digits is unpacked as it was, with its leading digit put back.
      by_cases hzero : BitVec.ofNat 11 (e + 1023 + 52).toNat = 0#11
      · rw [hzero]
        exact below_unpack_subnormal s _ hk
      · have htoNat : (BitVec.ofNat 11 (e + 1023 + 52).toNat).toNat = (e + 1023 + 52).toNat :=
          Nat.mod_eq_of_lt (by omega)
        refine below_unpack_normal s ?_ hzero _ ?_
        · intro hall
          have : (BitVec.ofNat 11 (e + 1023 + 52).toNat).toNat = 2047 := by rw [hall]; rfl
          omega
        · have hpos : (BitVec.ofNat 11 (e + 1023 + 52).toNat).toNat ≠ 0 := fun h => hzero (BitVec.eq_of_toNat_eq h)
          unfold leading at hlead
          omega
    · exact below_unpack_subnormal s _ hk

/-! ## Operations -/

theorem below_round {m : Nat} {e k : Int} (hm : m ≠ 0) (hk : -1074 ≤ k) (hlead : leading m e < k) (s : Sign) :
    Below (k + 1) (UnpackedFloat.round Format.binary64 s m e) := by
  have hlog := log2_shiftLeft hm (e - leastExponent m e).toNat
  unfold UnpackedFloat.round decreaseExponent
  rw [targetExponent_eq]
  apply below_roundWithAccuracy _ hk
  · unfold leading at *
    omega
  · unfold leastExponent leading at *
    omega

theorem below_normalize {z e k : Int} (hk : -1074 ≤ k) (hlead : leading z.natAbs e < k) (s : Sign) :
    Below (k + 1) (UnpackedFloat.normalize Format.binary64 z e s) := by
  unfold UnpackedFloat.normalize
  split
  · rename_i hneg
    have hz : z < 0 := compare_lt_iff_lt.mp hneg
    rw [show (-z).toNat = z.natAbs by omega]
    exact below_round (by omega) hk hlead _
  · trivial
  · rename_i hpos
    have hz : 0 < z := compare_gt_iff_gt.mp hpos
    rw [show z.toNat = z.natAbs by omega]
    exact below_round (by omega) hk hlead _

theorem natAbs_apply (s : Sign) (n : Int) : (s.apply n).natAbs = n.natAbs := by
  cases s <;> simp [Sign.apply]

theorem below_add {k : Int} (hk : -1074 ≤ k) {x y : UnpackedFloat} (hx : Below k x) (hy : Below k y) :
    Below (k + 2) (UnpackedFloat.add Format.binary64 x y) := by
  match x, y, hx, hy with
  | .zero s, .zero t, _, _ =>
    unfold UnpackedFloat.add
    dsimp only
    split <;> trivial
  | .zero _, .finite .., _, hy => exact hy.mono (by omega)
  | .finite .., .zero _, hx, _ => exact hx.mono (by omega)
  | .finite s₁ m₁ e₁ hm₁, .finite s₂ m₂ e₂ hm₂, hx, hy =>
    have hlog₁ := log2_shiftLeft hm₁.ne' (e₁ - min e₁ e₂).toNat
    have hlog₂ := log2_shiftLeft hm₂.ne' (e₂ - min e₁ e₂).toNat
    have hlead₁ := hx.1
    have hlead₂ := hy.1
    show Below (k + 2) (UnpackedFloat.normalize Format.binary64 (s₁.apply (m₁ <<< (e₁ - min e₁ e₂).toNat : Nat) +
      s₂.apply (m₂ <<< (e₂ - min e₁ e₂).toNat : Nat)) (min e₁ e₂) .positive)
    rw [show k + 2 = k + 1 + 1 by ring]
    apply below_normalize (by omega)
    have hpos₁ : m₁ <<< (e₁ - min e₁ e₂).toNat ≠ 0 := by simp [hm₁.ne']
    generalize m₁ <<< (e₁ - min e₁ e₂).toNat = a at *
    generalize m₂ <<< (e₂ - min e₁ e₂).toNat = b at *
    -- The sum has one digit more than the longer term, at most.
    have hsum : (s₁.apply (a : Int) + s₂.apply (b : Int)).natAbs ≤ 2 * max a b := by
      have habs := Int.natAbs_add_le (s₁.apply (a : Int)) (s₂.apply (b : Int))
      rw [natAbs_apply, natAbs_apply] at habs
      omega
    have hlog := log2_mono hsum
    rw [Nat.log2_two_mul (by omega)] at hlog
    unfold leading at *
    rcases le_total a b with hle | hle
    · rw [max_eq_right hle] at hlog
      omega
    · rw [max_eq_left hle] at hlog
      omega

theorem below_mul {j k : Int} (hjk : -1074 ≤ j + k) {x y : UnpackedFloat} (hx : Below j x) (hy : Below k y) :
    Below (j + k + 1) (UnpackedFloat.mul Format.binary64 x y) := by
  match x, y, hx, hy with
  | .zero _, .zero _, _, _ | .zero _, .finite .., _, _ | .finite .., .zero _, _, _ => trivial
  | .finite s₁ m₁ e₁ hm₁, .finite s₂ m₂ e₂ hm₂, hx, hy =>
    have hle := log2_mul_le hm₁.ne' hm₂.ne'
    have hge := log2_add_le_log2_mul hm₁.ne' hm₂.ne'
    obtain ⟨hlead₁, -, hleast₁⟩ := hx
    obtain ⟨hlead₂, -, hleast₂⟩ := hy
    apply below_roundWithAccuracy _ hjk
    · unfold leading at *
      omega
    · unfold leastExponent leading at *
      omega

theorem log2_div_bounds {m n : Nat} (hn : n ≠ 0) (h : n ≤ m) :
    m.log2 ≤ (m / n).log2 + n.log2 + 1 ∧ (m / n).log2 + n.log2 ≤ m.log2 := by
  have hquotient : m / n ≠ 0 := (Nat.div_pos h (Nat.pos_of_ne_zero hn)).ne'
  constructor
  · have hlt : m < 2 ^ (m / n).log2.succ * 2 ^ n.log2.succ := by
      calc m < (m / n + 1) * n := by rw [← Nat.div_lt_iff_lt_mul (Nat.pos_of_ne_zero hn)]; exact Nat.lt_succ_self _
        _ ≤ 2 ^ (m / n).log2.succ * 2 ^ n.log2.succ := Nat.mul_le_mul Nat.lt_log2_self Nat.lt_log2_self.le
    rw [← Nat.pow_add, ← Nat.log2_lt (by omega)] at hlt
    omega
  · exact (log2_add_le_log2_mul hquotient hn).trans (log2_mono (Nat.div_mul_le_self m n))

theorem exists_divCore {m₁ m₂ : Nat} (hm₁ : 0 < m₁) (hm₂ : 0 < m₂) (e₁ e₂ : Int) :
    ∃ (t : Int) (n : Nat), t + n = e₁ - e₂ ∧
      divCore Format.binary64 m₁ e₁ m₂ e₂ = (m₁ <<< n / m₂, t, accuracyOfFraction (m₁ <<< n % m₂) m₂) ∧
      t ≤ leastExponent (m₁ <<< n / m₂) t ∧
      leading (m₁ <<< n / m₂) t ≤ max (leading m₁ e₁ - leading m₂ e₂) (-1074) := by
  have htarget : Format.binary64.targetExponent (totalExponent m₁ e₁ - totalExponent m₂ e₂) =
      max (leading m₁ e₁ - leading m₂ e₂ - 53) (-1074) := by
    simp only [Format.targetExponent, totalExponent, Format.mantissaBits, Format.minExponent, leading]
    norm_num
    omega
  obtain ⟨t, ht⟩ : ∃ t, min (e₁ - e₂) (max (leading m₁ e₁ - leading m₂ e₂ - 53) (-1074)) = t := ⟨_, rfl⟩
  refine ⟨t, (e₁ - e₂ - t).toNat, by omega, ?_, ?_⟩
  · unfold divCore
    rw [htarget, ht]
  · have hshift := log2_shiftLeft hm₁.ne' (e₁ - e₂ - t).toNat
    generalize m₁ <<< (e₁ - e₂ - t).toNat = m at *
    unfold leastExponent leading at *
    -- Without a quotient, the dividend has fewer digits than the divisor.
    by_cases hle : m₂ ≤ m
    · obtain ⟨hdigits, hdigits'⟩ := log2_div_bounds hm₂.ne' hle
      omega
    · have hlog := log2_mono (Nat.le_of_not_le hle)
      have hzero : m / m₂ = 0 := Nat.div_eq_of_lt (Nat.lt_of_not_le hle)
      rw [hzero, Nat.log2_zero]
      omega

theorem below_div {k : Int} {m₂ : Nat} {e₂ : Int} (hk : -1073 ≤ k - leading m₂ e₂) (hm₂ : 0 < m₂) {x : UnpackedFloat}
    (hx : Below k x) (s₂ : Sign) :
    Below (k - leading m₂ e₂ + 1) (UnpackedFloat.div Format.binary64 x (.finite s₂ m₂ e₂ hm₂)) := by
  match x, hx with
  | .zero _, _ => trivial
  | .finite s₁ m₁ e₁ hm₁, hx =>
    obtain ⟨hlead, -⟩ := hx
    obtain ⟨t, n, -, hcore, hleast, hquotient⟩ := exists_divCore hm₁ hm₂ e₁ e₂
    show Below (k - leading m₂ e₂ + 1) (roundWithAccuracy Format.binary64 (s₁ / s₂)
      (divCore Format.binary64 m₁ e₁ m₂ e₂).1 (divCore Format.binary64 m₁ e₁ m₂ e₂).2.1
      (divCore Format.binary64 m₁ e₁ m₂ e₂).2.2)
    rw [hcore]
    exact below_roundWithAccuracy hleast (by omega) (by omega) _ _

/-! ## Floats -/

def LeadsBelow (k : Int) (x : Float) : Prop := Below k x.toModel.unpack

theorem isFinite_of_leadsBelow {k : Int} {x : Float} (h : LeadsBelow k x) : x.isFinite = true := by
  unfold LeadsBelow at h
  show x.toModel.unpack.isFinite = true
  cases hx : x.toModel.unpack with
  | zero | finite => rfl
  | infinity | notANumber =>
    rw [hx] at h
    exact h.elim

theorem exists_parts (x : Float) :
    ∃ s e m, x.toModel.unpack = UnpackedFloat.unpack Format.binary64 (ofParts s e m) :=
  ⟨_, _, _, congrArg (UnpackedFloat.unpack Format.binary64) (ofParts_unpack x.toModel.toBits.toBitVec).symm⟩

theorem leadsBelow_of_isFinite {x : Float} (h : x.isFinite = true) : LeadsBelow 1024 x := by
  have hfinite : x.toModel.unpack.isFinite = true := h
  obtain ⟨s, e, m, hparts⟩ := exists_parts x
  unfold LeadsBelow
  rw [hparts] at hfinite ⊢
  by_cases hzero : e = 0#11
  · rw [hzero]
    exact below_unpack_subnormal _ m (by decide)
  · by_cases hall : e = -1#11
    · unfold UnpackedFloat.unpack at hfinite
      simp only [unpackMantissa_packComponents, unpackExponent_packComponents] at hfinite
      rw [if_pos hall] at hfinite
      split at hfinite <;> cases hfinite
    · have hlt : e.toNat < 2048 := e.isLt
      have hne : e.toNat ≠ 2047 := fun h => hall (BitVec.eq_of_toNat_eq h)
      exact below_unpack_normal _ hall hzero m (by omega)

variable {j k : Int} {x y : Float}

theorem leadsBelow_add (hk : -1024 ≤ k) (hk' : k ≤ 1022) (hx : LeadsBelow k x) (hy : LeadsBelow k y) :
    LeadsBelow (k + 2) (x + y) :=
  below_pack (by omega) (by omega) (below_add (by omega) hx hy)

theorem leadsBelow_mul (hjk : -1023 ≤ j + k) (hjk' : j + k ≤ 1023) (hx : LeadsBelow j x) (hy : LeadsBelow k y) :
    LeadsBelow (j + k + 1) (x * y) :=
  below_pack (by omega) (by omega) (below_mul (by omega) hx hy)

theorem leadsBelow_half (hk : -1022 ≤ k) (hk' : k ≤ 1024) (hx : LeadsBelow k x) : LeadsBelow k (x / 2) := by
  have htwo : (2 : Float).toModel.unpack = .finite .positive (2 ^ 52) (-51) (by decide) := rfl
  have hlead : leading (2 ^ 52) (-51) = 1 := by
    unfold leading
    rw [Nat.log2_two_pow]
    rfl
  have hdiv := below_div (by rw [hlead]; omega) (Nat.two_pow_pos 52) hx .positive
  rw [hlead, Int.sub_add_cancel, ← htwo] at hdiv
  exact below_pack hk hk' hdiv

theorem leadsBelow_abs (hk : -1022 ≤ k) (hk' : k ≤ 1024) (hx : LeadsBelow k x) : LeadsBelow k x.abs := by
  have habs : Below k x.toModel.unpack.abs := by
    unfold LeadsBelow at hx
    cases hu : x.toModel.unpack with
    | zero => trivial
    | finite | infinity | notANumber =>
      rw [hu] at hx
      exact hx
  exact below_pack hk hk' habs

theorem unpack_pack_unpack (b : Bits) :
    UnpackedFloat.unpack Format.binary64 (UnpackedFloat.pack Format.binary64 (UnpackedFloat.unpack Format.binary64 b)) =
      UnpackedFloat.unpack Format.binary64 b := by
  rw [pack_unpack b (by decide)]
  split
  · rename_i hnan
    obtain ⟨he, hm⟩ := of_decide_eq_true hnan
    unfold UnpackedFloat.unpack
    rw [if_pos he, if_neg hm]
    rfl
  · rfl

theorem abs_unpack_ofParts (s : Sign) (e : BitVec 11) (m : BitVec 52) :
    (UnpackedFloat.unpack Format.binary64 (ofParts s e m)).abs =
      UnpackedFloat.unpack Format.binary64 (ofParts .positive e m) := by
  unfold UnpackedFloat.unpack
  simp only [unpackMantissa_packComponents, unpackExponent_packComponents, unpackSign_ofParts, ofBitVec_toBitVec]
  split
  · split <;> rfl
  · split
    · split <;> rfl
    · rfl

theorem unpack_abs (x : Float) : x.abs.toModel.unpack = x.toModel.unpack.abs := by
  obtain ⟨s, e, m, hparts⟩ := exists_parts x
  show UnpackedFloat.unpack Format.binary64 (UnpackedFloat.pack Format.binary64 x.toModel.unpack.abs) = _
  rw [hparts, abs_unpack_ofParts, unpack_pack_unpack]

theorem leadsBelow_of_abs_lt {c : Float} {m : Nat} {e : Int} {hm : 0 < m}
    (hc : c.toModel.unpack = .finite .positive m e hm) (hdigits : m.log2 = 52) (h : x.abs < c) :
    LeadsBelow (e + 53) x := by
  have hlt : (x.abs.toModel.unpack.lt c.toModel.unpack) = true := of_decide_eq_true h
  rw [unpack_abs, hc] at hlt
  unfold LeadsBelow
  cases hx : x.toModel.unpack with
  | notANumber | infinity =>
    rw [hx] at hlt
    cases hlt
  | zero => trivial
  | finite s n f hn =>
    have hcanonical : LeadsBelow 1024 x := by
      apply leadsBelow_of_isFinite
      show x.toModel.unpack.isFinite = true
      rw [hx]
      rfl
    unfold LeadsBelow at hcanonical
    rw [hx] at hcanonical hlt
    obtain ⟨-, hdigits', hleast⟩ := hcanonical
    refine ⟨?_, hdigits', hleast⟩
    have hcompare : (compare f e).then (compare n m) = .lt := by
      have hsome : (some ((compare f e).then (compare n m)) == some .lt) = true := hlt
      simpa using hsome
    unfold leading
    -- The lead is lower with a lesser exponent, and no higher with a lesser mantissa.
    rcases Ordering.then_eq_lt.mp hcompare with hf | ⟨hf, hn⟩
    · have hfe : f < e := compare_lt_iff_lt.mp hf
      omega
    · have hfe : f = e := compare_eq_iff_eq.mp hf
      have hlog : n.log2 ≤ 52 := (log2_mono (compare_lt_iff_lt.mp hn).le).trans_eq hdigits
      omega

end SolidScript.Binary64
