import SolidScript.Proofs.Magnitude

/-!
# Floats as integers

Every finite float is a multiple of the least positive one. In these units floats compare as integers,
and the exact sum of two floats is an integer as well.
-/

namespace SolidScript.Binary64

open Float.Model Float.Model.UnpackedFloat

/-! ## Unpacked floats -/

def places : Nat := 2098

/-- Two to the power 1024, where finite floats end, as a multiple of the least positive float. -/
def unitsEnd : Nat := 2 ^ places

theorem unitsEnd_pos : 0 < unitsEnd := Nat.two_pow_pos _

/-- A float as a multiple of the least positive float. Infinities stand behind all finite floats. -/
def unpackedUnits : UnpackedFloat → Int
  | .finite s m e _ => s.apply (m * 2 ^ (e + 1074).toNat : Nat)
  | .infinity s => s.apply unitsEnd
  | .zero _ | .notANumber => 0

/-- The mantissa has 53 digits, or the exponent is the least of all. -/
def Canonical : UnpackedFloat → Prop
  | .finite _ m e _ => e = leastExponent m e
  | _ => True

theorem canonical_unpack (x : Float) : Canonical x.toModel.unpack := by
  obtain ⟨s, e, m, hparts⟩ := exists_parts x
  rw [hparts]
  unfold UnpackedFloat.unpack
  simp only [unpackMantissa_packComponents, unpackExponent_packComponents, unpackSign_ofParts, ofBitVec_toBitVec]
  split
  · split <;> trivial
  · split
    -- The least exponent is that of zeros and subnormal floats.
    · rename_i hzero
      subst hzero
      split
      · trivial
      · rename_i hm
        have hne : m.toNat ≠ 0 := fun h => hm (BitVec.eq_of_toNat_eq h)
        have hlog : m.toNat.log2 < 52 := (Nat.log2_lt hne).mpr m.isLt
        show (0 - (1023 + 52) + 1 : Int) = leastExponent m.toNat (0 - (1023 + 52) + 1)
        unfold leastExponent leading
        omega
    -- A normal float has a leading digit that is not stored.
    · rename_i hzero
      have hlog : (1#1 ++ m).toNat.log2 = 52 := by
        have hm := m.isLt
        rw [toNat_implicit, Nat.log2_eq_iff (by omega)]
        omega
      have hpos : e.toNat ≠ 0 := fun h => hzero (BitVec.eq_of_toNat_eq h)
      show (e.toNat - (1023 + 52) : Int) = leastExponent (1#1 ++ m).toNat (e.toNat - (1023 + 52))
      unfold leastExponent leading
      omega

theorem Canonical.exponent_ge {s : Sign} {m : Nat} {e : Int} {hm : 0 < m} (h : Canonical (.finite s m e hm)) :
    -1074 ≤ e := by
  have h : e = leastExponent m e := h
  unfold leastExponent at h
  omega

theorem Canonical.log2_le {s : Sign} {m : Nat} {e : Int} {hm : 0 < m} (h : Canonical (.finite s m e hm)) :
    m.log2 ≤ 52 := by
  have h : e = leastExponent m e := h
  unfold leastExponent leading at h
  omega

theorem Canonical.log2_eq {s : Sign} {m : Nat} {e : Int} {hm : 0 < m} (h : Canonical (.finite s m e hm))
    (he : -1074 < e) : m.log2 = 52 := by
  have h : e = leastExponent m e := h
  unfold leastExponent leading at h
  omega

/-! ## Order -/

theorem magnitude_lt_of_exponent_lt {s t : Sign} {m n : Nat} {e f : Int} {hm : 0 < m} {hn : 0 < n}
    (h : Canonical (.finite s m e hm)) (h' : Canonical (.finite t n f hn)) (hlt : e < f) :
    m * 2 ^ (e + 1074).toNat < n * 2 ^ (f + 1074).toNat := by
  have hge := h.exponent_ge
  have hdigits := h.log2_le
  have hdigits' := h'.log2_eq (by omega)
  calc m * 2 ^ (e + 1074).toNat
    _ < 2 ^ (m.log2 + 1) * 2 ^ (e + 1074).toNat := Nat.mul_lt_mul_of_pos_right Nat.lt_log2_self (Nat.two_pow_pos _)
    _ = 2 ^ (m.log2 + 1 + (e + 1074).toNat) := (Nat.pow_add ..).symm
    _ ≤ 2 ^ (n.log2 + (f + 1074).toNat) := Nat.pow_le_pow_right (by decide) (by omega)
    _ = 2 ^ n.log2 * 2 ^ (f + 1074).toNat := Nat.pow_add ..
    _ ≤ n * 2 ^ (f + 1074).toNat := Nat.mul_le_mul_right _ (Nat.log2_self_le hn.ne')

theorem compare_magnitudes {s t : Sign} {m n : Nat} {e f : Int} {hm : 0 < m} {hn : 0 < n}
    (h : Canonical (.finite s m e hm)) (h' : Canonical (.finite t n f hn)) :
    (compare e f).then (compare m n) = compare (m * 2 ^ (e + 1074).toNat) (n * 2 ^ (f + 1074).toNat) := by
  rcases lt_trichotomy e f with hlt | rfl | hgt
  · rw [compare_lt_iff_lt.mpr hlt, compare_lt_iff_lt.mpr (magnitude_lt_of_exponent_lt h h' hlt)]
    rfl
  · have hpos : 0 < 2 ^ (e + 1074).toNat := Nat.two_pow_pos _
    rw [compare_eq_iff_eq.mpr rfl]
    show compare m n = _
    rcases lt_trichotomy m n with hlt | rfl | hgt
    · rw [compare_lt_iff_lt.mpr hlt, compare_lt_iff_lt.mpr (Nat.mul_lt_mul_of_pos_right hlt hpos)]
    · rw [compare_eq_iff_eq.mpr rfl, compare_eq_iff_eq.mpr rfl]
    · rw [compare_gt_iff_gt.mpr hgt, compare_gt_iff_gt.mpr (Nat.mul_lt_mul_of_pos_right hgt hpos)]
  · rw [compare_gt_iff_gt.mpr hgt, compare_gt_iff_gt.mpr (magnitude_lt_of_exponent_lt h' h hgt)]
    rfl

theorem compare_natCast (a b : Nat) : compare (a : Int) b = compare a b := by
  rcases lt_trichotomy a b with hlt | rfl | hgt
  · rw [compare_lt_iff_lt.mpr hlt, compare_lt_iff_lt.mpr (Int.ofNat_lt.mpr hlt)]
  · rw [compare_eq_iff_eq.mpr rfl, compare_eq_iff_eq.mpr rfl]
  · rw [compare_gt_iff_gt.mpr hgt, compare_gt_iff_gt.mpr (Int.ofNat_lt.mpr hgt)]

theorem compare_neg (a b : Int) : compare (-a) (-b) = (compare a b).swap := by
  rcases lt_trichotomy a b with hlt | rfl | hgt
  · rw [compare_lt_iff_lt.mpr hlt, compare_gt_iff_gt.mpr (by omega)]
    rfl
  · rw [compare_eq_iff_eq.mpr rfl, compare_eq_iff_eq.mpr rfl]
    rfl
  · rw [compare_gt_iff_gt.mpr hgt, compare_lt_iff_lt.mpr (by omega)]
    rfl

theorem compare_apply {a b : Nat} (ha : 0 < a) (hb : 0 < b) (s t : Sign) :
    compare (s.apply a) (t.apply b) =
      match s, t with
      | .positive, .positive => compare a b
      | .negative, .negative => (compare a b).swap
      | .positive, .negative => .gt
      | .negative, .positive => .lt := by
  cases s <;> cases t <;> unfold Sign.apply <;> dsimp only
  · rw [compare_neg, compare_natCast]
  · exact compare_lt_iff_lt.mpr (by omega)
  · exact compare_gt_iff_gt.mpr (by omega)
  · exact compare_natCast a b

theorem compare_apply_zero {a : Nat} (ha : 0 < a) (s : Sign) :
    compare (s.apply a) 0 = (match s with | .positive => .gt | .negative => .lt) ∧
      compare 0 (s.apply a) = (match s with | .positive => .lt | .negative => .gt) := by
  cases s <;> unfold Sign.apply <;> dsimp only
  · exact ⟨compare_lt_iff_lt.mpr (by omega), compare_gt_iff_gt.mpr (by omega)⟩
  · exact ⟨compare_gt_iff_gt.mpr (by omega), compare_lt_iff_lt.mpr (by omega)⟩

/-! ## Floats -/

/-- A float as a multiple of the least positive float. -/
def units (x : Float) : Int := unpackedUnits x.toModel.unpack

theorem magnitude_pos {m : Nat} (hm : 0 < m) (e : Int) : 0 < m * 2 ^ (e + 1074).toNat :=
  Nat.mul_pos hm (Nat.two_pow_pos _)

theorem magnitude_lt {x : Float} {s : Sign} {m : Nat} {e : Int} {hm : 0 < m}
    (hx : x.toModel.unpack = .finite s m e hm) : m * 2 ^ (e + 1074).toNat < unitsEnd := by
  have hbelow : LeadsBelow 1024 x := leadsBelow_of_isFinite (by
    show x.toModel.unpack.isFinite = true
    rw [hx]
    rfl)
  have hcanonical := canonical_unpack x
  unfold LeadsBelow at hbelow
  rw [hx] at hbelow hcanonical
  have hge := hcanonical.exponent_ge
  have hlead : (m.log2 : Int) + e < 1024 := hbelow.1
  calc m * 2 ^ (e + 1074).toNat
    _ < 2 ^ (m.log2 + 1) * 2 ^ (e + 1074).toNat := Nat.mul_lt_mul_of_pos_right Nat.lt_log2_self (Nat.two_pow_pos _)
    _ = 2 ^ (m.log2 + 1 + (e + 1074).toNat) := (Nat.pow_add ..).symm
    _ ≤ unitsEnd := Nat.pow_le_pow_right (by decide) (by unfold places; omega)

/-- Floats compare as their units do. -/
theorem compare_unpack {x y : Float} (hx : x.toModel.unpack ≠ .notANumber) (hy : y.toModel.unpack ≠ .notANumber) :
    x.toModel.unpack.compare y.toModel.unpack = some (compare (units x) (units y)) := by
  have hcx := canonical_unpack x
  have hcy := canonical_unpack y
  unfold units
  -- By the kinds of both. Only two that are neither zero nor infinite need their digits.
  cases hux : x.toModel.unpack with
  | notANumber => exact absurd hux hx
  | zero s =>
    cases huy : y.toModel.unpack with
    | notANumber => exact absurd huy hy
    | zero t => rfl
    | infinity t =>
      unfold unpackedUnits
      rw [(compare_apply_zero unitsEnd_pos t).2]
      cases t <;> rfl
    | finite t n f hn =>
      unfold unpackedUnits
      rw [(compare_apply_zero (magnitude_pos hn f) t).2]
      cases t <;> rfl
  | infinity s =>
    cases huy : y.toModel.unpack with
    | notANumber => exact absurd huy hy
    | zero t =>
      unfold unpackedUnits
      rw [(compare_apply_zero unitsEnd_pos s).1]
      cases s <;> rfl
    | infinity t =>
      unfold unpackedUnits
      rw [compare_apply unitsEnd_pos unitsEnd_pos]
      rw [compare_eq_iff_eq.mpr rfl]
      cases s <;> cases t <;> rfl
    | finite t n f hn =>
      unfold unpackedUnits
      rw [compare_apply unitsEnd_pos (magnitude_pos hn f), compare_gt_iff_gt.mpr (magnitude_lt huy)]
      cases s <;> cases t <;> rfl
  | finite s m e hm =>
    cases huy : y.toModel.unpack with
    | notANumber => exact absurd huy hy
    | zero t =>
      unfold unpackedUnits
      rw [(compare_apply_zero (magnitude_pos hm e) s).1]
      cases s <;> rfl
    | infinity t =>
      unfold unpackedUnits
      rw [compare_apply (magnitude_pos hm e) unitsEnd_pos, compare_lt_iff_lt.mpr (magnitude_lt hux)]
      cases s <;> cases t <;> rfl
    | finite t n f hn =>
      rw [hux] at hcx
      rw [huy] at hcy
      unfold unpackedUnits
      rw [compare_apply (magnitude_pos hm e) (magnitude_pos hn f), ← compare_magnitudes hcx hcy]
      cases s <;> cases t <;> rfl

def Number (x : Float) : Prop := x.toModel.unpack ≠ .notANumber

theorem compare_of_not_number {x y : Float} (h : ¬ (Number x ∧ Number y)) :
    x.toModel.unpack.compare y.toModel.unpack = none := by
  unfold Number at h
  cases hx : x.toModel.unpack with
  | notANumber => rfl
  | zero | infinity | finite =>
    cases hy : y.toModel.unpack with
    | notANumber => rfl
    | zero | infinity | finite => exact absurd ⟨by rw [hx]; exact nofun, by rw [hy]; exact nofun⟩ h

theorem lt_iff {x y : Float} : x < y ↔ Number x ∧ Number y ∧ units x < units y := by
  have hlt : x < y ↔ x.toModel.unpack.lt y.toModel.unpack = true := ⟨of_decide_eq_true, decide_eq_true⟩
  rw [hlt]
  unfold UnpackedFloat.lt
  by_cases h : Number x ∧ Number y
  · rw [compare_unpack h.1 h.2, ← and_assoc, and_iff_right h, ← compare_lt_iff_lt]
    cases compare (units x) (units y) <;> decide
  · rw [compare_of_not_number h, ← and_assoc]
    simp [h]

theorem le_iff {x y : Float} : x ≤ y ↔ Number x ∧ Number y ∧ units x ≤ units y := by
  have hle : x ≤ y ↔ x.toModel.unpack.le y.toModel.unpack = true := ⟨of_decide_eq_true, decide_eq_true⟩
  rw [hle]
  unfold UnpackedFloat.le
  by_cases h : Number x ∧ Number y
  · rw [compare_unpack h.1 h.2, ← and_assoc, and_iff_right h, ← compare_le_iff_le]
    cases compare (units x) (units y) <;> decide
  · rw [compare_of_not_number h, ← and_assoc]
    simp [h]

theorem natAbs_unpackedUnits_finite (s : Sign) (m : Nat) (e : Int) (hm : 0 < m) :
    (unpackedUnits (.finite s m e hm)).natAbs = m * 2 ^ (e + 1074).toNat := natAbs_apply s _

theorem natAbs_unpackedUnits_infinity (s : Sign) : (unpackedUnits (.infinity s)).natAbs = unitsEnd := natAbs_apply s _

theorem isFinite_iff {x : Float} : x.isFinite = true ↔ Number x ∧ (units x).natAbs < unitsEnd := by
  have hfinite : x.isFinite = x.toModel.unpack.isFinite := rfl
  rw [hfinite]
  unfold Number units
  cases hx : x.toModel.unpack with
  | notANumber => exact ⟨nofun, fun h => absurd rfl h.1⟩
  | zero => exact ⟨fun _ => ⟨nofun, unitsEnd_pos⟩, fun _ => rfl⟩
  | infinity s =>
    rw [natAbs_unpackedUnits_infinity]
    exact ⟨nofun, fun h => absurd h.2 (lt_irrefl _)⟩
  | finite s m e hm =>
    rw [natAbs_unpackedUnits_finite]
    exact ⟨fun _ => ⟨nofun, magnitude_lt hx⟩, fun _ => rfl⟩

theorem number_of_isFinite {x : Float} (h : x.isFinite = true) : Number x := (isFinite_iff.mp h).1

theorem units_abs (x : Float) : units x.abs = (units x).natAbs := by
  unfold units
  rw [unpack_abs]
  cases x.toModel.unpack with
  | notANumber | zero => rfl
  | infinity s =>
    rw [natAbs_unpackedUnits_infinity]
    rfl
  | finite s m e hm =>
    rw [natAbs_unpackedUnits_finite]
    rfl

theorem number_abs {x : Float} : Number x.abs ↔ Number x := by
  unfold Number
  rw [unpack_abs]
  cases x.toModel.unpack with
  | notANumber => exact Iff.rfl
  | zero | infinity | finite => exact iff_of_true nofun nofun

end SolidScript.Binary64
