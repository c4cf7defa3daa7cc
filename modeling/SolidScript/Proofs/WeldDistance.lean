import SolidScript.Proofs.FloatValues
import SolidScript.Proofs.Welding
import SolidScript.Space.Axis

/-!
# How far apart welded vertices are

Welding rounds each coordinate to a multiple of epsilon. Vertices become one when they are nearest to the same
multiples, so that they differ by one epsilon at most on each axis, up to rounding and unless they are farther out than
integers reach. Close vertices with a cell boundary between them stay two.
-/

namespace SolidScript

open Binary64

open Float.Model.UnpackedFloat (Sign)

namespace Mesh

/-! ## Cells of exact width -/

/-- How far rounding moves a coordinate in a grid at most. -/
noncomputable def gridSlack (width x : ℝ) : ℝ := binade (-50) * (|x| + width)

/-- A coordinate is nearest to a multiple of the width, up to a slack. The outermost cells have no outer end. -/
structure InCell (width slack x : ℝ) (n : Int) : Prop where
  least : leastInt ≤ n
  greatest : n ≤ greatestInt
  below : x ≤ (n + 1 / 2) * width + slack ∨ n = greatestInt
  above : (n - 1 / 2) * width ≤ x + slack ∨ n = leastInt

section

variable {width slack slack' x y : ℝ} {k n : Int}

theorem leastInt_eq : leastInt = -2 ^ 63 := by decide

theorem greatestInt_eq : greatestInt = 2 ^ 63 - 1 := by decide

theorem leastInt_le_greatestInt : leastInt ≤ greatestInt := by decide

theorem clamp_inCell (h : |k * width - x| ≤ width / 2 + slack) (hwidth : 0 < width) :
    InCell width slack x (max leastInt (min greatestInt k)) := by
  have hrange := leastInt_le_greatestInt
  obtain ⟨hlow, hhigh⟩ := abs_le.mp h
  refine ⟨le_max_left _ _, max_le hrange (min_le_left _ _), ?_, ?_⟩
  · rcases le_or_gt greatestInt k with hge | hlt
    · exact .inr (by rw [min_eq_left hge, max_eq_right hrange])
    · refine .inl ?_
      have hle : (k : ℝ) ≤ (max leastInt (min greatestInt k) : Int) := by
        rw [min_eq_right hlt.le]
        exact_mod_cast le_max_right _ _
      nlinarith
  · rcases le_or_gt k leastInt with hle | hgt
    · exact .inr (by rw [min_eq_right (hle.trans hrange), max_eq_left hle])
    · refine .inl ?_
      have hge : ((max leastInt (min greatestInt k) : Int) : ℝ) ≤ k := by
        exact_mod_cast max_le hgt.le (min_le_right _ _)
      nlinarith

theorem InCell.eq_clamp (h : InCell width (-slack) x n) (hk : |k * width - x| < width / 2 + slack) (hwidth : 0 < width) :
    max leastInt (min greatestInt k) = n := by
  obtain ⟨hlow, hhigh⟩ := abs_lt.mp hk
  have hup : k ≤ n ∨ n = greatestInt := by
    refine h.below.imp_left fun hbelow => ?_
    have hlt : (k : ℝ) < n + 1 := lt_of_mul_lt_mul_right (by linarith) hwidth.le
    exact Int.lt_add_one_iff.mp (by exact_mod_cast hlt)
  have hdown : n ≤ k ∨ n = leastInt := by
    refine h.above.imp_left fun habove => ?_
    have hlt : (n : ℝ) < k + 1 := lt_of_mul_lt_mul_right (by linarith) hwidth.le
    exact Int.lt_add_one_iff.mp (by exact_mod_cast hlt)
  have hleast := h.least
  have hgreatest := h.greatest
  omega

theorem InCell.near (h : InCell width slack x n) (h' : InCell width slack' y n) (hwidth : 0 < width) :
    |x - y| ≤ width + slack + slack' ∨
      (∀ z ∈ [x + slack, y + slack'], 2 ^ 62 * width ≤ z) ∨ (∀ z ∈ [x - slack, y - slack'], z ≤ -(2 ^ 62 * width)) := by
  have hgreatest : ((greatestInt : Int) : ℝ) = 2 ^ 63 - 1 := by exact_mod_cast greatestInt_eq
  have hleast : ((leastInt : Int) : ℝ) = -2 ^ 63 := by exact_mod_cast leastInt_eq
  simp only [List.forall_mem_cons, List.not_mem_nil, false_imp_iff, implies_true, and_true]
  -- Only the outermost cells are open to one side.
  rcases eq_or_ne n greatestInt with hn | hn
  · refine .inr (.inl ?_)
    have hne : n ≠ leastInt := by rw [hn]; decide
    have hx := h.above.resolve_right hne
    have hy := h'.above.resolve_right hne
    rw [hn, hgreatest] at hx hy
    constructor <;> nlinarith
  · rcases eq_or_ne n leastInt with hn' | hn'
    · refine .inr (.inr ?_)
      have hx := h.below.resolve_right hn
      have hy := h'.below.resolve_right hn
      rw [hn', hleast] at hx hy
      constructor <;> nlinarith
    · refine .inl ?_
      have hx := h.below.resolve_right hn
      have hy := h'.below.resolve_right hn
      have hx' := h.above.resolve_right hn'
      have hy' := h'.above.resolve_right hn'
      rw [abs_le]
      constructor <;> linarith

end

/-! ## Cells of floats -/

section

variable {epsilon x : Float}

theorem cellsPerUnit_eq (h : 1e-12 ≤ epsilon) : cellsPerUnit epsilon = 1 / epsilon := by
  have hnumber : epsilon ≤ epsilon := le_refl_float (le_iff.mp h).2.1
  show 1 / (if epsilon ≤ epsilon ∧ ¬ epsilon < 1e-12 then epsilon else 1e-12) = 1 / epsilon
  rw [if_pos ⟨hnumber, not_lt_of_le_float h⟩]

theorem width_pos (hfinite : epsilon.isFinite = true) (h : 1e-12 ≤ epsilon) : 2 ^ (-40 : ℤ) ≤ value epsilon := by
  have hunpack : (1e-12 : Float).toModel.unpack = .finite .positive 4951760157141521 (-92) (by decide) := rfl
  have hleast : value 1e-12 = 4951760157141521 * 2 ^ (-92 : ℤ) := by
    rw [value_finite hunpack]
    exact one_mul _
  have hle := (value_le_iff (by rfl) hfinite).mp h
  rw [hleast] at hle
  refine le_trans ?_ hle
  norm_num

theorem value_inverse (hfinite : epsilon.isFinite = true) (h : 1e-12 ≤ epsilon) :
    (1 / epsilon).isFinite = true ∧ |value (1 / epsilon) - 1 / value epsilon| ≤ 2 ^ (-51 : ℤ) / value epsilon := by
  have hwidth := width_pos hfinite h
  have hpos : 0 < value epsilon := (zpow_pos two_pos _).trans_le hwidth
  have hinverse : 1 / value epsilon ≤ 2 ^ (40 : ℤ) := by
    rw [div_le_iff₀ hpos]
    calc (1 : ℝ) = 2 ^ (40 : ℤ) * 2 ^ (-40 : ℤ) := by norm_num
      _ ≤ 2 ^ (40 : ℤ) * value epsilon := by gcongr
  have habs : |1 / value epsilon| = 1 / value epsilon := abs_of_pos (one_div_pos.mpr hpos)
  have hend : |value 1 / value epsilon| ≤ reach := by
    rw [value_one, habs]
    exact hinverse.trans (zpow_le_zpow_right₀ one_le_two (by decide))
  obtain ⟨hfinite', hnear⟩ := value_div (x := 1) (by rfl) hfinite hpos.ne' hend
  refine ⟨hfinite', ?_⟩
  rw [value_one] at hnear
  refine hnear.trans (max_le ?_ ?_)
  · rw [habs, ← div_eq_mul_one_div]
    exact div_le_div_of_nonneg_right (zpow_le_zpow_right₀ one_le_two (by decide)) hpos.le
  · -- The inverse of the widest cells is subnormal.
    have hwide := abs_value_lt hfinite
    rw [abs_of_pos hpos] at hwide
    rw [le_div_iff₀ hpos]
    calc (2 : ℝ) ^ (-1075 : ℤ) * value epsilon
      _ ≤ 2 ^ (-1075 : ℤ) * (2 * reach) := by gcongr
      _ = 2 ^ (-51 : ℤ) := by
        unfold reach
        rw [binade_eq, ← zpow_one_add₀ two_ne_zero, ← zpow_add₀ two_ne_zero]
        rfl

theorem gridSlack_spec {width coordinate inverse product : ℝ} (hwidth : 0 < width)
    (hinverse : |inverse - 1 / width| ≤ 2 ^ (-51 : ℤ) / width)
    (hproduct : |product - coordinate * inverse| ≤ 2 ^ (-53 : ℤ) * |coordinate * inverse| + 2 ^ (-1075 : ℤ)) :
    |product * width - coordinate| < gridSlack width coordinate := by
  -- The error of the inverse grows with the coordinate, and so does that of the product.
  have hscaled : |coordinate * inverse * width - coordinate| ≤ 2 ^ (-51 : ℤ) * |coordinate| := by
    calc |coordinate * inverse * width - coordinate|
      _ = |coordinate| * (|inverse - 1 / width| * width) := by
        rw [← abs_of_pos hwidth, ← abs_mul, ← abs_mul, abs_of_pos hwidth]
        congr 1
        field_simp
      _ ≤ |coordinate| * (2 ^ (-51 : ℤ) / width * width) := by gcongr
      _ = 2 ^ (-51 : ℤ) * |coordinate| := by
        rw [div_mul_cancel₀ _ hwidth.ne']
        ring
  have hsize : |coordinate * inverse| * width ≤ 2 * |coordinate| := by
    calc |coordinate * inverse| * width
      _ = |coordinate * inverse * width| := by rw [abs_mul _ width, abs_of_pos hwidth]
      _ ≤ |coordinate * inverse * width - coordinate| + |coordinate| := by
        have := abs_add_le (coordinate * inverse * width - coordinate) coordinate
        rwa [sub_add_cancel] at this
      _ ≤ 2 ^ (-51 : ℤ) * |coordinate| + |coordinate| := by gcongr
      _ ≤ 2 * |coordinate| := by
        have : (2 : ℝ) ^ (-51 : ℤ) ≤ 1 := zpow_le_one_of_nonpos₀ one_le_two (by decide)
        nlinarith [abs_nonneg coordinate]
  have hless : (2 : ℝ) ^ (-1075 : ℤ) < 2 ^ (-50 : ℤ) := zpow_lt_zpow_right₀ one_lt_two (by decide)
  have hpow : (2 : ℝ) ^ (-50 : ℤ) = 8 * 2 ^ (-53 : ℤ) ∧ (2 : ℝ) ^ (-51 : ℤ) = 4 * 2 ^ (-53 : ℤ) := by norm_num
  unfold gridSlack
  rw [binade_eq]
  calc |product * width - coordinate|
    _ ≤ |(product - coordinate * inverse) * width| + |coordinate * inverse * width - coordinate| := by
      have := abs_add_le ((product - coordinate * inverse) * width) (coordinate * inverse * width - coordinate)
      rwa [show (product - coordinate * inverse) * width + (coordinate * inverse * width - coordinate) =
        product * width - coordinate by ring] at this
    _ ≤ (2 ^ (-53 : ℤ) * |coordinate * inverse| + 2 ^ (-1075 : ℤ)) * width + 2 ^ (-51 : ℤ) * |coordinate| := by
      rw [abs_mul, abs_of_pos hwidth]
      gcongr
    _ = 2 ^ (-53 : ℤ) * (|coordinate * inverse| * width) + 2 ^ (-1075 : ℤ) * width + 2 ^ (-51 : ℤ) * |coordinate| := by
      ring
    _ < 2 ^ (-50 : ℤ) * (|coordinate| + width) := by
      have hpos : (0 : ℝ) < 2 ^ (-53 : ℤ) := zpow_pos two_pos _
      rw [hpow.1] at hless ⊢
      rw [hpow.2]
      nlinarith [abs_nonneg coordinate]

theorem clamp_eq_of_far {s : Sign} {k n : Int} (hk : 2 ^ 64 ≤ signOf s * k) (hn : 2 ^ 64 ≤ signOf s * n) :
    max leastInt (min greatestInt k) = max leastInt (min greatestInt n) := by
  rw [leastInt_eq, greatestInt_eq]
  cases s
  · have hk : (2 : ℝ) ^ 64 ≤ -1 * k := hk
    have hn : (2 : ℝ) ^ 64 ≤ -1 * n := hn
    have hk : 2 ^ 64 ≤ -1 * k := by exact_mod_cast hk
    have hn : 2 ^ 64 ≤ -1 * n := by exact_mod_cast hn
    omega
  · have hk : (2 : ℝ) ^ 64 ≤ 1 * k := hk
    have hn : (2 : ℝ) ^ 64 ≤ 1 * n := hn
    have hk : 2 ^ 64 ≤ 1 * k := by exact_mod_cast hk
    have hn : 2 ^ 64 ≤ 1 * n := by exact_mod_cast hn
    omega

theorem far_ratio {width coordinate inverse : ℝ} (hwidth : 0 < width)
    (hinverse : |inverse - 1 / width| ≤ 2 ^ (-51 : ℤ) / width) {s : Sign}
    (hbeyond : reach ≤ signOf s * (coordinate * inverse)) : reach ≤ 2 * (signOf s * (coordinate / width)) := by
  have hreach := one_le_reach
  have hsmall : (2 : ℝ) ^ (-51 : ℤ) ≤ 1 := zpow_le_one_of_nonpos₀ one_le_two (by decide)
  obtain ⟨hlow, hhigh⟩ := abs_le.mp (hinverse.trans (div_le_div_of_nonneg_right hsmall hwidth.le))
  have hpositive : 0 ≤ inverse := by linarith
  have htwice : inverse * width ≤ 2 := by
    rw [← le_div_iff₀ hwidth]
    linarith [show (2 : ℝ) / width = 1 / width + 1 / width by ring]
  rw [← mul_assoc] at hbeyond
  have hcoordinate : 0 ≤ signOf s * coordinate := by
    by_contra hneg
    have := mul_nonpos_of_nonpos_of_nonneg (le_of_not_ge hneg) hpositive
    linarith
  rw [← mul_div_assoc, ← mul_div_assoc, le_div_iff₀ hwidth]
  nlinarith

/-- The cell of a coordinate is the nearest multiple of the width. -/
theorem exists_nearest (hx : x.isFinite = true) (hfinite : epsilon.isFinite = true) (h : 1e-12 ≤ epsilon) :
    ∃ k : Int, |k * value epsilon - value x| < value epsilon / 2 + gridSlack (value epsilon) (value x) ∧
      nearestInt (x * cellsPerUnit epsilon) = max leastInt (min greatestInt k) := by
  have hwidth : 0 < value epsilon := (zpow_pos two_pos _).trans_le (width_pos hfinite h)
  have hscaled {k : Int} {t : ℝ} (hk : |k - t| ≤ 1 / 2) :
      |k * value epsilon - t * value epsilon| ≤ value epsilon / 2 := by
    rw [← sub_mul, abs_mul, abs_of_pos hwidth]
    calc |(k : ℝ) - t| * value epsilon
      _ ≤ 1 / 2 * value epsilon := mul_le_mul_of_nonneg_right hk hwidth.le
      _ = value epsilon / 2 := by ring
  obtain ⟨hfinite', hinverse⟩ := value_inverse hfinite h
  obtain ⟨hnumber, hproduct⟩ := number_mul hx hfinite'
  obtain ⟨k, hk, hcell⟩ := nearestInt_spec hnumber
  rw [cellsPerUnit_eq h]
  rcases hproduct with hnear | ⟨s, hend, hbeyond⟩
  · have hslack := gridSlack_spec hwidth hinverse (hnear.trans (roundoff_le _))
    exact ⟨k, (abs_sub_le _ _ _).trans_lt (add_lt_add_of_le_of_lt (hscaled hk) hslack), hcell⟩
  · -- The product overflows. The nearest multiple is as far out.
    have hratio := far_ratio hwidth hinverse hbeyond
    have hround : |(round (value x / value epsilon) : ℝ) - value x / value epsilon| ≤ 1 / 2 :=
      (abs_sub_comm _ _).trans_le (abs_sub_round _)
    have hfar {t : ℝ} {n : Int} (hn : |n - t| ≤ 1 / 2) (ht : reach ≤ 2 * (signOf s * t)) :
        2 ^ 64 ≤ signOf s * n := by
      have hreach : 2 ^ (66 : ℤ) ≤ reach := zpow_le_zpow_right₀ one_le_two (by decide)
      have hsigned : |signOf s * n - signOf s * t| ≤ 1 / 2 := by rwa [← mul_sub, abs_mul, abs_signOf, one_mul]
      norm_num at hreach ⊢
      linarith [(abs_le.mp hsigned).1]
    refine ⟨round (value x / value epsilon), ?_, ?_⟩
    · have hnear := hscaled hround
      rw [div_mul_cancel₀ _ hwidth.ne'] at hnear
      have hslack : 0 < gridSlack (value epsilon) (value x) := by
        unfold gridSlack
        rw [binade_eq]
        positivity
      linarith
    · have hproduct : reach ≤ 2 * (signOf s * value (x * (1 / epsilon))) := by
        rw [hend, ← mul_assoc (signOf s), signOf_mul_self, one_mul]
        linarith [one_le_reach]
      exact hcell.trans (clamp_eq_of_far (hfar hk hproduct) (hfar hround hratio))

theorem nearestInt_of_infinite (hx : x.isFinite = true) (hinfinite : ¬ epsilon.isFinite = true) (h : 1e-12 ≤ epsilon) :
    nearestInt (x * cellsPerUnit epsilon) = 0 := by
  have hinverse : ∃ s, (1 / epsilon).toModel.unpack = .zero s := by
    have hnumber : epsilon.toModel.unpack ≠ .notANumber := (le_iff.mp h).2.1
    cases hunpack : epsilon.toModel.unpack with
    | notANumber => exact absurd hunpack hnumber
    | zero | finite =>
      have hfinite : ¬ epsilon.toModel.unpack.isFinite = true := hinfinite
      rw [hunpack] at hfinite
      exact absurd rfl hfinite
    | infinity s =>
      refine ⟨.positive / s, ?_⟩
      have hdiv : (1 / epsilon).toModel = Float.Model.pack (.zero (.positive / s)) := by
        show Float.Model.pack (Float.Model.UnpackedFloat.div _ (1 : Float).toModel.unpack epsilon.toModel.unpack) = _
        rw [hunpack]
        rfl
      rw [hdiv]
      exact unpack_pack trivial rfl unitsEnd_pos
  obtain ⟨s, hzero⟩ := hinverse
  have hfinite : (1 / epsilon).isFinite = true := by
    show (1 / epsilon).toModel.unpack.isFinite = true
    rw [hzero]
    rfl
  have hproduct : value x * value (1 / epsilon) = 0 := by
    unfold value
    rw [hzero, unpackedValue_zero, mul_zero]
  obtain ⟨hfinite', hnear⟩ := value_mul hx hfinite (by rw [hproduct, abs_zero]; linarith [one_le_reach])
  obtain ⟨n, hn, hcell⟩ := nearestInt_spec (number_of_isFinite hfinite')
  have hvalue : |value (x * (1 / epsilon))| < 1 / 2 := by
    rw [hproduct, sub_zero] at hnear
    refine hnear.trans_lt (max_lt (by norm_num) ?_)
    calc (2 : ℝ) ^ (-1075 : ℤ)
      _ < 2 ^ (-1 : ℤ) := zpow_lt_zpow_right₀ one_lt_two (by decide)
      _ = 1 / 2 := by norm_num
  have hsmall : |(n : ℝ)| < 1 := by
    have := abs_sub_abs_le_abs_sub (n : ℝ) (value (x * (1 / epsilon)))
    linarith
  have hn : n = 0 := Int.abs_lt_one_iff.mp (by exact_mod_cast hsmall)
  rw [cellsPerUnit_eq h, hcell, hn]
  decide

end

/-! ## Vertices of a mesh -/

variable {m : Mesh Float} {epsilon : Float} {i j : Nat}

theorem cellOf_eq_iff : m.cellOf epsilon i = m.cellOf epsilon j ↔
    ∀ axis, nearestInt ((m.point i).get axis * cellsPerUnit epsilon) =
      nearestInt ((m.point j).get axis * cellsPerUnit epsilon) := by
  unfold cellOf cellAt cell
  rw [Prod.mk.injEq, Prod.mk.injEq]
  refine ⟨fun ⟨hx, hy, hz⟩ axis => ?_, fun h => ⟨h .x, h .y, h .z⟩⟩
  cases axis
  · exact hx
  · exact hy
  · exact hz

theorem Finite.get (hfinite : m.Finite) (hi : i < m.vertexCount) (axis : Axis) :
    ((m.point i).get axis).isFinite = true := by
  have hpoint : (m.point i).isFinite = true := by
    unfold point
    rw [Array.getD_eq_getD_getElem?, Array.getElem?_eq_getElem hi]
    exact hfinite _ (Array.getElem_mem hi)
  exact Vec3.isFinite_get hpoint axis

/-- Both coordinates are nearest to one multiple of the width, each with a slack of its own. -/
def SameCell (width slack slack' x y : ℝ) : Prop := ∃ n, InCell width slack x n ∧ InCell width slack' y n

/-- Vertices that become one are in one cell on each axis, up to rounding. So they differ by epsilon at most, unless both
are farther out than integers reach. Vertices that are in one cell with room for rounding become one, and with an
infinite epsilon all do. -/
theorem weld_joins_cells (h : m.Valid) (hfinite : m.Finite) (hepsilon : 1e-12 ≤ epsilon) :
    (m.weld epsilon).triangles = m.triangles.map (·.map (m.weldPlace epsilon)) ∧
    ∀ i < m.vertexCount, ∀ j < m.vertexCount,
      let width := value epsilon
      let x axis := value ((m.point i).get axis)
      let y axis := value ((m.point j).get axis)
      let slack := gridSlack width
      (¬ epsilon.isFinite = true → m.weldPlace epsilon i = m.weldPlace epsilon j) ∧
      (epsilon.isFinite = true → m.weldPlace epsilon i = m.weldPlace epsilon j → ∀ axis,
        SameCell width (slack (x axis)) (slack (y axis)) (x axis) (y axis) ∧
        (|x axis - y axis| ≤ width + slack (x axis) + slack (y axis) ∨
          (∀ z ∈ [x axis + slack (x axis), y axis + slack (y axis)], 2 ^ 62 * width ≤ z) ∨
          (∀ z ∈ [x axis - slack (x axis), y axis - slack (y axis)], z ≤ -(2 ^ 62 * width)))) ∧
      (epsilon.isFinite = true → (∀ axis, SameCell width (-slack (x axis)) (-slack (y axis)) (x axis) (y axis)) →
        m.weldPlace epsilon i = m.weldPlace epsilon j) := by
  refine ⟨h.triangles_weld epsilon, fun i hi j hj => ⟨fun hinfinite => ?_, fun hwidth hplace axis => ?_, fun hwidth hcells => ?_⟩⟩
  · rw [weldPlace_eq_iff hi hj, cellOf_eq_iff]
    intro axis
    rw [nearestInt_of_infinite (hfinite.get hi axis) hinfinite hepsilon,
      nearestInt_of_infinite (hfinite.get hj axis) hinfinite hepsilon]
  · have hpos : 0 < value epsilon := (zpow_pos two_pos _).trans_le (width_pos hwidth hepsilon)
    rw [weldPlace_eq_iff hi hj, cellOf_eq_iff] at hplace
    obtain ⟨k, hk, hcell⟩ := exists_nearest (hfinite.get hi axis) hwidth hepsilon
    obtain ⟨k', hk', hcell'⟩ := exists_nearest (hfinite.get hj axis) hwidth hepsilon
    have hinCell := clamp_inCell hk.le hpos
    have hinCell' := clamp_inCell hk'.le hpos
    rw [← hcell, hplace axis] at hinCell
    rw [← hcell'] at hinCell'
    exact ⟨⟨_, hinCell, hinCell'⟩, hinCell.near hinCell' hpos⟩
  · have hpos : 0 < value epsilon := (zpow_pos two_pos _).trans_le (width_pos hwidth hepsilon)
    rw [weldPlace_eq_iff hi hj, cellOf_eq_iff]
    intro axis
    obtain ⟨n, hn, hn'⟩ := hcells axis
    obtain ⟨k, hk, hcell⟩ := exists_nearest (hfinite.get hi axis) hwidth hepsilon
    obtain ⟨k', hk', hcell'⟩ := exists_nearest (hfinite.get hj axis) hwidth hepsilon
    rw [hcell, hcell', hn.eq_clamp hk hpos, hn'.eq_clamp hk' hpos]

/-- A triangle on the plane `z = 0` with two corners on the first axis. -/
def narrow (a b : Float) : Mesh Float := ⟨#[⟨a, 0, 0⟩, ⟨b, 0, 0⟩, ⟨0, 5, 0⟩], #[⟨0, 1, 2⟩], none⟩

theorem narrow_joined :
    (narrow 0.125 0.375).Valid ∧ (narrow 0.125 0.375).Finite ∧ (1e-12 : Float) ≤ 1 ∧
      (narrow 0.125 0.375).weldPlace 1 0 = (narrow 0.125 0.375).weldPlace 1 1 ∧
      ∀ axis, SameCell (value 1)
        (gridSlack (value 1) (value (((narrow 0.125 0.375).point 0).get axis)))
        (gridSlack (value 1) (value (((narrow 0.125 0.375).point 1).get axis)))
        (value (((narrow 0.125 0.375).point 0).get axis)) (value (((narrow 0.125 0.375).point 1).get axis)) := by
  have hvalid : (narrow 0.125 0.375).Valid := ⟨by decide, nofun⟩
  have hfinite : (narrow 0.125 0.375).Finite := by
    unfold Finite
    decide +kernel
  have hepsilon : (1e-12 : Float) ≤ 1 := by decide +kernel
  have hplace : (narrow 0.125 0.375).weldPlace 1 0 = (narrow 0.125 0.375).weldPlace 1 1 := by
    rw [weldPlace_eq_iff (by decide) (by decide)]
    decide +kernel
  obtain ⟨-, hjoined⟩ := weld_joins_cells hvalid hfinite hepsilon
  exact ⟨hvalid, hfinite, hepsilon, hplace, fun axis =>
    ((hjoined 0 (by decide) 1 (by decide)).2.1 (by decide +kernel) hplace axis).1⟩

/-- A cell ends between two vertices that are closer than epsilon. Two vertices that integers do not reach become one,
however far apart they are. -/
theorem narrow_not_by_distance :
    ((narrow 0.4 0.6).Valid ∧ (narrow 0.4 0.6).Finite ∧
      Vec3.distance ((narrow 0.4 0.6).point 0) ((narrow 0.4 0.6).point 1) ≤ 1 ∧
      (narrow 0.4 0.6).weldPlace 1 0 ≠ (narrow 0.4 0.6).weldPlace 1 1) ∧
    (narrow 1e19 2e19).Valid ∧ (narrow 1e19 2e19).Finite ∧
      1 < (((narrow 1e19 2e19).point 1).x - ((narrow 1e19 2e19).point 0).x) ∧
      (narrow 1e19 2e19).weldPlace 1 0 = (narrow 1e19 2e19).weldPlace 1 1 := by
  refine ⟨⟨⟨by decide, nofun⟩, ?_, by decide +kernel, ?_⟩, ⟨by decide, nofun⟩, ?_, by decide +kernel, ?_⟩
  · unfold Finite
    decide +kernel
  · rw [ne_eq, weldPlace_eq_iff (by decide) (by decide)]
    decide +kernel
  · unfold Finite
    decide +kernel
  · rw [weldPlace_eq_iff (by decide) (by decide)]
    decide +kernel

end Mesh

end SolidScript
