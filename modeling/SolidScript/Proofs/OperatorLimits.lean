import SolidScript.Proofs.FloatLimits
import SolidScript.Proofs.Generators
import SolidScript.Proofs.PlanCases
import SolidScript.Proofs.Steps

/-!
# Limits of operators

What an operator does with an amount out of its limits: it takes the amount that is moved into them,
and asked for that one, it does the same again.
-/

namespace SolidScript

open Binary64 Limits

/-! ## What is not finite -/

section Guards

variable {ε β : Type}

theorem finite_guard_eq_ok_iff {a : Float} {e : ε} {f : Unit → Except ε β} {b : β} :
    (if (!Scalar.isFinite a) = true then MonadExcept.throw e >>= f else f ()) = .ok b ↔
      a.isFinite = true ∧ f () = .ok b := by
  rw [guard_eq_ok_iff, Bool.not_eq_true', Bool.not_eq_false]
  rfl

end Guards

/-! ## Extruding -/

namespace Primitive

/-- How far a solid extends across a face that can be extruded. -/
def extent? (p : Primitive Float) (face : Face) : Option Float :=
  match p with
  | box size _ => some (size.get face.axis).abs
  | cylinder _ height .. | cone _ _ height .. => if face.axis = .y then some height.abs else none
  | sphere .. => none

/-- The solid with another extent, its center moved along by half of what the face has moved. -/
def stretch (p : Primitive Float) (face : Face) (extent moved : Float) : Primitive Float :=
  match p with
  | box size center => box (size.set extent face.axis) (Extrusion.moveCenter center face moved)
  | cylinder radius _ center segments => cylinder radius extent (Extrusion.moveCenter center face moved) segments
  | cone radius radiusTop _ center segments =>
    cone radius radiusTop extent (Extrusion.moveCenter center face moved) segments
  | sphere .. => p

theorem extrude_eq_ok_iff {p : Primitive Float} {face : Face} {distance : Float} {r : Extrusion Float} :
    p.extrude face distance = .ok r ↔
      distance.isFinite = true ∧ ∃ extent, p.extent? face = some extent ∧
        r = ⟨p.stretch face (Extrusion.grow extent distance).1 (Extrusion.grow extent distance).2,
          (Extrusion.grow extent distance).2⟩ := by
  have hfinite : Scalar.isFinite distance = distance.isFinite := rfl
  unfold Primitive.extrude
  rw [hfinite]
  cases distance.isFinite with
  | false => exact ⟨nofun, nofun⟩
  | true =>
    have hnot : ¬ (!true) = true := by decide
    rw [if_neg hnot, and_iff_right rfl]
    have hgrown (p : Primitive Float) (extent : Float) :
        (pure ⟨p.stretch face (Extrusion.grow extent distance).1 (Extrusion.grow extent distance).2,
            (Extrusion.grow extent distance).2⟩ : Except (OperatorError Float) (Extrusion Float)) = .ok r ↔
          ∃ extent', some extent = some extent' ∧
            r = ⟨p.stretch face (Extrusion.grow extent' distance).1 (Extrusion.grow extent' distance).2,
              (Extrusion.grow extent' distance).2⟩ := by
      constructor
      · intro h
        exact ⟨extent, rfl, (Except.ok.inj h).symm⟩
      · rintro ⟨extent', hextent, rfl⟩
        cases hextent
        rfl
    cases p with
    | box size center => exact hgrown (.box size center) _
    | sphere radius center segments rings => exact ⟨nofun, nofun⟩
    | cylinder radius height center segments =>
      unfold extent?
      by_cases haxis : face.axis = .y
      · simp only [if_pos haxis]
        exact hgrown (.cylinder radius height center segments) _
      · simp only [if_neg haxis]
        exact ⟨nofun, nofun⟩
    | cone radius radiusTop height center segments =>
      unfold extent?
      by_cases haxis : face.axis = .y
      · simp only [if_pos haxis]
        exact hgrown (.cone radius radiusTop height center segments) _
      · simp only [if_neg haxis]
        exact ⟨nofun, nofun⟩

end Primitive

/-- A face that leaves enough of the solid moves as far as it should, up to two roundings. -/
theorem Extrusion.grow_of_enough {extent distance : Float} (hfinite : (extent + distance).isFinite = true)
    (h : ¬ extent + distance < Extrusion.minExtent) :
    Extrusion.grow extent distance = (extent + distance, extent + distance - extent) := by
  have htarget : Scalar.greatest (extent + distance) Extrusion.minExtent = extent + distance := by
    unfold Scalar.greatest
    rw [if_pos ⟨le_refl_float (number_of_isFinite hfinite), h⟩]
  unfold Extrusion.grow
  rw [htarget]

/-! ## Fillets and chamfers -/

namespace EdgeTreatment

variable {t : EdgeTreatment Float} {size center : Vec3 Float} {mesh : Mesh Float} {a b : Float}

def limits (t : EdgeTreatment Float) (size : Vec3 Float) : Limits := ⟨0, BoxFrame.shortestHalf size * t.limit⟩

theorem effective_eq_ok_iff :
    t.effective size a = .ok b ↔ (t.limits size).low ≤ (t.limits size).high ∧ b = (t.limits size).hold a :=
  clamp_eq_ok_iff

theorem isFinite_of_apply (h : t.apply size center a = .ok mesh) : a.isFinite = true := by
  unfold apply at h
  exact (finite_guard_eq_ok_iff.mp h).1

theorem apply_congr (ha : a.isFinite = true) (hb : b.isFinite = true) (h : t.effective size a = t.effective size b) :
    t.apply size center a = t.apply size center b := by
  have ha : Scalar.isFinite a = true := ha
  have hb : Scalar.isFinite b = true := hb
  unfold apply
  rw [ha, hb, h]

end EdgeTreatment

namespace Plan

@[simp]
theorem parameter_rounding (segments : Nat) (edges : EdgeSelection) : (rounding segments edges).parameter = "radius" := by
  cases edges <;> rfl

@[simp]
theorem limit_rounding (segments : Nat) (edges : EdgeSelection) :
    (rounding segments edges).limit = Fillet.radiusLimit := by
  cases edges <;> rfl

@[simp]
theorem parameter_beveling (edges : EdgeSelection) : (beveling edges).parameter = "distance" := by
  cases edges <;> rfl

@[simp]
theorem limit_beveling (edges : EdgeSelection) :
    (beveling edges).limit = if edges == .all then Chamfer.allEdgesLimit else Chamfer.edgeLimit := by
  cases edges <;> rfl

end Plan

/-! ## Shells -/

namespace Shell

variable {size center : Vec3 Float} {openFaces : List Face} {radius height : Float} {segments rings : Nat}
  {openTop openBottom : Bool} {opening : Float} {old mesh : Mesh Float} {a b : Float}

theorem checkThickness_eq_ok_iff {u : Unit} : checkThickness a = .ok u ↔ a.isFinite = true :=
  require_eq_ok_iff

theorem isFinite_of_checked {β : Type} {f : Unit → Except (OperatorError Float) β} {c : β}
    (h : (checkThickness a >>= f) = .ok c) : a.isFinite = true := by
  obtain ⟨_, hcheck, -⟩ := bind_eq_ok_iff.mp h
  exact checkThickness_eq_ok_iff.mp hcheck

theorem checkThickness_congr (ha : a.isFinite = true) (hb : b.isFinite = true) : checkThickness a = checkThickness b :=
  (checkThickness_eq_ok_iff (u := ()).mpr ha).trans (checkThickness_eq_ok_iff.mpr hb).symm

theorem box_congr (ha : a.isFinite = true) (hb : b.isFinite = true) (h : boxThickness size a = boxThickness size b) :
    box size center a openFaces = box size center b openFaces := by
  unfold box
  rw [checkThickness_congr ha hb, h]

theorem cylinder_congr (ha : a.isFinite = true) (hb : b.isFinite = true)
    (h : cylinderThickness radius height a = cylinderThickness radius height b) :
    cylinder radius height center segments a openTop openBottom =
      cylinder radius height center segments b openTop openBottom := by
  unfold cylinder
  rw [checkThickness_congr ha hb, h]

theorem sphere_congr (ha : a.isFinite = true) (hb : b.isFinite = true)
    (h : sphereThickness radius a = sphereThickness radius b) :
    sphere radius center segments rings a openTop openBottom opening =
      sphere radius center segments rings b openTop openBottom opening := by
  unfold sphere
  rw [checkThickness_congr ha hb, h]

theorem isFinite_of_ofMesh (h : ofMesh old a = .ok mesh) : a.isFinite = true := isFinite_of_checked h

/-- The limits of a thickness, for solids that have any. -/
def limits? : Primitive Float → Option Limits
  | .box size _ => some ⟨0, (BoxFrame.half size).minimum * thicknessLimit⟩
  | .cylinder radius height _ _ => some ⟨0, Scalar.least radius.abs (height.abs / 2) * thicknessLimit⟩
  | .sphere radius _ _ _ => some ⟨0, radius.abs * thicknessLimit⟩
  | .cone .. => none

end Shell

namespace Plan

variable {old mesh : Mesh Float} {thickness applied : Float} {openFaces : List Face}
  {origin : Option (Primitive Float)}

theorem Shelled.isFinite (h : Shelled old thickness openFaces origin mesh applied) : thickness.isFinite = true := by
  cases h with
  | box hmesh | cylinder hmesh | sphere hmesh => exact Shell.isFinite_of_checked hmesh
  | cone hmesh | derived hmesh => exact Shell.isFinite_of_ofMesh hmesh

theorem Shelled.applied_eq (h : Shelled old thickness openFaces origin mesh applied) :
    applied = ((origin.bind Shell.limits?).map (·.hold thickness)).getD thickness := by
  cases h with
  | box hmesh happlied | cylinder hmesh happlied | sphere hmesh happlied => exact (clamp_eq_ok_iff.mp happlied).2
  | cone hmesh | derived hmesh => rfl

theorem Shelled.settled (h : Shelled old thickness openFaces origin mesh applied) :
    Shelled old applied openFaces origin mesh applied := by
  have hfinite := h.isFinite
  cases h with
  | box hmesh happlied =>
    have hclamped := clamp_of_clamp happlied
    refine .box ?_ hclamped
    rw [← hmesh]
    exact Shell.box_congr (isFinite_of_clamp hfinite rfl happlied) hfinite (hclamped.trans happlied.symm)
  | cylinder hmesh happlied =>
    have hclamped := clamp_of_clamp happlied
    refine .cylinder ?_ hclamped
    rw [← hmesh]
    exact Shell.cylinder_congr (isFinite_of_clamp hfinite rfl happlied) hfinite (hclamped.trans happlied.symm)
  | sphere hmesh happlied =>
    have hclamped := clamp_of_clamp happlied
    refine .sphere ?_ hclamped
    rw [← hmesh]
    exact Shell.sphere_congr (isFinite_of_clamp hfinite rfl happlied) hfinite (hclamped.trans happlied.symm)
  | cone hmesh => exact .cone hmesh
  | derived hmesh => exact .derived hmesh

end Plan

/-! ## Tori -/

namespace Round

theorem torusRadii_eq (major minor : Float) :
    torusRadii major minor =
      (Scalar.greatest major.abs (Scalar.greatest minor.abs minTubeRadius), Scalar.greatest minor.abs minTubeRadius) :=
  rfl

theorem abs_greatest {a b : Float} (hb : b.abs = b) : (Scalar.greatest a.abs b).abs = Scalar.greatest a.abs b := by
  unfold Scalar.greatest
  split
  · exact abs_abs_float a
  · exact hb

theorem abs_minTubeRadius : (minTubeRadius : Float).abs = minTubeRadius := rfl

theorem torusRadii_torusRadii (major minor : Float) :
    torusRadii (torusRadii major minor).1 (torusRadii major minor).2 = torusRadii major minor := by
  have htube := abs_greatest (a := minor) abs_minTubeRadius
  have hring := abs_greatest (a := major) htube
  rw [torusRadii_eq major minor, torusRadii_eq, hring, htube, greatest_greatest, greatest_greatest]

end Round

/-! ## Lofting -/

namespace Loft

def rises : List Float → Bool
  | [] => true
  | first :: rest => first ≤ rest.getLastD first

def past (rising : Bool) (previous : Float) : Limits :=
  if rising then ⟨previous + minGap, Scalar.infinity⟩ else ⟨-Scalar.infinity, previous - minGap⟩

def push (rising : Bool) (previous height : Float) : Float :=
  if rising then Scalar.greatest height (previous + minGap) else Scalar.least height (previous - minGap)

theorem push_eq_hold (rising : Bool) (previous : Float) {height : Float} (h : height.isFinite = true) :
    push rising previous height = (past rising previous).hold height := by
  unfold push past
  cases rising with
  | true => exact greatest_eq_hold h
  | false => exact least_eq_hold h

theorem push_push (rising : Bool) (previous height : Float) :
    push rising previous (push rising previous height) = push rising previous height := by
  unfold push
  cases rising with
  | true => exact greatest_greatest _ _
  | false => exact least_least _ _

theorem separateFrom_cons (rising : Bool) (previous height : Float) (rest : List Float) :
    separateFrom rising previous (height :: rest) =
      push rising previous height :: separateFrom rising (push rising previous height) rest := rfl

theorem separatedHeights_cons (first : Float) (rest : List Float) :
    separatedHeights (first :: rest) = first :: separateFrom (rises (first :: rest)) first rest := rfl

theorem getElem?_separateFrom (rising : Bool) (previous : Float) (rest : List Float) (i : Nat) :
    (previous :: separateFrom rising previous rest)[i + 1]? =
      rest[i]?.bind fun height => (previous :: separateFrom rising previous rest)[i]?.map (push rising · height) := by
  induction rest generalizing previous i with
  | nil => rfl
  | cons height rest ih =>
    rw [separateFrom_cons]
    cases i with
    | zero => rfl
    | succ i => exact ih (push rising previous height) i

theorem getElem?_separatedHeights (heights : List Float) (i : Nat) :
    (separatedHeights heights)[i + 1]? =
      heights[i + 1]?.bind fun height => (separatedHeights heights)[i]?.map (push (rises heights) · height) := by
  cases heights with
  | nil => rfl
  | cons first rest => exact getElem?_separateFrom _ first rest i

theorem getElem?_separatedHeights_zero (heights : List Float) : (separatedHeights heights)[0]? = heights[0]? := by
  cases heights <;> rfl

theorem getElem?_separatedHeights_succ {heights : List Float} {i : Nat} {height previous : Float}
    (hheight : heights[i + 1]? = some height) (hprevious : (separatedHeights heights)[i]? = some previous)
    (hfinite : height.isFinite = true) :
    (separatedHeights heights)[i + 1]? = some ((past (rises heights) previous).hold height) := by
  rw [getElem?_separatedHeights, hheight, Option.bind_some, hprevious, Option.map_some, push_eq_hold _ _ hfinite]

theorem separateFrom_separateFrom (rising : Bool) (previous : Float) (heights : List Float) :
    separateFrom rising previous (separateFrom rising previous heights) = separateFrom rising previous heights := by
  induction heights generalizing previous with
  | nil => rfl
  | cons height rest ih => rw [separateFrom_cons, separateFrom_cons, push_push, ih]

theorem getLastD_separateFrom (rising : Bool) (previous height : Float) (rest : List Float) (default : Float) :
    ∃ before, (separateFrom rising previous (height :: rest)).getLastD default =
      push rising before (rest.getLastD height) := by
  induction rest generalizing previous height default with
  | nil => exact ⟨previous, rfl⟩
  | cons next rest ih =>
    obtain ⟨before, hlast⟩ := ih (push rising previous height) next (push rising previous height)
    rw [separateFrom_cons, List.getLastD_cons, List.getLastD_cons]
    exact ⟨before, hlast⟩

theorem rises_separatedHeights {heights : List Float} (h : ∀ height ∈ heights, height.isFinite = true) :
    rises (separatedHeights heights) = rises heights := by
  match heights with
  | [] => rfl
  | [first] => rfl
  | first :: second :: rest =>
    obtain ⟨before, hlast⟩ := getLastD_separateFrom (rises (first :: second :: rest)) first second rest first
    have hfinite : (rest.getLastD second).isFinite = true :=
      h _ (List.mem_cons_of_mem _ List.getLastD_mem_cons)
    have hrises : rises (first :: second :: rest) = decide (first ≤ rest.getLastD second) := by
      have hrest : (second :: rest).getLastD first = rest.getLastD second := List.getLastD_cons
      rw [← hrest]
      rfl
    rw [separatedHeights_cons]
    show decide (first ≤ (separateFrom (rises (first :: second :: rest)) first (second :: rest)).getLastD first) = _
    rw [hlast]
    -- The last height is only ever held past the one before it, which takes it further on.
    by_cases hdirection : first ≤ rest.getLastD second
    · rw [hrises, decide_eq_true hdirection, decide_eq_true_iff]
      exact le_trans_float hdirection (le_greatest hfinite _)
    · rw [hrises, decide_eq_false hdirection, decide_eq_false_iff_not]
      exact fun hle => hdirection (le_trans_float hle (least_le hfinite _))

theorem separatedHeights_separatedHeights {heights : List Float} (h : ∀ height ∈ heights, height.isFinite = true) :
    separatedHeights (separatedHeights heights) = separatedHeights heights := by
  have hrises := rises_separatedHeights h
  cases heights with
  | nil => rfl
  | cons first rest =>
    rw [separatedHeights_cons] at *
    rw [separatedHeights_cons, hrises, separateFrom_separateFrom]

theorem units_minGap_lt : (units (minGap : Float)).natAbs < 2 ^ (places - 54) := by
  have hunpack : (minGap : Float).toModel.unpack = .finite .positive 4611686018427388 (-62) (by decide) := rfl
  have hplace : ((-62 : Int) + 1074).toNat + 53 ≤ places - 54 := by decide
  unfold units
  rw [hunpack, natAbs_unpackedUnits_finite]
  generalize ((-62 : Int) + 1074).toNat = k at *
  calc 4611686018427388 * 2 ^ k
    _ < 2 ^ 53 * 2 ^ k := Nat.mul_lt_mul_of_pos_right (by decide) (Nat.two_pow_pos k)
    _ = 2 ^ (k + 53) := by rw [Nat.add_comm, Nat.pow_add]
    _ ≤ 2 ^ (places - 54) := Nat.pow_le_pow_right (by decide) hplace

theorem isFinite_push (rising : Bool) {previous height : Float} (hprevious : previous.isFinite = true)
    (hheight : height.isFinite = true) : (push rising previous height).isFinite = true := by
  rw [push_eq_hold rising previous hheight]
  unfold past
  cases rising with
  | true =>
    exact isFinite_hold hheight (fun _ => isFinite_add_of_small hprevious rfl units_minGap_lt)
      fun h => absurd h (not_infinity_lt hheight)
  | false =>
    exact isFinite_hold hheight (fun h => absurd h (not_lt_neg_infinity hheight))
      fun _ => isFinite_sub_of_small hprevious rfl units_minGap_lt

theorem isFinite_separateFrom (rising : Bool) {previous : Float} (hprevious : previous.isFinite = true)
    {heights : List Float} (h : ∀ height ∈ heights, height.isFinite = true) :
    ∀ height ∈ separateFrom rising previous heights, height.isFinite = true := by
  induction heights generalizing previous with
  | nil => exact fun _ hmem => nomatch hmem
  | cons height rest ih =>
    obtain ⟨hheight, hrest⟩ := List.forall_mem_cons.mp h
    have hpush := isFinite_push rising hprevious hheight
    rw [separateFrom_cons]
    exact List.forall_mem_cons.mpr ⟨hpush, ih hpush hrest⟩

theorem isFinite_separatedHeights {heights : List Float} (h : ∀ height ∈ heights, height.isFinite = true) :
    ∀ height ∈ separatedHeights heights, height.isFinite = true := by
  cases heights with
  | nil => exact h
  | cons first rest =>
    obtain ⟨hfirst, hrest⟩ := List.forall_mem_cons.mp h
    rw [separatedHeights_cons]
    exact List.forall_mem_cons.mpr ⟨hfirst, isFinite_separateFrom _ hfirst hrest⟩

variable {sections : List (List (Vec2 Float))} {heights : List Float} {mesh : Mesh Float} {u : Unit}

theorem check_eq_ok_iff : check sections heights = .ok u ↔
    2 ≤ sections.length ∧ heights.length = sections.length ∧ (∀ height ∈ heights, height.isFinite = true) ∧
      ∀ s ∈ sections, Profile.isFinite s = true := by
  unfold check
  refine guard_eq_ok_iff.trans (and_congr Nat.not_lt (guard_eq_ok_iff.trans (and_congr not_not ?_)))
  have hfinite : (heights.any (fun h => !Scalar.isFinite h) || sections.any fun s => !Profile.isFinite s) = false ↔
      (∀ height ∈ heights, height.isFinite = true) ∧ ∀ s ∈ sections, Profile.isFinite s = true := by
    simp [Scalar.isFinite]
  rw [← hfinite]
  cases heights.any (fun h => !Scalar.isFinite h) || sections.any fun s => !Profile.isFinite s with
  | false => exact ⟨fun _ => rfl, fun _ => rfl⟩
  | true => exact ⟨nofun, nofun⟩

theorem isFinite_of_mesh (h : Loft.mesh sections heights = .ok mesh) : ∀ height ∈ heights, height.isFinite = true := by
  unfold Loft.mesh at h
  obtain ⟨_, hcheck, -⟩ := bind_eq_ok_iff.mp h
  exact (check_eq_ok_iff.mp hcheck).2.2.1

theorem mesh_separatedHeights (h : Loft.mesh sections heights = .ok mesh) :
    Loft.mesh sections (separatedHeights heights) = .ok mesh := by
  have hfinite := isFinite_of_mesh h
  unfold Loft.mesh at h ⊢
  obtain ⟨_, hcheck, h⟩ := bind_eq_ok_iff.mp h
  obtain ⟨hcount, hlength, -, hsections⟩ := check_eq_ok_iff.mp hcheck
  have hcheck' : check sections (separatedHeights heights) = .ok () :=
    check_eq_ok_iff.mpr
      ⟨hcount, (length_separatedHeights heights).trans hlength, isFinite_separatedHeights hfinite, hsections⟩
  rw [hcheck', separatedHeights_separatedHeights hfinite]
  exact h

end Loft

/-! ## Drafts -/

namespace Draft

def reach (m : Mesh Float) (pull : Vec3 Float) : Float :=
  greatestOf (m.vertices.toList.map fun p => (across pull (p - m.bounds.center)).norm)

/-- The height of the points that stay. -/
def neutralHeight (m : Mesh Float) (pull : Vec3 Float) (neutral : Option Float) : Float :=
  neutral.getD ((m.vertices.toList.map fun p => p.dot pull).foldl Scalar.least Scalar.infinity)

/-- How far a mesh reaches past its neutral plane, on the side that an angle makes narrower. -/
def pastNeutral (m : Mesh Float) (pull : Vec3 Float) (angle : Float) (neutral : Option Float) : Float :=
  greatestOf ((m.vertices.toList.map fun p => p.dot pull).map fun h =>
    (h - neutralHeight m pull neutral) * Scalar.sign angle)

def angleLimits (m : Mesh Float) (pull : Vec3 Float) (angle : Float) (neutral : Option Float) : Limits :=
  ⟨-limit (reach m pull) (pastNeutral m pull angle neutral), limit (reach m pull) (pastNeutral m pull angle neutral)⟩

def leaned (m : Mesh Float) (pull : Vec3 Float) (angle : Float) (neutral : Option Float) : Mesh Float :=
  let slope := Scalar.tan (Scalar.radians angle) / reach m pull
  { m with vertices := m.vertices.map (movePoint m.bounds.center pull (neutralHeight m pull neutral) slope) }

def tapered (m : Mesh Float) (pull : Vec3 Float) (angle : Float) (neutral : Option Float) : Mesh Float :=
  (leaned m pull angle neutral).recomputeNormals

variable {m : Mesh Float} {pull : Vec3 Float} {angle : Float} {neutral : Option Float} {r : Drafted Float}

theorem inRange_leaned : (leaned m pull angle neutral).InRange ↔ m.InRange := by
  have hcount : (leaned m pull angle neutral).vertexCount = m.vertexCount := Array.size_map
  unfold Mesh.InRange
  rw [hcount]
  rfl

theorem taper_eq_ok_iff : taper m pull angle neutral = .ok r ↔
    (reach m pull ≤ Scalar.ulpOne ∧ r = ⟨m, angle⟩) ∨
      (¬ reach m pull ≤ Scalar.ulpOne ∧
        (angleLimits m pull angle neutral).low ≤ (angleLimits m pull angle neutral).high ∧ m.InRange ∧
        r = ⟨tapered m pull ((angleLimits m pull angle neutral).hold angle) neutral,
          (angleLimits m pull angle neutral).hold angle⟩) := by
  show (if reach m pull ≤ Scalar.ulpOne then pure ⟨m, angle⟩
    else Fault.clamp (angleLimits m pull angle neutral).low (angleLimits m pull angle neutral).high angle >>=
      fun applied => Mesh.Guarded.recomputeNormals (leaned m pull applied neutral) >>=
        fun m' => pure ⟨m', applied⟩) = .ok r ↔ _
  by_cases hreach : reach m pull ≤ Scalar.ulpOne
  · rw [if_pos hreach]
    constructor
    · intro h
      exact Or.inl ⟨hreach, (Except.ok.inj h).symm⟩
    · rintro (⟨-, rfl⟩ | ⟨hnot, -⟩)
      · rfl
      · exact absurd hreach hnot
  · rw [if_neg hreach, bind_eq_ok_iff]
    constructor
    · rintro ⟨applied, hclamp, h⟩
      obtain ⟨hle, rfl⟩ := clamp_eq_ok_iff.mp hclamp
      obtain ⟨m', hm', h⟩ := bind_eq_ok_iff.mp h
      obtain ⟨hrange, rfl⟩ := Mesh.Guarded.recomputeNormals_eq_ok_iff.mp hm'
      exact Or.inr ⟨hreach, hle, inRange_leaned.mp hrange, (Except.ok.inj h).symm⟩
    · rintro (⟨hwide, -⟩ | ⟨-, hle, hrange, rfl⟩)
      · exact absurd hwide hreach
      · refine ⟨_, clamp_eq_ok_iff.mpr ⟨hle, rfl⟩, bind_eq_ok_iff.mpr ⟨_, ?_, rfl⟩⟩
        exact Mesh.Guarded.recomputeNormals_eq_ok_iff.mpr ⟨inRange_leaned.mpr hrange, rfl⟩

end Draft

/-- What there is to say about a draft. Without faces or width there is nothing to taper. -/
theorem Mesh.draft_eq_ok_iff {m : Mesh Float} {angle : Float} {direction : Vec3 Float} {neutral : Option Float}
    {r : Drafted Float} : m.draft angle direction neutral = .ok r ↔
      ∃ pull, direction.normalize? = some pull ∧ angle.isFinite = true ∧ (∀ n ∈ neutral, n.isFinite = true) ∧
        ((m.isEmpty = true ∧ r = ⟨m, angle⟩) ∨
          (m.isEmpty = false ∧ Draft.taper m pull angle neutral = .ok r)) := by
  unfold Mesh.draft
  cases direction.normalize? with
  | none => exact ⟨nofun, nofun⟩
  | some pull =>
    have hneutral : (neutral.any fun n => !Scalar.isFinite n) = false ↔ ∀ n ∈ neutral, n.isFinite = true := by
      cases neutral <;> simp [Scalar.isFinite]
    simp only [Option.some.injEq, exists_eq_left', pure_bind]
    refine finite_guard_eq_ok_iff.trans (and_congr_right fun _ => ?_)
    refine guard_eq_ok_iff.trans (and_congr ?_ ?_)
    · rw [Bool.not_eq_true, hneutral]
    · cases m.isEmpty with
      | true =>
        constructor
        · intro h
          exact Or.inl ⟨rfl, (Except.ok.inj h).symm⟩
        · rintro (⟨-, rfl⟩ | ⟨hnot, -⟩)
          · rfl
          · cases hnot
      | false =>
        constructor
        · intro h
          exact Or.inr ⟨rfl, h⟩
        · rintro (⟨hnot, -⟩ | ⟨-, h⟩)
          · cases hnot
          · exact h

end SolidScript
