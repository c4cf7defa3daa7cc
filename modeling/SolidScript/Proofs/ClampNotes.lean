import SolidScript.Proofs.OperatorLimits
import SolidScript.Proofs.Reports

/-!
# Notes on amounts out of limits

An amount that is moved into its limits is reported with what has become of it, and geometry is made
with that. Whether it has been moved is told by the difference, so that an extrusion of a large solid
can report rounding.
-/

namespace SolidScript

open Binary64 Limits

namespace Plan

/-! ## Amounts and their limits -/

/-- An amount that an entry asks for, and the limits that the solids set to it. -/
inductive Limited (g : ArtifactGraph Float) : Operation → String → Float → Limits → Prop
  | filletRadius {source edges radius segments size center} (h : g.origin? source = some (.box size center)) :
      Limited g (.fillet source edges radius segments) "radius" radius
        ⟨0, BoxFrame.shortestHalf size * Fillet.radiusLimit⟩
  | chamferDistance {source edges distance size center} (h : g.origin? source = some (.box size center)) :
      Limited g (.chamfer source edges distance) "distance" distance
        ⟨0, BoxFrame.shortestHalf size * if edges == .all then Chamfer.allEdgesLimit else Chamfer.edgeLimit⟩
  | shellThickness {source thickness openFaces p limits} (h : g.origin? source = some p)
      (hlimits : Shell.limits? p = some limits) :
      Limited g (.shell source thickness openFaces) "thickness" thickness limits
  | ringRadius {major minor center segments tubeSegments} :
      Limited g (.torus major minor center segments tubeSegments) "major_radius" major.abs
        ⟨Scalar.greatest minor.abs Round.minTubeRadius, Scalar.infinity⟩
  | tubeRadius {major minor center segments tubeSegments} :
      Limited g (.torus major minor center segments tubeSegments) "minor_radius" minor.abs
        ⟨Round.minTubeRadius, Scalar.infinity⟩
  | height {sections heights i height previous} (h : heights[i + 1]? = some height)
      (hprevious : (Loft.separatedHeights heights)[i]? = some previous) :
      Limited g (.loft sections heights) s!"heights[{i + 1}]" height (Loft.past (Loft.rises heights) previous)
  | draftAngle {source angle direction neutral m pull} (hm : g.mesh? source = some m)
      (hpull : direction.normalize? = some pull) (hfaces : m.isEmpty = false)
      (hwide : ¬ Draft.reach m pull ≤ Scalar.ulpOne) :
      Limited g (.draft source angle direction neutral) "angle" angle (Draft.angleLimits m pull angle neutral)

/-- What becomes of an amount. That of an extrusion is worked out from the extents before and after. -/
inductive Applied (g : ArtifactGraph Float) : Operation → String → Float → Float → Prop
  | held {operation parameter requested limits} (h : Limited g operation parameter requested limits) :
      Applied g operation parameter requested (limits.hold requested)
  | extruded {source face distance p extent} (h : g.origin? source = some p)
      (hextent : p.extent? face = some extent) :
      Applied g (.extrude source face distance) "distance" distance (Extrusion.grow extent distance).2

/-! ## Notes -/

variable {config : Config} {backend : BooleanBackend Float} {g : ArtifactGraph Float} {id : String} {plan : Plan}
  {o : Operation}

theorem mem_clampNote {parameter parameter' : String} {requested requested' applied applied' : Float} :
    .clamped parameter' requested' applied' ∈ clampNote parameter requested applied ↔
      (parameter' = parameter ∧ requested' = requested ∧ applied' = applied) ∧
        requested.isFinite = true ∧ clampTolerance < (requested - applied).abs := by
  unfold clampNote
  have hmoved : (requested.isFinite && decide (clampTolerance < (requested - applied).abs)) = true ↔
      requested.isFinite = true ∧ clampTolerance < (requested - applied).abs := by
    rw [Bool.and_eq_true, decide_eq_true_iff]
  rw [← hmoved]
  split
  · rename_i h
    rw [List.mem_singleton, Finding.clamped.injEq]
    exact ⟨fun heq => ⟨heq, h⟩, And.left⟩
  · rename_i h
    exact iff_of_false List.not_mem_nil fun hboth => h hboth.2

theorem clampNote_self (parameter : String) (a : Float) : clampNote parameter a a = [] := by
  unfold clampNote
  rw [decide_eq_false (not_clampTolerance_lt_sub_self a), Bool.and_false]
  rfl

theorem not_clamped_mem_edgeNote (edges : EdgeSelection) {parameter : String} {requested applied : Float} :
    .clamped parameter requested applied ∉ edgeNote edges := by
  unfold edgeNote
  split
  · split <;> simp
  · simp

/-- Notes that tell of each amount whether it has been moved farther than the tolerance. -/
def Tells (g : ArtifactGraph Float) (o : Operation) (notes : List Finding) : Prop :=
  ∀ parameter requested applied, .clamped parameter requested applied ∈ notes ↔
    Applied g o parameter requested applied ∧ clampTolerance < (requested - applied).abs

theorem applied_iff_of_not_extrude (ho : o.category ≠ .extrude) {parameter : String} {requested applied : Float} :
    Applied g o parameter requested applied ↔
      ∃ limits, Limited g o parameter requested limits ∧ applied = limits.hold requested := by
  constructor
  · intro h
    cases h with
    | held h => exact ⟨_, h, rfl⟩
    | extruded => exact absurd rfl ho
  · rintro ⟨limits, h, rfl⟩
    exact .held h

theorem tells_of_one {before : List Finding} {q : String} {r b : Float}
    (hbefore : ∀ parameter requested applied, .clamped parameter requested applied ∉ before) (hr : r.isFinite = true)
    (h : ∀ parameter requested applied,
      Applied g o parameter requested applied ↔ parameter = q ∧ requested = r ∧ applied = b) :
    Tells g o (before ++ clampNote q r b) := by
  intro parameter requested applied
  rw [List.mem_append, or_iff_right (hbefore _ _ _), mem_clampNote, h]
  constructor
  · rintro ⟨⟨rfl, rfl, rfl⟩, -, hmoved⟩
    exact ⟨⟨rfl, rfl, rfl⟩, hmoved⟩
  · rintro ⟨⟨rfl, rfl, rfl⟩, hmoved⟩
    exact ⟨⟨rfl, rfl, rfl⟩, hr, hmoved⟩

theorem tells_of_limited {before : List Finding} {q : String} {r : Float} {limits : Limits}
    (ho : o.category ≠ .extrude)
    (hbefore : ∀ parameter requested applied, .clamped parameter requested applied ∉ before) (hr : r.isFinite = true)
    (h : ∀ parameter requested limits',
      Limited g o parameter requested limits' ↔ parameter = q ∧ requested = r ∧ limits' = limits) :
    Tells g o (before ++ clampNote q r (limits.hold r)) := by
  refine tells_of_one hbefore hr fun parameter requested applied => ?_
  rw [applied_iff_of_not_extrude ho]
  constructor
  · rintro ⟨limits', hlimited, rfl⟩
    obtain ⟨rfl, rfl, rfl⟩ := (h _ _ _).mp hlimited
    exact ⟨rfl, rfl, rfl⟩
  · rintro ⟨rfl, rfl, rfl⟩
    exact ⟨limits, (h _ _ _).mpr ⟨rfl, rfl, rfl⟩, rfl⟩

theorem tells_nil (ho : o.category ≠ .extrude)
    (h : ∀ parameter requested limits, ¬ Limited g o parameter requested limits) : Tells g o [] := by
  intro parameter requested applied
  refine iff_of_false List.not_mem_nil ?_
  rintro ⟨happlied, -⟩
  obtain ⟨limits, hlimited, -⟩ := (applied_iff_of_not_extrude ho).mp happlied
  exact h _ _ _ hlimited

/-! ## Plans -/

theorem tells_extrude {face : Face} {distance : Float} (h : extrude g id face distance = .ok plan) :
    Tells g (.extrude id face distance) plan.notes := by
  obtain ⟨-, p, r, mesh, horigin, hextrude, -, rfl⟩ := extrude_eq_ok_iff.mp h
  obtain ⟨hfinite, extent, hextent, rfl⟩ := Primitive.extrude_eq_ok_iff.mp hextrude
  refine tells_of_one (fun _ _ _ => List.not_mem_nil) hfinite fun parameter requested applied => ⟨?_, ?_⟩
  · intro happlied
    cases happlied with
    | held h => cases h
    | extruded h hextent' =>
      rw [horigin] at h
      cases h
      rw [hextent] at hextent'
      cases hextent'
      exact ⟨rfl, rfl, rfl⟩
  · rintro ⟨rfl, rfl, rfl⟩
    exact .extruded horigin hextent

/-- Operations that treat edges of a box by an amount. -/
inductive Treats : Operation → String → EdgeTreatment Float → Float → Prop
  | fillet {source edges radius segments count} :
      Treats (.fillet source edges radius segments) source (rounding count edges) radius
  | chamfer {source edges distance} : Treats (.chamfer source edges distance) source (beveling edges) distance

theorem Treats.limited_iff {t : EdgeTreatment Float} {amount : Float} (ht : Treats o id t amount) {size center : Vec3 Float}
    (horigin : g.origin? id = some (.box size center)) {parameter : String} {requested : Float} {limits : Limits} :
    Limited g o parameter requested limits ↔
      parameter = t.parameter ∧ requested = amount ∧ limits = t.limits size := by
  unfold EdgeTreatment.limits
  cases ht with
  | fillet =>
    rw [parameter_rounding, limit_rounding]
    constructor
    · rintro (h | _)
      rw [horigin] at h
      cases h
      exact ⟨rfl, rfl, rfl⟩
    · rintro ⟨rfl, rfl, rfl⟩
      exact .filletRadius horigin
  | chamfer =>
    rw [parameter_beveling, limit_beveling]
    constructor
    · rintro (_ | h)
      rw [horigin] at h
      cases h
      exact ⟨rfl, rfl, rfl⟩
    · rintro ⟨rfl, rfl, rfl⟩
      exact .chamferDistance horigin

theorem Treats.tells {operation : String} {edges : EdgeSelection} {t : EdgeTreatment Float} {amount : Float}
    (ht : Treats o id t amount) (h : treat operation g id edges t amount = .ok plan) : Tells g o plan.notes := by
  obtain ⟨-, size, center, mesh, applied, horigin, hmesh, happlied, rfl⟩ := treat_eq_ok_iff.mp h
  obtain ⟨-, rfl⟩ := EdgeTreatment.effective_eq_ok_iff.mp happlied
  have ho : o.category ≠ .extrude := by
    cases ht <;> exact nofun
  exact tells_of_limited ho (fun _ _ _ => not_clamped_mem_edgeNote edges) (EdgeTreatment.isFinite_of_apply hmesh)
    fun _ _ _ => ht.limited_iff horigin

theorem limited_shell_iff {thickness : Float} {openFaces : List Face} {parameter : String} {requested : Float}
    {limits : Limits} :
    Limited g (.shell id thickness openFaces) parameter requested limits ↔
      parameter = "thickness" ∧ requested = thickness ∧ (g.origin? id).bind Shell.limits? = some limits := by
  constructor
  · intro hlimited
    cases hlimited with
    | shellThickness h hlimits =>
      rw [h]
      exact ⟨rfl, rfl, hlimits⟩
  · rintro ⟨rfl, rfl, hlimits⟩
    obtain ⟨p, hp, hlimits⟩ := Option.bind_eq_some_iff.mp hlimits
    exact .shellThickness hp hlimits

theorem tells_shell {thickness : Float} {openFaces : List Face} (h : shell g id thickness openFaces = .ok plan) :
    Tells g (.shell id thickness openFaces) plan.notes := by
  have ho : (Operation.shell id thickness openFaces).category ≠ .extrude := nofun
  obtain ⟨old, mesh, applied, -, hshelled, rfl⟩ := shell_eq_ok_iff.mp h
  have hfinite := hshelled.isFinite
  obtain rfl := hshelled.applied_eq
  cases hlimits : (g.origin? id).bind Shell.limits? with
  | none =>
    rw [Option.map_none, Option.getD_none]
    dsimp only
    rw [clampNote_self]
    refine tells_nil ho fun parameter requested limits hlimited => ?_
    obtain ⟨-, -, hlimits'⟩ := limited_shell_iff.mp hlimited
    rw [hlimits] at hlimits'
    cases hlimits'
  | some limits =>
    refine tells_of_limited ho (fun _ _ _ => List.not_mem_nil) hfinite fun parameter requested limits' => ?_
    rw [limited_shell_iff, hlimits, Option.some_inj, eq_comm (a := limits)]

theorem limited_torus_iff {major minor : Float} {center : Vec3 Float} {segments tubeSegments : Option Nat}
    {parameter : String} {requested : Float} {limits : Limits} :
    Limited g (.torus major minor center segments tubeSegments) parameter requested limits ↔
      (parameter = "major_radius" ∧ requested = major.abs ∧
        limits = ⟨Scalar.greatest minor.abs Round.minTubeRadius, Scalar.infinity⟩) ∨
      (parameter = "minor_radius" ∧ requested = minor.abs ∧ limits = ⟨Round.minTubeRadius, Scalar.infinity⟩) := by
  constructor
  · intro hlimited
    cases hlimited with
    | ringRadius => exact Or.inl ⟨rfl, rfl, rfl⟩
    | tubeRadius => exact Or.inr ⟨rfl, rfl, rfl⟩
  · rintro (⟨rfl, rfl, rfl⟩ | ⟨rfl, rfl, rfl⟩)
    · exact .ringRadius
    · exact .tubeRadius

theorem tells_torus {major minor : Float} {center : Vec3 Float} {segments tubeSegments : Option Nat}
    (h : torus config id major minor center segments tubeSegments = .ok plan) :
    Tells g (.torus major minor center segments tubeSegments) plan.notes := by
  have ho : (Operation.torus major minor center segments tubeSegments).category ≠ .extrude := nofun
  obtain ⟨hmajor, hminor, -, mesh, -, rfl⟩ := torus_eq_ok_iff.mp h
  have hmajor := isFinite_abs hmajor
  have hminor := isFinite_abs hminor
  intro parameter requested applied
  show _ ∈ clampNote "major_radius" _ _ ++ clampNote "minor_radius" _ _ ↔ _
  rw [List.mem_append, mem_clampNote, mem_clampNote, applied_iff_of_not_extrude ho, Round.torusRadii_eq]
  simp only [limited_torus_iff]
  constructor
  · rintro (⟨⟨rfl, rfl, rfl⟩, -, hmoved⟩ | ⟨⟨rfl, rfl, rfl⟩, -, hmoved⟩)
    · exact ⟨⟨_, Or.inl ⟨rfl, rfl, rfl⟩, greatest_eq_hold hmajor⟩, hmoved⟩
    · exact ⟨⟨_, Or.inr ⟨rfl, rfl, rfl⟩, greatest_eq_hold hminor⟩, hmoved⟩
  · rintro ⟨⟨limits, ⟨rfl, rfl, rfl⟩ | ⟨rfl, rfl, rfl⟩, rfl⟩, hmoved⟩
    · rw [← greatest_eq_hold hmajor] at *
      exact Or.inl ⟨⟨rfl, rfl, rfl⟩, hmajor, hmoved⟩
    · rw [← greatest_eq_hold hminor] at *
      exact Or.inr ⟨⟨rfl, rfl, rfl⟩, hminor, hmoved⟩

theorem mem_loft_notes {heights applied : List Float} {n : Finding} :
    n ∈ (heights.zip applied).zipIdx.flatMap (fun (((requested, applied), i) : (Float × Float) × Nat) =>
        clampNote s!"heights[{i}]" requested applied) ↔
      ∃ (i : Nat) (requested a : Float), heights[i]? = some requested ∧ applied[i]? = some a ∧
        n ∈ clampNote s!"heights[{i}]" requested a := by
  simp only [List.mem_flatMap, Prod.exists, List.mk_mem_zipIdx_iff_getElem?, List.getElem?_zip_eq_some]
  constructor
  · rintro ⟨requested, a, i, ⟨hrequested, ha⟩, hn⟩
    exact ⟨i, requested, a, hrequested, ha, hn⟩
  · rintro ⟨i, requested, a, hrequested, ha, hn⟩
    exact ⟨requested, a, i, ⟨hrequested, ha⟩, hn⟩

theorem limited_loft_iff {sections : List (List (Vec2 Float))} {heights : List Float} {parameter : String}
    {requested : Float} {limits : Limits} :
    Limited g (.loft sections heights) parameter requested limits ↔
      ∃ (i : Nat) (previous : Float), parameter = s!"heights[{i + 1}]" ∧ heights[i + 1]? = some requested ∧
        (Loft.separatedHeights heights)[i]? = some previous ∧ limits = Loft.past (Loft.rises heights) previous := by
  constructor
  · intro hlimited
    cases hlimited with
    | @height _ _ i _ previous hheight hprevious => exact ⟨i, previous, rfl, hheight, hprevious, rfl⟩
  · rintro ⟨i, previous, rfl, hheight, hprevious, rfl⟩
    exact .height hheight hprevious

theorem tells_loft {sections : List (List (Vec2 Float))} {heights : List Float}
    (h : loft id sections heights = .ok plan) : Tells g (.loft sections heights) plan.notes := by
  have ho : (Operation.loft sections heights).category ≠ .extrude := nofun
  obtain ⟨mesh, hmesh, rfl⟩ := loft_eq_ok_iff.mp h
  have hfinite := Loft.isFinite_of_mesh hmesh
  intro parameter requested applied
  show _ ∈ (heights.zip (Loft.separatedHeights heights)).zipIdx.flatMap _ ↔ _
  rw [mem_loft_notes, applied_iff_of_not_extrude ho]
  simp only [limited_loft_iff]
  constructor
  · rintro ⟨i, height, a, hheight, ha, hn⟩
    have hheight_finite := hfinite height (List.mem_of_getElem? hheight)
    cases i with
    | zero =>
      -- The first height is applied as it is.
      rw [Loft.getElem?_separatedHeights_zero, hheight] at ha
      obtain rfl := Option.some.inj ha
      rw [clampNote_self] at hn
      cases hn
    | succ i =>
      obtain ⟨⟨rfl, rfl, rfl⟩, -, hmoved⟩ := mem_clampNote.mp hn
      rw [Loft.getElem?_separatedHeights, hheight, Option.bind_some] at ha
      obtain ⟨previous, hprevious, rfl⟩ := Option.map_eq_some_iff.mp ha
      exact ⟨⟨_, ⟨i, previous, rfl, hheight, hprevious, rfl⟩, Loft.push_eq_hold _ _ hheight_finite⟩, hmoved⟩
  · rintro ⟨⟨limits, ⟨i, previous, rfl, hheight, hprevious, rfl⟩, rfl⟩, hmoved⟩
    have hheight_finite := hfinite requested (List.mem_of_getElem? hheight)
    refine ⟨i + 1, requested, _, hheight, ?_, mem_clampNote.mpr ⟨⟨rfl, rfl, rfl⟩, hheight_finite, hmoved⟩⟩
    exact Loft.getElem?_separatedHeights_succ hheight hprevious hheight_finite

theorem limited_draft_iff {angle : Float} {direction : Vec3 Float} {neutral : Option Float} {m : Mesh Float}
    {pull : Vec3 Float} (hm : g.mesh? id = some m) (hpull : direction.normalize? = some pull) {parameter : String}
    {requested : Float} {limits : Limits} :
    Limited g (.draft id angle direction neutral) parameter requested limits ↔
      (m.isEmpty = false ∧ ¬ Draft.reach m pull ≤ Scalar.ulpOne) ∧
        parameter = "angle" ∧ requested = angle ∧ limits = Draft.angleLimits m pull angle neutral := by
  constructor
  · intro hlimited
    cases hlimited with
    | draftAngle hm' hpull' hfaces hwide =>
      rw [hm] at hm'
      cases hm'
      rw [hpull] at hpull'
      cases hpull'
      exact ⟨⟨hfaces, hwide⟩, rfl, rfl, rfl⟩
  · rintro ⟨⟨hfaces, hwide⟩, rfl, rfl, rfl⟩
    exact .draftAngle hm hpull hfaces hwide

theorem tells_draft {angle : Float} {direction : Vec3 Float} {neutral : Option Float}
    (h : draft g id angle direction neutral = .ok plan) : Tells g (.draft id angle direction neutral) plan.notes := by
  have ho : (Operation.draft id angle direction neutral).category ≠ .extrude := nofun
  obtain ⟨m, r, hm, hdraft, rfl⟩ := draft_eq_ok_iff.mp h
  obtain ⟨pull, hpull, hfinite, -, hdraft⟩ := Mesh.draft_eq_ok_iff.mp hdraft
  have hstays (hnot : ¬ (m.isEmpty = false ∧ ¬ Draft.reach m pull ≤ Scalar.ulpOne)) :
      Tells g (.draft id angle direction neutral) (clampNote "angle" angle angle) := by
    rw [clampNote_self]
    exact tells_nil ho fun _ _ _ hlimited => hnot ((limited_draft_iff hm hpull).mp hlimited).1
  rcases hdraft with ⟨hempty, rfl⟩ | ⟨hfaces, htaper⟩
  · exact hstays fun hboth => Bool.false_ne_true (hboth.1.symm.trans hempty)
  · rcases Draft.taper_eq_ok_iff.mp htaper with ⟨hnarrow, rfl⟩ | ⟨hwide, -, -, rfl⟩
    · exact hstays fun hboth => hboth.2 hnarrow
    · refine tells_of_limited ho (fun _ _ _ => List.not_mem_nil) hfinite fun parameter requested limits => ?_
      rw [limited_draft_iff hm hpull]
      exact and_iff_right ⟨hfaces, hwide⟩

/-- What an entry notes on its amounts. -/
theorem ofEntry_tells {e : Entry} (h : ofEntry config backend g e = .ok plan) : Tells g e.operation plan.notes := by
  obtain ⟨name, line, operation⟩ := e
  unfold ofEntry at h
  cases operation with
  | extrude => exact tells_extrude h
  | fillet => exact Treats.fillet.tells h
  | chamfer => exact Treats.chamfer.tells h
  | shell => exact tells_shell h
  | torus => exact tells_torus h
  | loft => exact tells_loft h
  | draft => exact tells_draft h
  -- The other operations hold no amount to limits.
  | primitive shape =>
    have h : primitive name shape = .ok plan := h
    unfold primitive at h
    obtain ⟨-, h⟩ := guard_eq_ok_iff.mp h
    obtain ⟨mesh, -, h⟩ := op_bind_eq_ok_iff.mp h
    cases h
    exact tells_nil nofun (fun _ _ _ h => nomatch h)
  | boolean kind first second =>
    obtain ⟨a, -, h⟩ := source_bind_eq_ok_iff.mp h
    obtain ⟨b, -, h⟩ := source_bind_eq_ok_iff.mp h
    obtain ⟨mesh, -, h⟩ := op_bind_eq_ok_iff.mp h
    cases h
    exact tells_nil nofun (fun _ _ _ h => nomatch h)
  | revolve | sweep | helix =>
    obtain ⟨mesh, -, h⟩ := op_bind_eq_ok_iff.mp h
    cases h
    exact tells_nil nofun (fun _ _ _ h => nomatch h)
  | linearPattern | circularPattern | mirror | gridPattern | spiralPattern =>
    obtain ⟨old, mesh, -, -, rfl⟩ := reshape_eq_ok_iff.mp h
    exact tells_nil nofun (fun _ _ _ h => nomatch h)
  | scale | rotate | translate =>
    obtain ⟨old, mesh, -, -, rfl⟩ := transform_eq_ok_iff.mp h
    exact tells_nil nofun (fun _ _ _ h => nomatch h)

/-! ## Geometry -/

inductive Settled (g : ArtifactGraph Float) : Operation → Operation → Prop
  | filletRadius {source edges radius segments applied}
      (h : Applied g (.fillet source edges radius segments) "radius" radius applied) :
      Settled g (.fillet source edges radius segments) (.fillet source edges applied segments)
  | chamferDistance {source edges distance applied}
      (h : Applied g (.chamfer source edges distance) "distance" distance applied) :
      Settled g (.chamfer source edges distance) (.chamfer source edges applied)
  | shellThickness {source thickness openFaces applied}
      (h : Applied g (.shell source thickness openFaces) "thickness" thickness applied) :
      Settled g (.shell source thickness openFaces) (.shell source applied openFaces)
  | torusRadii {major minor center segments tubeSegments ring tube}
      (hring : Applied g (.torus major minor center segments tubeSegments) "major_radius" major.abs ring)
      (htube : Applied g (.torus major minor center segments tubeSegments) "minor_radius" minor.abs tube) :
      Settled g (.torus major minor center segments tubeSegments) (.torus ring tube center segments tubeSegments)
  | heights {sections heights applied} (hlength : applied.length = heights.length) (hfirst : applied[0]? = heights[0]?)
      (h : ∀ i height a, heights[i + 1]? = some height → applied[i + 1]? = some a →
        Applied g (.loft sections heights) s!"heights[{i + 1}]" height a) :
      Settled g (.loft sections heights) (.loft sections applied)

/-- Asked for what is applied, an entry makes the same change and has no amount to tell of. -/
def SettlesAs (config : Config) (backend : BooleanBackend Float) (g : ArtifactGraph Float) (e : Entry) (plan : Plan)
    (o : Operation) : Prop :=
  ∃ notes, ofEntry config backend g { e with operation := o } = .ok ⟨plan.change, notes⟩ ∧
    ∀ parameter requested applied, .clamped parameter requested applied ∉ notes

variable {e : Entry}

theorem Treats.settles {operation : String} {edges : EdgeSelection} {t : EdgeTreatment Float} {amount applied : Float}
    {parameter : String} (ht : Treats o id t amount) (h : treat operation g id edges t amount = .ok plan)
    (happlied : Applied g o parameter amount applied) :
    ∃ notes, treat operation g id edges t applied = .ok ⟨plan.change, notes⟩ ∧
      ∀ parameter requested applied, .clamped parameter requested applied ∉ notes := by
  obtain ⟨hsource, size, center, mesh, b, horigin, hmesh, hb, rfl⟩ := treat_eq_ok_iff.mp h
  have hsame : applied = b := by
    cases happlied with
    | held hlimited =>
      obtain ⟨-, -, rfl⟩ := (ht.limited_iff horigin).mp hlimited
      exact (EdgeTreatment.effective_eq_ok_iff.mp hb).2.symm
    | extruded => cases ht
  subst hsame
  have hclamped : t.effective size applied = .ok applied := clamp_of_clamp hb
  have hfinite := EdgeTreatment.isFinite_of_apply hmesh
  have hmesh' : t.apply size center applied = .ok mesh :=
    (EdgeTreatment.apply_congr (isFinite_of_clamp hfinite rfl hb) hfinite (hclamped.trans hb.symm)).trans hmesh
  refine ⟨_, treat_eq_ok_iff.mpr ⟨hsource, size, center, mesh, applied, horigin, hmesh', hclamped, rfl⟩, ?_⟩
  rw [clampNote_self, List.append_nil]
  exact fun _ _ _ => not_clamped_mem_edgeNote edges

theorem settles_shell {thickness applied : Float} {openFaces : List Face}
    (h : shell g id thickness openFaces = .ok plan)
    (happlied : Applied g (.shell id thickness openFaces) "thickness" thickness applied) :
    SettlesAs config backend g e plan (.shell id applied openFaces) := by
  obtain ⟨old, mesh, b, hold, hshelled, rfl⟩ := shell_eq_ok_iff.mp h
  have hsame : applied = b := by
    cases happlied with
    | held hlimited =>
      obtain ⟨-, -, hlimits⟩ := limited_shell_iff.mp hlimited
      rw [hshelled.applied_eq, hlimits]
      rfl
  subst hsame
  refine ⟨_, shell_eq_ok_iff.mpr ⟨old, mesh, applied, hold, hshelled.settled, rfl⟩, ?_⟩
  rw [clampNote_self]
  exact fun _ _ _ => List.not_mem_nil

theorem settles_torus {major minor ring tube : Float} {center : Vec3 Float} {segments tubeSegments : Option Nat}
    (h : torus config e.id major minor center segments tubeSegments = .ok plan)
    (hring : Applied g (.torus major minor center segments tubeSegments) "major_radius" major.abs ring)
    (htube : Applied g (.torus major minor center segments tubeSegments) "minor_radius" minor.abs tube) :
    SettlesAs config backend g e plan (.torus ring tube center segments tubeSegments) := by
  obtain ⟨hmajor, hminor, hcenter, mesh, hmesh, rfl⟩ := torus_eq_ok_iff.mp h
  have hradii : (ring, tube) = Round.torusRadii major minor := by
    -- The names tell which of the radii was held.
    cases hring with
    | held hring =>
      cases htube with
      | held htube =>
        rcases limited_torus_iff.mp hring with ⟨-, -, rfl⟩ | ⟨hname, -, -⟩
        · rcases limited_torus_iff.mp htube with ⟨hname, -, -⟩ | ⟨-, -, rfl⟩
          · exact absurd hname (by decide)
          · rw [Round.torusRadii_eq, greatest_eq_hold (isFinite_abs hmajor), greatest_eq_hold (isFinite_abs hminor)]
        · exact absurd hname (by decide)
  -- A radius that has been held is held to itself.
  have htube_abs := Round.abs_greatest (a := minor) Round.abs_minTubeRadius
  have hring_abs := Round.abs_greatest (a := major) htube_abs
  have hagain := Round.torusRadii_torusRadii major minor
  rw [Round.torusRadii_eq major minor] at hradii hagain hmesh
  obtain ⟨rfl, rfl⟩ := Prod.mk.inj hradii
  have htube_finite := isFinite_greatest (isFinite_abs hminor) (b := Round.minTubeRadius) rfl
  have hring_finite := isFinite_greatest (isFinite_abs hmajor) htube_finite
  refine ⟨_, torus_eq_ok_iff.mpr ⟨hring_finite, htube_finite, hcenter, mesh, ?_, rfl⟩, ?_⟩
  · rw [hagain]
    exact hmesh
  · rw [hagain, hring_abs, htube_abs, clampNote_self, clampNote_self]
    exact fun _ _ _ => List.not_mem_nil

theorem heightName_inj {m n : Nat} (h : s!"heights[{m}]" = s!"heights[{n}]") : m = n := by
  have hnames := congrArg String.toList h
  simp only [String.toList_append] at hnames
  exact Nat.repr_inj.mp (String.ext (List.append_cancel_left (List.append_cancel_right hnames)))

theorem eq_separatedHeights {sections : List (List (Vec2 Float))} {heights applied : List Float}
    (hfinite : ∀ height ∈ heights, height.isFinite = true) (hlength : applied.length = heights.length)
    (hfirst : applied[0]? = heights[0]?)
    (h : ∀ i height a, heights[i + 1]? = some height → applied[i + 1]? = some a →
      Applied g (.loft sections heights) s!"heights[{i + 1}]" height a) :
    applied = Loft.separatedHeights heights := by
  apply List.ext_getElem?
  intro i
  cases i with
  | zero => rw [hfirst, Loft.getElem?_separatedHeights_zero]
  | succ i =>
    cases ha : applied[i + 1]? with
    | none =>
      rw [List.getElem?_eq_none_iff, hlength] at ha
      rw [eq_comm, List.getElem?_eq_none_iff, length_separatedHeights]
      exact ha
    | some a =>
      obtain ⟨hlt, -⟩ := List.getElem?_eq_some_iff.mp ha
      have hheight := List.getElem?_eq_getElem (hlength ▸ hlt)
      generalize heights[i + 1] = height at hheight
      cases h i height a hheight ha with
      | held hlimited =>
        -- The name of the height tells its place, and so the height before it.
        obtain ⟨j, previous, hname, hheight', hprevious, rfl⟩ := limited_loft_iff.mp hlimited
        obtain rfl : i = j := Nat.succ.inj (heightName_inj hname)
        exact (Loft.getElem?_separatedHeights_succ hheight hprevious
          (hfinite height (List.mem_of_getElem? hheight))).symm

theorem settles_loft {sections : List (List (Vec2 Float))} {heights applied : List Float}
    (h : loft e.id sections heights = .ok plan) (hlength : applied.length = heights.length)
    (hfirst : applied[0]? = heights[0]?)
    (happlied : ∀ i height a, heights[i + 1]? = some height → applied[i + 1]? = some a →
      Applied g (.loft sections heights) s!"heights[{i + 1}]" height a) :
    SettlesAs config backend g e plan (.loft sections applied) := by
  obtain ⟨mesh, hmesh, rfl⟩ := loft_eq_ok_iff.mp h
  have hfinite := Loft.isFinite_of_mesh hmesh
  obtain rfl := eq_separatedHeights hfinite hlength hfirst happlied
  refine ⟨_, loft_eq_ok_iff.mpr ⟨mesh, Loft.mesh_separatedHeights hmesh, rfl⟩, ?_⟩
  rw [Loft.separatedHeights_separatedHeights hfinite]
  intro parameter requested a hn
  obtain ⟨i, height, a', hheight, ha, hn⟩ := mem_loft_notes.mp hn
  obtain rfl := Option.some.inj (hheight.symm.trans ha)
  rw [clampNote_self] at hn
  cases hn

/-- What is made goes by the amounts that are applied. -/
theorem ofEntry_settles {o : Operation} (h : ofEntry config backend g e = .ok plan)
    (hsettled : Settled g e.operation o) : SettlesAs config backend g e plan o := by
  obtain ⟨name, line, operation⟩ := e
  cases hsettled with
  | filletRadius happlied => exact Treats.fillet.settles h happlied
  | chamferDistance happlied => exact Treats.chamfer.settles h happlied
  | shellThickness happlied => exact settles_shell h happlied
  | torusRadii hring htube => exact settles_torus h hring htube
  | heights hlength hfirst happlied => exact settles_loft h hlength hfirst happlied

/-- The change that an entry makes is the one for the amounts that are applied. -/
structure GoesByApplied (config : Config) (backend : BooleanBackend Float) (g : ArtifactGraph Float) (e : Entry)
    (plan : Plan) : Prop where
  settled : ∀ o, Settled g e.operation o → SettlesAs config backend g e plan o
  extruded : ∀ source face distance moved, e.operation = .extrude source face distance →
    Applied g e.operation "distance" distance moved →
    ∃ p extent mesh, g.origin? source = some p ∧ p.extent? face = some extent ∧
      moved = (Extrusion.grow extent distance).2 ∧
      (p.stretch face (Extrusion.grow extent distance).1 moved).build = .ok mesh ∧
      plan.change = .update source mesh (.set (p.stretch face (Extrusion.grow extent distance).1 moved))
  drafted : ∀ source angle direction neutral applied, e.operation = .draft source angle direction neutral →
    Applied g e.operation "angle" angle applied →
    ∃ m pull, g.mesh? source = some m ∧ direction.normalize? = some pull ∧
      plan.change = .update source (Draft.tapered m pull applied neutral) .clear

theorem extruded_by_applied {face : Face} {distance moved : Float} (h : extrude g id face distance = .ok plan)
    (happlied : Applied g (.extrude id face distance) "distance" distance moved) :
    ∃ p extent mesh, g.origin? id = some p ∧ p.extent? face = some extent ∧
      moved = (Extrusion.grow extent distance).2 ∧
      (p.stretch face (Extrusion.grow extent distance).1 moved).build = .ok mesh ∧
      plan.change = .update id mesh (.set (p.stretch face (Extrusion.grow extent distance).1 moved)) := by
  obtain ⟨-, p, r, mesh, horigin, hextrude, hmesh, rfl⟩ := extrude_eq_ok_iff.mp h
  obtain ⟨-, extent, hextent, rfl⟩ := Primitive.extrude_eq_ok_iff.mp hextrude
  cases happlied with
  | held hlimited => cases hlimited
  | extruded horigin' hextent' =>
    rw [horigin] at horigin'
    cases horigin'
    rw [hextent] at hextent'
    cases hextent'
    exact ⟨p, extent, mesh, horigin, hextent, rfl, hmesh, rfl⟩

theorem drafted_by_applied {angle applied : Float} {direction : Vec3 Float} {neutral : Option Float}
    (h : draft g id angle direction neutral = .ok plan)
    (happlied : Applied g (.draft id angle direction neutral) "angle" angle applied) :
    ∃ m pull, g.mesh? id = some m ∧ direction.normalize? = some pull ∧
      plan.change = .update id (Draft.tapered m pull applied neutral) .clear := by
  obtain ⟨m, r, hm, hdraft, rfl⟩ := draft_eq_ok_iff.mp h
  obtain ⟨pull, hpull, hfinite, -, hdraft⟩ := Mesh.draft_eq_ok_iff.mp hdraft
  cases happlied with
  | held hlimited =>
    obtain ⟨⟨hfaces, hwide⟩, -, -, rfl⟩ := (limited_draft_iff hm hpull).mp hlimited
    rcases hdraft with ⟨hempty, -⟩ | ⟨-, htaper⟩
    · rw [hfaces] at hempty
      cases hempty
    · rcases Draft.taper_eq_ok_iff.mp htaper with ⟨hnarrow, -⟩ | ⟨-, -, -, rfl⟩
      · exact absurd hnarrow hwide
      · exact ⟨m, pull, hm, hpull, rfl⟩

theorem ofEntry_goesByApplied (h : ofEntry config backend g e = .ok plan) : GoesByApplied config backend g e plan where
  settled _ := ofEntry_settles h
  extruded := by
    obtain ⟨name, line, operation⟩ := e
    rintro source face distance moved rfl happlied
    exact extruded_by_applied h happlied
  drafted := by
    obtain ⟨name, line, operation⟩ := e
    rintro source angle direction neutral applied rfl happlied
    exact drafted_by_applied h happlied

/-! ## Rounding -/

theorem abs_extent {p : Primitive Float} {face : Face} {extent : Float} (h : p.extent? face = some extent) :
    extent.abs = extent := by
  unfold Primitive.extent? at h
  cases p with
  | box =>
    cases h
    exact abs_abs_float _
  | cylinder | cone =>
    dsimp only at h
    split at h
    · cases h
      exact abs_abs_float _
    · cases h
  | sphere => cases h

theorem not_moved_of_moderate {p : Primitive Float} {face : Face} {extent distance : Float}
    (hextent : p.extent? face = some extent) (hmoderate : extent < exactEnough)
    (hmoderate' : distance.abs < exactEnough) (h : ¬ extent + distance < Extrusion.minExtent) :
    ¬ clampTolerance < (distance - (Extrusion.grow extent distance).2).abs := by
  rw [← abs_extent hextent] at hmoderate
  rw [Extrusion.grow_of_enough (isFinite_add_of_moderate hmoderate hmoderate') h]
  exact not_clampTolerance_lt_add_sub hmoderate hmoderate'

end Plan

namespace Evaluation

open Plan

variable (config : Config) (backend : BooleanBackend Float) (spec : Specification)

theorem clamped_mem_reportsAt {place : Nat} {e : Entry} {plan : Plan}
    (he : (ordered config.order spec).1[place]? = some e)
    (hplan : Plan.ofEntry config backend (after spec config backend place).graph e = .ok plan) {parameter : String}
    {requested applied : Float} :
    (∃ d ∈ reportsAt config backend spec place, d.finding = .clamped parameter requested applied) ↔
      .clamped parameter requested applied ∈ plan.notes := by
  rw [reportsAt_of_some config backend spec he, hplan]
  unfold reportsOf notesOf
  constructor
  · rintro ⟨d, hd, hfinding⟩
    obtain ⟨n, hn, rfl⟩ := List.mem_map.mp hd
    obtain rfl : n = _ := hfinding
    split at hn
    · rcases List.mem_append.mp hn with hn | hn
      · exact hn
      -- What is noted besides is a treatment that is lost, and no amount.
      · obtain ⟨treatment, -, hrebuilt⟩ := Option.map_eq_some_iff.mp (Option.mem_toList.mp hn)
        cases hrebuilt
    · exact hn
  · intro hn
    refine ⟨_, List.mem_map.mpr ⟨_, ?_, rfl⟩, rfl⟩
    split
    · exact List.mem_append_left _ hn
    · exact hn

/-- An amount is reported where what is applied is farther from it than the tolerance. It is out of its limits then, or
the face of a solid has been pulled in too far, or the solid or the distance is so large that what a face has moved is
lost in rounding. What is made goes by the amounts that are applied. -/
theorem clamped_reported_iff (config : Config) (backend : BooleanBackend Float) (spec : Specification) :
    let entries := (ordered config.order spec).1
    let reports := reportsAt config backend spec
    let graph := fun place => (after spec config backend place).graph
    (∃ cycles, (∀ d ∈ cycles, ∀ parameter requested applied, d.finding ≠ .clamped parameter requested applied) ∧
      (spec.evaluate config backend).diagnostics = cycles ++ (List.range entries.length).flatMap reports) ∧
    ∀ place e plan, entries[place]? = some e → Plan.ofEntry config backend (graph place) e = .ok plan →
      (∀ parameter requested applied, (∃ d ∈ reports place, d.finding = .clamped parameter requested applied) ↔
        Applied (graph place) e.operation parameter requested applied ∧ clampTolerance < (requested - applied).abs) ∧
      (∀ parameter requested applied, (∃ d ∈ reports place, d.finding = .clamped parameter requested applied) →
        (∃ limits, Limited (graph place) e.operation parameter requested limits ∧ ¬ limits.Keeps requested ∧
          applied = limits.hold requested) ∨
        ∃ source face p extent, e.operation = .extrude source face requested ∧
          (graph place).origin? source = some p ∧ p.extent? face = some extent ∧
          (extent + requested < Extrusion.minExtent ∨ ¬ (extent < exactEnough ∧ requested.abs < exactEnough))) ∧
      GoesByApplied config backend (graph place) e plan := by
  intro entries reports graph
  refine ⟨⟨(ordered config.order spec).2, ?_, evaluate_diagnostics config backend spec⟩, ?_⟩
  · intro d hd parameter requested applied hfinding
    obtain ⟨ids, rfl⟩ := mem_ordered_diagnostics spec hd
    cases hfinding
  intro place e plan he hplan
  have hreported (parameter : String) (requested applied : Float) :
      (∃ d ∈ reports place, d.finding = .clamped parameter requested applied) ↔
        Applied (graph place) e.operation parameter requested applied ∧ clampTolerance < (requested - applied).abs :=
    (clamped_mem_reportsAt config backend spec he hplan).trans (ofEntry_tells hplan _ _ _)
  refine ⟨hreported, fun parameter requested applied h => ?_, ofEntry_goesByApplied hplan⟩
  obtain ⟨happlied, hmoved⟩ := (hreported _ _ _).mp h
  generalize e.operation = o at happlied
  cases happlied with
  | @held _ _ _ limits hlimited =>
    refine Or.inl ⟨limits, hlimited, fun hkeeps => ?_, rfl⟩
    rw [hold_of_keeps hkeeps] at hmoved
    exact not_clampTolerance_lt_sub_self requested hmoved
  | @extruded source face _ p extent horigin hextent =>
    refine Or.inr ⟨source, face, p, extent, rfl, horigin, hextent, ?_⟩
    by_contra hnot
    obtain ⟨henough, hmoderate⟩ := not_or.mp hnot
    obtain ⟨hextent_moderate, hdistance_moderate⟩ := not_not.mp hmoderate
    -- Otherwise, what rounding takes away stays below the tolerance.
    exact not_moved_of_moderate hextent hextent_moderate hdistance_moderate henough hmoved

/-- The face of a long box that moves as far as floats of its length can tell. -/
def longBox : Specification :=
  .ofEntries
    [⟨"a", 1, .primitive (.box ⟨1000000, 1, 1⟩ ⟨0, 0, 0⟩)⟩, ⟨"a_extrude", 2, .extrude "a" .right 0.1⟩]

def clamped? : Finding → Option (String × Float)
  | .clamped parameter requested _ => some (parameter, requested)
  | _ => none

/-- The box gets longer, and its face is said to stop early. -/
theorem longBox_misreports :
    let extrusion : Entry := ⟨"a_extrude", 2, .extrude "a" .right 0.1⟩
    (ordered .category longBox).1[1]? = some extrusion ∧
    (after longBox {} Solid.combine 1).graph.origin? "a" = some (.box ⟨1000000, 1, 1⟩ ⟨0, 0, 0⟩) ∧
    (∃ d ∈ reportsAt {} Solid.combine longBox 1, ∃ applied, d.finding = .clamped "distance" 0.1 applied) ∧
    ¬ (1000000 : Float).abs + 0.1 < Extrusion.minExtent := by
  intro extrusion
  have hreported : (reportsAt {} Solid.combine longBox 1).any
      (fun d => decide (clamped? d.finding = some ("distance", 0.1))) = true := by decide +kernel
  refine ⟨rfl, by decide +kernel, ?_, by decide +kernel⟩
  obtain ⟨d, hd, hclamped⟩ := List.any_eq_true.mp hreported
  have hclamped := of_decide_eq_true hclamped
  refine ⟨d, hd, ?_⟩
  cases hfinding : d.finding with
  | clamped parameter requested applied =>
    rw [hfinding] at hclamped
    cases hclamped
    exact ⟨applied, rfl⟩
  | _ =>
    rw [hfinding] at hclamped
    cases hclamped

end Evaluation

end SolidScript
