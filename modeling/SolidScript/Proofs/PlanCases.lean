import SolidScript.Proofs.Steps
import SolidScript.Proofs.Visibility

/-!
# Plans of entries that change a solid

For each kind of entry, all that there is to say about a plan: what has to be there, how the geometry
is made from it, and what is noted.
-/

namespace SolidScript

namespace ArtifactGraph

variable {α : Type}

def origin? (g : ArtifactGraph α) (id : String) : Option (Primitive α) := g.get? id >>= Artifact.origin

end ArtifactGraph

namespace Plan

variable {β γ : Type} {g : ArtifactGraph Float} {id : String} {plan : Plan}

/-! ## Steps of planning -/

theorem source_bind_eq_ok_iff {f : Mesh Float × Option (Primitive Float) → Except Refusal β} {b : β} :
    (source g id >>= f) = .ok b ↔ ∃ mesh, g.mesh? id = some mesh ∧ f (mesh, g.origin? id) = .ok b := by
  unfold source ArtifactGraph.mesh? ArtifactGraph.origin?
  split
  · rename_i mesh origin hget
    rw [hget]
    exact ⟨fun h => ⟨mesh, rfl, h⟩, fun ⟨_, hmesh, h⟩ => by cases hmesh; exact h⟩
  · rename_i hno
    constructor
    · intro h
      cases h
    · rintro ⟨mesh, hmesh, -⟩
      obtain ⟨⟨name, geometry, origin⟩, ha, hgeometry⟩ := Option.bind_eq_some_iff.mp hmesh
      dsimp only at hgeometry
      subst hgeometry
      exact absurd ha (hno name mesh origin)

theorem source_bind_eq_ok_iff_of_record {f : Mesh Float × Option (Primitive Float) → Except Refusal β} {b : β}
    {q : Prop} (h : ∀ mesh, f (mesh, g.origin? id) = .ok b ↔ q) :
    (source g id >>= f) = .ok b ↔ (g.mesh? id).isSome = true ∧ q := by
  rw [source_bind_eq_ok_iff, Option.isSome_iff_exists, ← exists_and_right]
  exact exists_congr fun mesh => and_congr_right fun _ => h mesh

theorem op_eq_ok_iff {x : Except (OperatorError Float) β} {b : β} : op x = .ok b ↔ x = .ok b := by
  cases x with
  | ok b' => exact ⟨fun h => congrArg _ (Except.ok.inj h), fun h => congrArg _ (Except.ok.inj h)⟩
  | error e => exact ⟨nofun, nofun⟩

theorem op_bind_eq_ok_iff {x : Except (OperatorError Float) β} {f : β → Except Refusal γ} {c : γ} :
    (op x >>= f) = .ok c ↔ ∃ b, x = .ok b ∧ f b = .ok c := by
  simp only [bind_eq_ok_iff, op_eq_ok_iff]

theorem return_eq_ok_iff {plan' : Plan} : (pure plan' : Except Refusal Plan) = .ok plan ↔ plan = plan' :=
  pure_eq_ok_iff.trans eq_comm

theorem boxOf_eq_ok_iff {operation : String} {origin : Option (Primitive Float)} {size center : Vec3 Float} :
    boxOf operation origin = .ok (size, center) ↔ origin = some (.box size center) := by
  unfold boxOf
  split
  · constructor
    · intro h
      cases h
      rfl
    · intro h
      cases h
      rfl
  · rename_i hno
    constructor
    · intro h
      cases h
    · intro h
      exact absurd h (hno size center)

/-! ## Kinds of entries -/

theorem extrude_eq_ok_iff {face : Face} {distance : Float} :
    extrude g id face distance = .ok plan ↔
      (g.mesh? id).isSome = true ∧ ∃ p r mesh, g.origin? id = some p ∧ p.extrude face distance = .ok r ∧
        r.primitive.build = .ok mesh ∧
        plan = ⟨.update id mesh (.set r.primitive), clampNote "distance" distance r.applied⟩ := by
  unfold extrude
  refine source_bind_eq_ok_iff_of_record fun _ => ?_
  cases g.origin? id with
  | none =>
    constructor
    · intro h
      cases h
    · rintro ⟨p, r, mesh, hp, -⟩
      cases hp
  | some p =>
    simp only [op_bind_eq_ok_iff]
    constructor
    · rintro ⟨r, hr, mesh, hmesh, h⟩
      cases h
      exact ⟨p, r, mesh, rfl, hr, hmesh, rfl⟩
    · rintro ⟨p', r, mesh, hp, hr, hmesh, rfl⟩
      cases hp
      exact ⟨r, hr, mesh, hmesh, rfl⟩

theorem treat_eq_ok_iff {operation : String} {edges : EdgeSelection} {t : EdgeTreatment Float} {amount : Float} :
    treat operation g id edges t amount = .ok plan ↔
      (g.mesh? id).isSome = true ∧ ∃ size center mesh applied, g.origin? id = some (.box size center) ∧
        t.apply size center amount = .ok mesh ∧ t.effective size amount = .ok applied ∧
        plan = ⟨.update id mesh .keep, edgeNote edges ++ clampNote t.parameter amount applied⟩ := by
  unfold treat
  refine source_bind_eq_ok_iff_of_record fun _ => ?_
  simp only [op_bind_eq_ok_iff, return_eq_ok_iff, Prod.exists, boxOf_eq_ok_iff, exists_and_left]

/-- The shell of a solid and the thickness that was applied. What is not recorded as a box, a cylinder or a sphere
gets an inner surface at the thickness that was asked for. -/
inductive Shelled (old : Mesh Float) (thickness : Float) (openFaces : List Face) :
    Option (Primitive Float) → Mesh Float → Float → Prop
  | box {size center : Vec3 Float} {mesh : Mesh Float} {applied : Float}
      (hmesh : Shell.box size center thickness openFaces = .ok mesh)
      (happlied : Shell.boxThickness size thickness = .ok applied) :
      Shelled old thickness openFaces (some (.box size center)) mesh applied
  | cylinder {radius height : Float} {center : Vec3 Float} {segments : Nat} {mesh : Mesh Float} {applied : Float}
      (hmesh : Shell.cylinder radius height center segments thickness (openFaces.contains .top)
        (openFaces.contains .bottom) = .ok mesh)
      (happlied : Shell.cylinderThickness radius height thickness = .ok applied) :
      Shelled old thickness openFaces (some (.cylinder radius height center segments)) mesh applied
  | sphere {radius : Float} {center : Vec3 Float} {segments rings : Nat} {mesh : Mesh Float} {applied : Float}
      (hmesh : Shell.sphere radius center segments rings thickness (openFaces.contains .top)
        (openFaces.contains .bottom) Shell.openingAngle = .ok mesh)
      (happlied : Shell.sphereThickness radius thickness = .ok applied) :
      Shelled old thickness openFaces (some (.sphere radius center segments rings)) mesh applied
  | cone {radius radiusTop height : Float} {center : Vec3 Float} {segments : Nat} {mesh : Mesh Float}
      (hmesh : Shell.ofMesh old thickness = .ok mesh) :
      Shelled old thickness openFaces (some (.cone radius radiusTop height center segments)) mesh thickness
  | derived {mesh : Mesh Float} (hmesh : Shell.ofMesh old thickness = .ok mesh) :
      Shelled old thickness openFaces none mesh thickness

theorem shell_eq_ok_iff {thickness : Float} {openFaces : List Face} :
    shell g id thickness openFaces = .ok plan ↔
      ∃ old mesh applied, g.mesh? id = some old ∧ Shelled old thickness openFaces (g.origin? id) mesh applied ∧
        plan = ⟨.update id mesh .clear, clampNote "thickness" thickness applied⟩ := by
  unfold shell
  rw [source_bind_eq_ok_iff]
  refine exists_congr fun old => ?_
  generalize g.origin? id = origin
  constructor
  · rintro ⟨hold, h⟩
    -- The thickness is held to limits for boxes, cylinders and spheres only.
    match origin with
    | none =>
      obtain ⟨mesh, hmesh, h⟩ := op_bind_eq_ok_iff.mp h
      exact ⟨mesh, thickness, hold, .derived hmesh, return_eq_ok_iff.mp h⟩
    | some (.box size center) =>
      obtain ⟨mesh, hmesh, h⟩ := op_bind_eq_ok_iff.mp h
      obtain ⟨applied, happlied, h⟩ := op_bind_eq_ok_iff.mp h
      exact ⟨mesh, applied, hold, .box hmesh happlied, return_eq_ok_iff.mp h⟩
    | some (.cylinder radius height center segments) =>
      obtain ⟨mesh, hmesh, h⟩ := op_bind_eq_ok_iff.mp h
      obtain ⟨applied, happlied, h⟩ := op_bind_eq_ok_iff.mp h
      exact ⟨mesh, applied, hold, .cylinder hmesh happlied, return_eq_ok_iff.mp h⟩
    | some (.sphere radius center segments rings) =>
      obtain ⟨mesh, hmesh, h⟩ := op_bind_eq_ok_iff.mp h
      obtain ⟨applied, happlied, h⟩ := op_bind_eq_ok_iff.mp h
      exact ⟨mesh, applied, hold, .sphere hmesh happlied, return_eq_ok_iff.mp h⟩
    | some (.cone radius radiusTop height center segments) =>
      obtain ⟨mesh, hmesh, h⟩ := op_bind_eq_ok_iff.mp h
      exact ⟨mesh, thickness, hold, .cone hmesh, return_eq_ok_iff.mp h⟩
  · rintro ⟨mesh, applied, hold, hshelled, h⟩
    refine ⟨hold, ?_⟩
    cases hshelled with
    | box hmesh happlied | cylinder hmesh happlied | sphere hmesh happlied =>
      exact op_bind_eq_ok_iff.mpr ⟨mesh, hmesh, op_bind_eq_ok_iff.mpr ⟨applied, happlied, return_eq_ok_iff.mpr h⟩⟩
    | cone hmesh | derived hmesh => exact op_bind_eq_ok_iff.mpr ⟨mesh, hmesh, return_eq_ok_iff.mpr h⟩

theorem transform_eq_ok_iff {motion : Vec3 Float → Transform Float} {pivot : Option (Vec3 Float)} :
    transform g id motion pivot = .ok plan ↔
      ∃ old mesh, g.mesh? id = some old ∧ old.apply (motion (pivot.getD (defaultPivot old))) = .ok mesh ∧
        plan = ⟨.update id mesh (match g.origin? id >>= (·.transform? (motion (pivot.getD (defaultPivot old)))) with
          | some p => .set p
          | none => .clear), []⟩ := by
  rw [transform, source_bind_eq_ok_iff]
  refine exists_congr fun old => ?_
  rw [exists_and_left]
  refine and_congr_right fun _ => ?_
  exact op_bind_eq_ok_iff.trans (exists_congr fun mesh => and_congr_right fun _ => return_eq_ok_iff)

theorem reshape_eq_ok_iff {f : Mesh Float → Except (OperatorError Float) (Mesh Float)} :
    reshape g id f = .ok plan ↔
      ∃ old mesh, g.mesh? id = some old ∧ f old = .ok mesh ∧ plan = ⟨.update id mesh .clear, []⟩ := by
  simp only [reshape, source_bind_eq_ok_iff, op_bind_eq_ok_iff, return_eq_ok_iff, exists_and_left]

theorem draft_eq_ok_iff {angle : Float} {direction : Vec3 Float} {neutral : Option Float} :
    draft g id angle direction neutral = .ok plan ↔
      ∃ old r, g.mesh? id = some old ∧ old.draft angle direction neutral = .ok r ∧
        plan = ⟨.update id r.mesh .clear, clampNote "angle" angle r.applied⟩ := by
  simp only [draft, source_bind_eq_ok_iff, op_bind_eq_ok_iff, return_eq_ok_iff, exists_and_left]

theorem loft_eq_ok_iff {sections : List (List (Vec2 Float))} {heights : List Float} :
    loft id sections heights = .ok plan ↔
      ∃ mesh, Loft.mesh sections heights = .ok mesh ∧
        plan = create id mesh ((heights.zip (Loft.separatedHeights heights)).zipIdx.flatMap
          fun ((requested, applied), i) => clampNote s!"heights[{i}]" requested applied) := by
  simp only [loft, op_bind_eq_ok_iff, return_eq_ok_iff]

theorem requireFinite_eq_ok_iff {name : String} {a : Float} {u : Unit} :
    Pattern.requireFinite name a = .ok u ↔ a.isFinite = true :=
  require_eq_ok_iff

theorem torus_eq_ok_iff {config : Config} {major minor : Float} {center : Vec3 Float}
    {segments tubeSegments : Option Nat} :
    torus config id major minor center segments tubeSegments = .ok plan ↔
      major.isFinite = true ∧ minor.isFinite = true ∧ center.isFinite = true ∧
        ∃ mesh, Round.buildTorus (Round.torusRadii major minor).1 (Round.torusRadii major minor).2 center
          (segments.getD config.segments) (tubeSegments.getD config.sphereRings) = .ok mesh ∧
          plan = create id mesh (clampNote "major_radius" major.abs (Round.torusRadii major minor).1 ++
            clampNote "minor_radius" minor.abs (Round.torusRadii major minor).2) := by
  unfold torus
  simp only [op_bind_eq_ok_iff, requireFinite_eq_ok_iff, exists_and_left, exists_const]
  refine and_congr_right fun _ => and_congr_right fun _ => ?_
  cases center.isFinite with
  | false => exact ⟨nofun, nofun⟩
  | true =>
    rw [and_iff_right rfl]
    exact op_bind_eq_ok_iff.trans (exists_congr fun mesh => and_congr_right fun _ => return_eq_ok_iff)

end Plan

end SolidScript
