import SolidScript.Kernel
import SolidScript.Proofs.Magnitude
import SolidScript.Proofs.MeshChecks
import SolidScript.Proofs.RoundSolids
import SolidScript.Proofs.Visibility

/-!
# Where geometry stays finite

A solid has the geometry that was written last. Booleans check what they write, and no other entry does, so that
finite numbers in a script are not enough: their sums and products may be too large for a float.
-/

namespace SolidScript

/-! ## Boxes -/

section Box

open Binary64

theorem leadsBelow_of_abs_lt_1e307 {x : Float} (h : x.abs < 1e307) : LeadsBelow 1020 x := by
  have hbits : (1e307 : Float).toModel.toBits = 0x7FAC7B1F3CAC7433 := by decide +kernel
  have hc : (1e307 : Float).toModel.unpack = .finite .positive 0x1C7B1F3CAC7433 967 (by decide) := by
    unfold Float.Model.unpack
    rw [hbits]
    rfl
  exact leadsBelow_of_abs_lt hc (by decide) h

def Vec3.Within (bound : Float) (v : Vec3 Float) : Prop := v.x.abs < bound ∧ v.y.abs < bound ∧ v.z.abs < bound

theorem leadsBelow_sign {sign : Float} (h : sign = 1 ∨ sign = -1) : LeadsBelow 1 sign := by
  rcases h with rfl | rfl
  · show leading (2 ^ 52) (-52) < 1 ∧ _
    decide
  · show leading (2 ^ 52) (-52) < 1 ∧ _
    decide

theorem isFinite_corner {center sign size : Float} (hsign : sign = 1 ∨ sign = -1) (hcenter : center.abs < 1e307)
    (hsize : size.abs < 1e307) : (center + sign * (size.abs / 2)).isFinite = true := by
  have hhalf : LeadsBelow 1020 (size.abs / 2) :=
    leadsBelow_half (by decide) (by decide) (leadsBelow_abs (by decide) (by decide) (leadsBelow_of_abs_lt_1e307 hsize))
  have hoffset : LeadsBelow 1022 (sign * (size.abs / 2)) :=
    leadsBelow_mul (by decide) (by decide) (leadsBelow_sign hsign) hhalf
  have hsum : LeadsBelow 1024 (center + sign * (size.abs / 2)) :=
    leadsBelow_add (by decide) (by decide) ((leadsBelow_of_abs_lt_1e307 hcenter).mono (by decide)) hoffset
  exact isFinite_of_leadsBelow hsum

theorem boxSigns_sign : ∀ s ∈ (Primitive.boxSigns : List (Vec3 Float)),
    (s.x = 1 ∨ s.x = -1) ∧ (s.y = 1 ∨ s.y = -1) ∧ (s.z = 1 ∨ s.z = -1) := by
  decide +kernel

theorem finite_boxMesh {size center : Vec3 Float} (hsize : size.Within 1e307) (hcenter : center.Within 1e307) :
    (Primitive.boxMesh size center).Finite := by
  intro v hv
  obtain ⟨s, hs, rfl⟩ := List.mem_map.mp (List.mem_toArray.mp hv)
  obtain ⟨hx, hy, hz⟩ := boxSigns_sign s hs
  unfold Vec3.isFinite
  rw [Bool.and_eq_true, Bool.and_eq_true]
  exact ⟨⟨isFinite_corner hx hcenter.1 hsize.1, isFinite_corner hy hcenter.2.1 hsize.2.1⟩,
    isFinite_corner hz hcenter.2.2 hsize.2.2⟩

end Box

/-! ## What plans write -/

namespace Change

def mesh? : Change → Option (Mesh Float)
  | create a _ => a.geometry
  | update _ mesh _ => some mesh

end Change

namespace Plan

variable {config : Config} {backend : BooleanBackend Float} {g : ArtifactGraph Float} {e : Entry} {plan : Plan}

theorem mesh?_carryOut (h : ofEntry config backend g e = .ok plan) :
    ∃ m, plan.change.mesh? = some m ∧
      ∀ id, (plan.change.carryOut g).mesh? id = if id = e.target then some m else g.mesh? id := by
  unfold ArtifactGraph.mesh?
  cases committed_of_ok h with
  | made mesh origin kept hgen hplan hmade hothers =>
    refine ⟨mesh, by rw [hplan]; rfl, fun id => ?_⟩
    rw [target_of_generative hgen]
    split
    · rename_i hid
      rw [hid, hmade]
      rfl
    · rename_i hid
      rw [hothers id hid]
  | changed source mesh origin old new hgen hsource hplan hold hnew hname hgeometry hrecord hothers =>
    refine ⟨mesh, by rw [hplan]; rfl, fun id => ?_⟩
    rw [target_of_source hgen hsource]
    split
    · rename_i hid
      rw [hid, hnew]
      exact hgeometry
    · rename_i hid
      rw [hothers id hid]

theorem mesh?_of_primitive {p : Primitive Float} (hprimitive : e.operation = .primitive p)
    (h : ofEntry config backend g e = .ok plan) : p.isFinite = true ∧ plan.change.mesh? = some p.toMesh := by
  obtain ⟨name, line, operation⟩ := e
  cases hprimitive
  unfold ofEntry primitive at h
  dsimp only at h
  split at h
  · cases h
  · rename_i hfinite
    refine ⟨by simpa using hfinite, ?_⟩
    rw [Primitive.build_eq] at h
    cases hroom : p.requireRoom with
    | error e =>
      rw [hroom] at h
      cases h
    | ok =>
      rw [hroom] at h
      cases h
      rfl

theorem finite_of_boolean (hboolean : Evaluation.isBoolean e.operation = true)
    (h : ofEntry config backend g e = .ok plan) {m : Mesh Float} (hm : plan.change.mesh? = some m) : m.Finite := by
  obtain ⟨name, line, operation⟩ := e
  cases operation with
  | boolean kind first second =>
    obtain ⟨-, ⟨a, _⟩, h⟩ := known_of_source_ok h
    obtain ⟨-, ⟨b, _⟩, h⟩ := known_of_source_ok h
    dsimp only at h
    cases hmesh : Mesh.combine backend a b kind with
    | error e =>
      rw [hmesh] at h
      cases h
    | ok result =>
      rw [hmesh] at h
      cases h
      cases hm
      exact (Mesh.checked_of_combine hmesh).finite
  | _ => cases hboolean

end Plan

namespace Evaluation

open Plan

variable (config : Config) (backend : BooleanBackend Float) (spec : Specification)

/-! ## The last writes of a run -/

/-- The entry at a place is carried out, and gives a mesh to a solid. -/
def WritesAt (place : Nat) (id : String) (m : Mesh Float) : Prop :=
  ∃ e plan, (ordered config.order spec).1[place]? = some e ∧
    Plan.ofEntry config backend (after spec config backend place).graph e = .ok plan ∧
    e.target = id ∧ plan.change.mesh? = some m

/-- Of the first entries, the one at a place is the last to give a mesh to a solid. -/
structure LastWrite (count : Nat) (id : String) (place : Nat) (m : Mesh Float) : Prop where
  lt : place < count
  writes : WritesAt config backend spec place id m
  last : ∀ j, place < j → j < count → ∀ m', ¬ WritesAt config backend spec j id m'

section Places

variable {config backend spec} {place count : Nat} {id : String} {m : Mesh Float} {e : Entry}

theorem writesAt_iff_of_ok {plan : Plan} (he : (ordered config.order spec).1[place]? = some e)
    (hplan : Plan.ofEntry config backend (after spec config backend place).graph e = .ok plan) :
    WritesAt config backend spec place id m ↔ e.target = id ∧ plan.change.mesh? = some m :=
  planned_iff_of_ok he hplan

theorem lastWrite_iff_latest :
    LastWrite config backend spec count id place m ↔
      Latest (fun place => WritesAt config backend spec place id) count place m :=
  ⟨fun h => ⟨h.lt, h.writes, h.last⟩, fun h => ⟨h.lt, h.here, h.last⟩⟩

end Places

theorem mesh?_after_succ (id : String) (count : Nat) :
    ((∀ m, ¬ WritesAt config backend spec count id m) ∧
      (after spec config backend (count + 1)).graph.mesh? id = (after spec config backend count).graph.mesh? id) ∨
    ∃ m, (∀ m', WritesAt config backend spec count id m' ↔ m' = m) ∧
      (after spec config backend (count + 1)).graph.mesh? id = some m := by
  cases he : (ordered config.order spec).1[count]? with
  | none =>
    rw [after_succ_of_none spec config backend he]
    exact Or.inl ⟨fun _ => not_planned_of_none he, rfl⟩
  | some e =>
    rw [after_succ spec config backend he, step_graph]
    cases hplan : Plan.ofEntry config backend (after spec config backend count).graph e with
    | error refusal => exact Or.inl ⟨fun _ => not_planned_of_error he hplan, rfl⟩
    | ok plan =>
      obtain ⟨m, hm, hmesh⟩ := mesh?_carryOut hplan
      simp only [writesAt_iff_of_ok he hplan]
      rw [changeOf, hmesh]
      by_cases hid : id = e.target
      · rw [if_pos hid]
        refine Or.inr ⟨m, fun m' => ?_, rfl⟩
        rw [hm, and_iff_right hid.symm, Option.some_inj, eq_comm]
      · rw [if_neg hid]
        exact Or.inl ⟨fun m' h => hid h.1.symm, rfl⟩

/-- A solid has the geometry that it was given last. -/
theorem mesh?_after_iff (count : Nat) (id : String) (m : Mesh Float) :
    (after spec config backend count).graph.mesh? id = some m ↔
      ∃ place, LastWrite config backend spec count id place m := by
  have hlatest := eq_iff_exists_latest (g := some) (f := fun n => (after spec config backend n).graph.mesh? id)
    (c := some m) nofun (mesh?_after_succ config backend spec id) count
  simpa only [lastWrite_iff_latest, Option.some_inj, exists_eq_right] using hlatest

/-- Booleans check what they make, and boxes of moderate size near the middle leave floats enough room. -/
def NeverOverflows (e : Entry) : Prop :=
  isBoolean e.operation = true ∨
  ∃ size center, e.operation = .primitive (.box size center) ∧ size.Within 1e307 ∧ center.Within 1e307

theorem finite_of_neverOverflows {place : Nat} {e : Entry} (he : (ordered config.order spec).1[place]? = some e)
    (hnever : NeverOverflows e) {id : String} {m : Mesh Float} (h : WritesAt config backend spec place id m) :
    m.Finite := by
  obtain ⟨e', plan, he', hplan, -, hm⟩ := h
  obtain rfl := Option.some.inj (he.symm.trans he')
  rcases hnever with hboolean | ⟨size, center, hbox, hsize, hcenter⟩
  · exact finite_of_boolean hboolean hplan hm
  · obtain rfl := Option.some.inj (hm.symm.trans (mesh?_of_primitive hbox hplan).2)
    exact finite_boxMesh hsize hcenter

end Evaluation

open Evaluation Script

/-- A solid of a script has the geometry that an entry gave it last. All of it is finite just when all last writes
are. Those of booleans are finite in any case, and those of boxes that leave floats enough room. -/
theorem Kernel.finite_iff_last_writes_finite [SyntaxReport] (k : Kernel) (script : String) :
    let spec := (parse k.config script).1
    let entries := (ordered k.config.order spec).1
    let graph := (k.evaluateScript script).graph
    let LastWrite := LastWrite k.config k.backend spec entries.length
    (∀ id m, graph.mesh? id = some m ↔ ∃ place, LastWrite id place m) ∧
    (∀ place e, entries[place]? = some e → NeverOverflows e →
      ∀ id m, WritesAt k.config k.backend spec place id m → m.Finite) ∧
    ((∀ id m, graph.mesh? id = some m → m.Finite) ↔
      ∀ id place m, LastWrite id place m → ∀ e, entries[place]? = some e → ¬ NeverOverflows e → m.Finite) := by
  intro spec entries graph LastWrite
  have hgraph : graph = (after spec k.config k.backend entries.length).graph := by
    show (spec.evaluate k.config k.backend).graph = _
    rw [evaluate_eq]
  have hlast : ∀ id m, graph.mesh? id = some m ↔ ∃ place, LastWrite id place m := by
    intro id m
    rw [hgraph]
    exact mesh?_after_iff k.config k.backend spec entries.length id m
  have hnever : ∀ place e, entries[place]? = some e → NeverOverflows e →
      ∀ id m, WritesAt k.config k.backend spec place id m → m.Finite :=
    fun place e he hnever id m => finite_of_neverOverflows k.config k.backend spec he hnever
  refine ⟨hlast, hnever, ?_⟩
  constructor
  · intro hfinite id place m h e he hother
    exact hfinite id m ((hlast id m).mpr ⟨place, h⟩)
  · intro hwrites id m hm
    obtain ⟨place, h⟩ := (hlast id m).mp hm
    obtain ⟨e, plan, he, hplan⟩ := h.writes
    by_cases hkind : NeverOverflows e
    · exact hnever place e he hkind id m h.writes
    · exact hwrites id place m h e he hkind

/-- A box from 1.2e308 to 2.2e308, where floats end at about 1.8e308. -/
theorem Kernel.box_beyond_floats :
    let evaluation := (Kernel.standard {}).evaluateScript "box(size: [1e308, 1, 1], center: [1.7e308, 0, 0])"
    evaluation.diagnostics = [] ∧ ∃ m, evaluation.graph.mesh? "box1" = some m ∧ ¬ m.Finite := by
  intro evaluation
  have hreports : evaluation.diagnostics.isEmpty = true := by decide +kernel
  have hnonFinite : (evaluation.graph.mesh? "box1").any Mesh.hasNonFinite = true := by decide +kernel
  obtain ⟨m, hm, hm'⟩ := (Option.any_eq_true _ _).mp hnonFinite
  refine ⟨List.isEmpty_iff.mp hreports, m, hm, fun hfinite => ?_⟩
  rw [(Mesh.finite_iff m).mp hfinite] at hm'
  cases hm'

end SolidScript
