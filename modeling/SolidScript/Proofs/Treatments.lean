import SolidScript.Proofs.FailedEntries
import SolidScript.Proofs.Footprint
import SolidScript.Proofs.PlanCases

/-!
# Treatments that are dropped

A fillet or a chamfer leaves its mark on the mesh of a box and not on its record. Whoever makes the
box anew from the record drops the mark, and says so. What is said goes by a table of treated names,
and not by the records.
-/

namespace SolidScript

/-! ## Records -/

theorem Change.origin?_update {g : ArtifactGraph Float} {name : String} {old : Mesh Float}
    (hold : g.mesh? name = some old) (mesh : Mesh Float) (change : OriginChange) :
    ((Change.update name mesh change).carryOut g).origin? name = applyOrigin change (g.origin? name) := by
  obtain ⟨a, ha, -⟩ := Option.bind_eq_some_iff.mp hold
  unfold Change.carryOut ArtifactGraph.origin?
  rw [ArtifactGraph.get?_modify, if_pos rfl, ha]
  rfl

namespace Plan

/-- A solid that is still a box, or no primitive any more. -/
def BoxOrDerived (origin : Option (Primitive Float)) : Prop :=
  ∀ p, origin = some p → ∃ size center, p = .box size center

theorem boxOrDerived_none : BoxOrDerived none := by
  intro p hp
  cases hp

theorem boxOrDerived_box (size center : Vec3 Float) : BoxOrDerived (some (.box size center)) := by
  intro p hp
  exact ⟨size, center, (Option.some.inj hp).symm⟩

theorem BoxOrDerived.transform {origin : Option (Primitive Float)} (h : BoxOrDerived origin) (t : Transform Float) :
    BoxOrDerived (origin >>= (·.transform? t)) := by
  cases origin with
  | none => exact boxOrDerived_none
  | some p =>
    obtain ⟨size, center, rfl⟩ := h p rfl
    cases t with
    | translate offset => exact boxOrDerived_box _ _
    | rotate axis angle pivot => exact boxOrDerived_none
    | scale factor pivot => exact boxOrDerived_box _ _

variable {config : Config} {backend : BooleanBackend Float} {g : ArtifactGraph Float} {e : Entry} {plan : Plan}
  {id : String} {treatment : Option String}

theorem origin?_of_ne_target (h : ofEntry config backend g e = .ok plan) (hid : id ≠ e.target) :
    (plan.change.carryOut g).origin? id = g.origin? id := by
  have hfits := ofEntry_ends config backend g e
  rw [h] at hfits
  obtain ⟨write, shows', hidden, hwrites⟩ := Fits.writes hfits
  unfold ArtifactGraph.origin?
  rw [hwrites.get?_of_ne g hid]

open Evaluation (rebuiltBox)

theorem origin?_of_treatment {t : String} (hplan : ofEntry config backend g e = .ok plan)
    (h : rebuiltBox e.operation = some (id, some t)) :
    (∃ size center, g.origin? id = some (.box size center)) ∧ (plan.change.carryOut g).origin? id = g.origin? id := by
  obtain ⟨name, line, operation⟩ := e
  cases operation with
  | fillet source | chamfer source =>
    cases h
    obtain ⟨hmesh, size, center, mesh, applied, horigin, -, -, rfl⟩ := treat_eq_ok_iff.mp hplan
    obtain ⟨old, hold⟩ := Option.isSome_iff_exists.mp hmesh
    exact ⟨⟨size, center, horigin⟩, Change.origin?_update hold mesh .keep⟩
  | _ => cases h

theorem origin?_reshape {f : Mesh Float → Except (OperatorError Float) (Mesh Float)} (h : reshape g id f = .ok plan) :
    (plan.change.carryOut g).origin? id = none := by
  obtain ⟨old, mesh, hold, -, rfl⟩ := reshape_eq_ok_iff.mp h
  exact Change.origin?_update hold mesh .clear

theorem origin?_draft {angle : Float} {direction : Vec3 Float} {neutral : Option Float}
    (h : draft g id angle direction neutral = .ok plan) : (plan.change.carryOut g).origin? id = none := by
  obtain ⟨old, r, hold, -, rfl⟩ := draft_eq_ok_iff.mp h
  exact Change.origin?_update hold r.mesh .clear

theorem boxOrDerived_transform {motion : Vec3 Float → Transform Float} {pivot : Option (Vec3 Float)}
    (h : transform g id motion pivot = .ok plan) (hbox : BoxOrDerived (g.origin? id)) :
    BoxOrDerived ((plan.change.carryOut g).origin? id) := by
  obtain ⟨old, mesh, hold, -, rfl⟩ := transform_eq_ok_iff.mp h
  dsimp only
  rw [Change.origin?_update hold]
  have hmoved := hbox.transform (motion (pivot.getD (defaultPivot old)))
  split
  · rename_i p hp
    rw [hp] at hmoved
    exact hmoved
  · exact boxOrDerived_none

theorem boxOrDerived_carryOut (hplan : ofEntry config backend g e = .ok plan)
    (hmade : ¬ (e.isGenerative = true ∧ e.id = id))
    (hrebuilt : ∀ treatment, rebuiltBox e.operation ≠ some (id, treatment))
    (h : BoxOrDerived (g.origin? id)) : BoxOrDerived ((plan.change.carryOut g).origin? id) := by
  by_cases hid : id = e.target
  · obtain ⟨name, line, operation⟩ := e
    unfold ofEntry at hplan
    cases operation with
    | primitive | boolean | revolve | sweep | loft | torus | helix => exact absurd ⟨rfl, hid.symm⟩ hmade
    | extrude source | fillet source | chamfer source | shell source =>
      obtain rfl : id = source := hid
      exact absurd rfl (hrebuilt _)
    | linearPattern source | circularPattern source | mirror source | gridPattern source | spiralPattern source =>
      obtain rfl : id = source := hid
      exact (origin?_reshape hplan).symm ▸ boxOrDerived_none
    | draft source =>
      obtain rfl : id = source := hid
      exact (origin?_draft hplan).symm ▸ boxOrDerived_none
    | scale source | rotate source | translate source =>
      obtain rfl : id = source := hid
      exact boxOrDerived_transform hplan h
  · rw [origin?_of_ne_target hplan hid]
    exact h

/-- A plan goes by the record alone: other geometry in its place makes no difference. -/
def GoesByRecord (config : Config) (backend : BooleanBackend Float) (g : ArtifactGraph Float) (e : Entry) (id : String)
    (plan : Plan) : Prop :=
  ∀ mesh, ofEntry config backend (g.modify id fun a => { a with geometry := some mesh }) e = .ok plan

theorem goesByRecord_of_box {size center : Vec3 Float} (hplan : ofEntry config backend g e = .ok plan)
    (h : rebuiltBox e.operation = some (id, treatment)) (horigin : g.origin? id = some (.box size center)) :
    GoesByRecord config backend g e id plan := by
  intro mesh
  obtain ⟨a, ha, -⟩ := Option.bind_eq_some_iff.mp horigin
  -- The record alone counts, so that any other mesh may be in its place.
  let g' := g.modify id fun a => { a with geometry := some mesh }
  have hget : g'.get? id = some { a with geometry := some mesh } := by
    rw [ArtifactGraph.get?_modify, if_pos rfl, ha]
    rfl
  have hmesh' : (g'.mesh? id).isSome = true := by
    unfold ArtifactGraph.mesh?
    rw [hget]
    rfl
  have horigin' : g'.origin? id = g.origin? id := by
    unfold ArtifactGraph.origin?
    rw [hget, ha]
    rfl
  obtain ⟨name, line, operation⟩ := e
  unfold ofEntry at hplan ⊢
  cases operation with
  | extrude source face distance =>
    cases h
    exact extrude_eq_ok_iff.mpr ⟨hmesh', horigin' ▸ (extrude_eq_ok_iff.mp hplan).2⟩
  | fillet source | chamfer source =>
    cases h
    exact treat_eq_ok_iff.mpr ⟨hmesh', horigin' ▸ (treat_eq_ok_iff.mp hplan).2⟩
  | shell source thickness openFaces =>
    cases h
    obtain ⟨old, shelled, applied, -, hshelled, rfl⟩ := shell_eq_ok_iff.mp hplan
    rw [horigin] at hshelled
    cases hshelled with
    | box hmesh happlied =>
      obtain ⟨other, hother⟩ := Option.isSome_iff_exists.mp hmesh'
      refine shell_eq_ok_iff.mpr ⟨other, shelled, applied, hother, ?_, rfl⟩
      rw [horigin', horigin]
      exact .box hmesh happlied
  | _ => cases h

/-- The inner surface of a shell is added to the mesh as it is. -/
def AddsInnerSurface (g : ArtifactGraph Float) (e : Entry) (id : String) (plan : Plan) : Prop :=
  ∃ thickness openFaces old mesh, e.operation = .shell id thickness openFaces ∧ g.mesh? id = some old ∧
    Shell.ofMesh old thickness = .ok mesh ∧ plan.change = .update id mesh .clear

theorem addsInnerSurface_of_derived (hplan : ofEntry config backend g e = .ok plan)
    (h : rebuiltBox e.operation = some (id, treatment)) (horigin : g.origin? id = none) :
    AddsInnerSurface g e id plan := by
  obtain ⟨name, line, operation⟩ := e
  unfold ofEntry at hplan
  cases operation with
  | extrude source =>
    cases h
    obtain ⟨-, p, r, mesh, hp, -⟩ := extrude_eq_ok_iff.mp hplan
    rw [horigin] at hp
    cases hp
  | fillet source | chamfer source =>
    cases h
    obtain ⟨-, size, center, mesh, applied, hbox, -⟩ := treat_eq_ok_iff.mp hplan
    rw [horigin] at hbox
    cases hbox
  | shell source thickness openFaces =>
    cases h
    obtain ⟨old, shelled, applied, hold, hshelled, rfl⟩ := shell_eq_ok_iff.mp hplan
    rw [horigin] at hshelled
    cases hshelled with
    | derived hmesh => exact ⟨thickness, openFaces, old, shelled, rfl, hold, hmesh, rfl⟩
  | _ => cases h

end Plan

namespace Evaluation

open Plan

/-! ## The table of treated names -/

theorem lookup_filter_ne (treated : List (String × String)) (target id : String) :
    (treated.filter fun t => t.1 != target).lookup id = if id = target then none else treated.lookup id := by
  induction treated with
  | nil => simp
  | cons t rest ih =>
    rw [List.filter_cons]
    split
    · rw [List.lookup_cons, List.lookup_cons, ih]
      grind
    · rw [ih, List.lookup_cons]
      grind

theorem lookup_retreat (treated : List (String × String)) (target id : String) (treatment : Option String) :
    (retreat treated target treatment).lookup id = if id = target then treatment else treated.lookup id := by
  unfold retreat
  cases treatment with
  | none => exact lookup_filter_ne treated target id
  | some t =>
    dsimp only
    rw [List.lookup_cons, lookup_filter_ne]
    grind

variable (config : Config) (backend : BooleanBackend Float) (spec : Specification)

/-- The entry at a place is carried out and makes a box anew, with a treatment of edges or without. -/
def RebuildsAt (id : String) (place : Nat) (treatment : Option String) : Prop :=
  ∃ e plan, (ordered config.order spec).1[place]? = some e ∧
    Plan.ofEntry config backend (after spec config backend place).graph e = .ok plan ∧
    rebuiltBox e.operation = some (id, treatment)

/-- The entry at a place is carried out and makes the solid of a name. -/
def MadeAt (id : String) (place : Nat) : Prop :=
  ∃ e plan, (ordered config.order spec).1[place]? = some e ∧
    Plan.ofEntry config backend (after spec config backend place).graph e = .ok plan ∧
    e.isGenerative = true ∧ e.id = id

/-- The box of a name was treated at a place and has not been made anew from its record since. -/
def TreatedAt (id : String) (count : Nat) (place : Nat) (treatment : String) : Prop :=
  Latest (RebuildsAt config backend spec id) count place (some treatment)

section Places

variable {config backend spec} {place : Nat} {id : String} {treatment : Option String} {e : Entry}

theorem rebuildsAt_iff_of_ok {plan : Plan} (he : (ordered config.order spec).1[place]? = some e)
    (hplan : Plan.ofEntry config backend (after spec config backend place).graph e = .ok plan) :
    RebuildsAt config backend spec id place treatment ↔ rebuiltBox e.operation = some (id, treatment) :=
  planned_iff_of_ok he hplan

end Places

theorem lookup_after_succ (id : String) (count : Nat) :
    ((∀ left, ¬ RebuildsAt config backend spec id count left) ∧
      (after spec config backend (count + 1)).treated.lookup id = (after spec config backend count).treated.lookup id) ∨
    ∃ left, (∀ left', RebuildsAt config backend spec id count left' ↔ left' = left) ∧
      (after spec config backend (count + 1)).treated.lookup id = left := by
  cases he : (ordered config.order spec).1[count]? with
  | none =>
    rw [after_succ_of_none spec config backend he]
    exact Or.inl ⟨fun _ => not_planned_of_none he, rfl⟩
  | some e =>
    rw [after_succ spec config backend he, step_treated]
    cases hplan : Plan.ofEntry config backend (after spec config backend count).graph e with
    | error refusal => exact Or.inl ⟨fun _ => not_planned_of_error he hplan, rfl⟩
    | ok plan =>
      simp only [rebuildsAt_iff_of_ok he hplan, notesOf]
      cases rebuiltBox e.operation with
      | none => exact Or.inl ⟨fun _ => (Option.some_ne_none _).symm, rfl⟩
      | some rebuilt =>
        obtain ⟨target, left⟩ := rebuilt
        dsimp only
        rw [lookup_retreat]
        by_cases hid : id = target
        · subst hid
          rw [if_pos rfl]
          exact Or.inr ⟨left, fun left' => by simp [eq_comm], rfl⟩
        · rw [if_neg hid]
          refine Or.inl ⟨?_, rfl⟩
          rintro left' ⟨⟩
          exact hid rfl

/-- The table holds the treatments that have not been dropped yet. -/
theorem treated_after_iff (count : Nat) (id treatment : String) :
    (after spec config backend count).treated.lookup id = some treatment ↔
      ∃ place, TreatedAt config backend spec id count place treatment := by
  have hlatest := eq_iff_exists_latest (g := fun left => left)
    (f := fun n => (after spec config backend n).treated.lookup id) (c := some treatment) nofun
    (lookup_after_succ config backend spec id) count
  unfold TreatedAt
  simpa only [exists_eq_right] using hlatest

/-! ## Boxes that were treated -/

theorem origin?_of_treatedAt {id treatment : String} {place : Nat}
    (h : RebuildsAt config backend spec id place (some treatment)) :
    BoxOrDerived ((after spec config backend (place + 1)).graph.origin? id) := by
  obtain ⟨e, plan, he, hplan, hbox⟩ := h
  obtain ⟨⟨size, center, horigin⟩, hkept⟩ := origin?_of_treatment hplan hbox
  rw [after_succ spec config backend he, step_graph, hplan]
  show BoxOrDerived ((plan.change.carryOut _).origin? id)
  rw [hkept, horigin]
  exact boxOrDerived_box size center

/-- What was treated is a box or derived, as long as its name is not used again. -/
theorem origin?_since_treatedAt {id treatment : String} {place count : Nat}
    (h : TreatedAt config backend spec id count place treatment)
    (hmade : ∀ j, place < j → j < count → ¬ MadeAt config backend spec id j) :
    BoxOrDerived ((after spec config backend count).graph.origin? id) := by
  have hsince (n : Nat) (hn : place + 1 ≤ n) (hcount : n ≤ count) :
      BoxOrDerived ((after spec config backend n).graph.origin? id) := by
    induction n, hn using Nat.le_induction with
    | base => exact origin?_of_treatedAt config backend spec h.here
    | succ n hn ih =>
      cases he : (ordered config.order spec).1[n]? with
      | none =>
        rw [after_succ_of_none spec config backend he]
        exact ih (by omega)
      | some e =>
        rw [after_succ spec config backend he, step_graph]
        cases hplan : Plan.ofEntry config backend (after spec config backend n).graph e with
        | error refusal => exact ih (by omega)
        | ok plan =>
          refine boxOrDerived_carryOut hplan ?_ ?_ (ih (by omega))
          · exact fun hmakes => hmade n (by omega) (by omega) ⟨e, plan, he, hplan, hmakes⟩
          · exact fun left hleft => h.last n (by omega) (by omega) left ((rebuildsAt_iff_of_ok he hplan).mpr hleft)
  exact hsince count h.lt le_rfl

/-! ## What is said -/

def rebuiltReport (e : Entry) (id treatment : String) : Diagnostic :=
  report e (.rebuilt treatment) ("`" ++ id ++ "` rebuilt from its box, dropping the earlier " ++ treatment)

theorem reportsAt_of_treatedAt {id treatment : String} {left : Option String} {place treated : Nat} {e : Entry}
    (he : (ordered config.order spec).1[place]? = some e) (hrebuilds : RebuildsAt config backend spec id place left)
    (htreated : TreatedAt config backend spec id place treated treatment) :
    ∃ own, (∀ d ∈ own, ∀ t, d.finding ≠ .rebuilt t) ∧
      reportsAt config backend spec place = own ++ [rebuiltReport e id treatment] := by
  obtain ⟨e', plan, he', hplan, hbox⟩ := hrebuilds
  obtain rfl := Option.some.inj (he.symm.trans he')
  have hfits := ofEntry_ends config backend (after spec config backend place).graph e
  rw [hplan] at hfits
  have hlookup := (treated_after_iff config backend spec place id treatment).mpr ⟨treated, htreated⟩
  rw [reportsAt_of_some config backend spec he, hplan]
  unfold reportsOf notesOf
  simp only [hbox, hlookup, Option.map_some, Option.getD_some, Option.toList_some, List.map_append]
  refine ⟨_, ?_, rfl⟩
  rintro d hd t hfinding
  obtain ⟨n, hn, rfl⟩ := List.mem_map.mp hd
  have hadjustment := Fits.adjusts hfits n hn
  rw [show n = .rebuilt t from hfinding] at hadjustment
  exact hadjustment

theorem treatedAt_of_mem_reportsAt {place : Nat} {e : Entry} (he : (ordered config.order spec).1[place]? = some e)
    {d : Diagnostic} (hd : d ∈ reportsAt config backend spec place) {treatment : String}
    (hfinding : d.finding = .rebuilt treatment) :
    ∃ id left treated, RebuildsAt config backend spec id place left ∧
      TreatedAt config backend spec id place treated treatment := by
  rw [reportsAt_of_some config backend spec he] at hd
  have hfits := ofEntry_ends config backend (after spec config backend place).graph e
  cases hplan : Plan.ofEntry config backend (after spec config backend place).graph e with
  | error refusal =>
    rw [hplan] at hd
    cases refusal with
    | failed error =>
      rw [List.mem_singleton.mp hd] at hfinding
      rcases failureReport_finding e error with h | h <;> rw [h] at hfinding <;> cases hfinding
    | missing reference =>
      rw [List.mem_singleton.mp hd] at hfinding
      cases hfinding
  | ok plan =>
    rw [hplan] at hd hfits
    obtain ⟨n, hn, rfl⟩ := List.mem_map.mp hd
    obtain rfl : n = .rebuilt treatment := hfinding
    -- The plan itself notes no such loss, so that it is told by the table.
    have hnot : Finding.rebuilt treatment ∉ plan.notes := fun h => Fits.adjusts hfits _ h
    unfold notesOf at hn
    split at hn
    · rename_i id left hbox
      have hlookup := Option.mem_toList.mp ((List.mem_append.mp hn).resolve_left hnot)
      obtain ⟨treatment', hlookup, heq⟩ := Option.map_eq_some_iff.mp hlookup
      cases heq
      obtain ⟨treated, htreated⟩ := (treated_after_iff config backend spec place id treatment).mp hlookup
      exact ⟨id, left, treated, (rebuildsAt_iff_of_ok he hplan).mpr hbox, htreated⟩
    · exact absurd hn hnot

/-- The name of a solid has been used for a new one between two places. -/
def MadeBetween (id : String) (place count : Nat) : Prop :=
  ∃ j, place < j ∧ j < count ∧ MadeAt config backend spec id j

/-- A treatment is dropped: the entry at a place makes a box anew from its record, and the mesh it replaces has been
treated since the box was made or last made anew. -/
def DropsAt (place : Nat) (treatment : String) : Prop :=
  ∃ id left treated, RebuildsAt config backend spec id place left ∧
    (∃ size center, (after spec config backend place).graph.origin? id = some (.box size center)) ∧
    TreatedAt config backend spec id place treated treatment ∧ ¬ MadeBetween config backend spec id treated place

/-- A treatment is said to be dropped that was of another solid with the same name, or that stays since there is no
record to make a box from. -/
def MisreportsAt (place : Nat) (treatment : String) : Prop :=
  ∃ id left treated, RebuildsAt config backend spec id place left ∧
    TreatedAt config backend spec id place treated treatment ∧
    (MadeBetween config backend spec id treated place ∨
      (after spec config backend place).graph.origin? id = none)

theorem dropsAt_or_misreportsAt {id treatment : String} {left : Option String} {place treated : Nat}
    (hrebuilds : RebuildsAt config backend spec id place left)
    (htreated : TreatedAt config backend spec id place treated treatment) :
    DropsAt config backend spec place treatment ∨ MisreportsAt config backend spec place treatment := by
  by_cases hmade : MadeBetween config backend spec id treated place
  · exact Or.inr ⟨id, left, treated, hrebuilds, htreated, Or.inl hmade⟩
  · have hbox := origin?_since_treatedAt config backend spec htreated fun j hj hjlt h => hmade ⟨j, hj, hjlt, h⟩
    cases horigin : (after spec config backend place).graph.origin? id with
    | none => exact Or.inr ⟨id, left, treated, hrebuilds, htreated, Or.inr horigin⟩
    | some p =>
      obtain ⟨size, center, rfl⟩ := hbox p horigin
      exact Or.inl ⟨id, left, treated, hrebuilds, ⟨size, center, horigin⟩, htreated, hmade⟩

theorem not_misreportsAt_of_dropsAt {place : Nat} {treatment treatment' : String}
    (h : DropsAt config backend spec place treatment) : ¬ MisreportsAt config backend spec place treatment' := by
  rintro ⟨id', left', treated', hrebuilds', htreated', hwrong⟩
  obtain ⟨id, left, treated, hrebuilds, ⟨size, center, horigin⟩, htreated, hmade⟩ := h
  have hid : id' = id := by
    obtain ⟨e, plan, he, hplan, hbox⟩ := hrebuilds
    exact (Prod.mk.inj (Option.some.inj (((rebuildsAt_iff_of_ok he hplan).mp hrebuilds').symm.trans hbox))).1
  subst hid
  obtain rfl := htreated.unique htreated'
  rcases hwrong with hwrong | hwrong
  · exact hmade hwrong
  · rw [horigin] at hwrong
    cases hwrong

/-- A report on a dropped treatment stands where one is dropped, and besides that in two cases: when the treatment was
of another solid of the name, and when the solid is not recorded as a box any more, so that only an inner surface is
added to the treated mesh. There is one at most, behind what else is said on the entry. -/
theorem rebuilt_reported_iff (config : Config) (backend : BooleanBackend Float) (spec : Specification) :
    let entries := (ordered config.order spec).1
    let reports := reportsAt config backend spec
    let graph := fun place => (after spec config backend place).graph
    (∃ cycles, (∀ d ∈ cycles, ∀ treatment, d.finding ≠ .rebuilt treatment) ∧
      (spec.evaluate config backend).diagnostics = cycles ++ (List.range entries.length).flatMap reports) ∧
    ∀ place e, entries[place]? = some e →
      (∀ treatment, (∃ d ∈ reports place, d.finding = .rebuilt treatment) ↔
        DropsAt config backend spec place treatment ∨ MisreportsAt config backend spec place treatment) ∧
      (∀ treatment treatment', DropsAt config backend spec place treatment →
        ¬ MisreportsAt config backend spec place treatment') ∧
      (∀ d ∈ reports place, ∀ treatment, d.finding = .rebuilt treatment → ∃ id left own,
        rebuiltBox e.operation = some (id, left) ∧ d = rebuiltReport e id treatment ∧
        reports place = own ++ [d] ∧ ∀ d' ∈ own, ∀ t, d'.finding ≠ .rebuilt t) ∧
      ∀ plan, Plan.ofEntry config backend (graph place) e = .ok plan → ∀ id left,
        rebuiltBox e.operation = some (id, left) →
        ((∃ size center, (graph place).origin? id = some (.box size center)) →
          GoesByRecord config backend (graph place) e id plan) ∧
        ((graph place).origin? id = none → AddsInnerSurface (graph place) e id plan) := by
  intro entries reports graph
  refine ⟨⟨(ordered config.order spec).2, ?_, evaluate_diagnostics config backend spec⟩, ?_⟩
  · intro d hd treatment hfinding
    obtain ⟨ids, rfl⟩ := mem_ordered_diagnostics spec hd
    cases hfinding
  intro place e he
  refine ⟨fun treatment => ⟨?_, ?_⟩, ?_, ?_, ?_⟩
  · rintro ⟨d, hd, hfinding⟩
    obtain ⟨id, left, treated, hrebuilds, htreated⟩ := treatedAt_of_mem_reportsAt config backend spec he hd hfinding
    exact dropsAt_or_misreportsAt config backend spec hrebuilds htreated
  · have hreported {id : String} {left : Option String} {treated : Nat}
        (hrebuilds : RebuildsAt config backend spec id place left)
        (htreated : TreatedAt config backend spec id place treated treatment) :
        ∃ d ∈ reports place, d.finding = .rebuilt treatment := by
      obtain ⟨own, -, hreports⟩ := reportsAt_of_treatedAt config backend spec he hrebuilds htreated
      refine ⟨rebuiltReport e id treatment, ?_, rfl⟩
      show _ ∈ reportsAt config backend spec place
      rw [hreports]
      exact List.mem_append_right _ (List.mem_singleton_self _)
    rintro (⟨id, left, treated, hrebuilds, -, htreated, -⟩ | ⟨id, left, treated, hrebuilds, htreated, -⟩)
    · exact hreported hrebuilds htreated
    · exact hreported hrebuilds htreated
  · exact fun treatment treatment' => not_misreportsAt_of_dropsAt config backend spec
  · intro d hd treatment hfinding
    obtain ⟨id, left, treated, hrebuilds, htreated⟩ := treatedAt_of_mem_reportsAt config backend spec he hd hfinding
    obtain ⟨own, hown, hreports⟩ := reportsAt_of_treatedAt config backend spec he hrebuilds htreated
    have hd' : d = rebuiltReport e id treatment := by
      have hd : d ∈ reportsAt config backend spec place := hd
      rw [hreports] at hd
      rcases List.mem_append.mp hd with hd | hd
      · exact absurd hfinding (hown d hd treatment)
      · exact List.mem_singleton.mp hd
    obtain ⟨e', plan, he', -, hbox⟩ := hrebuilds
    obtain rfl := Option.some.inj (he.symm.trans he')
    exact ⟨id, left, own, hbox, hd', hd' ▸ hreports, hown⟩
  · intro plan hplan id left hbox
    exact ⟨fun ⟨size, center, horigin⟩ => goesByRecord_of_box hplan hbox horigin,
      addsInnerSurface_of_derived hplan hbox⟩

/-- The copies of a box with cut edges are no box, so that a shell adds an inner surface to them. -/
def shelledPattern : Specification :=
  .ofEntries
    [⟨"b", 1, .primitive (.box ⟨2, 2, 2⟩ ⟨0, 0, 0⟩)⟩, ⟨"b_chamfer", 2, .chamfer "b" .all 0.1⟩,
      ⟨"b_linear_pattern", 3, .linearPattern "b" ⟨1, 0, 0⟩ 2 5⟩, ⟨"b_shell", 4, .shell "b" 0.1 []⟩]

def discarded? : Finding → Option String
  | .rebuilt treatment => some treatment
  | _ => none

theorem shelledPattern_misreports :
    let shell : Entry := ⟨"b_shell", 4, .shell "b" 0.1 []⟩
    (ordered .category shelledPattern).1[3]? = some shell ∧
    (after shelledPattern {} Solid.combine 3).graph.origin? "b" = none ∧
    (∃ d ∈ reportsAt {} Solid.combine shelledPattern 3, d.finding = .rebuilt "chamfer") ∧
    ¬ DropsAt {} Solid.combine shelledPattern 3 "chamfer" := by
  intro shell
  have horigin : ((after shelledPattern {} Solid.combine 3).graph.origin? "b").isNone = true := by decide +kernel
  rw [Option.isNone_iff_eq_none] at horigin
  have hreported : (reportsAt {} Solid.combine shelledPattern 3).any
      (fun d => discarded? d.finding == some "chamfer") = true := by decide +kernel
  refine ⟨rfl, horigin, ?_, ?_⟩
  · obtain ⟨d, hd, hdiscarded⟩ := List.any_eq_true.mp hreported
    refine ⟨d, hd, ?_⟩
    cases hfinding : d.finding with
    | rebuilt treatment =>
      rw [hfinding] at hdiscarded
      exact congrArg Finding.rebuilt (Option.some.inj (beq_iff_eq.mp hdiscarded))
    | _ =>
      rw [hfinding] at hdiscarded
      cases hdiscarded
  · rintro ⟨id, left, treated, ⟨e, plan, he, -, hbox⟩, ⟨size, center, hbox'⟩, -⟩
    obtain rfl : shell = e := Option.some.inj he
    cases hbox
    rw [horigin] at hbox'
    cases hbox'

end Evaluation

end SolidScript
