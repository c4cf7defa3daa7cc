import SolidScript.Proofs.Evaluation

/-!
# What entries read and write

An entry reads the solids that it names, and writes the one that it makes or changes. Entries that keep
out of each other's way can be evaluated in either order.
-/

namespace SolidScript

namespace Plan

/-! ## Reading -/

variable {g g' : ArtifactGraph Float}

theorem source_congr {id : String} (h : g.get? id = g'.get? id) : source g id = source g' id := by
  unfold source
  rw [h]

/-- Plans depend on the sources alone. -/
theorem ofEntry_congr (config : Config) (backend : BooleanBackend Float) (e : Entry)
    (h : ∀ id ∈ e.sources, g.get? id = g'.get? id) :
    ofEntry config backend g e = ofEntry config backend g' e := by
  obtain ⟨id, line, operation⟩ := e
  have hsource : ∀ s ∈ operation.sources, source g s = source g' s := fun s hs => source_congr (h s hs)
  unfold ofEntry
  cases operation with
  | primitive | revolve | sweep | loft | torus | helix => rfl
  | boolean kind first second =>
    have hfirst := hsource first (by simp [Operation.sources])
    have hsecond := hsource second (by simp [Operation.sources])
    simp only [boolean, hfirst, hsecond]
  | extrude s | fillet s | chamfer s | shell s | scale s | rotate s | translate s | draft s | linearPattern s
  | circularPattern s | mirror s | gridPattern s | spiralPattern s =>
    have hs := hsource s (by simp [Operation.sources])
    simp only [extrude, fillet, chamfer, treat, shell, transform, draft, reshape, hs]

theorem known_of_source_ok {β : Type} {id : String} {f : Mesh Float × Option (Primitive Float) → Except Refusal β} {b : β}
    (h : source g id >>= f = .ok b) : g.contains id = true ∧ ∃ m, f m = .ok b := by
  unfold source at h
  split at h
  · rename_i hget
    exact ⟨(ArtifactGraph.contains_iff g id).mpr ⟨_, hget⟩, _, h⟩
  · cases h

theorem known_of_ok {config : Config} {backend : BooleanBackend Float} {e : Entry} {plan : Plan}
    (h : ofEntry config backend g e = .ok plan) : ∀ id ∈ e.sources, g.contains id = true := by
  obtain ⟨name, line, operation⟩ := e
  intro id hid
  cases operation with
  | boolean kind first second =>
    obtain ⟨hfirst, _, h⟩ := known_of_source_ok h
    obtain ⟨hsecond, -⟩ := known_of_source_ok h
    rcases List.mem_pair.mp hid with rfl | rfl
    · exact hfirst
    · exact hsecond
  | primitive | revolve | sweep | loft | torus | helix => cases hid
  | extrude source | fillet source | chamfer source | linearPattern source | circularPattern source | shell source
  | mirror source | scale source | rotate source | translate source | draft source | gridPattern source
  | spiralPattern source =>
    rw [List.mem_singleton.mp hid]
    exact (known_of_source_ok h).1

/-! ## Writing -/

/-- The solid of its target is written, and perhaps shown, and some of the sources are hidden. Nothing else
of a graph changes. -/
structure Writes (e : Entry) (write : Option (Artifact Float) → Option (Artifact Float)) (shows : Prop)
    (hidden : List String) (change : ArtifactGraph Float → ArtifactGraph Float) : Prop where
  hidden_subset : hidden ⊆ e.sources
  get? : ∀ g id, (change g).get? id = if id = e.target then write (g.get? id) else g.get? id
  mem_visible : ∀ g id, id ∈ (change g).visible ↔ (shows ∧ id = e.target) ∨ (id ∈ g.visible ∧ id ∉ hidden)

theorem writes_nothing (e : Entry) : Writes e id False [] id where
  hidden_subset := List.nil_subset _
  get? g id := by simp
  mem_visible g id := by simp

theorem target_of_generative {e : Entry} (h : e.isGenerative = true) : e.target = e.id := by
  unfold Entry.target
  rw [if_pos h]

theorem target_of_source {e : Entry} {id : String} (h : e.isGenerative = false) (hid : e.sources = [id]) :
    e.target = id := by
  unfold Entry.target
  rw [h, hid]
  rfl

theorem Fits.writes {e : Entry} {plan : Plan} (h : Fits e plan) :
    ∃ write shows hidden, Writes e write shows hidden plan.change.carryOut := by
  rcases h with ⟨hgen, ⟨mesh, origin, hchange⟩, -⟩ | ⟨hgen, id, hid, ⟨mesh, origin, hchange⟩, -⟩
  -- A new solid is written as a whole and shown, and its sources are hidden.
  · rw [hchange]
    refine ⟨fun _ => some ⟨e.id, some mesh, origin⟩, True, e.sources, fun _ h => h, ?_, ?_⟩
    · intro g name
      rw [target_of_generative hgen, Change.carryOut, ArtifactGraph.get?_insertVisible,
        ArtifactGraph.get?_hideAll]
    · intro g name
      rw [target_of_generative hgen, Change.carryOut, ArtifactGraph.mem_visible_insertVisible,
        ArtifactGraph.visible_hideAll]
      simp
  -- A solid that is treated keeps its name, and it is shown if it was.
  · rw [hchange]
    let write (a : Artifact Float) : Artifact Float :=
      { a with geometry := some mesh, origin := Change.applyOrigin origin a.origin }
    refine ⟨Option.map write, False, [], List.nil_subset _, ?_, ?_⟩
    · intro g name
      rw [target_of_source hgen hid, Change.carryOut, ArtifactGraph.get?_modify]
    · intro g name
      rw [Change.carryOut, ArtifactGraph.visible_modify]
      simp

/-! ## Commits -/

/-- What a change leaves on record of the primitive that a solid is. -/
inductive Recorded : OriginChange → Option (Primitive Float) → Option (Primitive Float) → Prop
  | keep (old : Option (Primitive Float)) : Recorded .keep old old
  | set (p : Primitive Float) (old : Option (Primitive Float)) : Recorded (.set p) old (some p)
  | clear (old : Option (Primitive Float)) : Recorded .clear old none

theorem recorded_applyOrigin (change : OriginChange) (old : Option (Primitive Float)) :
    Recorded change old (Change.applyOrigin change old) := by
  cases change with
  | keep => exact .keep old
  | set p => exact .set p old
  | clear => exact .clear old

/-- The whole change of an entry, and nothing else, has come to a graph. A generative entry has made the solid of its
name with the geometry that was planned, it is shown, behind all others unless it was shown before, and its sources are
hidden. Any other entry has given new geometry and a new record to its one source, which was there, and leaves what is
shown. -/
inductive Committed (e : Entry) (plan : Plan) (before after : ArtifactGraph Float) : Prop
  | made (mesh : Mesh Float) (origin : Option (Primitive Float)) (kept : List String) (hgen : e.isGenerative = true)
      (hplan : plan.change = .create ⟨e.id, some mesh, origin⟩ e.sources)
      (hmade : after.get? e.id = some ⟨e.id, some mesh, origin⟩)
      (hothers : ∀ id ≠ e.id, after.get? id = before.get? id)
      (hkept : kept = before.visible.filter fun id => id ∉ e.sources)
      (hvisible : after.visible = if e.id ∈ kept then kept else kept ++ [e.id])
  | changed (id : String) (mesh : Mesh Float) (origin : OriginChange) (old new : Artifact Float)
      (hgen : e.isGenerative = false) (hsource : e.sources = [id]) (hplan : plan.change = .update id mesh origin)
      (hold : before.get? id = some old) (hnew : after.get? id = some new) (hname : new.id = old.id)
      (hgeometry : new.geometry = some mesh) (hrecord : Recorded origin old.origin new.origin)
      (hothers : ∀ other ≠ id, after.get? other = before.get? other)
      (hvisible : after.visible = before.visible)

theorem committed_of_ok {config : Config} {backend : BooleanBackend Float} {e : Entry} {plan : Plan}
    (h : ofEntry config backend g e = .ok plan) : Committed e plan g (plan.change.carryOut g) := by
  have hfits := ofEntry_ends config backend g e
  rw [h] at hfits
  rcases hfits with ⟨hgen, ⟨mesh, origin, hchange⟩, -⟩ | ⟨hgen, id, hsource, ⟨mesh, origin, hchange⟩, -⟩
  · have hget (id : String) : (plan.change.carryOut g).get? id =
        if id = e.id then some ⟨e.id, some mesh, origin⟩ else g.get? id := by
      rw [hchange, Change.carryOut, ArtifactGraph.get?_insertVisible, ArtifactGraph.get?_hideAll]
    refine .made mesh origin _ hgen hchange ?_ (fun id hid => ?_) rfl ?_
    · rw [hget, if_pos rfl]
    · rw [hget, if_neg hid]
    · rw [hchange, Change.carryOut, ArtifactGraph.visible_insertVisible, ArtifactGraph.visible_hideAll]
      simp
  -- The source is known, so that there is geometry to take the place of.
  · obtain ⟨old, hold⟩ := (ArtifactGraph.contains_iff g id).mp (known_of_ok h id (hsource ▸ List.mem_singleton_self id))
    let new : Artifact Float := { old with geometry := some mesh, origin := Change.applyOrigin origin old.origin }
    refine .changed id mesh origin old new hgen hsource hchange hold ?_ rfl rfl (recorded_applyOrigin origin old.origin)
      (fun other hother => ?_) ?_
    all_goals rw [hchange, Change.carryOut]
    · rw [ArtifactGraph.get?_modify, if_pos rfl, hold]
      rfl
    · rw [ArtifactGraph.get?_modify, if_neg hother]
    · rw [ArtifactGraph.visible_modify]

/-! ## Independence -/

/-- Neither of two entries reads or writes what the other one writes. -/
structure Independent (e₁ e₂ : Entry) : Prop where
  targets : e₁.target ≠ e₂.target
  first_not_read : e₁.target ∉ e₂.sources
  second_not_read : e₂.target ∉ e₁.sources

section Changes

variable {e₁ e₂ : Entry} {write₁ write₂ : Option (Artifact Float) → Option (Artifact Float)}
  {shows₁ shows₂ : Prop} {hidden₁ hidden₂ : List String}
  {change₁ change₂ : ArtifactGraph Float → ArtifactGraph Float}

theorem Writes.nodes_commute (h₁ : Writes e₁ write₁ shows₁ hidden₁ change₁)
    (h₂ : Writes e₂ write₂ shows₂ hidden₂ change₂) (h : Independent e₁ e₂) (g : ArtifactGraph Float) :
    (change₂ (change₁ g)).nodes = (change₁ (change₂ g)).nodes := by
  refine NameMap.eq_of_get? fun id => ?_
  show (change₂ (change₁ g)).get? id = (change₁ (change₂ g)).get? id
  rw [h₂.get?, h₁.get?, h₁.get?, h₂.get?]
  by_cases hid : id = e₁.target
  · have hne : ¬ id = e₂.target := fun h' => h.targets (hid.symm.trans h')
    simp only [if_pos hid, if_neg hne]
  · simp only [if_neg hid]

theorem Writes.visible_commute (h₁ : Writes e₁ write₁ shows₁ hidden₁ change₁)
    (h₂ : Writes e₂ write₂ shows₂ hidden₂ change₂) (h : Independent e₁ e₂) (g : ArtifactGraph Float)
    (id : String) : id ∈ (change₂ (change₁ g)).visible ↔ id ∈ (change₁ (change₂ g)).visible := by
  have hfirst : id = e₁.target → id ∉ hidden₂ := by
    rintro rfl hmem
    exact h.first_not_read (h₂.hidden_subset hmem)
  have hsecond : id = e₂.target → id ∉ hidden₁ := by
    rintro rfl hmem
    exact h.second_not_read (h₁.hidden_subset hmem)
  rw [h₂.mem_visible, h₁.mem_visible, h₁.mem_visible, h₂.mem_visible]
  tauto

theorem Writes.get?_of_ne (h₁ : Writes e₁ write₁ shows₁ hidden₁ change₁) (g : ArtifactGraph Float) {id : String}
    (hid : id ≠ e₁.target) : (change₁ g).get? id = g.get? id := by
  rw [h₁.get?, if_neg hid]

end Changes

end Plan

namespace Evaluation

open Plan

/-! ## Entries in either order -/

variable (config : Config) (backend : BooleanBackend Float) (spec : Specification)

theorem changeOf_writes (g : ArtifactGraph Float) (e : Entry) :
    ∃ write shows hidden, Writes e write shows hidden (changeOf (Plan.ofEntry config backend g e)) := by
  have hends := ofEntry_ends config backend g e
  cases hplan : Plan.ofEntry config backend g e with
  | ok plan =>
    rw [hplan] at hends
    exact Fits.writes hends
  | error refusal => exact ⟨id, False, [], writes_nothing e⟩

theorem get?_step_of_ne (p : Progress) (e : Entry) {id : String} (hid : id ≠ e.target) :
    (step config backend spec p e).graph.get? id = p.graph.get? id := by
  obtain ⟨write, shows, hidden, hwrites⟩ := changeOf_writes config backend p.graph e
  rw [step_graph]
  exact hwrites.get?_of_ne p.graph hid

theorem ofEntry_step (p : Progress) {e₁ e₂ : Entry} (h : e₁.target ∉ e₂.sources) :
    Plan.ofEntry config backend (step config backend spec p e₁).graph e₂ = Plan.ofEntry config backend p.graph e₂ := by
  refine ofEntry_congr config backend e₂ fun id hid => ?_
  refine get?_step_of_ne config backend spec p e₁ ?_
  rintro rfl
  exact h hid

/-- Two entries can change places unless one of them reads or writes what the other one writes: they end with
the same solids, of which the same are shown, and each has the plan, or the refusal, that it has without the
other one. -/
theorem independent_entries_commute (p : Progress) {e₁ e₂ : Entry} (h : Independent e₁ e₂) :
    let run := step config backend spec
    (run (run p e₁) e₂).graph.nodes = (run (run p e₂) e₁).graph.nodes ∧
    (∀ id, id ∈ (run (run p e₁) e₂).graph.visible ↔ id ∈ (run (run p e₂) e₁).graph.visible) ∧
    Plan.ofEntry config backend (run p e₁).graph e₂ = Plan.ofEntry config backend p.graph e₂ ∧
    Plan.ofEntry config backend (run p e₂).graph e₁ = Plan.ofEntry config backend p.graph e₁ := by
  have hplan₂ := ofEntry_step config backend spec p h.first_not_read
  have hplan₁ := ofEntry_step config backend spec p h.second_not_read
  obtain ⟨write₁, shows₁, hidden₁, hwrites₁⟩ := changeOf_writes config backend p.graph e₁
  obtain ⟨write₂, shows₂, hidden₂, hwrites₂⟩ := changeOf_writes config backend p.graph e₂
  have hfirst : (step config backend spec (step config backend spec p e₁) e₂).graph =
      changeOf (Plan.ofEntry config backend p.graph e₂) (changeOf (Plan.ofEntry config backend p.graph e₁) p.graph) := by
    rw [step_graph, hplan₂, step_graph]
  have hsecond : (step config backend spec (step config backend spec p e₂) e₁).graph =
      changeOf (Plan.ofEntry config backend p.graph e₁) (changeOf (Plan.ofEntry config backend p.graph e₂) p.graph) := by
    rw [step_graph, hplan₁, step_graph]
  refine ⟨?_, fun id => ?_, hplan₂, hplan₁⟩
  · rw [hfirst, hsecond]
    exact hwrites₁.nodes_commute hwrites₂ h p.graph
  · rw [hfirst, hsecond]
    exact hwrites₁.visible_commute hwrites₂ h p.graph id

def threeSolids : Progress :=
  ⟨["a", "b", "c"].foldl (fun g id => g.insertVisible ⟨id, some Mesh.empty, none⟩) .empty, #[], [], [], 0⟩

/-- Two booleans that take the same solid first. They are shown in the order in which they are evaluated. -/
theorem booleans_of_one_solid_commute :
    let union : Entry := ⟨"u", 1, .boolean .union "a" "b"⟩
    let subtract : Entry := ⟨"w", 2, .boolean .subtract "a" "c"⟩
    let run := step {} (fun first _ _ => pure first) .empty
    Independent union subtract ∧
    (run (run threeSolids union) subtract).graph.nodes = (run (run threeSolids subtract) union).graph.nodes ∧
    (run (run threeSolids union) subtract).graph.visible = ["u", "w"] ∧
    (run (run threeSolids subtract) union).graph.visible = ["w", "u"] := by
  intro union subtract run
  have hindependent : Independent union subtract := ⟨by decide, by decide, by decide⟩
  obtain ⟨hnodes, -, -, -⟩ :=
    independent_entries_commute {} (fun first _ _ => pure first) .empty threeSolids hindependent
  exact ⟨hindependent, hnodes, by cbv, by cbv⟩

end Evaluation

end SolidScript
