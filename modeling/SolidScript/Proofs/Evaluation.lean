import SolidScript.Model.Evaluation
import SolidScript.Proofs.ArtifactGraph
import SolidScript.Proofs.Plan

/-! # What evaluation keeps and reports -/

namespace SolidScript

open Plan

/-! ## Changes -/

theorem Plan.Fits.sound {e : Entry} {plan : Plan} (h : Fits e plan) {g : ArtifactGraph Float}
    (hg : g.Sound) : (plan.change.carryOut g).Sound := by
  rcases h with ⟨-, ⟨mesh, origin, hchange⟩, -⟩ | ⟨-, id, -, ⟨mesh, origin, hchange⟩, -⟩
  · rw [hchange]
    exact (hg.hideAll e.sources).insertVisible _ rfl
  · rw [hchange]
    exact hg.modify id _ (fun _ => rfl) (fun _ => rfl)

theorem Plan.Fits.adjusts {e : Entry} {plan : Plan} (h : Fits e plan) : Adjusts plan.notes := by
  rcases h with ⟨-, -, hnotes⟩ | ⟨-, -, -, -, hnotes⟩
  · exact hnotes
  · exact hnotes

namespace Evaluation

theorem contains_of_lacks {g : ArtifactGraph Float} (hg : g.Sound) {names : List String} {reference : String}
    (h : Lacks g names reference) : g.contains reference = false := by
  obtain ⟨-, hmesh⟩ := h
  rw [ArtifactGraph.contains_eq_false_iff]
  cases hget : g.get? reference with
  | none => rfl
  | some a =>
    have hnone : a.geometry = none := by
      unfold ArtifactGraph.mesh? at hmesh
      rw [hget] at hmesh
      exact hmesh
    have hsome := hg.solid reference a hget
    rw [hnone] at hsome
    cases hsome

/-! ## One entry -/

section Step

variable (config : Config) (backend : BooleanBackend Float) (spec : Specification) (p : Progress) (e : Entry)

/-- What is found in the course of an entry whose names are all known. -/
def Outcome : Finding → Prop
  | .missingReference .. | .dependencyCycle .. => False
  | _ => True

/-- What is found on the way of an entry that is carried out. -/
def Note : Finding → Prop
  | .clamped .. | .edgeOutOfRange _ | .rebuilt _ => True
  | _ => False

theorem note_of_adjustment {n : Finding} (h : Adjustment n) : Note n := by
  cases n <;> trivial

theorem note_of_mem_notesOf {plan : Plan} (hnotes : Adjusts plan.notes) {n : Finding}
    (hn : n ∈ (notesOf p e plan).1) : Note n := by
  unfold notesOf at hn
  split at hn
  · rw [List.mem_append, Option.mem_toList] at hn
    rcases hn with hn | hn
    · exact note_of_adjustment (hnotes n hn)
    · obtain ⟨discarded, -, rfl⟩ := Option.map_eq_some_iff.mp hn
      trivial
  · exact note_of_adjustment (hnotes n hn)

theorem outcome_of_note {n : Finding} (h : Note n) : Outcome n := by
  cases n <;> trivial

theorem outcome_failureReport (error : OperatorError Float) : Outcome (failureReport e error).finding := by
  unfold failureReport
  split <;> trivial

def changeOf (planned : Except Refusal Plan) (g : ArtifactGraph Float) : ArtifactGraph Float :=
  match planned with
  | .ok plan => plan.change.carryOut g
  | .error _ => g

theorem step_graph :
    (step config backend spec p e).graph = changeOf (Plan.ofEntry config backend p.graph e) p.graph := by
  unfold step
  cases e.isGenerative <;>
    cases Plan.ofEntry config backend p.graph e with
    | ok plan => rfl
    | error refusal => cases refusal <;> rfl

theorem step_sound (h : p.graph.Sound) : (step config backend spec p e).graph.Sound := by
  have hends := ofEntry_ends config backend p.graph e
  rw [step_graph]
  cases hplan : Plan.ofEntry config backend p.graph e with
  | ok plan =>
    rw [hplan] at hends
    exact Fits.sound hends h
  | error refusal => exact h

theorem step_attempted :
    (step config backend spec p e).attempted = if e.isGenerative then e.id :: p.attempted else p.attempted := by
  unfold step
  cases e.isGenerative <;>
    cases Plan.ofEntry config backend p.graph e with
    | ok plan => rfl
    | error refusal => cases refusal <;> rfl

def reportsOf : Except Refusal Plan → List Diagnostic
  | .ok plan =>
    (notesOf p e plan).1.map fun n => report e n (noteMessage (((rebuiltBox e.operation).map Prod.fst).getD e.id) n)
  | .error (.failed error) => [failureReport e error]
  | .error (.missing reference) => [missingReport spec p e reference]

theorem step_diagnostics :
    (step config backend spec p e).diagnostics.toList =
      p.diagnostics.toList ++ reportsOf spec p e (Plan.ofEntry config backend p.graph e) := by
  unfold step
  cases e.isGenerative <;>
    cases Plan.ofEntry config backend p.graph e with
    | ok plan => simp [carryOut, reportsOf]
    | error refusal => cases refusal <;> simp [reportsOf]

theorem diagnostics_subset_step {d : Diagnostic} (hd : d ∈ p.diagnostics) :
    d ∈ (step config backend spec p e).diagnostics := by
  rw [← Array.mem_toList_iff, step_diagnostics]
  exact List.mem_append_left _ (Array.mem_toList_iff.mpr hd)

theorem mem_step_diagnostics {d : Diagnostic} (hd : d ∈ (step config backend spec p e).diagnostics) :
    d ∈ p.diagnostics ∨ Outcome d.finding ∨
    ∃ reference, Lacks p.graph e.sources reference ∧ d = missingReport spec p e reference := by
  rw [← Array.mem_toList_iff, step_diagnostics] at hd
  rcases List.mem_append.mp hd with hd | hd
  · exact Or.inl (Array.mem_toList_iff.mp hd)
  have hends := ofEntry_ends config backend p.graph e
  cases hplan : Plan.ofEntry config backend p.graph e with
  | ok plan =>
    rw [hplan] at hends hd
    obtain ⟨n, hn, rfl⟩ := List.mem_map.mp hd
    exact Or.inr (Or.inl (outcome_of_note (note_of_mem_notesOf p e (Fits.adjusts hends) hn)))
  | error refusal =>
    rw [hplan] at hends hd
    cases refusal with
    | failed error =>
      obtain rfl := List.mem_singleton.mp hd
      exact Or.inr (Or.inl (outcome_failureReport e error))
    | missing reference =>
      obtain rfl := List.mem_singleton.mp hd
      exact Or.inr (Or.inr ⟨reference, hends, rfl⟩)

end Step

/-! ## Runs -/

variable (spec : Specification) (config : Config) (backend : BooleanBackend Float)

def after (count : Nat) : Progress :=
  let (entries, cycles) := ordered config.order spec
  (entries.take count).foldl (step config backend spec) ⟨ArtifactGraph.empty, cycles.toArray, [], [], 0⟩

theorem evaluate_eq :
    spec.evaluate config backend =
      let p := after spec config backend (ordered config.order spec).1.length
      ⟨p.graph, p.diagnostics.toList, p.booleans⟩ := by
  unfold Specification.evaluate after
  simp only [List.take_length]

theorem after_succ {count : Nat} {e : Entry} (h : (ordered config.order spec).1[count]? = some e) :
    after spec config backend (count + 1) = step config backend spec (after spec config backend count) e := by
  unfold after
  dsimp only
  rw [List.take_add_one, h, List.foldl_append]
  rfl

theorem after_succ_of_none {count : Nat} (h : (ordered config.order spec).1[count]? = none) :
    after spec config backend (count + 1) = after spec config backend count := by
  unfold after
  dsimp only
  rw [List.take_add_one, h, Option.toList_none, List.append_nil]

/-- What each entry keeps holds after any number of entries. -/
theorem after_of_step {motive : Progress → Prop} (start : motive (after spec config backend 0))
    (keep : ∀ p e, motive p → motive (step config backend spec p e)) (count : Nat) :
    motive (after spec config backend count) := by
  induction count with
  | zero => exact start
  | succ count ih =>
    cases h : (ordered config.order spec).1[count]? with
    | none => rw [after_succ_of_none spec config backend h]; exact ih
    | some e => rw [after_succ spec config backend h]; exact keep _ e ih

theorem after_sound (count : Nat) : (after spec config backend count).graph.Sound :=
  after_of_step spec config backend ArtifactGraph.Sound.empty (step_sound config backend spec) count

theorem diagnostics_subset_after {d : Diagnostic} (hd : d ∈ (ordered config.order spec).2) (count : Nat) :
    d ∈ (after spec config backend count).diagnostics :=
  after_of_step spec config backend (motive := fun p => d ∈ p.diagnostics) (List.mem_toArray.mpr hd)
    (fun p e => diagnostics_subset_step config backend spec p e) count

/-- Each report of a missing name goes back to the entry that missed it. -/
theorem mem_after_diagnostics {count : Nat} {d : Diagnostic} (hd : d ∈ (after spec config backend count).diagnostics) :
    d ∈ (ordered config.order spec).2 ∨ Outcome d.finding ∨
    ∃ place e reference, (ordered config.order spec).1[place]? = some e ∧
      Lacks (after spec config backend place).graph e.sources reference ∧
      d = missingReport spec (after spec config backend place) e reference := by
  induction count with
  | zero => exact Or.inl (List.mem_toArray.mp hd)
  | succ count ih =>
    cases h : (ordered config.order spec).1[count]? with
    | none =>
      rw [after_succ_of_none spec config backend h] at hd
      exact ih hd
    | some e =>
      rw [after_succ spec config backend h] at hd
      rcases mem_step_diagnostics config backend spec _ e hd with hd | hd | ⟨reference, hlacks, rfl⟩
      · exact ih hd
      · exact Or.inr (Or.inl hd)
      · exact Or.inr (Or.inr ⟨count, e, reference, h, hlacks, rfl⟩)

theorem mem_ordered_diagnostics {order : EvaluationOrder} {d : Diagnostic} (hd : d ∈ (ordered order spec).2) :
    ∃ ids, d = cycleReport ids := by
  unfold ordered at hd
  split at hd
  · simp at hd
  · dsimp only at hd
    split at hd
    · simp at hd
    · exact ⟨_, List.mem_singleton.mp hd⟩

theorem mem_evaluate_missing {d : Diagnostic} (hd : d ∈ (spec.evaluate config backend).diagnostics)
    {reference : String} {forward : Bool} (hmissing : d.finding = .missingReference reference forward) :
    ∃ place e, (ordered config.order spec).1[place]? = some e ∧
      Lacks (after spec config backend place).graph e.sources reference ∧
      d = missingReport spec (after spec config backend place) e reference := by
  rw [evaluate_eq] at hd
  rcases mem_after_diagnostics spec config backend (Array.mem_toList_iff.mp hd) with
    hcycle | houtcome | ⟨place, e, missed, he, hlacks, rfl⟩
  · obtain ⟨ids, rfl⟩ := mem_ordered_diagnostics spec hcycle
    cases hmissing
  · rw [hmissing] at houtcome
    exact houtcome.elim
  · have : missed = reference := by
      unfold missingReport report at hmissing
      exact (Finding.missingReference.inj hmissing).1
    subst this
    exact ⟨place, e, he, hlacks, rfl⟩

theorem mem_evaluate_cycle {d : Diagnostic} {ids : List String} (hcycle : d.finding = .dependencyCycle ids) :
    d ∈ (spec.evaluate config backend).diagnostics ↔ d ∈ (ordered config.order spec).2 := by
  rw [evaluate_eq]
  constructor
  · intro hd
    rcases mem_after_diagnostics spec config backend (Array.mem_toList_iff.mp hd) with
      hd | houtcome | ⟨place, e, missed, he, hlacks, rfl⟩
    · exact hd
    · rw [hcycle] at houtcome
      exact houtcome.elim
    · cases hcycle
  · intro hd
    exact Array.mem_toList_iff.mpr (diagnostics_subset_after spec config backend hd _)

theorem mem_after_attempted {count : Nat} {id : String} :
    id ∈ (after spec config backend count).attempted ↔
    ∃ place < count, ∃ e, (ordered config.order spec).1[place]? = some e ∧ e.isGenerative = true ∧ e.id = id := by
  induction count with
  | zero =>
    have hnone : (after spec config backend 0).attempted = [] := rfl
    simp [hnone]
  | succ count ih =>
    have hearlier : (∃ place < count + 1, ∃ e, (ordered config.order spec).1[place]? = some e ∧
        e.isGenerative = true ∧ e.id = id) ↔
        (∃ e, (ordered config.order spec).1[count]? = some e ∧ e.isGenerative = true ∧ e.id = id) ∨
        id ∈ (after spec config backend count).attempted := by
      rw [Nat.exists_lt_succ_right, ih, or_comm]
    rw [hearlier]
    cases h : (ordered config.order spec).1[count]? with
    | none =>
      rw [after_succ_of_none spec config backend h]
      simp
    | some e =>
      have hthis : (∃ e', some e = some e' ∧ e'.isGenerative = true ∧ e'.id = id) ↔
          e.isGenerative = true ∧ e.id = id := by simp
      rw [after_succ spec config backend h, step_attempted, hthis]
      cases hgen : e.isGenerative with
      | true =>
        rw [if_pos rfl, List.mem_cons]
        exact or_congr_left ⟨fun hid => ⟨rfl, hid.symm⟩, fun hid => hid.2.symm⟩
      | false => simp

/-! ## The latest of what happens -/

/-- Before a count of places, `b` happens at a place, and nothing after it. -/
structure Latest {β : Type} (happens : Nat → β → Prop) (count : Nat) (place : Nat) (b : β) : Prop where
  lt : place < count
  here : happens place b
  last : ∀ j, place < j → j < count → ∀ b', ¬ happens j b'

section Latest

variable {β : Type} {happens : Nat → β → Prop} {count place : Nat} {b : β}

theorem latest_succ_of_not (hnone : ∀ b', ¬ happens count b') :
    Latest happens (count + 1) place b ↔ Latest happens count place b := by
  constructor
  · intro h
    have hne : place ≠ count := by
      rintro rfl
      exact hnone b h.here
    exact ⟨by have := h.lt; omega, h.here, fun j hj hjlt => h.last j hj (by omega)⟩
  · intro h
    refine ⟨by have := h.lt; omega, h.here, fun j hj hjlt => ?_⟩
    rcases Nat.lt_succ_iff_lt_or_eq.mp hjlt with hjlt | rfl
    · exact h.last j hj hjlt
    · exact hnone

theorem latest_succ_of {b' : β} (hhere : happens count b') :
    Latest happens (count + 1) place b ↔ place = count ∧ happens count b := by
  constructor
  · intro h
    have heq : place = count := by
      by_contra hne
      exact h.last count (by have := h.lt; omega) (by omega) b' hhere
    exact ⟨heq, heq ▸ h.here⟩
  · rintro ⟨rfl, hb⟩
    exact ⟨Nat.lt_succ_self place, hb, fun j hj hjlt => absurd hjlt (by omega)⟩

theorem Latest.unique {place' : Nat} {b' : β} (h : Latest happens count place b) (h' : Latest happens count place' b') :
    place = place' := by
  rcases lt_trichotomy place place' with hlt | heq | hgt
  · exact absurd h'.here (h.last place' hlt h'.lt b')
  · exact heq
  · exact absurd h.here (h'.last place hgt h.lt b)

/-- What follows all that happens, and starts with something else, tells what happened last. -/
theorem eq_iff_exists_latest {γ : Type} {f : Nat → γ} {g : β → γ} {c : γ} (hstart : f 0 ≠ c)
    (hstep : ∀ n, ((∀ b, ¬ happens n b) ∧ f (n + 1) = f n) ∨ ∃ b, (∀ b', happens n b' ↔ b' = b) ∧ f (n + 1) = g b)
    (count : Nat) : f count = c ↔ ∃ place b, Latest happens count place b ∧ g b = c := by
  induction count with
  | zero =>
    constructor
    · intro h
      exact absurd h hstart
    · rintro ⟨place, b, h, -⟩
      exact absurd h.lt (Nat.not_lt_zero place)
  | succ count ih =>
    -- What happens at this place is the last that happened. If nothing does, the last stays the last.
    rcases hstep count with ⟨hnone, hsame⟩ | ⟨b, hhere, hvalue⟩
    · rw [hsame, ih]
      simp only [latest_succ_of_not hnone]
    · rw [hvalue]
      simp only [latest_succ_of ((hhere b).mpr rfl), hhere]
      constructor
      · intro h
        exact ⟨count, b, ⟨rfl, rfl⟩, h⟩
      · rintro ⟨place, b', ⟨rfl, rfl⟩, h⟩
        exact h

end Latest

/-! ## What is done at a place -/

section Planned

variable {config : Config} {backend : BooleanBackend Float} {spec : Specification} {place : Nat} {e : Entry}
  {about : Entry → Plan → Prop}

theorem planned_iff_of_ok {plan : Plan} (he : (ordered config.order spec).1[place]? = some e)
    (hplan : Plan.ofEntry config backend (after spec config backend place).graph e = .ok plan) :
    (∃ e plan, (ordered config.order spec).1[place]? = some e ∧
      Plan.ofEntry config backend (after spec config backend place).graph e = .ok plan ∧ about e plan) ↔
      about e plan := by
  constructor
  · rintro ⟨e', plan', he', hplan', h⟩
    obtain rfl := Option.some.inj (he.symm.trans he')
    obtain rfl := Except.ok.inj (hplan.symm.trans hplan')
    exact h
  · intro h
    exact ⟨e, plan, he, hplan, h⟩

theorem not_planned_of_error {refusal : Refusal} (he : (ordered config.order spec).1[place]? = some e)
    (hplan : Plan.ofEntry config backend (after spec config backend place).graph e = .error refusal) :
    ¬ ∃ e plan, (ordered config.order spec).1[place]? = some e ∧
      Plan.ofEntry config backend (after spec config backend place).graph e = .ok plan ∧ about e plan := by
  rintro ⟨e', plan, he', hplan', -⟩
  obtain rfl := Option.some.inj (he.symm.trans he')
  rw [hplan] at hplan'
  cases hplan'

theorem not_planned_of_none (he : (ordered config.order spec).1[place]? = none) :
    ¬ ∃ e plan, (ordered config.order spec).1[place]? = some e ∧
      Plan.ofEntry config backend (after spec config backend place).graph e = .ok plan ∧ about e plan := by
  rintro ⟨e, plan, he', -⟩
  rw [he] at he'
  cases he'

end Planned

/-! ## Graphs and missing names -/

/-- The graph is sound after any number of entries. A name is reported as missing only by an entry that
has it as a source, while there is no solid of that name. -/
theorem graphs_sound_and_missing_unknown :
    (∀ count, (after spec config backend count).graph.Sound) ∧
    ∀ d ∈ (spec.evaluate config backend).diagnostics, ∀ reference forward,
      d.finding = .missingReference reference forward →
      ∃ place e, (ordered config.order spec).1[place]? = some e ∧ reference ∈ e.sources ∧
        (after spec config backend place).graph.contains reference = false ∧
        d = report e (.missingReference reference forward)
          (if forward then "`" ++ reference ++ "` is referenced before the entry producing it runs"
          else "unknown id `" ++ reference ++ "`") := by
  refine ⟨after_sound spec config backend, ?_⟩
  intro d hd reference forward hmissing
  obtain ⟨place, e, he, hlacks, rfl⟩ := mem_evaluate_missing spec config backend hd hmissing
  have hunknown := contains_of_lacks (after_sound spec config backend place) hlacks
  refine ⟨place, e, he, hlacks.1, hunknown, ?_⟩
  unfold missingReport report at hmissing ⊢
  have hforward := (Finding.missingReference.inj hmissing).2
  dsimp only at hforward ⊢
  rw [hforward, hunknown]
  rfl

end Evaluation

end SolidScript
