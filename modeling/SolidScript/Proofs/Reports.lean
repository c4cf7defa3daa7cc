import SolidScript.Kernel
import SolidScript.Proofs.DependencyOrder
import SolidScript.Proofs.Footprint
import SolidScript.Proofs.Rejection

/-!
# What is reported on a script

First the lines that are rejected, then a cycle, then entry by entry what became of each. An entry that is
carried out has notes at most. One that is not has a single report, and leaves the graph as it was.
-/

namespace SolidScript

namespace Evaluation

variable (config : Config) (backend : BooleanBackend Float) (spec : Specification)

/-! ## Findings -/

/-- The failures that make a run fail. -/
def endsInError : Finding → Bool
  | .unsupportedTarget | .operatorFailure => true
  | _ => false

theorem failureReport_finding (e : Entry) (error : OperatorError Float) :
    (failureReport e error).finding = .unsupportedTarget ∨ (failureReport e error).finding = .operatorFailure := by
  unfold failureReport
  split <;> simp [report]

/-! ## One entry -/

theorem place_of_mem_reportsOf {p : Progress} {e : Entry} {planned : Except Refusal Plan} {d : Diagnostic}
    (hd : d ∈ reportsOf spec p e planned) : d.entry = some e.id ∧ d.line = Diagnostic.lineOf e.line := by
  unfold reportsOf at hd
  split at hd
  · obtain ⟨n, -, rfl⟩ := List.mem_map.mp hd
    exact ⟨rfl, rfl⟩
  · rw [List.mem_singleton.mp hd]
    unfold failureReport
    split <;> exact ⟨rfl, rfl⟩
  · rw [List.mem_singleton.mp hd]
    exact ⟨rfl, rfl⟩

/-- How an entry can end, with what becomes of the graph and what is reported. -/
inductive Ending (e : Entry) (before after : ArtifactGraph Float) (reports : List Diagnostic) : Prop
  | carriedOut (plan : Plan) (hplan : Plan.ofEntry config backend before e = .ok plan)
      (hcommitted : Plan.Committed e plan before after) (hreports : ∀ d ∈ reports, Note d.finding)
  | missing (reference : String) (forward : Bool)
      (hplan : Plan.ofEntry config backend before e = .error (.missing reference))
      (hgraph : after = before)
      (hreports : ∃ d, reports = [d] ∧ d.finding = .missingReference reference forward)
  | failed (error : OperatorError Float) (hplan : Plan.ofEntry config backend before e = .error (.failed error))
      (hgraph : after = before)
      (hreports : ∃ d, reports = [d] ∧ (d.finding = .unsupportedTarget ∨ d.finding = .operatorFailure))

theorem step_ending (p : Progress) (e : Entry) :
    Ending config backend e p.graph (step config backend spec p e).graph
      (reportsOf spec p e (Plan.ofEntry config backend p.graph e)) := by
  have hends := Plan.ofEntry_ends config backend p.graph e
  rw [step_graph]
  cases hplan : Plan.ofEntry config backend p.graph e with
  | ok plan =>
    rw [hplan] at hends
    refine Ending.carriedOut plan hplan (Plan.committed_of_ok hplan) fun d hd => ?_
    obtain ⟨n, hn, rfl⟩ := List.mem_map.mp hd
    exact note_of_mem_notesOf p e (Plan.Fits.adjusts hends) hn
  | error refusal =>
    cases refusal with
    | missing reference => exact Ending.missing reference _ hplan rfl ⟨_, rfl, rfl⟩
    | failed error => exact Ending.failed error hplan rfl ⟨_, rfl, failureReport_finding e error⟩

/-! ## Runs -/

def reportsAt (place : Nat) : List Diagnostic :=
  match (ordered config.order spec).1[place]? with
  | none => []
  | some e =>
    let p := after spec config backend place
    reportsOf spec p e (Plan.ofEntry config backend p.graph e)

theorem reportsAt_of_some {place : Nat} {e : Entry} (he : (ordered config.order spec).1[place]? = some e) :
    reportsAt config backend spec place =
      reportsOf spec (after spec config backend place) e
        (Plan.ofEntry config backend (after spec config backend place).graph e) := by
  simp only [reportsAt, he]

theorem after_diagnostics (count : Nat) :
    (after spec config backend count).diagnostics.toList =
      (ordered config.order spec).2 ++ (List.range count).flatMap (reportsAt config backend spec) := by
  induction count with
  | zero => simp [after]
  | succ count ih =>
    rw [List.range_succ, List.flatMap_append, ← List.append_assoc, ← ih, List.flatMap_singleton]
    cases he : (ordered config.order spec).1[count]? with
    | none =>
      rw [after_succ_of_none spec config backend he]
      simp [reportsAt, he]
    | some e =>
      rw [after_succ spec config backend he, step_diagnostics, reportsAt_of_some config backend spec he]

theorem evaluate_diagnostics :
    (spec.evaluate config backend).diagnostics =
      (ordered config.order spec).2 ++
        (List.range (ordered config.order spec).1.length).flatMap (reportsAt config backend spec) := by
  rw [evaluate_eq]
  exact after_diagnostics config backend spec _

theorem ending_at {place : Nat} {e : Entry} (he : (ordered config.order spec).1[place]? = some e) :
    Ending config backend e (after spec config backend place).graph (after spec config backend (place + 1)).graph
      (reportsAt config backend spec place) := by
  rw [after_succ spec config backend he, reportsAt_of_some config backend spec he]
  exact step_ending config backend spec _ e

theorem ordered_reports (order : EvaluationOrder) :
    (ordered order spec).2 = [] ∨ ∃ ids, (ordered order spec).2 = [cycleReport ids] := by
  unfold ordered
  cases order with
  | category => exact Or.inl rfl
  | dependency =>
    dsimp only
    split
    · exact Or.inl rfl
    · exact Or.inr ⟨_, rfl⟩

/-! ## Errors -/

theorem isError_of_note {d : Diagnostic} (h : Note d.finding) :
    d.isError = false ∧ endsInError d.finding = false := by
  unfold Diagnostic.isError Diagnostic.severity
  cases hf : d.finding <;> rw [hf] at h
  case clamped | edgeOutOfRange | rebuilt => exact ⟨rfl, rfl⟩
  all_goals exact h.elim

theorem Ending.isError_eq {e : Entry} {before after : ArtifactGraph Float} {reports : List Diagnostic}
    (h : Ending config backend e before after reports) {d : Diagnostic} (hd : d ∈ reports) :
    d.isError = endsInError d.finding := by
  cases h with
  | carriedOut plan _ _ hreports =>
    obtain ⟨herror, hends⟩ := isError_of_note (hreports d hd)
    rw [herror, hends]
  | missing reference forward _ _ hreports =>
    obtain ⟨d', rfl, hfinding⟩ := hreports
    obtain rfl := List.mem_singleton.mp hd
    unfold Diagnostic.isError Diagnostic.severity
    rw [hfinding]
    rfl
  | failed error _ _ hreports =>
    obtain ⟨d', rfl, hfinding⟩ := hreports
    obtain rfl := List.mem_singleton.mp hd
    unfold Diagnostic.isError Diagnostic.severity
    rcases hfinding with hfinding | hfinding <;> rw [hfinding] <;> rfl

theorem Ending.committed {e : Entry} {before after : ArtifactGraph Float}
    (h : Ending config backend e before after []) : ∃ plan, Plan.Committed e plan before after := by
  cases h with
  | carriedOut plan _ hcommitted _ => exact ⟨plan, hcommitted⟩
  | missing _ _ _ _ hreports | failed _ _ _ hreports =>
    obtain ⟨d, hd, -⟩ := hreports
    cases hd

theorem Ending.graph_eq {e : Entry} {before after : ArtifactGraph Float} {reports : List Diagnostic}
    (h : Ending config backend e before after reports) {d : Diagnostic} (hd : d ∈ reports)
    (herror : endsInError d.finding = true) : after = before := by
  cases h with
  | carriedOut _ _ _ hreports =>
    rw [(isError_of_note (hreports d hd)).2] at herror
    cases herror
  | missing _ _ _ hgraph _ | failed _ _ hgraph _ => exact hgraph

theorem errors_of_entries (count : Nat) :
    ((List.range count).flatMap (reportsAt config backend spec)).filter Diagnostic.isError =
      ((List.range count).flatMap (reportsAt config backend spec)).filter fun d => endsInError d.finding := by
  apply List.filter_congr
  intro d hd
  obtain ⟨place, -, hd⟩ := List.mem_flatMap.mp hd
  cases he : (ordered config.order spec).1[place]? with
  | none => simp [reportsAt, he] at hd
  | some e => exact (ending_at config backend spec he).isError_eq config backend hd

theorem filter_ordered_reports (order : EvaluationOrder) : (ordered order spec).2.filter Diagnostic.isError = [] := by
  rcases ordered_reports spec order with h | ⟨ids, h⟩ <;> rw [h] <;> rfl

end Evaluation

/-! ## Scripts -/

namespace Script

theorem isError_of_mem_rejections [SyntaxReport] {config : Config} {script : String} {d : Diagnostic}
    (hd : d ∈ rejections config script) : d.isError = true := by
  obtain ⟨numbered, -, hd⟩ := List.mem_filterMap.mp hd
  obtain ⟨e, -, rfl⟩ := Option.map_eq_some_iff.mp hd
  rfl

theorem rejections_eq_nil_iff [SyntaxReport] (config : Config) (script : String) :
    rejections config script = [] ↔ ∀ numbered ∈ numberedLines script, refusal? config numbered.1 = none := by
  simp [rejections, rejection?]

end Script

open Evaluation Script

theorem Kernel.evaluateScript_diagnostics [SyntaxReport] (k : Kernel) (script : String) :
    (k.evaluateScript script).diagnostics =
      rejections k.config script ++ ((parse k.config script).1.evaluate k.config k.backend).diagnostics := by
  rw [← parse_rejected]
  rfl

theorem Kernel.run_errors [SyntaxReport] (k : Kernel) (script : String) :
    (k.run script).errors = ((k.evaluateScript script).diagnostics.filter Diagnostic.isError).map Diagnostic.text := rfl

/-- All that is reported on a script: its rejected lines, a cycle at most, and entry by entry what becomes of each.
Of these the rejected lines and the failures of operators are the errors of a run. -/
theorem Kernel.reports_of_script [SyntaxReport] (k : Kernel) (script : String) :
    let spec := (parse k.config script).1
    let entries := (ordered k.config.order spec).1
    let graph := fun place => (after spec k.config k.backend place).graph
    let reports := reportsAt k.config k.backend spec
    let ofEntries := (List.range entries.length).flatMap reports
    (∃ cycles, (cycles = [] ∨ ∃ ids, cycles = [cycleReport ids]) ∧
      (k.evaluateScript script).diagnostics = rejections k.config script ++ cycles ++ ofEntries) ∧
    entries.Perm spec.byCategory ∧
    (k.evaluateScript script).graph = graph entries.length ∧
    (∀ place e, entries[place]? = some e →
      Ending k.config k.backend e (graph place) (graph (place + 1)) (reports place) ∧
      ∀ d ∈ reports place, d.entry = some e.id ∧ d.line = Diagnostic.lineOf e.line) ∧
    (k.run script).errors =
      (rejections k.config script ++ ofEntries.filter fun d => endsInError d.finding).map Diagnostic.text ∧
    ((k.run script).ok = true ↔
      (∀ numbered ∈ numberedLines script, refusal? k.config numbered.1 = none) ∧
      ∀ place < entries.length, ∀ d ∈ reports place, endsInError d.finding = false) := by
  intro spec entries graph reports ofEntries
  have hreported : (k.evaluateScript script).diagnostics =
      rejections k.config script ++ (ordered k.config.order spec).2 ++ ofEntries := by
    rw [evaluateScript_diagnostics, evaluate_diagnostics, List.append_assoc]
  have herrors : (k.run script).errors =
      (rejections k.config script ++ ofEntries.filter fun d => endsInError d.finding).map Diagnostic.text := by
    -- All rejections are errors, and a cycle is none.
    have hall : (rejections k.config script).filter Diagnostic.isError = rejections k.config script :=
      List.filter_eq_self.mpr fun d hd => isError_of_mem_rejections hd
    rw [run_errors, hreported, List.filter_append, List.filter_append, hall, filter_ordered_reports,
      List.append_nil, errors_of_entries]
  refine ⟨⟨_, ordered_reports spec k.config.order, hreported⟩, ordered_perm spec k.config.order, ?_, ?_, herrors, ?_⟩
  · show (spec.evaluate k.config k.backend).graph = _
    rw [evaluate_eq]
  · intro place e he
    refine ⟨ending_at k.config k.backend spec he, fun d hd => ?_⟩
    rw [show reports place = _ from reportsAt_of_some k.config k.backend spec he] at hd
    exact place_of_mem_reportsOf spec hd
  · unfold RunResult.ok
    rw [herrors, List.isEmpty_iff, List.map_eq_nil_iff, List.append_eq_nil_iff, rejections_eq_nil_iff,
      List.filter_eq_nil_iff]
    refine and_congr_right fun _ => ⟨fun h place hplace d hd => ?_, fun h d hd => ?_⟩
    · have hfailed := h d (List.mem_flatMap.mpr ⟨place, List.mem_range.mpr hplace, hd⟩)
      simpa using hfailed
    · obtain ⟨place, hplace, hd⟩ := List.mem_flatMap.mp hd
      simp [h place (List.mem_range.mp hplace) d hd]

/-- A box, a line that is not read, and a scale that would leave the box flat. -/
def boxScaledFlat : String := "b = box([1, 1, 1])\nbox(\nscale(b, [0, 1, 1])"

theorem boxScaledFlat_evaluated :
    let spec := (parse {} boxScaledFlat).1
    let reports := reportsAt {} Solid.combine spec
    ∃ made flattened rejected failed, (ordered .category spec).1 = [made, flattened] ∧
      made.id = "b" ∧ made.isGenerative = true ∧ flattened.id = "b_scale" ∧
      reports 0 = [] ∧ reports 1 = [failed] ∧ endsInError failed.finding = true ∧
      rejections {} boxScaledFlat = [rejected] := by
  have hentries : (ordered .category (parse {} boxScaledFlat).1).1.map (fun e => (e.id, e.isGenerative)) =
      [("b", true), ("b_scale", false)] := by decide +kernel
  have hnone : (reportsAt {} Solid.combine (parse {} boxScaledFlat).1 0).isEmpty = true := by decide +kernel
  have hone : (reportsAt {} Solid.combine (parse {} boxScaledFlat).1 1).map (fun d => endsInError d.finding) =
      [true] := by decide +kernel
  have hrefused : (rejections {} boxScaledFlat).length = 1 := by decide +kernel
  obtain ⟨made, rest, hmade, hfirst, hrest⟩ := List.map_eq_cons_iff.mp hentries
  obtain ⟨flattened, rfl, hlast⟩ := List.map_eq_singleton_iff.mp hrest
  obtain ⟨failed, hfailed, hfinding⟩ := List.map_eq_singleton_iff.mp hone
  obtain ⟨rejected, hrejected⟩ := List.length_eq_one_iff.mp hrefused
  obtain ⟨hname, hgen⟩ := Prod.mk.inj hfirst
  obtain ⟨hname', -⟩ := Prod.mk.inj hlast
  exact ⟨made, flattened, rejected, failed, hmade, hname, hgen, hname', List.isEmpty_iff.mp hnone, hfailed, hfinding,
    hrejected⟩

/-- The box is made and shown, the line that is not read is rejected, and the scale fails and leaves the box alone. -/
theorem Kernel.boxScaledFlat_reports :
    let kernel := Kernel.standard {}
    let spec := (parse {} boxScaledFlat).1
    let graph := fun place => (after spec {} Solid.combine place).graph
    ∃ made flattened rejected failed, (ordered .category spec).1 = [made, flattened] ∧
      made.id = "b" ∧ flattened.id = "b_scale" ∧
      (∃ plan, Plan.Committed made plan (graph 0) (graph 1)) ∧ (graph 1).visible = ["b"] ∧ graph 2 = graph 1 ∧
      rejections {} boxScaledFlat = [rejected] ∧ endsInError failed.finding = true ∧
      (kernel.evaluateScript boxScaledFlat).diagnostics = [rejected, failed] ∧
      (kernel.run boxScaledFlat).errors = [rejected.text, failed.text] ∧ (kernel.run boxScaledFlat).ok = false := by
  have hevaluated := boxScaledFlat_evaluated
  have htwo : ((Kernel.standard {}).evaluateScript boxScaledFlat).diagnostics.length = 2 := by decide +kernel
  have hall := (Kernel.standard {}).reports_of_script boxScaledFlat
  dsimp only [Kernel.standard] at hevaluated hall htwo ⊢
  -- The rest holds of every script with such entries, and is not to be found by running this one.
  generalize boxScaledFlat = script at *
  generalize (parse {} script).1 = spec at *
  obtain ⟨made, flattened, rejected, failed, hentries, hname, hgen, hname', hnone, hfailed, hfinding, hrejected⟩ :=
    hevaluated
  obtain ⟨⟨cycles, -, hdiagnostics⟩, -, -, hends, herrors, hok⟩ := hall
  have hreported : (List.range 2).flatMap (reportsAt {} Solid.combine spec) = [failed] := by
    rw [show List.range 2 = [0, 1] from rfl, List.flatMap_cons, List.flatMap_singleton, hnone, hfailed]
    rfl
  simp only [hentries, List.length_cons, List.length_nil, Nat.zero_add, Nat.reduceAdd, hreported, hrejected]
    at hdiagnostics herrors hok hends
  obtain ⟨plan, hcommitted⟩ := Ending.committed {} Solid.combine (hnone ▸ (hends 0 made rfl).1)
  have hgraph : (after spec {} Solid.combine 2).graph = (after spec {} Solid.combine 1).graph :=
    (hends 1 flattened rfl).1.graph_eq {} Solid.combine (hfailed ▸ List.mem_singleton_self failed) hfinding
  have hvisible : (after spec {} Solid.combine 1).graph.visible = ["b"] := by
    cases hcommitted with
    | made mesh origin kept _ _ _ _ hkept hvisible =>
      rw [show kept = [] from hkept, hname] at hvisible
      exact hvisible
    | changed _ _ _ _ _ hother =>
      rw [hgen] at hother
      cases hother
  have hcycles : cycles = [] := by
    rw [hdiagnostics] at htwo
    simpa using htwo
  rw [hcycles] at hdiagnostics
  refine ⟨made, flattened, rejected, failed, hentries, hname, hname', ⟨plan, hcommitted⟩, hvisible, hgraph, hrejected,
    hfinding, hdiagnostics, ?_, ?_⟩
  · rw [herrors, List.filter_singleton, hfinding]
    rfl
  · rw [Bool.eq_false_iff, ne_eq, hok]
    rintro ⟨-, hnoError⟩
    rw [hnoError 1 Nat.one_lt_two failed (hfailed ▸ List.mem_singleton_self failed)] at hfinding
    cases hfinding

end SolidScript
