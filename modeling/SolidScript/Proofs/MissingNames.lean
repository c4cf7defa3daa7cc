import SolidScript.Proofs.Reports

/-!
# Names that are missed

Whether a missed name counts as used too early is told from the graph, from the names tried so far, and from the
whole specification. The places of the entries alone decide it.
-/

namespace SolidScript.Evaluation

/-- The entry at a place makes the solid of a name. -/
def MakesAt (entries : List Entry) (id : String) (place : Nat) : Prop :=
  ∃ e, entries[place]? = some e ∧ e.isGenerative = true ∧ e.id = id

/-- The solid of a name is made from a place on, and not before. -/
def MadeLater (entries : List Entry) (id : String) (place : Nat) : Prop :=
  (∀ j < place, ¬ MakesAt entries id j) ∧ ∃ j ≥ place, MakesAt entries id j

def unknownReport (e : Entry) (reference : String) (forward : Bool) : Diagnostic :=
  report e (.missingReference reference forward)
    (if forward then "`" ++ reference ++ "` is referenced before the entry producing it runs"
    else "unknown id `" ++ reference ++ "`")

variable (config : Config) (backend : BooleanBackend Float) (spec : Specification)

theorem producer_isSome_iff (order : EvaluationOrder) (id : String) :
    (spec.producerCategory? id).isSome = true ↔ ∃ j, MakesAt (ordered order spec).1 id j := by
  unfold Specification.producerCategory?
  rw [Option.isSome_map, List.find?_isSome]
  constructor
  · rintro ⟨e, he, hmakes⟩
    rw [Bool.and_eq_true, beq_iff_eq] at hmakes
    obtain ⟨j, hj⟩ := List.mem_iff_getElem?.mp ((ordered_perm spec order).mem_iff.mpr he)
    exact ⟨j, e, hj, hmakes⟩
  · rintro ⟨j, e, hj, hmakes⟩
    refine ⟨e, (ordered_perm spec order).mem_iff.mp (List.mem_of_getElem? hj), ?_⟩
    rw [Bool.and_eq_true, beq_iff_eq]
    exact hmakes

theorem missingReport_eq {p : Progress} (e : Entry) {reference : String} (h : p.graph.contains reference = false) :
    missingReport spec p e reference =
      unknownReport e reference (!p.attempted.contains reference && (spec.producerCategory? reference).isSome) := by
  unfold missingReport unknownReport
  simp only [h, Bool.not_false, Bool.true_and, Bool.false_eq_true, if_false]

/-- A missed name is said to come too early when its solid is made later, and to be unknown otherwise. -/
theorem reportsAt_of_missing {place : Nat} {e : Entry} (he : (ordered config.order spec).1[place]? = some e)
    {reference : String}
    (hplan : Plan.ofEntry config backend (after spec config backend place).graph e = .error (.missing reference)) :
    ∃ forward, reportsAt config backend spec place = [unknownReport e reference forward] ∧
      (forward = true ↔ MadeLater (ordered config.order spec).1 reference place) := by
  have hlacks := Plan.ofEntry_ends config backend (after spec config backend place).graph e
  rw [hplan] at hlacks
  have hunknown := contains_of_lacks (after_sound spec config backend place) hlacks
  rw [reportsAt_of_some config backend spec he, hplan]
  refine ⟨_, congrArg (fun d => [d]) (missingReport_eq spec e hunknown), ?_⟩
  have htried : (after spec config backend place).attempted.contains reference = true ↔
      ∃ j < place, MakesAt (ordered config.order spec).1 reference j := by
    rw [List.contains_iff_mem]
    exact mem_after_attempted spec config backend
  rw [Bool.and_eq_true, Bool.not_eq_true', Bool.eq_false_iff, Ne, htried, producer_isSome_iff spec config.order]
  unfold MadeLater
  constructor
  · rintro ⟨hnot, j, hj⟩
    refine ⟨fun i hi hmakes => hnot ⟨i, hi, hmakes⟩, j, ?_, hj⟩
    by_contra hlt
    exact hnot ⟨j, Nat.lt_of_not_le hlt, hj⟩
  · rintro ⟨hnot, j, -, hj⟩
    exact ⟨fun ⟨i, hi, hmakes⟩ => hnot i hi hmakes, j, hj⟩

theorem not_missing_of_mem_ordered {order : EvaluationOrder} {d : Diagnostic} (hd : d ∈ (ordered order spec).2)
    (reference : String) (forward : Bool) : d.finding ≠ .missingReference reference forward := by
  obtain ⟨ids, rfl⟩ := mem_ordered_diagnostics spec hd
  intro hcycle
  cases hcycle

theorem missing_of_mem_reportsAt {place : Nat} {e : Entry} (he : (ordered config.order spec).1[place]? = some e)
    {d : Diagnostic} (hd : d ∈ reportsAt config backend spec place) {reference : String} {forward : Bool}
    (hmissing : d.finding = .missingReference reference forward) :
    Plan.ofEntry config backend (after spec config backend place).graph e = .error (.missing reference) ∧
    reportsAt config backend spec place = [d] := by
  cases ending_at config backend spec he with
  | carriedOut plan _ _ hnotes =>
    have hnote := hnotes d hd
    rw [hmissing] at hnote
    exact hnote.elim
  | failed error _ _ hreports =>
    obtain ⟨own, hown, hfinding⟩ := hreports
    rw [hown, List.mem_singleton] at hd
    rw [← hd, hmissing] at hfinding
    rcases hfinding with hfinding | hfinding <;> cases hfinding
  | missing missed _ hplan _ hreports =>
    obtain ⟨own, hown, hfinding⟩ := hreports
    rw [hown, List.mem_singleton] at hd
    rw [← hd, hmissing] at hfinding
    obtain rfl := (Finding.missingReference.inj hfinding).1
    exact ⟨hplan, hown.trans (by rw [hd])⟩

/-- Where a name is missed, it is told to come too early just when no entry has had its turn that makes its solid, and
one is still to come or has its turn just now. One that has failed before is never still to come. -/
theorem missing_forward_iff_madeLater (config : Config) (backend : BooleanBackend Float) (spec : Specification) :
    let entries := (ordered config.order spec).1
    let reports := reportsAt config backend spec
    entries.Perm spec.byCategory ∧
    (∃ cycles, (∀ d ∈ cycles, ∀ reference forward, d.finding ≠ .missingReference reference forward) ∧
      (spec.evaluate config backend).diagnostics = cycles ++ (List.range entries.length).flatMap reports) ∧
    ∀ place e, entries[place]? = some e → ∀ d ∈ reports place, ∀ reference forward,
      d.finding = .missingReference reference forward →
      reference ∈ e.sources ∧ reports place = [unknownReport e reference forward] ∧
      (forward = true ↔ MadeLater entries reference place) ∧
      ((∃ j < place, MakesAt entries reference j) → forward = false) := by
  intro entries reports
  refine ⟨ordered_perm spec config.order, ⟨(ordered config.order spec).2, ?_, ?_⟩, ?_⟩
  · exact fun d hd => not_missing_of_mem_ordered spec hd
  · exact evaluate_diagnostics config backend spec
  intro place e he d hd reference forward hmissing
  obtain ⟨hplan, hone⟩ := missing_of_mem_reportsAt config backend spec he hd hmissing
  obtain ⟨told, hreports, htold⟩ := reportsAt_of_missing config backend spec he hplan
  have hreport : d = unknownReport e reference told := List.singleton_inj.mp (hone.symm.trans hreports)
  have hflag : told = forward := by
    rw [hreport] at hmissing
    exact (Finding.missingReference.inj hmissing).2
  subst hflag
  have hlacks := Plan.ofEntry_ends config backend (after spec config backend place).graph e
  rw [hplan] at hlacks
  refine ⟨hlacks.1, hreports, htold, fun ⟨j, hj, hmakes⟩ => ?_⟩
  rw [← Bool.not_eq_true, htold]
  exact fun hlater => hlater.1 j hj hmakes

/-- Three unions, of which the first and the last need the second, which fails. -/
def unionsAroundFailure : Specification :=
  .ofEntries
    [⟨"early", 1, .boolean .union "middle" "none"⟩, ⟨"middle", 2, .boolean .union "none" "none"⟩,
      ⟨"late", 3, .boolean .union "middle" "none"⟩]

theorem unionsAroundFailure_forward :
    let entries := unionsAroundFailure.byCategory
    let early : Entry := ⟨"early", 1, .boolean .union "middle" "none"⟩
    let late : Entry := ⟨"late", 3, .boolean .union "middle" "none"⟩
    let reports := reportsAt {} Solid.combine unionsAroundFailure
    (entries[0]? = some early ∧ unknownReport early "middle" true ∈ reports 0 ∧ MadeLater entries "middle" 0) ∧
    entries[2]? = some late ∧ unknownReport late "middle" false ∈ reports 2 ∧ ¬ MadeLater entries "middle" 2 := by
  intro entries early late reports
  have hearly : unknownReport early "middle" true ∈ reports 0 := by
    rw [show reports 0 = [unknownReport early "middle" true] by cbv]
    exact List.mem_singleton_self _
  have hlate : unknownReport late "middle" false ∈ reports 2 := by
    rw [show reports 2 = [unknownReport late "middle" false] by cbv]
    exact List.mem_singleton_self _
  have hentries : entries[0]? = some early ∧ entries[2]? = some late := ⟨by cbv, by cbv⟩
  obtain ⟨-, -, htold⟩ := missing_forward_iff_madeLater {} Solid.combine unionsAroundFailure
  obtain ⟨-, -, hforward, -⟩ := htold 0 early hentries.1 _ hearly "middle" true rfl
  obtain ⟨-, -, hforward', -⟩ := htold 2 late hentries.2 _ hlate "middle" false rfl
  refine ⟨⟨hentries.1, hearly, hforward.mp rfl⟩, hentries.2, hlate, fun hlater => ?_⟩
  exact Bool.false_ne_true (hforward'.mpr hlater)

end SolidScript.Evaluation
