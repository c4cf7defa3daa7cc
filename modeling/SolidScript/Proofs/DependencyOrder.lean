import SolidScript.Proofs.Evaluation
import SolidScript.Proofs.Schedule

/-! # Evaluation in the order of dependency -/

namespace SolidScript.Evaluation

open Precedence Schedule

/-! ## Entries and their places -/

theorem getElem?_filterMap_places {entries : List Entry} {places : List Nat}
    (h : ∀ i ∈ places, i < entries.length) (n : Nat) :
    (places.filterMap (entries[·]?))[n]? = places[n]? >>= (entries[·]?) := by
  induction places generalizing n with
  | nil => rfl
  | cons i places ih =>
    obtain ⟨e, hi⟩ : ∃ e, entries[i]? = some e := ⟨_, List.getElem?_eq_getElem (h i List.mem_cons_self)⟩
    rw [List.filterMap_cons_some hi]
    cases n with
    | zero => exact hi.symm
    | succ n => exact ih (fun j hj => h j (List.mem_cons_of_mem i hj)) n

variable (spec : Specification)

theorem ordered_dependency_fst :
    (ordered .dependency spec).1 = (Schedule.ofEntries spec.byLine).places.filterMap (spec.byLine[·]?) := by
  unfold ordered places
  rw [List.filterMap_append]

theorem getElem?_ordered_dependency {n : Nat} {e : Entry} :
    (ordered .dependency spec).1[n]? = some e ↔
    ∃ i, (Schedule.ofEntries spec.byLine).places[n]? = some i ∧ spec.byLine[i]? = some e := by
  have hplaces : ∀ i ∈ (Schedule.ofEntries spec.byLine).places, i < spec.byLine.length :=
    fun i hi => (mem_places (p := .ofEntries spec.byLine)).mp hi
  rw [ordered_dependency_fst, getElem?_filterMap_places hplaces]
  exact Option.bind_eq_some_iff

theorem filterMap_getElem?_range {entries : List Entry} :
    (List.range entries.length).filterMap (entries[·]?) = entries := by
  refine List.ext_getElem? fun n => ?_
  rw [getElem?_filterMap_places fun i hi => List.mem_range.mp hi]
  by_cases hn : n < entries.length
  · rw [List.getElem?_range hn]
    rfl
  · have hnone : entries[n]? = none := List.getElem?_eq_none (Nat.le_of_not_lt hn)
    rw [hnone, List.getElem?_eq_none (by simpa using hn)]
    rfl

theorem ordered_perm (order : EvaluationOrder) : (ordered order spec).1.Perm spec.byCategory := by
  cases order with
  | category => exact List.Perm.refl _
  | dependency =>
    rw [ordered_dependency_fst]
    have hplaces := (places_perm (.ofEntries spec.byLine)).filterMap (spec.byLine[·]?)
    have hall : (List.range (Precedence.ofEntries spec.byLine).count).filterMap (spec.byLine[·]?) = spec.byLine :=
      filterMap_getElem?_range
    rw [hall] at hplaces
    exact hplaces.trans (List.mergeSort_perm _ _)

/-- A cycle is reported just when places are left over. -/
theorem cycle_reported_iff :
    (∃ ids, cycleReport ids ∈ (ordered .dependency spec).2) ↔ (Schedule.ofEntries spec.byLine).cyclic ≠ [] := by
  have hsome : ∀ i ∈ (Schedule.ofEntries spec.byLine).cyclic, i < spec.byLine.length := by
    intro i hi
    exact List.mem_range.mp ((ofPrecedence_sorts (.ofEntries spec.byLine)).declared.subset hi)
  unfold ordered
  dsimp only
  cases hcyclic : (Schedule.ofEntries spec.byLine).cyclic with
  | nil => simp
  | cons i rest =>
    obtain ⟨e, hi⟩ : ∃ e, spec.byLine[i]? = some e :=
      ⟨_, List.getElem?_eq_getElem (hsome i (hcyclic ▸ List.mem_cons_self))⟩
    simp [List.filterMap_cons_some hi]

theorem producer?_of_producerCategory? {id : String} (h : (spec.producerCategory? id).isSome = true) :
    ∃ i, producer? spec.byLine id = some i := by
  unfold Specification.producerCategory? at h
  rw [Option.isSome_map, List.find?_isSome] at h
  obtain ⟨e, he, hmakes⟩ := h
  have hbyLine : e ∈ spec.byLine := (List.mergeSort_perm _ _).mem_iff.mpr he
  exact Option.isSome_iff_exists.mp (List.findIdx?_isSome.trans (List.any_eq_true.mpr ⟨e, hbyLine, hmakes⟩))

variable {spec} (config : Config) (backend : BooleanBackend Float)

theorem attempted_of_producersFirst (horder : config.order = .dependency)
    (hfirst : ProducersFirst spec.byLine (Schedule.ofEntries spec.byLine).places)
    (hrefs : Acyclic (Refers spec.byLine)) {place : Nat} {e : Entry}
    (he : (ordered config.order spec).1[place]? = some e) {reference : String} (hsource : reference ∈ e.sources)
    (hproducer : (spec.producerCategory? reference).isSome = true) :
    reference ∈ (after spec config backend place).attempted := by
  rw [horder, getElem?_ordered_dependency] at he
  obtain ⟨j, hplace, hj⟩ := he
  obtain ⟨i, hi⟩ := producer?_of_producerCategory? spec hproducer
  have hrefers : Refers spec.byLine i j := ⟨e, hj, reference, hsource, hi⟩
  obtain ⟨maker, hmaker, hgen, hid⟩ := producer?_eq_some hi
  have hmem : i ∈ (Schedule.ofEntries spec.byLine).places :=
    (mem_places (p := .ofEntries spec.byLine)).mpr (lt_length_of_precedes (Or.inl hrefers)).1
  obtain ⟨earlier, hearlier⟩ := List.mem_iff_getElem?.mp hmem
  -- At a later place the maker would break the order, and at this one the entry would need its own solid.
  have hlt : earlier < place := by
    by_contra hle
    obtain ⟨hb, rfl⟩ := List.getElem?_eq_some_iff.mp hearlier
    obtain ⟨ha, rfl⟩ := List.getElem?_eq_some_iff.mp hplace
    rcases Nat.lt_or_eq_of_le (Nat.le_of_not_lt hle) with hafter | rfl
    · exact List.pairwise_iff_getElem.mp hfirst place earlier ha hb hafter hrefers
    · exact hrefs _ (Relation.TransGen.single hrefers)
  rw [mem_after_attempted]
  refine ⟨earlier, hlt, maker, ?_, hgen, hid⟩
  rw [horder, getElem?_ordered_dependency]
  exact ⟨i, hearlier, hmaker⟩

/-! ## Cycles and forward references -/

/-- Suppose that no entry needs its own solid, directly or through others. No cycle is reported, and every
maker comes before its readers, exactly when the entries stay acyclic once the readers of one solid are
lined up as they are declared. Then no name comes too early. -/
theorem acyclic_iff_producers_first (horder : config.order = .dependency) (hrefs : Acyclic (Refers spec.byLine)) :
    ((Schedule.ofEntries spec.byLine).cyclic = [] ↔ Acyclic (Precedes spec.byLine)) ∧
    ((∀ d ∈ (spec.evaluate config backend).diagnostics, ∀ ids, d.finding ≠ .dependencyCycle ids) ↔
      Acyclic (Precedes spec.byLine)) ∧
    (ProducersFirst spec.byLine (Schedule.ofEntries spec.byLine).places ↔ Acyclic (Precedes spec.byLine)) ∧
    (Acyclic (Precedes spec.byLine) → ∀ d ∈ (spec.evaluate config backend).diagnostics, ∀ reference,
      d.finding ≠ .missingReference reference true) := by
  have hcyclic := cyclic_eq_nil_iff hrefs
  have hfirst := producersFirst_iff hrefs
  refine ⟨hcyclic, ?_, hfirst.trans hcyclic, ?_⟩
  · rw [← hcyclic]
    constructor
    · intro hnone
      by_contra hne
      obtain ⟨ids, hids⟩ := (cycle_reported_iff spec).mpr hne
      rw [← horder] at hids
      exact hnone _ ((mem_evaluate_cycle spec config backend rfl).mpr hids) ids rfl
    · intro hnil d hd ids hfinding
      have hordered := (mem_evaluate_cycle spec config backend hfinding).mp hd
      obtain ⟨others, rfl⟩ := mem_ordered_diagnostics spec hordered
      rw [horder] at hordered
      exact (cycle_reported_iff spec).mp ⟨others, hordered⟩ hnil
  · intro hacyclic d hd reference hmissing
    obtain ⟨place, e, he, hlacks, rfl⟩ := mem_evaluate_missing spec config backend hd hmissing
    -- The report says that the name was not tried, although its maker came first.
    have hforward := (Finding.missingReference.inj hmissing).2
    rw [Bool.and_eq_true, Bool.and_eq_true, Bool.not_eq_true'] at hforward
    obtain ⟨⟨-, huntried⟩, hproducer⟩ := hforward
    have htried := attempted_of_producersFirst config backend horder (hfirst.mpr (hcyclic.mpr hacyclic)) hrefs he
      hlacks.1 hproducer
    rw [List.contains_iff_mem.mpr htried] at huntried
    cases huntried

/-- Two unions of one box, of which the outer one needs the inner one as well. -/
def nestedUnions (outerLine innerLine : Nat) : Specification :=
  .ofEntries
    [⟨"outer", outerLine, .boolean .union "a" "inner"⟩, ⟨"inner", innerLine, .boolean .union "a" "b"⟩,
      ⟨"a", 3, .primitive (.box ⟨1, 1, 1⟩ ⟨0, 0, 0⟩)⟩, ⟨"b", 4, .primitive (.box ⟨1, 1, 1⟩ ⟨1, 0, 0⟩)⟩]

theorem nestedUnions_inner_first :
    (∀ d ∈ ((nestedUnions 2 1).evaluate { order := .dependency } Solid.combine).diagnostics,
      (∀ ids, d.finding ≠ .dependencyCycle ids) ∧ ∀ reference, d.finding ≠ .missingReference reference true) ∧
    ProducersFirst (nestedUnions 2 1).byLine (Schedule.ofEntries (nestedUnions 2 1).byLine).places := by
  have hrefs : Acyclic (Refers (nestedUnions 2 1).byLine) :=
    acyclic_refers_of_ranked (fun i => if i < 2 then i + 1 else 0) (by cbv)
  obtain ⟨hcyclic, hreports, hfirst, hforward⟩ :=
    acyclic_iff_producers_first { order := .dependency } Solid.combine rfl hrefs
  have hacyclic := hcyclic.mp (by cbv)
  exact ⟨fun d hd => ⟨hreports.mpr hacyclic d hd, hforward hacyclic d hd⟩, hfirst.mpr hacyclic⟩

/-- The outer union declared first waits for the inner one, which waits for its turn with their box. -/
theorem nestedUnions_outer_first :
    ((nestedUnions 1 2).byLine.map Entry.id).Nodup ∧ Acyclic (Refers (nestedUnions 1 2).byLine) ∧
    (Schedule.ofEntries (nestedUnions 1 2).byLine).cyclic = [0, 1] ∧
    ¬ ProducersFirst (nestedUnions 1 2).byLine (Schedule.ofEntries (nestedUnions 1 2).byLine).places := by
  have hrefs : Acyclic (Refers (nestedUnions 1 2).byLine) :=
    acyclic_refers_of_ranked (fun i => if i < 2 then 2 - i else 0) (by cbv)
  have hcyclic : (Schedule.ofEntries (nestedUnions 1 2).byLine).cyclic = [0, 1] := by cbv
  refine ⟨by decide_cbv, hrefs, hcyclic, ?_⟩
  rw [producersFirst_iff hrefs, hcyclic]
  exact List.cons_ne_nil 0 [1]

end SolidScript.Evaluation
