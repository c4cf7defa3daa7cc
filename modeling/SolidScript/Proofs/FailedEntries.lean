import SolidScript.Proofs.MissingNames

/-!
# What an entry that fails leaves behind

Category by category, an entry that fails can be left out. The graph stays as it is, and so does what is reported
on the others, but for their missing names: with the entry, its name counts as made at its place.
-/

namespace SolidScript

/-! ## Specifications without an entry -/

namespace Specification

theorem flatMap_filter_category {entries : List Entry} {inCategory : Category → List Entry}
    (hcategory : ∀ c, ∀ e ∈ inCategory c, e.category = c) {cs : List Category} (hcs : cs.Nodup)
    (hsub : entries.Sublist (cs.flatMap inCategory)) :
    cs.flatMap (fun c => entries.filter fun e => e.category == c) = entries := by
  induction cs generalizing entries with
  | nil => exact (List.sublist_nil.mp hsub).symm
  | cons c cs ih =>
    rw [List.flatMap_cons] at hsub ⊢
    obtain ⟨first, rest, rfl, hfirst, hrest⟩ := List.sublist_append_iff.mp hsub
    obtain ⟨hnew, hcs⟩ := List.nodup_cons.mp hcs
    have hfirst_category : ∀ e ∈ first, e.category = c := fun e he => hcategory c e (hfirst.subset he)
    have hrest_category : ∀ e ∈ rest, e.category ∈ cs := by
      intro e he
      obtain ⟨d, hd, he⟩ := List.mem_flatMap.mp (hrest.subset he)
      rw [hcategory d e he]
      exact hd
    -- The first category has no entry further on, and the others have none in front.
    have hhead : (first ++ rest).filter (fun e => e.category == c) = first := by
      have hall : first.filter (fun e => e.category == c) = first :=
        List.filter_eq_self.mpr fun e he => by rw [hfirst_category e he, beq_self_eq_true]
      have hnone : rest.filter (fun e => e.category == c) = [] := by
        refine List.filter_eq_nil_iff.mpr fun e he hc => hnew ?_
        rw [← beq_iff_eq.mp hc]
        exact hrest_category e he
      rw [List.filter_append, hall, hnone, List.append_nil]
    have htail : ∀ d ∈ cs, (first ++ rest).filter (fun e => e.category == d) = rest.filter fun e => e.category == d := by
      intro d hd
      have hnone : first.filter (fun e => e.category == d) = [] := by
        refine List.filter_eq_nil_iff.mpr fun e he hc => hnew ?_
        rw [← hfirst_category e he, beq_iff_eq.mp hc]
        exact hd
      rw [List.filter_append, hnone, List.nil_append]
    rw [hhead, List.flatMap_congr htail, ih hcs hrest]

def without (s : Specification) (place : Nat) : Specification := .ofEntries (s.byCategory.eraseIdx place)

theorem byCategory_without (s : Specification) (place : Nat) :
    (s.without place).byCategory = s.byCategory.eraseIdx place :=
  flatMap_filter_category s.category_eq (by decide) (List.eraseIdx_sublist _ _)

end Specification

namespace Evaluation

open Specification (byCategory_without)

/-! ## Making solids with an entry taken out -/

section MakesAt

variable {entries : List Entry} {id : String} {place i : Nat}

theorem makesAt_eraseIdx_of_lt (h : i < place) : MakesAt (entries.eraseIdx place) id i ↔ MakesAt entries id i := by
  unfold MakesAt
  rw [List.getElem?_eraseIdx_of_lt h]

theorem makesAt_eraseIdx_of_ge (h : place ≤ i) :
    MakesAt (entries.eraseIdx place) id i ↔ MakesAt entries id (i + 1) := by
  unfold MakesAt
  rw [List.getElem?_eraseIdx_of_ge h]

theorem exists_makesAt_eraseIdx (hi : i ≤ place) :
    (∃ j ≥ i, MakesAt (entries.eraseIdx place) id j) ↔ ∃ j ≥ i, j ≠ place ∧ MakesAt entries id j := by
  constructor
  · rintro ⟨j, hij, hj⟩
    rcases Nat.lt_or_ge j place with hlt | hge
    · exact ⟨j, hij, Nat.ne_of_lt hlt, (makesAt_eraseIdx_of_lt hlt).mp hj⟩
    · exact ⟨j + 1, by omega, by omega, (makesAt_eraseIdx_of_ge hge).mp hj⟩
  · rintro ⟨j, hij, hne, hj⟩
    rcases Nat.lt_or_gt_of_ne hne with hlt | hgt
    · exact ⟨j, hij, (makesAt_eraseIdx_of_lt hlt).mpr hj⟩
    · obtain ⟨k, rfl⟩ : ∃ k, j = k + 1 := ⟨j - 1, by omega⟩
      exact ⟨k, by omega, (makesAt_eraseIdx_of_ge (by omega)).mpr hj⟩

theorem madeLater_eraseIdx_of_lt (h : i < place) :
    MadeLater (entries.eraseIdx place) id i ↔
      (∀ j < i, ¬ MakesAt entries id j) ∧ ∃ j ≥ i, j ≠ place ∧ MakesAt entries id j := by
  unfold MadeLater
  rw [exists_makesAt_eraseIdx h.le]
  exact and_congr_left fun _ => forall₂_congr fun j hj => not_congr (makesAt_eraseIdx_of_lt (by omega))

theorem madeLater_eraseIdx_of_ge (h : place ≤ i) :
    MadeLater (entries.eraseIdx place) id i ↔
      (∀ j ≤ i, j ≠ place → ¬ MakesAt entries id j) ∧ ∃ j > i, MakesAt entries id j := by
  unfold MadeLater
  constructor
  · rintro ⟨hnot, j, hij, hj⟩
    refine ⟨fun k hk hne => ?_, j + 1, by omega, (makesAt_eraseIdx_of_ge (by omega)).mp hj⟩
    rcases Nat.lt_or_gt_of_ne hne with hlt | hgt
    · exact mt (makesAt_eraseIdx_of_lt hlt).mpr (hnot k (by omega))
    · obtain ⟨l, rfl⟩ : ∃ l, k = l + 1 := ⟨k - 1, by omega⟩
      exact mt (makesAt_eraseIdx_of_ge (by omega)).mpr (hnot l (by omega))
  · rintro ⟨hnot, j, hij, hj⟩
    obtain ⟨l, rfl⟩ : ∃ l, j = l + 1 := ⟨j - 1, by omega⟩
    refine ⟨fun k hk => ?_, l, by omega, (makesAt_eraseIdx_of_ge (by omega)).mpr hj⟩
    rcases Nat.lt_or_ge k place with hlt | hge
    · exact mt (makesAt_eraseIdx_of_lt hlt).mp (hnot k (by omega) (by omega))
    · exact mt (makesAt_eraseIdx_of_ge hge).mp (hnot (k + 1) (by omega) (by omega))

theorem makesAt_iff_of_some {e : Entry} (he : entries[place]? = some e) :
    MakesAt entries id place ↔ e.isGenerative = true ∧ e.id = id := by
  unfold MakesAt
  rw [he]
  simp

end MakesAt

/-! ## What two runs know alike -/

structure Alike (p q : Progress) : Prop where
  graph : p.graph = q.graph
  treated : p.treated = q.treated

section Step

variable (config : Config) (backend : BooleanBackend Float) {spec spec' : Specification} {p q : Progress}

theorem step_treated (e : Entry) :
    (step config backend spec p e).treated =
      match Plan.ofEntry config backend p.graph e with
      | .ok plan => (notesOf p e plan).2
      | .error _ => p.treated := by
  unfold step
  cases e.isGenerative <;>
    cases Plan.ofEntry config backend p.graph e with
    | ok plan => rfl
    | error refusal => cases refusal <;> rfl

theorem Alike.notesOf_eq (h : Alike p q) (e : Entry) (plan : Plan) : notesOf p e plan = notesOf q e plan := by
  unfold notesOf
  rw [h.treated]

theorem Alike.step (h : Alike p q) (e : Entry) :
    Alike (step config backend spec p e) (step config backend spec' q e) where
  graph := by rw [step_graph, step_graph, h.graph]
  treated := by
    rw [step_treated, step_treated, h.graph, h.treated]
    simp only [h.notesOf_eq]

theorem alike_step_of_error {e : Entry} {refusal : Refusal}
    (h : Plan.ofEntry config backend p.graph e = .error refusal) : Alike (Evaluation.step config backend spec p e) p where
  graph := by rw [step_graph, h]; rfl
  treated := by rw [step_treated, h]

theorem Alike.reportsOf_eq (h : Alike p q) (e : Entry) {planned : Except Refusal Plan}
    (hplanned : ∀ reference, planned ≠ .error (.missing reference)) :
    reportsOf spec p e planned = reportsOf spec' q e planned := by
  cases planned with
  | ok plan => simp only [reportsOf, h.notesOf_eq]
  | error refusal =>
    cases refusal with
    | failed error => rfl
    | missing reference => exact absurd rfl (hplanned reference)

end Step

variable {config : Config} (backend : BooleanBackend Float) {spec : Specification} {place : Nat}

theorem ordered_category (horder : config.order = .category) (s : Specification) :
    ordered config.order s = (s.byCategory, []) := by
  rw [horder]
  rfl

theorem alike_above (spec : Specification) (horder : config.order = .category) {count : Nat} (hcount : count ≤ place) :
    Alike (after spec config backend count) (after (spec.without place) config backend count) := by
  induction count with
  | zero => exact ⟨rfl, rfl⟩
  | succ count ih =>
    have hsame : (ordered config.order (spec.without place)).1[count]? = (ordered config.order spec).1[count]? := by
      rw [ordered_category horder, ordered_category horder, byCategory_without]
      exact List.getElem?_eraseIdx_of_lt hcount
    cases he : (ordered config.order spec).1[count]? with
    | none =>
      rw [after_succ_of_none _ _ _ he, after_succ_of_none _ _ _ (hsame.trans he)]
      exact ih (by omega)
    | some e =>
      rw [after_succ _ _ _ he, after_succ _ _ _ (hsame.trans he)]
      exact (ih (by omega)).step config backend e

variable {e : Entry} {refusal : Refusal}

theorem alike_below (horder : config.order = .category) (he : spec.byCategory[place]? = some e)
    (hfails : Plan.ofEntry config backend (after spec config backend place).graph e = .error refusal)
    {count : Nat} (hcount : place ≤ count) :
    Alike (after spec config backend (count + 1)) (after (spec.without place) config backend count) := by
  induction count, hcount using Nat.le_induction with
  | base =>
    have halike := alike_above backend spec horder (Nat.le_refl place)
    have he' : (ordered config.order spec).1[place]? = some e := by rw [ordered_category horder]; exact he
    have hkept : Alike (step config backend spec _ e) _ := alike_step_of_error config backend hfails
    rw [after_succ _ _ _ he']
    exact ⟨hkept.graph.trans halike.graph, hkept.treated.trans halike.treated⟩
  | succ count hcount ih =>
    -- Without the entry, each one below it stands one place earlier.
    have hsame : (ordered config.order (spec.without place)).1[count]? =
        (ordered config.order spec).1[count + 1]? := by
      rw [ordered_category horder, ordered_category horder, byCategory_without]
      exact List.getElem?_eraseIdx_of_ge hcount
    cases hnext : (ordered config.order spec).1[count + 1]? with
    | none =>
      rw [after_succ_of_none _ _ _ hnext, after_succ_of_none _ _ _ (hsame.trans hnext)]
      exact ih
    | some x =>
      rw [after_succ _ _ _ hnext, after_succ _ _ _ (hsame.trans hnext)]
      exact ih.step config backend x

/-! ## What two runs report -/

theorem reportsAt_of_alike {spec' : Specification} {i i' : Nat} {x : Entry}
    (hx : (ordered config.order spec).1[i]? = some x) (hx' : (ordered config.order spec').1[i']? = some x)
    (halike : Alike (after spec config backend i) (after spec' config backend i')) :
    reportsAt config backend spec' i' = reportsAt config backend spec i ∨
    ∃ reference forward,
      reportsAt config backend spec i = [unknownReport x reference forward] ∧
      reportsAt config backend spec' i' = [unknownReport x reference (!forward)] ∧
      (forward = true ↔ MadeLater (ordered config.order spec).1 reference i) ∧
      (forward = false ↔ MadeLater (ordered config.order spec').1 reference i') := by
  by_cases hmissing : ∃ reference,
      Plan.ofEntry config backend (after spec config backend i).graph x = .error (.missing reference)
  · obtain ⟨reference, hplan⟩ := hmissing
    obtain ⟨forward, hreports, hforward⟩ := reportsAt_of_missing config backend spec hx hplan
    rw [halike.graph] at hplan
    obtain ⟨forward', hreports', hforward'⟩ := reportsAt_of_missing config backend spec' hx' hplan
    by_cases hsame : forward' = forward
    · left
      rw [hreports, hreports', hsame]
    · right
      obtain rfl : forward' = !forward := Bool.eq_not.mpr hsame
      exact ⟨reference, forward, hreports, hreports', hforward, Bool.not_eq_true' forward ▸ hforward'⟩
  · left
    rw [reportsAt_of_some config backend spec hx, reportsAt_of_some config backend spec' hx', ← halike.graph]
    exact (halike.reportsOf_eq x fun reference h => hmissing ⟨reference, h⟩).symm

/-- With its only maker gone, a name is unknown to the entries above. -/
theorem reportsAt_above (horder : config.order = .category) (he : spec.byCategory[place]? = some e) {i : Nat}
    (hi : i < place) :
    reportsAt config backend (spec.without place) i = reportsAt config backend spec i ∨
    e.isGenerative = true ∧ (∀ j, MakesAt spec.byCategory e.id j → j = place) ∧
    ∃ x, spec.byCategory[i]? = some x ∧
      reportsAt config backend spec i = [unknownReport x e.id true] ∧
      reportsAt config backend (spec.without place) i = [unknownReport x e.id false] := by
  obtain ⟨x, hx⟩ : ∃ x, spec.byCategory[i]? = some x :=
    ⟨_, List.getElem?_eq_getElem (hi.trans (List.getElem?_eq_some_iff.mp he).1)⟩
  have hx' : (spec.without place).byCategory[i]? = some x := by
    rw [byCategory_without, List.getElem?_eraseIdx_of_lt hi, hx]
  have hcompare := reportsAt_of_alike backend
    (by rw [ordered_category horder]; exact hx) (by rw [ordered_category horder]; exact hx')
    (alike_above backend spec horder hi.le)
  rcases hcompare with hsame | ⟨reference, forward, hreports, hreports', hforward, hforward'⟩
  · exact Or.inl hsame
  rw [ordered_category horder] at hforward hforward'
  rw [byCategory_without, madeLater_eraseIdx_of_lt hi] at hforward'
  cases forward with
  | true =>
    -- Something makes the name further on, but nothing does once the entry is gone.
    obtain ⟨hnot, j, hij, hj⟩ := hforward.mp rfl
    have honly : ∀ k, MakesAt spec.byCategory reference k → k = place := by
      intro k hk
      by_contra hne
      have hik : i ≤ k := not_lt.mp fun hlt => hnot k hlt hk
      exact absurd (hforward'.mpr ⟨hnot, k, hik, hne, hk⟩) (by decide)
    rw [honly j hj] at hj
    obtain ⟨hgen, rfl⟩ := (makesAt_iff_of_some he).mp hj
    exact Or.inr ⟨hgen, honly, x, hx, hreports, hreports'⟩
  | false =>
    obtain ⟨hnot, j, hij, -, hj⟩ := hforward'.mp rfl
    exact absurd (hforward.mpr ⟨hnot, j, hij, hj⟩) (by decide)

/-- A name that was tried in vain comes too early for the entries below, as long as it is made again later. -/
theorem reportsAt_below (horder : config.order = .category) (he : spec.byCategory[place]? = some e)
    (hfails : Plan.ofEntry config backend (after spec config backend place).graph e = .error refusal) {i : Nat}
    (hi : place ≤ i) :
    reportsAt config backend (spec.without place) i = reportsAt config backend spec (i + 1) ∨
    e.isGenerative = true ∧ (∀ j ≤ i, MakesAt spec.byCategory e.id j → j = place) ∧
    (∃ j > i, MakesAt spec.byCategory e.id j) ∧
    ∃ x, spec.byCategory[i + 1]? = some x ∧
      reportsAt config backend spec (i + 1) = [unknownReport x e.id false] ∧
      reportsAt config backend (spec.without place) i = [unknownReport x e.id true] := by
  have hplaces : (spec.without place).byCategory[i]? = spec.byCategory[i + 1]? := by
    rw [byCategory_without, List.getElem?_eraseIdx_of_ge hi]
  cases hx : spec.byCategory[i + 1]? with
  | none =>
    left
    simp only [reportsAt, ordered_category horder, hplaces, hx]
  | some x =>
  have hcompare := reportsAt_of_alike backend
    (by rw [ordered_category horder]; exact hx) (by rw [ordered_category horder]; exact hplaces.trans hx)
    (alike_below backend horder he hfails hi)
  rcases hcompare with hsame | ⟨reference, forward, hreports, hreports', hforward, hforward'⟩
  · exact Or.inl hsame
  rw [ordered_category horder] at hforward hforward'
  rw [byCategory_without, madeLater_eraseIdx_of_ge hi] at hforward'
  cases forward with
  | true =>
    obtain ⟨hnot, j, hij, hj⟩ := hforward.mp rfl
    exact absurd (hforward'.mpr ⟨fun k hk _ => hnot k (by omega), j, hij, hj⟩) (by decide)
  | false =>
    -- The name has been tried, and only by the entry that is gone.
    obtain ⟨hnot, hlater⟩ := hforward'.mp rfl
    have honly : ∀ j ≤ i, MakesAt spec.byCategory reference j → j = place := fun j hj hmakes =>
      by_contra fun hne => hnot j hj hne hmakes
    have hhere : MakesAt spec.byCategory reference place := by
      by_contra hne
      have hnone : ∀ j < i + 1, ¬ MakesAt spec.byCategory reference j := fun j hj hmakes =>
        hne (honly j (by omega) hmakes ▸ hmakes)
      exact absurd (hforward.mpr ⟨hnone, hlater⟩) (by decide)
    obtain ⟨hgen, rfl⟩ := (makesAt_iff_of_some he).mp hhere
    exact Or.inr ⟨hgen, honly, hlater, x, rfl, hreports, hreports'⟩

theorem range_split {n : Nat} (h : place ≤ n) :
    List.range n = List.range place ++ List.range' place (n - place) := by
  have happend : List.range' 0 place ++ List.range' (0 + place) (n - place) = List.range' 0 (place + (n - place)) :=
    List.range'_append_1
  rw [Nat.zero_add, Nat.add_sub_cancel' h] at happend
  rw [List.range_eq_range', List.range_eq_range', happend]

theorem flatMap_range_split {β : Type} (f : Nat → List β) {n : Nat} (h : place < n) :
    (List.range n).flatMap f =
      (List.range place).flatMap f ++ (f place ++ (List.range' place (n - 1 - place)).flatMap fun i => f (i + 1)) := by
  have hbelow : List.range' place (n - place) = place :: (List.range' place (n - 1 - place)).map (· + 1) := by
    rw [show n - place = (n - 1 - place) + 1 by omega, List.range'_succ, List.range'_succ_left]
  rw [range_split h.le, hbelow, List.flatMap_append, List.flatMap_cons, List.flatMap_map]

def Failure : Finding → Prop
  | .missingReference .. | .unsupportedTarget | .operatorFailure => True
  | _ => False

theorem reportsAt_of_error (he : (ordered config.order spec).1[place]? = some e)
    (hfails : Plan.ofEntry config backend (after spec config backend place).graph e = .error refusal) :
    ∃ own, own.entry = some e.id ∧ Failure own.finding ∧ reportsAt config backend spec place = [own] := by
  rw [reportsAt_of_some config backend spec he, hfails]
  cases refusal with
  | missing reference => exact ⟨missingReport spec _ e reference, rfl, trivial, rfl⟩
  | failed error =>
    refine ⟨failureReport e error, ?_, ?_, rfl⟩
    · unfold failureReport
      split <;> rfl
    · rcases failureReport_finding e error with h | h <;> rw [h] <;> trivial

/-- The entry at a place fails. Without it the graph is the same and its own report is gone. The other entries are
reported on as before, in the same order, with one exception: an entry that misses the name of the failed one. Above
the place it is told that the name is unknown, where nothing else makes it. Below the place it is told that the name
comes too early, where nothing else has tried to make it yet. -/
theorem failed_entry_can_be_left_out (horder : config.order = .category) (he : spec.byCategory[place]? = some e)
    (hfails : Plan.ofEntry config backend (after spec config backend place).graph e = .error refusal) :
    let entries := spec.byCategory
    let rest := spec.without place
    let reports := reportsAt config backend spec
    let reports' := reportsAt config backend rest
    let above := List.range place
    let below := List.range' place (entries.length - 1 - place)
    rest.byCategory = entries.eraseIdx place ∧
    (rest.evaluate config backend).graph = (spec.evaluate config backend).graph ∧
    (∃ own, own.entry = some e.id ∧ Failure own.finding ∧
      (spec.evaluate config backend).diagnostics =
        above.flatMap reports ++ own :: below.flatMap fun i => reports (i + 1)) ∧
    (rest.evaluate config backend).diagnostics = above.flatMap reports' ++ below.flatMap reports' ∧
    (∀ i < place, reports' i = reports i ∨
      e.isGenerative = true ∧ (∀ j, MakesAt entries e.id j → j = place) ∧
      ∃ x, entries[i]? = some x ∧
        reports i = [unknownReport x e.id true] ∧ reports' i = [unknownReport x e.id false]) ∧
    (∀ i ≥ place, reports' i = reports (i + 1) ∨
      e.isGenerative = true ∧ (∀ j ≤ i, MakesAt entries e.id j → j = place) ∧ (∃ j > i, MakesAt entries e.id j) ∧
      ∃ x, entries[i + 1]? = some x ∧
        reports (i + 1) = [unknownReport x e.id false] ∧ reports' i = [unknownReport x e.id true]) := by
  intro entries rest reports reports' above below
  have hlt : place < entries.length := (List.getElem?_eq_some_iff.mp he).1
  have hlength : rest.byCategory.length = entries.length - 1 := by
    rw [byCategory_without, List.length_eraseIdx_of_lt hlt]
  refine ⟨byCategory_without spec place, ?_, ?_, ?_, fun i => reportsAt_above backend horder he,
    fun i => reportsAt_below backend horder he hfails⟩
  · have halike := alike_below backend horder he hfails (show place ≤ entries.length - 1 by omega)
    rw [evaluate_eq, evaluate_eq, ordered_category horder, ordered_category horder, hlength]
    rw [show entries.length - 1 + 1 = entries.length by omega] at halike
    exact halike.graph.symm
  · obtain ⟨own, hid, hfinding, hown⟩ :=
      reportsAt_of_error backend (by rw [ordered_category horder]; exact he) hfails
    refine ⟨own, hid, hfinding, ?_⟩
    rw [evaluate_diagnostics, ordered_category horder, List.nil_append, flatMap_range_split _ hlt, hown]
    rfl
  · have hsplit : List.range (entries.length - 1) = above ++ below := range_split (by omega)
    rw [evaluate_diagnostics, ordered_category horder, List.nil_append, hlength, hsplit, List.flatMap_append]

/-- The union `x` is tried twice and fails, between a box and the move of it. -/
def nameTriedTwice : Specification :=
  .ofEntries
    [⟨"a", 1, .primitive (.box ⟨1, 1, 1⟩ ⟨0, 0, 0⟩)⟩, ⟨"x", 2, .boolean .union "none" "a"⟩,
      ⟨"y", 3, .boolean .union "x" "a"⟩, ⟨"x", 4, .boolean .union "none" "a"⟩, ⟨"z", 5, .translate "a" ⟨1, 0, 0⟩⟩]

theorem nameTriedTwice_fails :
    Plan.ofEntry {} Solid.combine (after nameTriedTwice {} Solid.combine 1).graph
      ⟨"x", 2, .boolean .union "none" "a"⟩ = .error (.missing "none") := by
  have hcontains : (after nameTriedTwice {} Solid.combine 1).graph.contains "none" = false := by decide +kernel
  have hnone := (ArtifactGraph.contains_eq_false_iff _ _).mp hcontains
  generalize (after nameTriedTwice {} Solid.combine 1).graph = g at hnone
  show (Plan.source g "none" >>= _) = _
  unfold Plan.source
  rw [hnone]
  rfl

theorem nameTriedTwice_without_first :
    let e : Entry := ⟨"x", 2, .boolean .union "none" "a"⟩
    nameTriedTwice.byCategory[1]? = some e ∧
    Plan.ofEntry {} Solid.combine (after nameTriedTwice {} Solid.combine 1).graph e = .error (.missing "none") ∧
    (nameTriedTwice.without 1).byCategory = nameTriedTwice.byCategory.eraseIdx 1 ∧
    ((nameTriedTwice.without 1).evaluate {} Solid.combine).graph =
      (nameTriedTwice.evaluate {} Solid.combine).graph ∧
    (nameTriedTwice.evaluate {} Solid.combine).graph.visible = ["a"] := by
  intro e
  have he : nameTriedTwice.byCategory[1]? = some e := by cbv
  have hvisible : (nameTriedTwice.evaluate {} Solid.combine).graph.visible = ["a"] := by decide +kernel
  obtain ⟨hrest, hgraph, -⟩ := failed_entry_can_be_left_out Solid.combine rfl he nameTriedTwice_fails
  exact ⟨he, nameTriedTwice_fails, hrest, hgraph, hvisible⟩

/-- The union `y` stands below the `x` that fails first. Without that one it is told that `x` comes too early. -/
theorem nameTriedTwice_reports :
    let x (line : Nat) : Entry := ⟨"x", line, .boolean .union "none" "a"⟩
    let y : Entry := ⟨"y", 3, .boolean .union "x" "a"⟩
    nameTriedTwice.byCategory.map Entry.id = ["a", "x", "y", "x", "z"] ∧
    (nameTriedTwice.without 1).byCategory.map Entry.id = ["a", "y", "x", "z"] ∧
    Plan.ofEntry {} Solid.combine (after nameTriedTwice {} Solid.combine 1).graph (x 2) = .error (.missing "none") ∧
    (nameTriedTwice.evaluate {} Solid.combine).diagnostics =
      [unknownReport (x 2) "none" false, unknownReport y "x" false, unknownReport (x 4) "none" false] ∧
    ((nameTriedTwice.without 1).evaluate {} Solid.combine).diagnostics =
      [unknownReport y "x" true, unknownReport (x 4) "none" false] := by
  exact ⟨by cbv, by cbv, nameTriedTwice_fails, by decide +kernel, by decide +kernel⟩

end Evaluation

end SolidScript
