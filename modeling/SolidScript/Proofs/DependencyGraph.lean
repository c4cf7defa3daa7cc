import SolidScript.Model.DependencyGraph
import SolidScript.Proofs.LeastFirst

/-!
# Counting down gives the schedule

Links stand once in both directions, so each count is the number of places that are still waited for.
-/

namespace SolidScript

namespace DependencyGraph

/-! ## Links -/

/-- Both directions hold the same links, each of them once. -/
structure Mirrors (g : DependencyGraph) (before : Nat → Nat → Prop) : Prop where
  mem_children : ∀ i j, j ∈ g.children i ↔ before i j
  mem_parents : ∀ i j, i ∈ g.parents j ↔ before i j
  nodup_children : ∀ i, (g.children i).Nodup
  nodup_parents : ∀ j, (g.parents j).Nodup

variable {g : DependencyGraph} {before : Nat → Nat → Prop}

theorem Mirrors.congr (h : g.Mirrors before) {after : Nat → Nat → Prop} (hiff : ∀ i j, before i j ↔ after i j) :
    g.Mirrors after where
  mem_children i j := (h.mem_children i j).trans (hiff i j)
  mem_parents i j := (h.mem_parents i j).trans (hiff i j)
  nodup_children := h.nodup_children
  nodup_parents := h.nodup_parents

theorem mirrors_unlinked (count : Nat) : (unlinked count).Mirrors fun _ _ => False where
  mem_children i j := by simp [unlinked]
  mem_parents i j := by simp [unlinked]
  nodup_children _ := List.nodup_nil
  nodup_parents _ := List.nodup_nil

theorem Mirrors.link (h : g.Mirrors before) (i j : Nat) :
    (g.link i j).Mirrors fun a b => before a b ∨ ((a, b) = (i, j) ∧ a ≠ b) := by
  unfold DependencyGraph.link
  split_ifs with hself hlinked
  -- A place is not linked to itself.
  · refine h.congr fun a b => ⟨Or.inl, ?_⟩
    rintro (hab | ⟨heq, hne⟩)
    · exact hab
    · cases heq; exact absurd hself hne
  -- The link is there already.
  · have hbefore : before i j := (h.mem_children i j).mp (List.contains_iff_mem.mp hlinked)
    refine h.congr fun a b => ⟨Or.inl, ?_⟩
    rintro (hab | ⟨heq, -⟩)
    · exact hab
    · cases heq; exact hbefore
  · have hnew : ¬ before i j := fun hij => hlinked (List.contains_iff_mem.mpr ((h.mem_children i j).mpr hij))
    refine ⟨fun a b => ?_, fun a b => ?_, fun a => ?_, fun b => ?_⟩
    · rw [← h.mem_children]
      grind
    · rw [← h.mem_parents]
      grind
    · have hfresh : j ∉ g.children i := fun hj => hnew ((h.mem_children i j).mp hj)
      have hnodup := h.nodup_children a
      grind
    · have hfresh : i ∉ g.parents j := fun hi => hnew ((h.mem_parents i j).mp hi)
      have hnodup := h.nodup_parents b
      grind

theorem Mirrors.linkAll (h : g.Mirrors before) (places : List Nat) :
    (g.linkAll places).Mirrors fun a b => before a b ∨ ((a, b) ∈ places.zip (places.drop 1) ∧ a ≠ b) := by
  induction places generalizing g before with
  | nil => exact h.congr (by simp)
  | cons i places ih =>
    cases places with
    | nil => exact h.congr (by simp)
    | cons j rest =>
      refine (ih (h.link i j)).congr fun a b => ?_
      have hzip : (i :: j :: rest).zip ((i :: j :: rest).drop 1) = (i, j) :: (j :: rest).zip ((j :: rest).drop 1) := rfl
      rw [hzip, List.mem_cons]
      tauto

theorem count_linkAll (g : DependencyGraph) (places : List Nat) : (g.linkAll places).count = g.count := by
  induction places generalizing g with
  | nil => rfl
  | cons i places ih =>
    cases places with
    | nil => rfl
    | cons j rest =>
      rw [DependencyGraph.linkAll, ih]
      unfold DependencyGraph.link
      split_ifs <;> rfl

variable (entries : List Entry) (names : List String)

theorem ofNames_mirrors :
    (ofNames entries names).Mirrors fun i j => (i, j) ∈ (Precedence.ofNames entries names).pairs := by
  have hfold : ∀ (names : List String) (g : DependencyGraph) (before : Nat → Nat → Prop), g.Mirrors before →
      (names.foldl (fun g id => g.linkAll (Precedence.chain entries id)) g).Mirrors
        fun i j => before i j ∨ ∃ id ∈ names, (i, j) ∈ Precedence.links entries id := by
    intro names
    induction names with
    | nil => exact fun g before h => h.congr (by simp)
    | cons id names ih =>
      intro g before h
      refine (ih _ _ (h.linkAll (Precedence.chain entries id))).congr fun i j => ?_
      rw [List.exists_mem_cons_iff, Precedence.mem_links, or_assoc]
  refine (hfold names _ _ (mirrors_unlinked entries.length)).congr fun i j => ?_
  rw [Precedence.mem_ofNames, false_or]

theorem count_ofNames : (ofNames entries names).count = entries.length := by
  have hfold : ∀ (names : List String) (g : DependencyGraph),
      (names.foldl (fun g id => g.linkAll (Precedence.chain entries id)) g).count = g.count := by
    intro names
    induction names with
    | nil => exact fun g => rfl
    | cons id names ih => exact fun g => (ih _).trans (count_linkAll g _)
  exact hfold names _

end DependencyGraph

namespace Countdown

variable {g : DependencyGraph} {before : Nat → Nat → Prop} {waiting : List Nat} {s : Countdown}

/-! ## Releasing places -/

/-- The places of a list wait for one place less each, and no other count has changed. -/
structure Released (s : Countdown) (places : List Nat) (s' : Countdown) : Prop where
  order : s'.order = s.order
  pending : ∀ k, s'.pending k = if k ∈ places then (s.pending k).map (· - 1) else s.pending k
  mem_ready : ∀ k, k ∈ s'.ready ↔ k ∈ s.ready ∨ (k ∈ places ∧ s.pending k = some 1)
  nodup_ready : s.ready.Nodup → s'.ready.Nodup

theorem exists_release (s : Countdown) {i : Nat} (hpos : s.pending i ≠ some 0) :
    ∃ s', s.release? i = some s' ∧ Released s [i] s' := by
  unfold release?
  cases hpending : s.pending i with
  | none => exact ⟨s, rfl, ⟨rfl, by grind, by grind, id⟩⟩
  | some n =>
    cases n with
    | zero => exact absurd hpending hpos
    | succ n =>
      refine ⟨_, rfl, ⟨rfl, by grind, ?_, ?_⟩⟩
      · intro k
        dsimp only
        split_ifs with hzero <;> grind
      · intro hnodup
        dsimp only
        split_ifs
        · exact hnodup.insert
        · exact hnodup

theorem Released.cons {s s₁ s₂ : Countdown} {i : Nat} {places : List Nat} (h₁ : Released s [i] s₁)
    (h₂ : Released s₁ places s₂) (hi : i ∉ places) : Released s (i :: places) s₂ where
  order := h₂.order.trans h₁.order
  pending k := by
    rw [h₂.pending, h₁.pending]
    grind
  mem_ready k := by
    rw [h₂.mem_ready, h₁.mem_ready, h₁.pending]
    grind
  nodup_ready h := h₂.nodup_ready (h₁.nodup_ready h)

theorem exists_releaseAll {places : List Nat} (hnodup : places.Nodup) (s : Countdown)
    (hpos : ∀ k ∈ places, s.pending k ≠ some 0) :
    ∃ s', places.foldlM release? s = some s' ∧ Released s places s' := by
  induction places generalizing s with
  | nil => exact ⟨s, rfl, ⟨rfl, by simp, by simp, id⟩⟩
  | cons i places ih =>
    obtain ⟨hi, hplaces⟩ := List.nodup_cons.mp hnodup
    obtain ⟨s₁, hrun₁, h₁⟩ := exists_release s (hpos i List.mem_cons_self)
    have hpos₁ : ∀ k ∈ places, s₁.pending k ≠ some 0 := by
      intro k hk
      have hne : k ∉ [i] := fun hki => hi (List.mem_singleton.mp hki ▸ hk)
      rw [h₁.pending, if_neg hne]
      exact hpos k (List.mem_cons_of_mem i hk)
    obtain ⟨s₂, hrun₂, h₂⟩ := ih hplaces s₁ hpos₁
    refine ⟨s₂, ?_, h₁.cons h₂ hi⟩
    rw [List.foldlM_cons, hrun₁]
    exact hrun₂

/-! ## Counts -/

/-- Each place that waits counts those of its parents that wait, and is ready when there are none. -/
structure Counts (g : DependencyGraph) (waiting : List Nat) (s : Countdown) : Prop where
  pending : ∀ i, s.pending i = if i ∈ waiting then some ((g.parents i).countP waiting.contains) else none
  mem_ready : ∀ i, i ∈ s.ready ↔ s.pending i = some 0
  nodup_ready : s.ready.Nodup

theorem countP_erase_waiting {parents : List Nat} (hnodup : parents.Nodup) (hwaiting : waiting.Nodup) {i : Nat}
    (hi : i ∈ waiting) :
    parents.countP (waiting.erase i).contains = parents.countP waiting.contains - if i ∈ parents then 1 else 0 := by
  have herase : parents.countP (waiting.erase i).contains = (parents.erase i).countP waiting.contains := by
    rw [hnodup.erase_eq_filter, List.countP_filter]
    refine List.countP_congr fun j _ => ?_
    simp [hwaiting.mem_erase_iff, and_comm]
  rw [herase, List.countP_erase]
  simp [hi]

theorem Counts.start (hparents : ∀ i, ∀ j ∈ g.parents i, j < g.count) :
    Counts g (List.range g.count) (Countdown.start g) where
  pending i := by
    have hall : (g.parents i).countP (List.range g.count).contains = (g.parents i).length :=
      List.countP_eq_length.mpr fun j hj => by simpa using hparents i j hj
    simp [Countdown.start, hall]
  mem_ready i := by simp [Countdown.start]
  nodup_ready := List.nodup_range.filter _

section Taking

variable (h : Counts g waiting s) (hwaiting : waiting.Nodup) (i : Nat)

include h hwaiting

theorem Counts.pending_take (k : Nat) : (s.take i).pending k =
    if k ∈ waiting.erase i then some ((g.parents k).countP waiting.contains) else none := by
  show (if k = i then none else s.pending k) = _
  rw [h.pending]
  simp only [hwaiting.mem_erase_iff]
  split_ifs <;> simp_all

theorem Counts.mem_ready_take (k : Nat) :
    k ∈ (s.take i).ready ↔ k ∈ waiting.erase i ∧ (g.parents k).countP waiting.contains = 0 := by
  show k ∈ s.ready.erase i ↔ _
  rw [h.nodup_ready.mem_erase_iff, h.mem_ready, h.pending, hwaiting.mem_erase_iff]
  split_ifs with hk <;> simp [hk]

end Taking

/-- Counts stay right when a place is taken, and none of them falls below zero. -/
theorem Counts.step (hmirrors : g.Mirrors before) (h : Counts g waiting s) (hwaiting : waiting.Nodup) {i : Nat}
    (hi : i ∈ waiting) :
    ∃ s', (g.children i).foldlM release? (s.take i) = some s' ∧ s'.order = s.order ++ [i] ∧
      Counts g (waiting.erase i) s' := by
  have hchild : ∀ k, k ∈ g.children i ↔ i ∈ g.parents k := fun k =>
    (hmirrors.mem_children i k).trans (hmirrors.mem_parents i k).symm
  have hcount := fun k => countP_erase_waiting (hmirrors.nodup_parents k) hwaiting hi
  -- A place behind the one that is taken waits for that one at least.
  have hcounted : ∀ k ∈ g.children i, 0 < (g.parents k).countP waiting.contains := fun k hk =>
    List.countP_pos_iff.mpr ⟨i, (hchild k).mp hk, List.contains_iff_mem.mpr hi⟩
  have hpos : ∀ k ∈ g.children i, (s.take i).pending k ≠ some 0 := by
    intro k hk hzero
    rw [h.pending_take hwaiting] at hzero
    split_ifs at hzero
    exact absurd (Option.some.inj hzero) (Nat.ne_of_gt (hcounted k hk))
  obtain ⟨s', hrun, hreleased⟩ := exists_releaseAll (hmirrors.nodup_children i) (s.take i) hpos
  have hpending : ∀ k, s'.pending k =
      if k ∈ waiting.erase i then some ((g.parents k).countP (waiting.erase i).contains) else none := by
    intro k
    rw [hreleased.pending, h.pending_take hwaiting, hcount]
    simp only [hchild]
    split_ifs <;> rfl
  refine ⟨s', hrun, hreleased.order, hpending, fun k => ?_, hreleased.nodup_ready (h.nodup_ready.erase i)⟩
  rw [hreleased.mem_ready, hpending, h.pending_take hwaiting, hcount, h.mem_ready_take hwaiting, hchild]
  by_cases hk : k ∈ waiting.erase i
  · by_cases hparent : i ∈ g.parents k
    · have := hcounted k ((hchild k).mpr hparent)
      simp only [hk, hparent, if_true, true_and, Option.some.injEq]
      omega
    · simp [hk, hparent]
  · simp [hk]

/-! ## The loop -/

theorem Counts.min?_ready (h : Counts g waiting s) (hascending : waiting.Pairwise (· < ·)) :
    s.ready.min? = waiting.find? fun i => !(g.parents i).any waiting.contains := by
  have hready : ∀ i, i ∈ s.ready ↔ i ∈ waiting ∧ ∀ j ∈ g.parents i, j ∉ waiting := by
    intro i
    rw [h.mem_ready, h.pending]
    by_cases hi : i ∈ waiting <;> simp [hi, List.countP_eq_zero]
  cases hfind : waiting.find? fun i => !(g.parents i).any waiting.contains with
  | none =>
    rw [List.min?_eq_none_iff, List.eq_nil_iff_forall_not_mem]
    intro i hi
    obtain ⟨hmem, hfree⟩ := (hready i).mp hi
    exact List.find?_eq_none.mp hfind i hmem (Schedule.not_any_contains.mpr hfree)
  | some i =>
    have hnext := Schedule.next_of_find? hascending hfind
    rw [List.min?_eq_some_iff]
    refine ⟨(hready i).mpr ⟨hnext.mem, hnext.free⟩, fun j hj => ?_⟩
    obtain ⟨hmem, hfree⟩ := (hready j).mp hj
    exact hnext.least j hmem hfree

theorem Counts.schedule_eq (h : Counts g waiting s) (hplaces : waiting.Sublist (List.range g.count)) :
    s.schedule g = ⟨s.order, waiting⟩ := by
  have hrange : (List.range g.count).Pairwise (· < ·) := List.pairwise_lt_range
  have hfilter : ((List.range g.count).filter fun i => (s.pending i).isSome) = waiting := by
    have hmem : ∀ i, i ∈ (List.range g.count).filter (fun i => (s.pending i).isSome) ↔ i ∈ waiting := by
      intro i
      rw [List.mem_filter, h.pending]
      constructor
      · rintro ⟨-, hsome⟩
        by_contra hi
        simp [hi] at hsome
      · intro hi
        exact ⟨hplaces.subset hi, by simp [hi]⟩
    have hnodup : waiting.Nodup := hplaces.nodup List.nodup_range
    -- Both lists ascend, so that they are equal once they have the same members.
    refine ((List.perm_ext_iff_of_nodup (List.nodup_range.filter _) hnodup).mpr hmem).eq_of_pairwise
      (fun a b _ _ hab hba => ?_) (hrange.filter _) (hrange.sublist hplaces)
    omega
  unfold schedule
  rw [hfilter]

theorem run?_of_none (h : s.ready.min? = none) (fuel : Nat) : run? g fuel s = some (s.schedule g) := by
  unfold run?
  rw [h]

theorem run?_of_some {i : Nat} (h : s.ready.min? = some i) (fuel : Nat) :
    run? g (fuel + 1) s = ((g.children i).foldlM release? (s.take i)).bind (run? g fuel) := by
  rw [run?.eq_def, h]
  rfl

theorem run?_eq (hmirrors : g.Mirrors before) {fuel : Nat} {done : List Nat} (h : Counts g waiting s)
    (hplaces : waiting.Sublist (List.range g.count)) (horder : s.order = done.reverse)
    (hfuel : waiting.length ≤ fuel) :
    run? g fuel s = some (Schedule.sortFrom g.parents fuel waiting done) := by
  induction fuel generalizing waiting done s with
  | zero =>
    have hnil : waiting = [] := List.eq_nil_of_length_eq_zero (Nat.le_zero.mp hfuel)
    subst hnil
    rw [run?_of_none (h.min?_ready List.Pairwise.nil), h.schedule_eq hplaces, horder]
    rfl
  | succ fuel ih =>
    have hfirst := h.min?_ready (List.pairwise_lt_range.sublist hplaces)
    unfold Schedule.sortFrom
    cases hfind : waiting.find? fun i => !(g.parents i).any waiting.contains with
    | none => rw [run?_of_none (hfirst.trans hfind), h.schedule_eq hplaces, horder]
    | some i =>
      have hi : i ∈ waiting := List.mem_of_find?_eq_some hfind
      obtain ⟨s', hrun, horder', h'⟩ := h.step hmirrors (hplaces.nodup List.nodup_range) hi
      rw [run?_of_some (hfirst.trans hfind), hrun, Option.bind_some]
      refine ih h' (List.erase_sublist.trans hplaces) ?_ ?_
      · rw [horder', horder, List.reverse_cons]
      · rw [List.length_erase_of_mem hi]
        omega

end Countdown

theorem Schedule.sortFrom_congr {parents parents' : Nat → List Nat} (h : ∀ i j, j ∈ parents i ↔ j ∈ parents' i)
    (fuel : Nat) (waiting done : List Nat) :
    sortFrom parents fuel waiting done = sortFrom parents' fuel waiting done := by
  have hany : ∀ waiting i, (parents i).any (List.contains waiting) = (parents' i).any (List.contains waiting) := by
    intro waiting i
    rw [Bool.eq_iff_iff, List.any_eq_true, List.any_eq_true]
    simp only [h]
  induction fuel generalizing waiting done with
  | zero => rfl
  | succ fuel ih =>
    unfold sortFrom
    simp only [hany, ih]

namespace DependencyGraph

variable (entries : List Entry) (names : List String)

theorem mem_parents_ofNames {i j : Nat} :
    i ∈ (ofNames entries names).parents j ↔ i ∈ (Precedence.ofNames entries names).parents j :=
  ((ofNames_mirrors entries names).mem_parents i j).trans Precedence.mem_parents.symm

theorem lt_count_of_mem_parents {i j : Nat} (h : i ∈ (ofNames entries names).parents j) :
    i < entries.length ∧ j < entries.length := by
  obtain ⟨id, -, hlink⟩ := Precedence.mem_ofNames.mp (((ofNames_mirrors entries names).mem_parents i j).mp h)
  exact Precedence.lt_length_of_precedes (Precedence.precedes_of_mem_links hlink).1

/-- The loop ends with the schedule, and no count falls below zero on the way. -/
theorem sort?_ofNames :
    (ofNames entries names).sort? = some (Schedule.ofPrecedence (.ofNames entries names)) := by
  have hmirrors := ofNames_mirrors entries names
  have hcount := count_ofNames entries names
  have hparents : ∀ i, ∀ j ∈ (ofNames entries names).parents i, j < (ofNames entries names).count := by
    intro i j hj
    rw [hcount]
    exact (lt_count_of_mem_parents entries names hj).1
  have hrun : (ofNames entries names).sort? = some (Schedule.sortFrom (ofNames entries names).parents
      (ofNames entries names).count (List.range (ofNames entries names).count) []) :=
    Countdown.run?_eq hmirrors (Countdown.Counts.start hparents) (List.Sublist.refl _) rfl (by rw [List.length_range])
  rw [hrun, hcount, Schedule.sortFrom_congr fun i j => mem_parents_ofNames entries names]
  rfl

open Schedule

theorem lt_length_of_onOrAfterCycle {i : Nat} (h : OnOrAfterCycle (ofNames entries names).parents i) :
    i < entries.length := by
  obtain ⟨j, hcycle, hreach⟩ := h
  rcases Relation.ReflTransGen.cases_tail hreach with rfl | ⟨k, -, hk⟩
  · obtain ⟨k, -, hk⟩ := Relation.TransGen.tail'_iff.mp hcycle
    exact (lt_count_of_mem_parents entries names hk).2
  · exact (lt_count_of_mem_parents entries names hk).2

theorem mem_cyclic_iff {i : Nat} (hfirst : ParentsFirst (ofNames entries names).parents
      (ofPrecedence (.ofNames entries names)).order) :
    i ∈ (ofPrecedence (.ofNames entries names)).cyclic ↔ OnOrAfterCycle (ofNames entries names).parents i := by
  constructor
  · refine onOrAfterCycle_of_stuck fun k hk => ?_
    obtain ⟨j, hj, hparent⟩ := (ofPrecedence_sorts (.ofNames entries names)).stuck k hk
    exact ⟨j, hj, (mem_parents_ofNames entries names).mpr hparent⟩
  · intro hcycle
    have hplace := mem_places (p := .ofNames entries names).mpr (lt_length_of_onOrAfterCycle entries names hcycle)
    refine (List.mem_append.mp hplace).resolve_left fun horder => ?_
    exact hfirst.not_onOrAfterCycle horder hcycle

/-- The schedule of any entries, in whichever order the names are gone through that link them. The loop comes to
an end with it and never counts below zero. It takes every place once, or leaves it over. Parents come first, and
of all places whose parents have been taken the first declared, which gives the least order there is. Left over,
as declared, are the places on a cycle and those after one. -/
theorem schedule_is_least_order :
    (ofNames entries names).sort? = some (ofPrecedence (.ofNames entries names)) ∧
    Least (ofNames entries names).parents entries.length (ofPrecedence (.ofNames entries names)) := by
  have hsorts := ofPrecedence_sorts (.ofNames entries names)
  have hsame : sortFrom (ofNames entries names).parents entries.length (List.range entries.length) [] =
      ofPrecedence (.ofNames entries names) :=
    sortFrom_congr (fun i j => mem_parents_ofNames entries names) _ _ _
  have hparents : ∀ i, ∀ j ∈ (ofNames entries names).parents i, j < entries.length := fun i j hj =>
    (lt_count_of_mem_parents entries names hj).1
  obtain ⟨hfirst, hleast⟩ := sortFrom_leastFirst hparents
  rw [hsame] at hfirst hleast
  have hplaces : ∀ i ∈ (ofPrecedence (.ofNames entries names)).order, i < entries.length := fun i hi =>
    mem_places (p := .ofNames entries names).mp (List.mem_append_left _ hi)
  have hnodup := (nodup_places (.ofNames entries names)).of_append_left
  exact
    ⟨sort?_ofNames entries names,
      { all := hsorts.all
        parentsFirst := hfirst
        leastFirst := hleast
        not_lex := fun other hperm hother => hleast.not_lex hplaces hnodup hperm hother
        ascending := List.pairwise_lt_range.sublist hsorts.declared
        mem_cyclic := fun i => mem_cyclic_iff entries names hfirst }⟩

/-- Two unions that need each other are left over. -/
example :
    (ofNames
      [⟨"c", 1, .primitive (.box ⟨1, 1, 1⟩ ⟨0, 0, 0⟩)⟩, ⟨"a", 2, .boolean .union "b" "c"⟩,
        ⟨"b", 3, .boolean .union "a" "c"⟩] ["c", "b", "a"]).sort? = some ⟨[0], [1, 2]⟩ := by
  decide

end DependencyGraph

end SolidScript
