import SolidScript.Proofs.DependencyOrder

/-!
# Scripts that make solids before they name them

Such a script is evaluated as it is declared.
-/

namespace SolidScript

open Precedence Schedule

namespace Schedule

theorem sortFrom_range' {parents : Nat → List Nat} (hparents : ∀ i, ∀ j ∈ parents i, j < i)
    {fuel n : Nat} (hfuel : n ≤ fuel) (start : Nat) (done : List Nat) :
    sortFrom parents fuel (List.range' start n) done = ⟨done.reverse ++ List.range' start n, []⟩ := by
  induction n generalizing fuel start done with
  | zero => cases fuel <;> simp [sortFrom]
  | succ n ih =>
    obtain ⟨fuel, rfl⟩ : ∃ k, fuel = k + 1 := ⟨fuel - 1, by omega⟩
    -- The first place that is left waits for none of the others.
    have hready : (parents start).any (List.range' start (n + 1)).contains = false := by
      rw [List.any_eq_false]
      intro j hj hmem
      have hlt := hparents start j hj
      have hle := List.mem_range'_1.mp (List.contains_iff_mem.mp hmem)
      omega
    have hfirst : (List.range' start (n + 1)).find?
        (fun i => !(parents i).any (List.range' start (n + 1)).contains) = some start := by
      rw [List.find?_eq_some_iff_append]
      exact ⟨by rw [hready]; rfl, [], List.range' (start + 1) n, rfl, by simp⟩
    have hrest : (List.range' start (n + 1)).erase start = List.range' (start + 1) n := List.erase_cons_head _ _
    rw [sortFrom, hfirst]
    dsimp only
    rw [hrest, ih (by omega), List.reverse_cons, List.append_assoc]
    rfl

end Schedule

namespace Precedence

variable {entries : List Entry}

/-- Each entry stands below the first one that makes a solid that it names. -/
def MadeBeforeNamed (entries : List Entry) : Prop := ∀ i j, Refers entries i j → i < j

theorem lt_of_mem_parents (h : MadeBeforeNamed entries) (i : Nat) :
    ∀ j ∈ (ofEntries entries).parents i, j < i := by
  intro j hj
  obtain ⟨hprecedes, -⟩ := precedes_of_mem_pairs (mem_parents.mp hj)
  rcases hprecedes with hrefers | ⟨hlt, -⟩
  · exact h j i hrefers
  · exact hlt

theorem schedule_of_madeBeforeNamed (h : MadeBeforeNamed entries) :
    Schedule.ofEntries entries = ⟨List.range entries.length, []⟩ := by
  have hsort := sortFrom_range' (lt_of_mem_parents h) (Nat.le_refl entries.length) 0 []
  rw [List.reverse_nil, List.nil_append, ← List.range_eq_range'] at hsort
  exact hsort

end Precedence

namespace Evaluation

/-! ## The two orders -/

theorem ordered_of_madeBeforeNamed {spec : Specification} (h : MadeBeforeNamed spec.byLine) :
    ordered .dependency spec = (spec.byLine, []) := by
  unfold ordered
  dsimp only
  have hschedule := schedule_of_madeBeforeNamed h
  unfold Schedule.ofEntries at hschedule
  rw [hschedule]
  simp [filterMap_getElem?_range]

theorem step_order (config : Config) (order : EvaluationOrder) (backend : BooleanBackend Float) :
    step { config with order := order } backend = step config backend := by
  have hplan : Plan.ofEntry { config with order := order } backend = Plan.ofEntry config backend := rfl
  unfold step
  rw [hplan]

/-- A script that names solids only below where they are made has no cycles, and in the order of dependency its
entries come as they are declared. If that is category by category, both orders of evaluation give the same. -/
theorem declared_order_of_madeBeforeNamed {spec : Specification} (h : MadeBeforeNamed spec.byLine) :
    Schedule.ofEntries spec.byLine = ⟨List.range spec.byLine.length, []⟩ ∧
    ordered .dependency spec = (spec.byLine, []) ∧
    (spec.byLine = spec.byCategory → ∀ (config : Config) (backend : BooleanBackend Float),
      spec.evaluate { config with order := .dependency } backend =
        spec.evaluate { config with order := .category } backend) := by
  refine ⟨schedule_of_madeBeforeNamed h, ordered_of_madeBeforeNamed h, ?_⟩
  intro hsame config backend
  have hordered : ordered .dependency spec = ordered .category spec := by
    rw [ordered_of_madeBeforeNamed h, hsame]
    rfl
  unfold Specification.evaluate
  rw [step_order config .dependency, step_order config .category]
  dsimp only
  rw [hordered]

def shiftedUnion : Specification :=
  .ofEntries
    [⟨"a", 1, .primitive (.box ⟨1, 1, 1⟩ ⟨0, 0, 0⟩)⟩, ⟨"b", 2, .primitive (.box ⟨1, 1, 1⟩ ⟨1, 0, 0⟩)⟩,
      ⟨"pair", 3, .boolean .union "a" "b"⟩, ⟨"shift", 4, .translate "pair" ⟨1, 0, 0⟩⟩]

theorem shiftedUnion_in_either_order :
    MadeBeforeNamed shiftedUnion.byLine ∧ shiftedUnion.byLine = shiftedUnion.byCategory ∧
    Schedule.ofEntries shiftedUnion.byLine = ⟨[0, 1, 2, 3], []⟩ ∧
    shiftedUnion.evaluate { order := .dependency } Solid.combine = shiftedUnion.evaluate {} Solid.combine := by
  have hmade : MadeBeforeNamed shiftedUnion.byLine := fun _ _ => lt_of_ranked id (by cbv)
  have hsame : shiftedUnion.byLine = shiftedUnion.byCategory := by cbv
  have hlength : shiftedUnion.byLine.length = 4 := by cbv
  obtain ⟨hschedule, -, horders⟩ := declared_order_of_madeBeforeNamed hmade
  rw [hlength] at hschedule
  exact ⟨hmade, hsame, hschedule, horders hsame {} Solid.combine⟩

end Evaluation

end SolidScript
