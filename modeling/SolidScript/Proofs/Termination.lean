import SolidScript.Proofs.Construction

/-! # When trees are finished

A new node takes the plane of the first polygon that waits there. If that polygon lies in its plane, it
stays, and all other lists have become shorter. If it does not, it goes on to a new node as it came.
-/

namespace SolidScript

/-! ## Lengths of pieces -/

namespace Plane

variable {α : Type} [Scalar α] (p : Plane α)

theorem length_split_le (q : Polygon α) : (p.split q).front.length ≤ 1 ∧ (p.split q).back.length ≤ 1 := by
  rcases p.split_cases q with ⟨-, h | h⟩ | ⟨-, h | h⟩ | ⟨-, -, h⟩ <;> rw [h] <;> simp [Pieces.none]

theorem split_of_contains {q : Polygon α} (hq : p.Contains q) :
    (p.split q).front = [] ∧ (p.split q).back = [] := by
  rcases p.split_cases q with ⟨-, h | h⟩ | ⟨hnot, -⟩ | ⟨hnot, -⟩
  · rw [h]; exact ⟨rfl, rfl⟩
  · rw [h]; exact ⟨rfl, rfl⟩
  · exact absurd hq hnot
  · exact absurd hq hnot

theorem length_splitAll_le (qs : List (Polygon α)) :
    (p.splitAll qs).front.length ≤ qs.length ∧ (p.splitAll qs).back.length ≤ qs.length := by
  rw [splitAll_eq]
  dsimp only
  induction qs with
  | nil => simp
  | cons q qs ih =>
    have hq := p.length_split_le q
    simp only [List.flatMap_cons, List.length_append, List.length_cons]
    omega

theorem length_splitAll_le_of_contains {q : Polygon α} (hq : p.Contains q) (qs : List (Polygon α)) :
    (p.splitAll (q :: qs)).front.length ≤ qs.length ∧ (p.splitAll (q :: qs)).back.length ≤ qs.length := by
  have hrest := p.length_splitAll_le qs
  rw [splitAll_eq] at hrest ⊢
  dsimp only at hrest ⊢
  rw [List.flatMap_cons, List.flatMap_cons, (p.split_of_contains hq).1, (p.split_of_contains hq).2]
  exact hrest

theorem splitAll_of_not_contains {q : Polygon α} (hq : ¬ p.Contains q) (hplane : q.plane = p)
    (qs : List (Polygon α)) :
    ∃ q' rest, q'.plane = p ∧ ¬ p.Contains q' ∧
      (q' :: rest = (p.splitAll (q :: qs)).front ∨ q' :: rest = (p.splitAll (q :: qs)).back) := by
  rw [splitAll_eq]
  dsimp only
  rw [List.flatMap_cons, List.flatMap_cons]
  rcases p.split_cases q with ⟨h, -⟩ | ⟨-, h | h⟩ | ⟨-, hdivides, h⟩
  · exact absurd h hq
  · rw [h]; exact ⟨q, _, hplane, hq, Or.inl rfl⟩
  · rw [h]; exact ⟨q, _, hplane, hq, Or.inr rfl⟩
  · rw [h]; exact ⟨p.part .front q, _, hplane, (p.not_contains_part hdivides).1, Or.inl rfl⟩

end Plane

namespace BspTree.Construction

variable {α : Type} [Scalar α]

/-! ## Steps -/

theorem step_of_waiting_nil {c : Construction α} (h : c.waiting = []) : c.step = c := by
  obtain ⟨t, waiting⟩ := c
  subst h
  rfl

theorem finish_of_waiting_nil {c : Construction α} (h : c.waiting = []) : c.finish = some c.tree := by
  rw [finish, h]
  rfl

theorem finish_step (c : Construction α) : c.step.finish = c.finish := by
  by_cases h : c.waiting = []
  · rw [step_of_waiting_nil h]
  · have hne : ¬ c.waiting.isEmpty = true := by simpa using h
    conv_rhs => rw [finish, if_neg hne]

theorem finish_iterate (n : Nat) (c : Construction α) : (step^[n] c).finish = c.finish := by
  induction n generalizing c with
  | zero => rfl
  | succ n ih => rw [Function.iterate_succ_apply, ih, finish_step]

/-- A construction is finished when, after some steps, nothing waits any more. -/
theorem finish_eq_some_iff (c : Construction α) (t : BspTree α) :
    c.finish = some t ↔ ∃ n, (step^[n] c).waiting = [] ∧ (step^[n] c).tree = t := by
  constructor
  · refine finish.partial_correctness (fun c t => ∃ n, (step^[n] c).waiting = [] ∧ (step^[n] c).tree = t) ?_ c t
    intro finish ih c t ht
    split at ht
    · rename_i hempty
      exact ⟨0, by simpa using hempty, Option.some.inj ht⟩
    · obtain ⟨n, hn⟩ := ih c.step t ht
      exact ⟨n + 1, hn⟩
  · rintro ⟨n, hwaiting, rfl⟩
    rw [← finish_iterate n, finish_of_waiting_nil hwaiting]

theorem Growing.iterate {c : Construction α} (h : c.Growing) (n : Nat) :
    (Construction.step^[n] c).Growing := by
  induction n generalizing c with
  | zero => exact h
  | succ n ih => exact ih h.step

/-! ## Polygons that are handed on for ever -/

/-- A polygon that is about to give its plane to a node does not lie in that plane. -/
def Astray (c : Construction α) : Prop :=
  ∃ i q rest, (i, q :: rest) ∈ c.waiting ∧ (c.tree.node i).plane = none ∧ ¬ q.plane.Contains q

theorem Astray.serve {t : BspTree α} {i : Nat} {q : Polygon α} {rest : List (Polygon α)}
    {waiting : List (Nat × List (Polygon α))} (hgrowing : Growing ⟨t, (i, q :: rest) :: waiting⟩)
    (hplane : (t.node i).plane = none) (hout : ¬ q.plane.Contains q) :
    Astray ⟨(t.settle i q rest).1, (t.settle i q rest).2 ++ waiting⟩ := by
  have hi : i < t.nodes.size := hgrowing.inside _ List.mem_cons_self
  have hfresh : t.node i = .fresh := (hgrowing.bare i hi hplane).1
  have hs := settle_spec t hi q rest
  obtain ⟨new, hextends, -⟩ := hs.grown
  rw [hplane, Option.getD_none] at hs
  obtain ⟨q', rest', hplane', hout', hfirst⟩ := q.plane.splitAll_of_not_contains (q := q) hout rfl rest
  obtain ⟨place, hhanded⟩ := hs.exists_place hfirst
  have hmade := hgrowing.made_of_fresh hs hfresh (List.mem_map_of_mem hhanded)
  refine ⟨place, q', rest', List.mem_append_left _ hhanded, ?_, by rw [hplane']; exact hout'⟩
  show ((t.settle i q rest).1.node place).plane = none
  rw [hextends.others place (by omega), node_eq_fresh hmade]
  rfl

theorem Astray.step {c : Construction α} (hgrowing : c.Growing) (h : c.Astray) : c.step.Astray := by
  obtain ⟨i, q, rest, hmem, hplane, hout⟩ := h
  obtain ⟨t, waiting⟩ := c
  match waiting, hgrowing with
  | [], _ => cases hmem
  | (j, []) :: waiting, _ =>
    rcases List.mem_cons.mp hmem with heq | hmem
    · cases heq
    · exact ⟨i, q, rest, hmem, hplane, hout⟩
  | (j, first :: others) :: waiting, hgrowing =>
    rcases List.mem_cons.mp hmem with heq | hwaits
    · cases heq
      exact Astray.serve hgrowing hplane hout
    -- The list waits on, at a node that is not the one that is served.
    · have hj : j < t.nodes.size := hgrowing.inside _ List.mem_cons_self
      obtain ⟨new, hextends, -⟩ := (settle_spec t hj first others).grown
      refine ⟨i, q, rest, List.mem_append_right _ hwaits, ?_, hout⟩
      show ((t.settle j first others).1.node i).plane = none
      rw [hextends.others i (hgrowing.ne_of_mem hwaits)]
      exact hplane

theorem Astray.iterate {c : Construction α} (hgrowing : c.Growing) (h : c.Astray) (n : Nat) :
    (Construction.step^[n] c).Astray := by
  induction n generalizing c with
  | zero => exact h
  | succ n ih => exact ih hgrowing.step (h.step hgrowing)

theorem finish_of_astray {c : Construction α} (hgrowing : c.Growing) (h : c.Astray) : c.finish = none := by
  rw [Option.eq_none_iff_forall_ne_some]
  intro t ht
  obtain ⟨n, hwaiting, -⟩ := (finish_eq_some_iff c t).mp ht
  obtain ⟨i, q, rest, hmem, -, -⟩ := h.iterate hgrowing n
  rw [hwaiting] at hmem
  cases hmem

/-! ## Polygons that come to rest -/

/-- Lists wait at new nodes, or above nodes that were there before. -/
structure Untouched (old : Nat) (c : Construction α) : Prop where
  old_le : old ≤ c.tree.nodes.size
  below : ∀ w ∈ c.waiting, c.tree.node w.1 = .fresh ∨ ∀ j, Below c.tree w.1 j → j < old

theorem Untouched.step {old : Nat} {c : Construction α} (hgrowing : c.Growing) (h : Untouched old c) :
    Untouched old c.step := by
  obtain ⟨t, waiting⟩ := c
  match waiting, hgrowing, h with
  | [], _, h => exact h
  | (_, []) :: _, _, h => exact ⟨h.old_le, fun w hw => h.below w (List.mem_cons_of_mem _ hw)⟩
  | (i, first :: others) :: waiting, hgrowing, h =>
    have hi : i < t.nodes.size := hgrowing.inside _ List.mem_cons_self
    have hs := settle_spec t hi first others
    obtain ⟨new, hextends, -⟩ := hs.grown
    refine ⟨?_, fun w hw => ?_⟩
    · show old ≤ (t.settle i first others).1.nodes.size
      rw [hextends.size]
      exact Nat.le_add_right_of_le h.old_le
    · show (t.settle i first others).1.node w.1 = .fresh ∨
        ∀ j, Below (t.settle i first others).1 w.1 j → j < old
      -- A new node is fresh, and below any other one there is only what was below one that waited before.
      rcases List.mem_append.mp hw with hw | hw
      · have hplace := List.mem_map_of_mem (f := Prod.fst) hw
        rcases hgrowing.made_or_link hs hplace with hmade | hlink
        · left
          rw [hextends.others w.1 (by omega), node_eq_fresh hmade]
        · right
          intro j hj
          rcases h.below _ List.mem_cons_self with hfresh | hbelow
          · exact absurd hlink (not_link_of_fresh hfresh)
          · rcases hgrowing.below_of_handed hs hplace hj with ⟨hmade, -⟩ | ⟨-, hold⟩
            · exact absurd (hgrowing.rooted.lt_size hlink) (Nat.not_lt.mpr hmade)
            · exact hbelow j (Relation.ReflTransGen.head hlink hold)
      · rcases h.below w (List.mem_cons_of_mem _ hw) with hfresh | hbelow
        · exact Or.inl ((hextends.others w.1 (hgrowing.ne_of_mem hw)).trans hfresh)
        · exact Or.inr fun j hj => hbelow j (hgrowing.below_of_mem hs hw hj)

/-- How much a list can still cause: twice as much with one more polygon, or with one more node that was
there before. -/
def weight (old : Nat) (w : Nat × List (Polygon α)) : Nat := 2 ^ (w.2.length + 1 + (old - w.1)) - 1

def potential (old : Nat) (c : Construction α) : Nat := (c.waiting.map (weight old)).sum

omit [Scalar α] in
theorem weight_pos (old : Nat) (w : Nat × List (Polygon α)) : 0 < weight old w := by
  unfold weight
  have : 2 ^ 1 ≤ 2 ^ (w.2.length + 1 + (old - w.1)) := Nat.pow_le_pow_right (by decide) (by omega)
  omega

section Handed

variable {old i : Nat} {t : BspTree α} {first : Polygon α} {others : List (Polygon α)}
  {waiting : List (Nat × List (Polygon α))} (hgrowing : Growing ⟨t, (i, first :: others) :: waiting⟩)
  (huntouched : Untouched old ⟨t, (i, first :: others) :: waiting⟩)

include hgrowing huntouched

theorem left_of_bare {w : Nat × List (Polygon α)} (hw : w ∈ (t.settle i first others).2)
    (hplane : (t.node i).plane = none) (hcontains : first.plane.Contains first) :
    w.2.length + 1 + (old - w.1) ≤ (first :: others).length + (old - i) := by
  have hi : i < t.nodes.size := hgrowing.inside _ List.mem_cons_self
  have hs := settle_spec t hi first others
  rw [hplane, Option.getD_none] at hs
  have hfresh : t.node i = .fresh := (hgrowing.bare i hi hplane).1
  have hmade := hgrowing.made_of_fresh hs hfresh (List.mem_map_of_mem hw)
  have hold : old ≤ t.nodes.size := huntouched.old_le
  have hshorter := first.plane.length_splitAll_le_of_contains hcontains others
  rw [List.length_cons]
  rcases hs.eq_back_or_front hw with hlist | hlist <;> rw [hlist] <;> omega

theorem left_of_plane {w : Nat × List (Polygon α)} (hw : w ∈ (t.settle i first others).2) {plane : Plane α}
    (hplane : (t.node i).plane = some plane) :
    w.2.length + 1 + (old - w.1) ≤ (first :: others).length + (old - i) := by
  have hi : i < t.nodes.size := hgrowing.inside _ List.mem_cons_self
  have hs := settle_spec t hi first others
  rw [hplane, Option.getD_some] at hs
  have hdown : i < w.1 := (hs.rooted hgrowing.rooted hi).down i w.1 (hs.mem_links (List.mem_map_of_mem hw))
  have hold : i < old := by
    rcases huntouched.below _ List.mem_cons_self with hfresh | hbelow
    · dsimp only at hfresh
      rw [hfresh] at hplane
      cases hplane
    · exact hbelow i Relation.ReflTransGen.refl
  have hlength := plane.length_splitAll_le (first :: others)
  rcases hs.eq_back_or_front hw with hlist | hlist <;> rw [hlist] <;> omega

theorem weight_handed_le (hstays : ¬ Astray ⟨t, (i, first :: others) :: waiting⟩) {w : Nat × List (Polygon α)}
    (hw : w ∈ (t.settle i first others).2) :
    weight old w ≤ 2 ^ ((first :: others).length + (old - i)) - 1 := by
  have hleft : w.2.length + 1 + (old - w.1) ≤ (first :: others).length + (old - i) := by
    cases hplane : (t.node i).plane with
    | none =>
      have hcontains : first.plane.Contains first := by
        by_contra hout
        exact hstays ⟨i, first, others, List.mem_cons_self, hplane, hout⟩
      exact left_of_bare hgrowing huntouched hw hplane hcontains
    | some plane => exact left_of_plane hgrowing huntouched hw hplane
  unfold weight
  exact Nat.sub_le_sub_right (Nat.pow_le_pow_right (by decide) hleft) 1

/-- At most two lists are handed on, and both together weigh less than the one they came from. -/
theorem weights_handed_lt (hstays : ¬ Astray ⟨t, (i, first :: others) :: waiting⟩) :
    ((t.settle i first others).2.map (weight old)).sum < weight old (i, first :: others) := by
  have hs := settle_spec t (hgrowing.inside _ List.mem_cons_self) first others
  have htwo : (t.settle i first others).2.length ≤ 2 := by
    rw [← List.length_map (f := Prod.snd), hs.lists]
    exact List.length_filter_le _ _
  have hsum : ((t.settle i first others).2.map (weight old)).sum ≤
      2 * (2 ^ ((first :: others).length + (old - i)) - 1) := by
    have hcard := List.sum_le_card_nsmul ((t.settle i first others).2.map (weight old))
      (2 ^ ((first :: others).length + (old - i)) - 1) fun n hn => by
        obtain ⟨w, hw, rfl⟩ := List.mem_map.mp hn
        exact weight_handed_le hgrowing huntouched hstays hw
    rw [List.length_map, smul_eq_mul] at hcard
    exact hcard.trans (Nat.mul_le_mul_right _ htwo)
  have hhead : weight old (i, first :: others) = 2 * 2 ^ ((first :: others).length + (old - i)) - 1 := by
    show 2 ^ ((first :: others).length + 1 + (old - i)) - 1 = _
    rw [← Nat.pow_succ', Nat.add_right_comm]
  have hpow : 0 < 2 ^ ((first :: others).length + (old - i)) := Nat.two_pow_pos _
  omega

end Handed

theorem potential_step_lt {old : Nat} {c : Construction α} (hgrowing : c.Growing) (huntouched : Untouched old c)
    (hstays : ¬ c.Astray) (hwaits : c.waiting ≠ []) : potential old c.step < potential old c := by
  obtain ⟨t, waiting⟩ := c
  match waiting, hgrowing, huntouched, hstays with
  | [], _, _, _ => exact absurd rfl hwaits
  | (i, []) :: waiting, _, _, _ =>
    have hpos := weight_pos old (i, ([] : List (Polygon α)))
    show (waiting.map (weight old)).sum < (((i, []) :: waiting).map (weight old)).sum
    rw [List.map_cons, List.sum_cons]
    omega
  | (i, first :: others) :: waiting, hgrowing, huntouched, hstays =>
    have hlt := weights_handed_lt hgrowing huntouched hstays
    show (((t.settle i first others).2 ++ waiting).map (weight old)).sum <
      (((i, first :: others) :: waiting).map (weight old)).sum
    rw [List.map_append, List.sum_append, List.map_cons, List.sum_cons]
    omega

/-- Lists are served one and all unless a polygon goes astray. -/
theorem exists_waiting_nil {old : Nat} {c : Construction α} (hgrowing : c.Growing) (huntouched : Untouched old c)
    (hstays : ∀ n, ¬ (step^[n] c).Astray) : ∃ n, (step^[n] c).waiting = [] := by
  induction hp : potential old c using Nat.strongRecOn generalizing c with
  | _ p ih =>
    by_cases hwaits : c.waiting = []
    · exact ⟨0, hwaits⟩
    · have hlt := potential_step_lt hgrowing huntouched (hstays 0) hwaits
      obtain ⟨n, hn⟩ := ih _ (hp ▸ hlt) hgrowing.step (huntouched.step hgrowing)
        (fun n => hstays (n + 1)) rfl
      exact ⟨n + 1, hn⟩

theorem finish_isSome_iff {old : Nat} {c : Construction α} (hgrowing : c.Growing) (huntouched : Untouched old c) :
    c.finish.isSome = true ↔ ∀ n, ¬ (step^[n] c).Astray := by
  constructor
  · intro hsome n hastray
    rw [← finish_iterate n, finish_of_astray (hgrowing.iterate n) hastray] at hsome
    cases hsome
  · intro hstays
    obtain ⟨n, hn⟩ := exists_waiting_nil hgrowing huntouched hstays
    rw [← finish_iterate n, finish_of_waiting_nil hn]
    rfl

end BspTree.Construction

end SolidScript
