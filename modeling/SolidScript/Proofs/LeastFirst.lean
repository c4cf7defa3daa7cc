import SolidScript.Proofs.Schedule

/-!
# Schedules take the first that may run

Of all orders that respect what comes before what, a schedule is the least one.
-/

namespace SolidScript.Schedule

open Relation

variable {parents : Nat → List Nat}

/-! ## Taking the least place -/

/-- Of the places that are left, the first one that waits for none of them. -/
structure Next (parents : Nat → List Nat) (left : List Nat) (i : Nat) : Prop where
  mem : i ∈ left
  free : ∀ j ∈ parents i, j ∉ left
  least : ∀ k ∈ left, (∀ j ∈ parents k, j ∉ left) → i ≤ k

theorem not_any_contains {left : List Nat} {i : Nat} :
    (!(parents i).any left.contains) = true ↔ ∀ j ∈ parents i, j ∉ left := by
  simp

theorem next_of_find? {left : List Nat} (hascending : left.Pairwise (· < ·)) {i : Nat}
    (h : left.find? (fun i => !(parents i).any left.contains) = some i) : Next parents left i := by
  obtain ⟨hfree, before, after, hsplit, hblocked⟩ := List.find?_eq_some_iff_append.mp h
  refine ⟨List.mem_of_find?_eq_some h, not_any_contains.mp hfree, fun k hk hfreek => ?_⟩
  have hfind := not_any_contains.mpr hfreek
  rw [hsplit] at hk hascending
  rcases List.mem_append.mp hk with hbefore | hafter
  · have := hblocked k hbefore
    rw [hfind] at this
    cases this
  · rcases List.mem_cons.mp hafter with rfl | hafter
    · exact Nat.le_refl _
    · exact Nat.le_of_lt ((List.pairwise_cons.mp (List.pairwise_append.mp hascending).2.1).1 k hafter)

theorem sortFrom_next (parents : Nat → List Nat) (fuel : Nat) {waiting : List Nat} (hascending : waiting.Pairwise (· < ·)) (done : List Nat) :
    ∃ taken, (sortFrom parents fuel waiting done).order = done.reverse ++ taken ∧
      ∀ n i, taken[n]? = some i → Next parents (waiting.diff (taken.take n)) i := by
  induction fuel generalizing waiting done with
  | zero => exact ⟨[], by simp [sortFrom], by simp⟩
  | succ fuel ih =>
    unfold sortFrom
    split
    · rename_i i hfind
      obtain ⟨taken, horder, hnext⟩ := ih (hascending.sublist List.erase_sublist) (i :: done)
      refine ⟨i :: taken, by rw [horder, List.reverse_cons, List.append_assoc]; rfl, ?_⟩
      rintro (_ | n) k hk
      · cases hk
        exact next_of_find? hascending hfind
      · rw [List.take_succ_cons, List.diff_cons]
        exact hnext n k hk
    · exact ⟨[], by simp, by simp⟩

/-! ## Orders -/

/-- Each place comes after all its parents. -/
def ParentsFirst (parents : Nat → List Nat) (order : List Nat) : Prop :=
  ∀ n i, order[n]? = some i → ∀ j ∈ parents i, j ∈ order.take n

/-- Each place is the least one that has not been taken and whose parents all have. -/
def LeastFirst (parents : Nat → List Nat) (count : Nat) (order : List Nat) : Prop :=
  ∀ n i, order[n]? = some i →
    i ∉ order.take n ∧ ∀ k < count, k ∉ order.take n → (∀ j ∈ parents k, j ∈ order.take n) → i ≤ k

/-- Places that wait for each other, and those that come after such places. -/
def OnOrAfterCycle (parents : Nat → List Nat) (i : Nat) : Prop :=
  ∃ j, TransGen (fun a b => a ∈ parents b) j j ∧ ReflTransGen (fun a b => a ∈ parents b) j i

/-- All that can be put into an order is in the least order that there is. -/
structure Least (parents : Nat → List Nat) (count : Nat) (s : Schedule) : Prop where
  /-- No place is lost, and none is taken twice. -/
  all : (s.order ++ s.cyclic).Perm (List.range count)
  parentsFirst : ParentsFirst parents s.order
  leastFirst : LeastFirst parents count s.order
  not_lex : ∀ other, other.Perm s.order → ParentsFirst parents other → ¬ List.Lex (· < ·) other s.order
  ascending : s.cyclic.Pairwise (· < ·)
  mem_cyclic : ∀ i, i ∈ s.cyclic ↔ OnOrAfterCycle parents i

/-- An order is lexicographically least among all orders of its places in which parents come first. -/
theorem LeastFirst.not_lex {count : Nat} {order : List Nat} (h : LeastFirst parents count order)
    (hplaces : ∀ i ∈ order, i < count) (hnodup : order.Nodup) {other : List Nat} (hperm : other.Perm order)
    (hother : ParentsFirst parents other) : ¬ List.Lex (· < ·) other order := by
  intro hlex
  rcases List.lt_iff_exists.mp hlex with ⟨-, hlength⟩ | ⟨n, hn, hn', hsame, hlt⟩
  · have := hperm.length_eq
    omega
  -- Where they part, the other order takes a lesser place, whose parents have been taken in this one too.
  · have htake : other.take n = order.take n := by
      refine List.ext_getElem (by rw [List.length_take, List.length_take]; omega) fun m hm hm' => ?_
      rw [List.getElem_take, List.getElem_take]
      rw [List.length_take] at hm
      exact hsame m (by omega)
    have hfresh : other[n] ∉ other.take n := by
      intro hmem
      obtain ⟨m, hm, heq⟩ := List.mem_take_iff_getElem.mp hmem
      have := (hperm.nodup_iff.mpr hnodup).getElem_inj_iff.mp heq
      omega
    have hparents := hother n other[n] (List.getElem?_eq_getElem hn)
    rw [htake] at hfresh hparents
    have hcount := hplaces other[n] (hperm.subset (List.getElem_mem hn))
    have := (h n order[n] (List.getElem?_eq_getElem hn')).2 other[n] hcount hfresh hparents
    omega

theorem ParentsFirst.idxOf_lt {order : List Nat} (h : ParentsFirst parents order) {i j : Nat} (hi : i ∈ order)
    (hj : j ∈ parents i) : j ∈ order ∧ order.idxOf j < order.idxOf i := by
  have hearlier := h _ i (List.getElem?_idxOf hi) j hj
  have hmem := List.mem_of_mem_take hearlier
  exact ⟨hmem, (List.mem_take_iff_idxOf_lt hmem).mp hearlier⟩

theorem ParentsFirst.idxOf_lt_of_transGen {order : List Nat} (h : ParentsFirst parents order) {i j : Nat}
    (hi : i ∈ order) (hji : TransGen (fun a b => a ∈ parents b) j i) :
    j ∈ order ∧ order.idxOf j < order.idxOf i := by
  induction hji using TransGen.head_induction_on with
  | single hab => exact h.idxOf_lt hi hab
  | head hab _ ih =>
    obtain ⟨hmem, hlt⟩ := h.idxOf_lt ih.1 hab
    exact ⟨hmem, Nat.lt_trans hlt ih.2⟩

theorem ParentsFirst.not_onOrAfterCycle {order : List Nat} (h : ParentsFirst parents order) {i : Nat}
    (hi : i ∈ order) : ¬ OnOrAfterCycle parents i := by
  rintro ⟨j, hcycle, hreach⟩
  have hj : j ∈ order := by
    rcases reflTransGen_iff_eq_or_transGen.mp hreach with rfl | hji
    · exact hi
    · exact (h.idxOf_lt_of_transGen hi hji).1
  exact Nat.lt_irrefl _ (h.idxOf_lt_of_transGen hj hcycle).2

theorem onOrAfterCycle_of_stuck {l : List Nat} (h : ∀ i ∈ l, ∃ j ∈ l, j ∈ parents i) {i : Nat} (hi : i ∈ l) :
    OnOrAfterCycle parents i := by
  classical
  -- Only the places from which `i` can be reached count.
  let below (a b : Nat) : Prop := a ∈ parents b ∧ ReflTransGen (fun a b => a ∈ parents b) b i
  let reaching := l.filter fun b => ReflTransGen (fun a b => a ∈ parents b) b i
  have hne : reaching ≠ [] := List.ne_nil_of_mem (List.mem_filter.mpr ⟨hi, decide_eq_true .refl⟩)
  have hstuck : ∀ b ∈ reaching, ∃ a ∈ reaching, below a b := by
    intro b hb
    obtain ⟨hbl, hreach⟩ := List.mem_filter.mp hb
    obtain ⟨a, hal, hab⟩ := h b hbl
    have hreach := of_decide_eq_true hreach
    exact ⟨a, List.mem_filter.mpr ⟨hal, decide_eq_true (hreach.head hab)⟩, hab, hreach⟩
  have hcycle := not_acyclic_of_forall_exists hne hstuck
  simp only [Acyclic, not_forall, not_not] at hcycle
  obtain ⟨j, hj⟩ := hcycle
  obtain ⟨-, -, -, hreach⟩ := TransGen.tail'_iff.mp hj
  exact ⟨j, TransGen.mono (fun a b hab => hab.1) _ _ hj, hreach⟩

/-! ## Schedules -/

variable {count : Nat}

/-- What is left of the places of a schedule is what has not been taken, so that waiting for none of them is
having all parents taken. -/
theorem sortFrom_leastFirst (hparents : ∀ i, ∀ j ∈ parents i, j < count) :
    ParentsFirst parents (sortFrom parents count (List.range count) []).order ∧
      LeastFirst parents count (sortFrom parents count (List.range count) []).order := by
  obtain ⟨taken, horder, hnext⟩ := sortFrom_next parents count List.pairwise_lt_range []
  rw [List.reverse_nil, List.nil_append] at horder
  rw [horder]
  have hleft : ∀ n k, k ∈ (List.range count).diff (taken.take n) ↔ k < count ∧ k ∉ taken.take n := by
    intro n k
    rw [List.nodup_range.mem_sdiff_iff, List.mem_range]
  have hfree : ∀ n k, (∀ j ∈ parents k, j ∉ (List.range count).diff (taken.take n)) ↔
      ∀ j ∈ parents k, j ∈ taken.take n := by
    intro n k
    refine forall₂_congr fun j hj => ?_
    rw [hleft, not_and_not_right]
    exact ⟨fun h => h (hparents k j hj), fun h _ => h⟩
  constructor
  · intro n i hi
    exact (hfree n i).mp (hnext n i hi).free
  · intro n i hi
    refine ⟨((hleft n i).mp (hnext n i hi).mem).2, fun k hk hnew hearlier => ?_⟩
    exact (hnext n i hi).least k ((hleft n k).mpr ⟨hk, hnew⟩) ((hfree n k).mpr hearlier)

end SolidScript.Schedule
