import SolidScript.Profile.Basic
import SolidScript.Proofs.Distances

/-!
# Clean profiles

Cleaning keeps points that are apart. The pass over the points leaves each one apart from the last one kept, and what is
dropped at the end leaves the last point apart from the first. Neither undoes what the other has done, so that a profile
whose points are apart is left as it is.
-/

namespace SolidScript

namespace Profile

variable {α : Type} [Scalar α] {first last : Vec2 α} {rest points : List (Vec2 α)}

def Apart (p q : Vec2 α) : Prop := mergeDistance < Vec2.distance q p

/-- Each point of a closed profile is apart from the one before it, unless there is one point only. -/
def Separated (points : List (Vec2 α)) : Prop :=
  2 ≤ points.length → ∀ e ∈ Cyclic.pairs points, Apart e.1 e.2

def Measured (points : List (Vec2 α)) : Prop :=
  ∀ p ∈ points, ∀ q ∈ points, mergeDistance < Vec2.distance p q ↔ ¬ Vec2.distance p q ≤ mergeDistance

theorem Measured.mono {points more : List (Vec2 α)} (h : Measured more) (hsub : points ⊆ more) : Measured points :=
  fun p hp q hq => h p (hsub hp) q (hsub hq)

/-! ## Along the profile -/

theorem dropRepeats_sublist (last : Vec2 α) (rest : List (Vec2 α)) : (dropRepeats last rest).Sublist rest := by
  induction rest generalizing last with
  | nil => exact .slnil
  | cons p rest ih =>
    unfold dropRepeats
    split
    · exact (ih p).cons_cons p
    · exact (ih last).cons p

theorem isChain_dropRepeats (last : Vec2 α) (rest : List (Vec2 α)) : (last :: dropRepeats last rest).IsChain Apart := by
  induction rest generalizing last with
  | nil => exact List.isChain_singleton last
  | cons p rest ih =>
    unfold dropRepeats
    split
    · rename_i hapart
      exact (ih p).cons_cons hapart
    · exact ih last

theorem dropRepeats_of_isChain (h : (last :: rest).IsChain Apart) : dropRepeats last rest = rest := by
  induction rest generalizing last with
  | nil => rfl
  | cons p rest ih =>
    obtain ⟨hapart, hrest⟩ := List.isChain_cons_cons.mp h
    rw [dropRepeats, if_pos (show mergeDistance < Vec2.distance p last from hapart), ih hrest]

theorem exists_near_dropRepeats (h : Measured (last :: rest)) {p : Vec2 α} (hp : p ∈ rest) :
    ∃ q ∈ last :: dropRepeats last rest, p = q ∨ Vec2.distance p q ≤ mergeDistance := by
  induction rest generalizing last with
  | nil => cases hp
  | cons next rest ih =>
    unfold dropRepeats
    split
    · rcases List.mem_cons.mp hp with rfl | hp
      · exact ⟨p, List.mem_cons_of_mem _ List.mem_cons_self, .inl rfl⟩
      · obtain ⟨q, hq, hnear⟩ := ih (h.mono (List.subset_cons_self _ _)) hp
        exact ⟨q, List.mem_cons_of_mem _ hq, hnear⟩
    · rename_i hclose
      rcases List.mem_cons.mp hp with rfl | hp
      · have hle : Vec2.distance p last ≤ mergeDistance := by
          by_contra hnot
          exact hclose ((h p (by simp) last (by simp)).mpr hnot)
        exact ⟨last, List.mem_cons_self, .inr hle⟩
      · exact ih (h.mono (List.cons_subset_cons _ (List.subset_cons_self _ _))) hp

/-! ## Where the profile closes -/

theorem dropClosing_beginning (first : Vec2 α) (rest : List (Vec2 α)) : dropClosing first rest <+: rest :=
  List.rdropWhile_prefix _ rest

theorem not_near_of_mem_getLast? {p : Vec2 α} (hp : p ∈ (dropClosing first rest).getLast?) :
    ¬ Vec2.distance first p ≤ mergeDistance := by
  have hne : dropClosing first rest ≠ [] := by
    intro hnil
    rw [hnil] at hp
    cases hp
  have hlast := List.rdropWhile_last_not _ rest hne
  rw [List.getLast?_eq_getLast_of_ne_nil hne] at hp
  obtain rfl := Option.some.inj hp
  exact fun hle => hlast (decide_eq_true hle)

theorem dropClosing_of_getLast? (h : ∀ p ∈ rest.getLast?, ¬ Vec2.distance first p ≤ mergeDistance) :
    dropClosing first rest = rest := by
  refine List.rdropWhile_eq_self_iff.mpr fun hne hle => ?_
  exact h _ (List.getLast?_eq_getLast_of_ne_nil hne) (of_decide_eq_true hle)

theorem near_of_not_mem_dropClosing {p : Vec2 α} (hp : p ∈ rest) (hnot : p ∉ dropClosing first rest) :
    Vec2.distance first p ≤ mergeDistance := by
  have hsplit := rest.reverse.takeWhile_append_dropWhile (p := fun p => decide (Vec2.distance first p ≤ mergeDistance))
  rw [← List.mem_reverse, ← hsplit, List.mem_append] at hp
  rcases hp with hp | hp
  · exact of_decide_eq_true (List.mem_takeWhile_imp (p := fun p => decide (Vec2.distance first p ≤ mergeDistance)) hp)
  · exact absurd (List.mem_reverse.mpr hp) hnot

/-! ## Closed profiles -/

theorem separated_cons_iff : Separated (first :: rest) ↔
    (first :: rest).IsChain Apart ∧ ∀ p ∈ rest.getLast?, Apart p first := by
  cases rest with
  | nil => exact iff_of_true (fun h => absurd (Nat.le_of_succ_le_succ h) (Nat.not_succ_le_zero 0)) ⟨.singleton _, nofun⟩
  | cons next rest =>
    have hpairs : (∀ e ∈ Cyclic.pairs (first :: next :: rest), Apart e.1 e.2) ↔
        (first :: (next :: rest) ++ [first]).IsChain Apart := by
      rw [List.isChain_cons_append_singleton_iff_forall₂, List.forall₂_iff_zip]
      exact ⟨fun h => ⟨by simp, fun hmem => h _ hmem⟩, fun h e he => h.2 he⟩
    unfold Separated
    rw [hpairs, List.isChain_append]
    simp

theorem separated_clean (h : Measured points) : Separated (clean points) := by
  cases points with
  | nil => exact fun htwo => absurd htwo (Nat.not_succ_le_zero 1)
  | cons first rest =>
    have hsub : first :: dropClosing first (dropRepeats first rest) ⊆ first :: rest :=
      List.cons_subset_cons _ ((dropClosing_beginning _ _).sublist.trans (dropRepeats_sublist _ _)).subset
    refine separated_cons_iff.mpr ⟨?_, fun p hp => ?_⟩
    · refine List.IsChain.prefix (isChain_dropRepeats first rest) ?_
      exact List.cons_prefix_cons.mpr ⟨rfl, dropClosing_beginning _ _⟩
    · have hmem := hsub (List.mem_cons_of_mem _ (List.mem_of_mem_getLast? hp))
      exact (h first List.mem_cons_self p hmem).mpr (not_near_of_mem_getLast? hp)

theorem clean_eq_self_iff (h : Measured points) : clean points = points ↔ Separated points := by
  refine ⟨fun hclean => hclean ▸ separated_clean h, fun hseparated => ?_⟩
  cases points with
  | nil => rfl
  | cons first rest =>
    obtain ⟨hchain, hlast⟩ := separated_cons_iff.mp hseparated
    rw [clean, dropRepeats_of_isChain hchain, dropClosing_of_getLast?]
    intro p hp
    exact (h first List.mem_cons_self p (List.mem_cons_of_mem _ (List.mem_of_mem_getLast? hp))).mp (hlast p hp)

theorem clean_sublist (points : List (Vec2 α)) : (clean points).Sublist points := by
  cases points with
  | nil => exact .slnil
  | cons first rest => exact ((dropClosing_beginning _ _).sublist.trans (dropRepeats_sublist _ _)).cons_cons first

theorem head?_clean (points : List (Vec2 α)) : (clean points).head? = points.head? := by
  cases points <;> rfl

/-- A point that is dropped is near one that is kept, or near one that has been kept and dropped where the profile
closes. -/
theorem exists_near_clean (h : Measured points) {p : Vec2 α} (hp : p ∈ points) :
    ∃ q ∈ points, (p = q ∨ Vec2.distance p q ≤ mergeDistance) ∧
      (q ∈ clean points ∨ ∃ first ∈ points.head?, Vec2.distance first q ≤ mergeDistance) := by
  cases points with
  | nil => cases hp
  | cons first rest =>
    rcases List.mem_cons.mp hp with rfl | hrest
    · exact ⟨p, hp, .inl rfl, .inl List.mem_cons_self⟩
    · obtain ⟨q, hq, hnear⟩ := exists_near_dropRepeats h hrest
      refine ⟨q, List.cons_subset_cons _ (dropRepeats_sublist _ _).subset hq, hnear, ?_⟩
      rcases List.mem_cons.mp hq with rfl | hq
      · exact .inl List.mem_cons_self
      · by_cases hkept : q ∈ dropClosing first (dropRepeats first rest)
        · exact .inl (List.mem_cons_of_mem _ hkept)
        · exact .inr ⟨first, rfl, near_of_not_mem_dropClosing hq hkept⟩

/-! ## Points of floats -/

open Binary64 in
theorem measured_of_isFinite {points : List (Vec2 Float)} (h : isFinite points = true) : Measured points := by
  intro p hp q hq
  have hfinite := List.all_eq_true.mp h
  have hdistance := Vec2.number_distance (hfinite p hp) (hfinite q hq)
  have hleast : Number mergeDistance := number_of_isFinite (by decide +kernel)
  rw [lt_iff, le_iff]
  simp [hdistance, hleast]

/-- What is left of finite points is some of them in their order, from the first one on. Neighbors are apart, also where
the profile closes, and cleaning once more changes nothing. No point is dropped that is not near another one. -/
theorem clean_leaves_points_apart {points : List (Vec2 Float)} (h : isFinite points = true) :
    (clean points).Sublist points ∧ (clean points).head? = points.head? ∧
      (2 ≤ (clean points).length →
        ∀ e ∈ Cyclic.pairs (clean points), mergeDistance < Vec2.distance e.2 e.1) ∧
      clean (clean points) = clean points ∧
      ∀ p ∈ points, ∃ q ∈ points, (p = q ∨ Vec2.distance p q ≤ mergeDistance) ∧
        (q ∈ clean points ∨ ∃ first ∈ points.head?, Vec2.distance first q ≤ mergeDistance) := by
  have hmeasured := measured_of_isFinite h
  have hsub := clean_sublist points
  have hseparated := separated_clean hmeasured
  exact ⟨hsub, head?_clean points, hseparated, (clean_eq_self_iff (hmeasured.mono hsub.subset)).mpr hseparated,
    fun p hp => exists_near_clean hmeasured hp⟩

def closedSquare : List (Vec2 Float) := [⟨0, 0⟩, ⟨0, 0⟩, ⟨1, 0⟩, ⟨1, 1⟩, ⟨0, 1⟩, ⟨1e-10, 0⟩, ⟨0, 0⟩]

theorem closedSquare_clean : isFinite closedSquare = true ∧ clean closedSquare = [⟨0, 0⟩, ⟨1, 0⟩, ⟨1, 1⟩, ⟨0, 1⟩] ∧
    clean (clean closedSquare) = clean closedSquare ∧
    ∀ e ∈ Cyclic.pairs (clean closedSquare), mergeDistance < Vec2.distance e.2 e.1 := by
  have hfinite : isFinite closedSquare = true := by decide +kernel
  have hclean : clean closedSquare = [⟨0, 0⟩, ⟨1, 0⟩, ⟨1, 1⟩, ⟨0, 1⟩] := by decide +kernel
  obtain ⟨-, -, hapart, hagain, -⟩ := clean_leaves_points_apart hfinite
  exact ⟨hfinite, hclean, hagain, hapart (by rw [hclean]; decide)⟩

end Profile

end SolidScript
