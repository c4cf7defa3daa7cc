import SolidScript.Proofs.FloatLimits
import SolidScript.Proofs.ScaledOutlines

/-!
# Bounds of points

Points near each other have bounds near each other. The bounds that a mesh keeps are those of its vertices.
-/

namespace SolidScript

open Binary64

attribute [local instance] Trigonometry.scalar

def Spans (s : Set (Axis → ℝ)) (a : Axis) (low high : ℝ) : Prop :=
  (∀ p ∈ s, low ≤ p a ∧ p a ≤ high) ∧ (∃ p ∈ s, p a = low) ∧ ∃ p ∈ s, p a = high

variable {s t : Set (Axis → ℝ)} {a : Axis} {c low high low' high' : ℝ}

theorem Close.spans (h : Close c s t) (hs : Spans s a low high) (ht : Spans t a low' high') :
    |low - low'| ≤ c ∧ |high - high'| ≤ c := by
  obtain ⟨hbetween, ⟨p, hp, rfl⟩, q, hq, rfl⟩ := hs
  obtain ⟨hbetween', ⟨p', hp', rfl⟩, q', hq', rfl⟩ := ht
  obtain ⟨u, hu, hpu⟩ := h.1 p hp
  obtain ⟨v, hv, hqv⟩ := h.1 q hq
  obtain ⟨u', hu', hpu'⟩ := h.2 p' hp'
  obtain ⟨v', hv', hqv'⟩ := h.2 q' hq'
  -- The least point of one set has a point of the other one near it, which is no less than the least there.
  constructor
  · rw [abs_le]
    have := (abs_le.mp (hpu a)).1
    have := (abs_le.mp (hpu' a)).2
    have := (hbetween' u hu).1
    have := (hbetween u' hu').1
    constructor <;> linarith
  · rw [abs_le]
    have := (abs_le.mp (hqv a)).2
    have := (abs_le.mp (hqv' a)).1
    have := (hbetween' v hv).2
    have := (hbetween v' hv').2
    constructor <;> linarith

theorem Spans.image {f : (Axis → ℝ) → Axis → ℝ} (hs : Spans s a low high) (hf : ∀ p, f p a = p a) :
    Spans (f '' s) a low high := by
  obtain ⟨hbetween, ⟨p, hp, hlow⟩, q, hq, hhigh⟩ := hs
  refine ⟨?_, ⟨f p, ⟨p, hp, rfl⟩, (hf p).trans hlow⟩, f q, ⟨q, hq, rfl⟩, (hf q).trans hhigh⟩
  rintro _ ⟨r, hr, rfl⟩
  rw [hf]
  exact hbetween r hr

theorem Spans.mirrored (hs : Spans s .x low high) (center : Axis → ℝ) :
    Spans (facing (-1) center '' s) .x (2 * center .x - high) (2 * center .x - low) := by
  have hx (p : Axis → ℝ) : facing (-1) center p .x = 2 * center .x - p .x := by
    unfold facing
    rw [Function.update_self]
    ring
  obtain ⟨hbetween, ⟨p, hp, rfl⟩, q, hq, rfl⟩ := hs
  refine ⟨?_, ⟨_, ⟨q, hq, rfl⟩, hx q⟩, _, ⟨p, hp, rfl⟩, hx p⟩
  rintro _ ⟨r, hr, rfl⟩
  rw [hx]
  constructor
  · linarith [(hbetween r hr).2]
  · linarith [(hbetween r hr).1]

theorem foldl_choice {f : Float → Float → Float} {r : ℝ → ℝ → Prop} (hrefl : ∀ x, r x x)
    (htrans : ∀ x y z, r x y → r y z → r x z)
    (hf : ∀ x y : Float, x.isFinite = true → y.isFinite = true →
      (f x y = x ∨ f x y = y) ∧ r (value (f x y)) (value x) ∧ r (value (f x y)) (value y)) (xs : List Float) (x : Float)
    (hfinite : ∀ y ∈ x :: xs, y.isFinite = true) :
    xs.foldl f x ∈ x :: xs ∧ ∀ y ∈ x :: xs, r (value (xs.foldl f x)) (value y) := by
  induction xs generalizing x with
  | nil => exact ⟨List.mem_singleton_self x, fun y hy => List.mem_singleton.mp hy ▸ hrefl _⟩
  | cons z xs ih =>
    obtain ⟨hchoice, hx, hz⟩ := hf x z (hfinite x List.mem_cons_self) (hfinite z (List.mem_cons_of_mem _ List.mem_cons_self))
    have hfinite' : ∀ y ∈ f x z :: xs, y.isFinite = true := by
      intro y hy
      rcases List.mem_cons.mp hy with rfl | hy
      · rcases hchoice with h | h <;> rw [h]
        · exact hfinite x List.mem_cons_self
        · exact hfinite z (List.mem_cons_of_mem _ List.mem_cons_self)
      · exact hfinite y (List.mem_cons_of_mem _ (List.mem_cons_of_mem _ hy))
    obtain ⟨hmem, hall⟩ := ih (f x z) hfinite'
    have hfirst := hall (f x z) List.mem_cons_self
    refine ⟨?_, fun y hy => ?_⟩
    · rw [List.foldl_cons]
      rcases List.mem_cons.mp hmem with h | h
      · rw [h]
        rcases hchoice with h | h <;> rw [h]
        · exact List.mem_cons_self
        · exact List.mem_cons_of_mem _ List.mem_cons_self
      · exact List.mem_cons_of_mem _ (List.mem_cons_of_mem _ h)
    · rcases List.mem_cons.mp hy with rfl | hy
      · exact htrans _ _ _ hfirst hx
      · rcases List.mem_cons.mp hy with rfl | hy
        · exact htrans _ _ _ hfirst hz
        · exact hall y (List.mem_cons_of_mem _ hy)

theorem foldl_insert {α : Type} [Scalar α] (vertices : List (Vec3 α)) (b : Bounds α) (a : Axis) :
    (vertices.foldl Bounds.insert b).low.get a = (vertices.map (·.get a)).foldl Scalar.least (b.low.get a) ∧
      (vertices.foldl Bounds.insert b).high.get a = (vertices.map (·.get a)).foldl Scalar.greatest (b.high.get a) := by
  induction vertices generalizing b with
  | nil => exact ⟨rfl, rfl⟩
  | cons v vertices ih =>
    obtain ⟨hlow, hhigh⟩ := ih (b.insert v)
    rw [List.foldl_cons, hlow, hhigh]
    cases a <;> exact ⟨rfl, rfl⟩

section

variable [Trigonometry]

theorem least_choice (x y : Float) (hx : x.isFinite = true) (hy : y.isFinite = true) :
    (Scalar.least x y = x ∨ Scalar.least x y = y) ∧ value (Scalar.least x y) ≤ value x ∧
      value (Scalar.least x y) ≤ value y := by
  have hle : x ≤ x := (value_le_iff hx hx).mpr le_rfl
  unfold Scalar.least
  by_cases hlt : y < x
  · rw [if_neg fun h => h.2 hlt]
    exact ⟨.inr rfl, ((value_lt_iff hy hx).mp hlt).le, le_rfl⟩
  · rw [if_pos ⟨hle, hlt⟩]
    exact ⟨.inl rfl, le_rfl, not_lt.mp fun h => hlt ((value_lt_iff hy hx).mpr h)⟩

theorem greatest_choice (x y : Float) (hx : x.isFinite = true) (hy : y.isFinite = true) :
    (Scalar.greatest x y = x ∨ Scalar.greatest x y = y) ∧ value (Scalar.greatest x y) ≥ value x ∧
      value (Scalar.greatest x y) ≥ value y := by
  have hle : x ≤ x := (value_le_iff hx hx).mpr le_rfl
  unfold Scalar.greatest
  by_cases hlt : x < y
  · rw [if_neg fun h => h.2 hlt]
    exact ⟨.inr rfl, ((value_lt_iff hx hy).mp hlt).le, le_rfl⟩
  · rw [if_pos ⟨hle, hlt⟩]
    exact ⟨.inl rfl, le_rfl, not_lt.mp fun h => hlt ((value_lt_iff hx hy).mpr h)⟩

theorem least_infinity {x : Float} (hx : x.isFinite = true) :
    Scalar.least Scalar.infinity x = x ∧ Scalar.greatest (-Scalar.infinity) x = x := by
  obtain ⟨hnumber, hend⟩ := isFinite_iff.mp hx
  have hunits : units (1.0 / 0.0) = unitsEnd := units_infinity
  have hunits' : units (-(1.0 / 0.0)) = -unitsEnd := units_neg_infinity
  have hlt : x < 1.0 / 0.0 := lt_iff.mpr ⟨hnumber, nofun, by omega⟩
  have hlt' : -(1.0 / 0.0) < x := lt_iff.mpr ⟨nofun, hnumber, by omega⟩
  exact ⟨if_neg fun h => h.2 hlt, if_neg fun h => h.2 hlt'⟩

theorem spans_bounds {vertices : List (Vec3 Float)} (hne : vertices ≠ [])
    (hfinite : ∀ v ∈ vertices, ∀ a, (v.get a).isFinite = true) (a : Axis) :
    ((Bounds.ofPoints vertices).low.get a).isFinite = true ∧ ((Bounds.ofPoints vertices).high.get a).isFinite = true ∧
      Spans (positions vertices) a (value ((Bounds.ofPoints vertices).low.get a))
        (value ((Bounds.ofPoints vertices).high.get a)) := by
  obtain ⟨v, rest, rfl⟩ := List.exists_cons_of_ne_nil hne
  have hall : ∀ x ∈ v.get a :: rest.map (·.get a), x.isFinite = true := by
    intro x hx
    obtain ⟨w, hw, rfl⟩ := List.mem_map.mp (show x ∈ (v :: rest).map (·.get a) from hx)
    exact hfinite w hw a
  have hfirst := least_infinity (hfinite v List.mem_cons_self a)
  have hinf : (Bounds.empty : Bounds Float).low.get a = Scalar.infinity ∧
      (Bounds.empty : Bounds Float).high.get a = -Scalar.infinity := by cases a <;> exact ⟨rfl, rfl⟩
  -- Anything is between the bounds of no points, so that the first point takes their place.
  have hlow : (Bounds.ofPoints (v :: rest)).low.get a = (rest.map (·.get a)).foldl Scalar.least (v.get a) := by
    unfold Bounds.ofPoints
    rw [(foldl_insert _ _ a).1, List.map_cons, List.foldl_cons, hinf.1, hfirst.1]
  have hhigh : (Bounds.ofPoints (v :: rest)).high.get a = (rest.map (·.get a)).foldl Scalar.greatest (v.get a) := by
    unfold Bounds.ofPoints
    rw [(foldl_insert _ _ a).2, List.map_cons, List.foldl_cons, hinf.2, hfirst.2]
  obtain ⟨hleast, hbelow⟩ := foldl_choice le_refl (fun _ _ _ => le_trans) least_choice _ _ hall
  obtain ⟨hgreatest, habove⟩ := foldl_choice (r := (· ≥ ·)) le_refl (fun _ _ _ => ge_trans) greatest_choice
    _ _ hall
  rw [hlow, hhigh]
  refine ⟨hall _ hleast, hall _ hgreatest, ?_, ?_, ?_⟩
  · rintro _ ⟨w, hw, rfl⟩
    have hw : w.get a ∈ v.get a :: rest.map (·.get a) := List.mem_map_of_mem (f := (·.get a)) hw
    exact ⟨hbelow _ hw, habove _ hw⟩
  · obtain ⟨w, hw, hvalue⟩ := List.mem_map.mp (show _ ∈ (v :: rest).map (·.get a) from hleast)
    exact ⟨w.position, ⟨w, hw, rfl⟩, congrArg value hvalue⟩
  · obtain ⟨w, hw, hvalue⟩ := List.mem_map.mp (show _ ∈ (v :: rest).map (·.get a) from hgreatest)
    exact ⟨w.position, ⟨w, hw, rfl⟩, congrArg value hvalue⟩

theorem spans_vertices {m : Mesh Float} (hne : m.vertices.toList ≠ [])
    (hfinite : ∀ v ∈ m.vertices, ∀ a, (v.get a).isFinite = true) (a : Axis) :
    (m.bounds.low.get a).isFinite = true ∧ (m.bounds.high.get a).isFinite = true ∧
      Spans (positions m.vertices.toList) a (value (m.bounds.low.get a)) (value (m.bounds.high.get a)) :=
  spans_bounds hne (fun v hv => hfinite v (Array.mem_toList_iff.mp hv)) a

end

end SolidScript
