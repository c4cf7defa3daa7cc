import Mathlib
import SolidScript.Profile.EarClipping

/-!
# Corners of cut polygons

Each corner of a triangle that ear clipping gives is a place in the polygon.
-/

namespace SolidScript

open Scalar

namespace EarClipping

variable {α : Type}

def Corners.Below (n : Nat) (t : Corners) : Prop := t.1 < n ∧ t.2.1 < n ∧ t.2.2 < n

/-- Nodes of a polygon with so many corners. -/
def Ring.Below (n : Nat) (ring : Ring α) : Prop := ∀ node ∈ ring, node.index < n

section Rings

variable {n : Nat} {a b : Node α} {ring other : Ring α}

theorem Ring.Below.subset (h : Ring.Below n ring) (hsub : other ⊆ ring) : Ring.Below n other := fun node hnode =>
  h node (hsub hnode)

theorem mem_before (head : Node α) (rest : Ring α) : before head rest ∈ head :: rest := by
  unfold before
  rw [List.getLastD_eq_getLast?]
  cases hlast : rest.getLast? with
  | none => exact List.mem_cons_self
  | some last => exact List.mem_cons_of_mem head (List.mem_of_getLast? hlast)

end Rings

variable [Scalar α]

/-- What is left of a ring and the triangles so far, all over a polygon with so many corners. -/
def Below (n : Nat) (state : Ring α × Array Corners) : Prop :=
  Ring.Below n state.1 ∧ ∀ t ∈ state.2, Corners.Below n t

section Steps

variable {n : Nat} {ring : Ring α} {out : Array Corners}

theorem below_push {t : Corners} (hout : ∀ t ∈ out, Corners.Below n t) (ht : t.Below n) :
    ∀ t' ∈ out.push t, Corners.Below n t' := by
  intro t' ht'
  rcases Array.mem_push.mp ht' with hold | rfl
  · exact hout t' hold
  · exact ht

theorem below_clip (grid : Option α) (tried : Nat) (h : Below n (ring, out)) : Below n (clip grid ring tried out) := by
  fun_induction clip grid ring tried out with
  | case1 tried out ear next rest hlt hear previous ih =>
    obtain ⟨hring, hout⟩ := h
    refine ih ⟨hring.subset (by simp), below_push hout ⟨?_, ?_, ?_⟩⟩
    · exact hring _ (mem_before ear (next :: rest))
    · exact hring ear (by simp)
    · exact hring next (by simp)
  | case2 tried out ear next rest hlt hear ih => exact ih ⟨h.1.subset (by simp), h.2⟩
  | case3 => exact h
  | case4 => exact h

theorem below_dropFlat {left : Nat} (h : Ring.Below n ring) : Ring.Below n (dropFlat ring left) := by
  fun_induction dropFlat ring left with
  | case1 p next rest left previous hflat kept ih =>
    apply ih
    apply h.subset
    intro node hnode
    rcases List.mem_cons.mp hnode with rfl | hkept
    · exact mem_before p (next :: rest)
    · exact List.mem_cons_of_mem p (List.mem_of_mem_dropLast hkept)
  | case2 p next rest left previous hflat ih => exact ih (h.subset (by simp))
  | case3 => exact h

theorem mem_of_knot? {p next b a : Node α} {rest : Ring α} (h : knot? p next b rest = some a) : a ∈ b :: rest := by
  unfold knot? at h
  dsimp only at h
  split at h
  · cases h
    exact mem_before b rest
  · cases h

theorem below_untie {passed : Nat} (h : Below n (ring, out)) : Below n (untie ring passed out) := by
  fun_induction untie ring passed out with
  | case1 passed out p next b rest hlt a hknot ih =>
    obtain ⟨hring, hout⟩ := h
    have hsub : rest ⊆ p :: next :: b :: rest := fun node hnode => by simp [hnode]
    have ha : a ∈ p :: next :: b :: rest := by
      have := mem_of_knot? hknot
      simp only [List.mem_cons] at this ⊢
      tauto
    refine ih ⟨hring.subset (List.append_subset.mpr (by simp [hsub])), below_push hout ⟨?_, ?_, ?_⟩⟩
    · exact hring a ha
    · exact hring p (by simp)
    · exact hring b (by simp)
  | case2 passed out p next b rest hlt hknot ih =>
    have hsub : rest ⊆ p :: next :: b :: rest := fun node hnode => by simp [hnode]
    exact ih ⟨h.1.subset (by simp [hsub]), h.2⟩
  | case3 => exact h
  | case4 => exact h

omit [Scalar α] in
theorem mem_of_mem_triples {nodes : List (Node α)} {o p q : Node α} (h : (o, p, q) ∈ triples nodes) : p ∈ nodes := by
  fun_induction triples nodes with
  | case1 a b c rest ih =>
    rcases List.mem_cons.mp h with heq | hrest
    · cases heq
      simp
    · exact List.mem_cons_of_mem a (ih hrest)
  | case2 => cases h

theorem below_splitHead? (h : Ring.Below n ring) {one other : Ring α} (hsplit : splitHead? ring = some (one, other)) :
    Ring.Below n one ∧ Ring.Below n other := by
  unfold splitHead? at hsplit
  split at hsplit
  · cases hsplit
  · rename_i head rest
    obtain ⟨⟨⟨o, p, q⟩, i⟩, hfind, heq⟩ := Option.map_eq_some_iff.mp hsplit
    cases heq
    have htriple := List.mem_of_find?_eq_some hfind
    have hp : p ∈ rest := mem_of_mem_triples (List.fst_mem_of_mem_zipIdx htriple)
    refine ⟨h.subset ?_, h.subset ?_⟩
    · exact List.cons_subset_cons head (List.drop_subset _ _)
    · refine List.cons_subset.mpr ⟨List.mem_cons_of_mem head hp, ?_⟩
      exact List.cons_subset_cons head (List.take_subset _ _)

theorem below_split? (h : Ring.Below n ring) {one other : Ring α} (hsplit : split? ring = some (one, other)) :
    Ring.Below n one ∧ Ring.Below n other := by
  obtain ⟨turned, hturned, hhead⟩ := List.exists_of_findSome?_eq_some hsplit
  obtain ⟨i, -, rfl⟩ := List.mem_map.mp hturned
  refine below_splitHead? (h.subset ?_) hhead
  exact List.append_subset.mpr ⟨List.drop_subset _ _, List.take_subset _ _⟩

theorem below_numbered? (h : Ring.Below n ring) {perUnit : α} {numbered : Ring α}
    (hnumbered : numbered? perUnit ring = some numbered) : Ring.Below n numbered := by
  induction ring generalizing numbered with
  | nil =>
    cases hnumbered
    exact h
  | cons node rest ih =>
    unfold numbered? at hnumbered ih
    simp only [List.mapM_cons, Option.bind_eq_bind, Option.bind_eq_some_iff, Option.pure_def,
      Option.some.injEq] at hnumbered
    obtain ⟨node', ⟨cell, -, rfl⟩, rest', hrest, rfl⟩ := hnumbered
    intro other hother
    rcases List.mem_cons.mp hother with rfl | hmem
    · exact h node List.mem_cons_self
    · exact ih (h.subset (List.subset_cons_self node rest)) hrest other hmem

theorem below_onGrid? (h : Ring.Below n ring) {grid : Option α} {placed : Ring α}
    (hplaced : onGrid? grid ring = some placed) : Ring.Below n placed := by
  cases grid with
  | none =>
    cases hplaced
    exact h
  | some perUnit => exact below_numbered? h hplaced

theorem below_clipRepaired (grid : Option α) (h : Below n (ring, out)) : Below n (clipRepaired grid ring out) := by
  have hclipped := below_clip grid 0 h
  unfold clipRepaired
  generalize clip grid ring 0 out = clipped at hclipped ⊢
  obtain ⟨ring, out⟩ := clipped
  have hdrop : Below n (dropFlat ring ring.length, out) := ⟨below_dropFlat hclipped.1, hclipped.2⟩
  have hdropped := below_clip grid 0 hdrop
  dsimp only
  split
  · exact hclipped
  · split
    · exact hdropped
    · exact below_clip grid 0 (below_untie hdropped)

theorem below_cut (depth : Nat) {grid : Option α} (h : Below n (ring, out)) {found : Array Corners}
    (hcut : cut depth grid ring out = some found) : ∀ t ∈ found, Corners.Below n t := by
  induction depth generalizing grid ring out found with
  | zero =>
    obtain ⟨placed, hplaced, rfl⟩ := Option.map_eq_some_iff.mp hcut
    exact (below_clipRepaired grid ⟨below_onGrid? h.1 hplaced, h.2⟩).2
  | succ depth ih =>
    unfold cut at hcut
    obtain ⟨placed, hplaced, hcut⟩ := Option.bind_eq_some_iff.mp hcut
    have hplaced' : Below n (placed, out) := ⟨below_onGrid? h.1 hplaced, h.2⟩
    have hclipped := below_clipRepaired grid hplaced'
    dsimp only at hcut
    split at hcut
    · cases hcut
      exact hclipped.2
    · split at hcut
      · rename_i one other hsplit
        obtain ⟨hone, hother⟩ := below_split? hclipped.1 hsplit
        obtain ⟨half, hhalf, hcut⟩ := Option.bind_eq_some_iff.mp hcut
        -- The second half is cut after the first one, into what that has left.
        exact ih ⟨below_dropFlat hother, ih ⟨below_dropFlat hone, hclipped.2⟩ hhalf⟩ hcut
      · cases hcut
        exact hclipped.2

end Steps

/-! ## Polygons -/

theorem below_ringOf (points : List (Vec2 α)) : Ring.Below points.length (ringOf points) := by
  unfold ringOf
  extract_lets nodes placed
  have hnodes : Ring.Below points.length nodes := by
    intro node hnode
    obtain ⟨⟨p, i⟩, hmem, rfl⟩ := List.mem_map.mp hnode
    exact List.snd_lt_of_mem_zipIdx hmem
  have hplaced : Ring.Below points.length placed := by
    unfold placed
    split
    · exact hnodes
    · exact hnodes.subset (List.reverse_subset.mpr (List.Subset.refl _))
  split
  · rename_i last _ _ _ hlast _
    have hmem : last ∈ placed := by
      rw [← List.mem_reverse, hlast]
      exact List.mem_cons_self
    split
    · exact hplaced.subset (List.dropLast_subset placed)
    · exact hplaced.subset (List.cons_subset.mpr ⟨hmem, List.dropLast_subset placed⟩)
  · simp [Ring.Below]

theorem below_triangles? {points : List (Vec2 α)} {triangles : List Corners} (h : triangles? points = some triangles) :
    ∀ t ∈ triangles, Corners.Below points.length t := by
  have hring := below_ringOf points
  have hfound {ring : Ring α} (hring : Ring.Below points.length ring) {grid : Option α}
      (hcut : (cut points.length grid ring #[]).map Array.toList = some triangles) :
      ∀ t ∈ triangles, Corners.Below points.length t := by
    obtain ⟨found, hfound, rfl⟩ := Option.map_eq_some_iff.mp hcut
    intro t ht
    exact below_cut _ ⟨hring, by simp⟩ hfound t (Array.mem_toList_iff.mp ht)
  unfold triangles? at h
  dsimp only at h
  split at h
  · exact hfound hring (by simpa [Option.map_eq_bind] using h)
  · refine hfound ?_ (by simpa [Option.map_eq_bind] using h)
    intro node hnode
    obtain ⟨old, hold, rfl⟩ := List.mem_map.mp hnode
    exact hring old hold

theorem below_earcut {points : List (Vec2 α)} {triangles : List Corners} (h : earcut points = .ok triangles) :
    ∀ t ∈ triangles, Corners.Below points.length t := by
  unfold earcut at h
  split at h
  · cases h
  · split at h
    · cases h
    · rename_i hfound
      cases h
      exact below_triangles? hfound

end EarClipping

end SolidScript
