import SolidScript.Proofs.Trees

/-! # What becomes of polygons in a tree

A tree cuts polygons and moves the parts around. Nothing is lost on the way, and nothing is added.
-/

namespace SolidScript

variable {α : Type} [Scalar α]

/-- The second list has the polygons of the first, of which some are cut in two along planes that divide
them. A polygon may be cut as seen from the other side. -/
inductive Dissection : List (Polygon α) → List (Polygon α) → Prop
  | perm {ps qs : List (Polygon α)} (h : ps.Perm qs) : Dissection ps qs
  | cut {q : Polygon α} (plane : Plane α) (h : plane.Divides q) (rest : List (Polygon α)) :
    Dissection (q :: rest) (plane.part .front q :: plane.part .back q :: rest)
  | cutTurned {q : Polygon α} (plane : Plane α) (h : plane.Divides q.flip) (rest : List (Polygon α)) :
    Dissection (q :: rest) ((plane.part .front q.flip).flip :: (plane.part .back q.flip).flip :: rest)
  | trans {ps qs rs : List (Polygon α)} (h : Dissection ps qs) (h' : Dissection qs rs) : Dissection ps rs

namespace Dissection

variable {ps qs rs : List (Polygon α)}

theorem refl (ps : List (Polygon α)) : Dissection ps ps := perm (List.Perm.refl ps)

theorem append_right (h : Dissection ps qs) (rest : List (Polygon α)) : Dissection (ps ++ rest) (qs ++ rest) := by
  induction h with
  | perm h => exact perm (h.append_right rest)
  | cut plane h others => exact cut plane h (others ++ rest)
  | cutTurned plane h others => exact cutTurned plane h (others ++ rest)
  | trans _ _ ih ih' => exact ih.trans ih'

theorem append_left (h : Dissection ps qs) (rest : List (Polygon α)) : Dissection (rest ++ ps) (rest ++ qs) :=
  (perm List.perm_append_comm).trans ((h.append_right rest).trans (perm List.perm_append_comm))

theorem eq_nil_iff (h : Dissection ps qs) : qs = [] ↔ ps = [] := by
  induction h with
  | perm h => exact ⟨fun hq => (hq ▸ h).eq_nil, fun hp => (hp ▸ h).symm.eq_nil⟩
  | cut | cutTurned => simp
  | trans _ _ ih ih' => exact ih'.trans ih

theorem turned (hflip : ∀ q : Polygon α, q.flip.flip = q) (h : Dissection ps qs) :
    Dissection (ps.map Polygon.flip) (qs.map Polygon.flip) := by
  induction h with
  | perm h => exact perm (h.map _)
  | @cut q plane h rest =>
    have hdivides : plane.Divides q.flip.flip := by rw [hflip]; exact h
    have hcut := cutTurned plane hdivides (rest.map Polygon.flip)
    rw [hflip] at hcut
    exact hcut
  | @cutTurned q plane h rest =>
    have hcut := cut plane h (rest.map Polygon.flip)
    simp only [List.map_cons, hflip]
    exact hcut
  | trans _ _ ih ih' => exact ih.trans ih'

end Dissection

/-! ## Splitting -/

def Pieces.all (pieces : Pieces α) : List (Polygon α) :=
  pieces.coplanarFront ++ pieces.coplanarBack ++ (pieces.back ++ pieces.front)

theorem Plane.dissection_split (p : Plane α) (q : Polygon α) : Dissection [q] (p.split q).all := by
  rcases p.split_cases q with ⟨-, h | h⟩ | ⟨-, h | h⟩ | ⟨-, hdivides, h⟩
  · rw [h]; exact Dissection.refl [q]
  · rw [h]; exact Dissection.refl [q]
  · rw [h]; exact Dissection.refl [q]
  · rw [h]; exact Dissection.refl [q]
  · rw [h]
    exact (Dissection.cut p hdivides []).trans (.perm (List.Perm.swap _ _ []))

omit [Scalar α] in
theorem Pieces.all_append (pieces more : Pieces α) : (pieces.append more).all.Perm (pieces.all ++ more.all) := by
  rw [← Multiset.coe_eq_coe]
  simp only [Pieces.all, Pieces.append, ← Multiset.coe_add]
  abel

theorem Plane.dissection_splitAll (p : Plane α) (qs : List (Polygon α)) : Dissection qs (p.splitAll qs).all := by
  induction qs with
  | nil => exact Dissection.refl []
  | cons q qs ih =>
    have hall : (p.splitAll (q :: qs)).all.Perm ((p.split q).all ++ (p.splitAll qs).all) := Pieces.all_append _ _
    have hq : Dissection (q :: qs) ((p.split q).all ++ qs) := (p.dissection_split q).append_right qs
    exact hq.trans ((ih.append_left _).trans (.perm hall.symm))

namespace BspTree

/-! ## Building -/

omit [Scalar α] in
theorem flatten_filter_ne_nil (l : List (List (Polygon α))) : (l.filter fun ps => !ps.isEmpty).flatten = l.flatten := by
  induction l with
  | nil => rfl
  | cons ps l ih =>
    rw [List.filter_cons]
    cases ps with
    | nil => exact ih
    | cons p ps => exact congrArg (p :: ps ++ ·) ih

namespace Construction

/-- The polygons of a tree that is being built, and those that wait. -/
def polygons (c : Construction α) : List (Polygon α) := c.tree.polygons ++ c.waiting.flatMap Prod.snd

/-- A step does nothing to the polygons, or it cuts those of one list at a plane. -/
theorem polygons_step {c : Construction α} (h : c.Growing) :
    c.step.polygons = c.polygons ∨ ∃ (plane : Plane α) (served others : List (Polygon α)),
      c.polygons.Perm (served ++ others) ∧ c.step.polygons.Perm ((plane.splitAll served).all ++ others) := by
  obtain ⟨t, waiting⟩ := c
  match waiting, h with
  | [], _ => exact Or.inl rfl
  | (_, []) :: _, _ => exact Or.inl rfl
  | (i, first :: rest) :: waiting, h =>
    have hi : i < t.nodes.size := h.inside _ List.mem_cons_self
    have hs := settle_spec t hi first rest
    generalize (t.node i).plane.getD first.plane = plane at hs
    refine Or.inr ⟨plane, first :: rest, t.polygons ++ waiting.flatMap Prod.snd, ?_, ?_⟩
    · exact List.perm_append_comm_assoc _ _ _
    · generalize plane.splitAll (first :: rest) = pieces at hs
      obtain ⟨new, hextends, -⟩ := hs.grown
      -- What lies in the plane stays at the node, and the rest is handed to its children.
      have hkept : (t.settle i first rest).1.polygons.Perm
          (t.polygons ++ (pieces.coplanarFront ++ pieces.coplanarBack)) :=
        hextends.flatMap_perm hi BspNode.polygons rfl (by rw [hs.polygons, List.append_assoc])
      have hhanded : (t.settle i first rest).2.flatMap Prod.snd = pieces.back ++ pieces.front := by
        rw [List.flatMap_def, hs.lists, flatten_filter_ne_nil]
        simp
      show (polygons ⟨(t.settle i first rest).1, (t.settle i first rest).2 ++ waiting⟩).Perm _
      unfold polygons Pieces.all
      dsimp only
      rw [List.flatMap_append, hhanded]
      refine (hkept.append_right _).trans ?_
      -- Only the order differs, which multisets do not have.
      rw [← Multiset.coe_eq_coe]
      simp only [← Multiset.coe_add]
      abel

end Construction

/-- What follows on lists of polygons when they are put in another order and cut at planes follows on trees. -/
structure Follows (R : List (Polygon α) → List (Polygon α) → Prop) : Prop where
  of_perm {ps qs : List (Polygon α)} (h : ps.Perm qs) : R ps qs
  trans {ps qs rs : List (Polygon α)} (h : R ps qs) (h' : R qs rs) : R ps rs
  append_right {ps qs : List (Polygon α)} (h : R ps qs) (rest : List (Polygon α)) : R (ps ++ rest) (qs ++ rest)
  splitAll (plane : Plane α) (ps : List (Polygon α)) : R ps (plane.splitAll ps).all

namespace Follows

variable {R : List (Polygon α) → List (Polygon α) → Prop}

theorem step (hR : Follows R) {c : Construction α} (h : c.Growing) : R c.polygons c.step.polygons := by
  rcases Construction.polygons_step h with hsame | ⟨plane, served, others, hbefore, hafter⟩
  · rw [hsame]
    exact hR.of_perm (List.Perm.refl _)
  · have hcut := hR.append_right (hR.splitAll plane served) others
    exact hR.trans (hR.of_perm hbefore) (hR.trans hcut (hR.of_perm hafter.symm))

theorem iterate (hR : Follows R) {c : Construction α} (h : c.Growing) (n : Nat) :
    R c.polygons (Construction.step^[n] c).polygons := by
  induction n generalizing c with
  | zero => exact hR.of_perm (List.Perm.refl _)
  | succ n ih => exact hR.trans (hR.step h) (ih h.step)

theorem insert (hR : Follows R) {t t' : BspTree α} (h : t.WellFormed) {ps : List (Polygon α)}
    (hinsert : t.insert ps = some t') : R (t.polygons ++ ps) t'.polygons := by
  obtain ⟨n, hwaiting, rfl⟩ := (Construction.finish_eq_some_iff _ _).mp hinsert
  have hrun := hR.iterate (h.growing ps) n
  unfold Construction.polygons at hrun
  rw [hwaiting] at hrun
  simpa using hrun

end Follows

theorem follows_dissection : Follows (Dissection (α := α)) where
  of_perm := .perm
  trans := .trans
  append_right := Dissection.append_right
  splitAll := Plane.dissection_splitAll

/-- A tree keeps its polygons and those that are inserted, cut along its planes. -/
theorem WellFormed.insert_dissection {t t' : BspTree α} (h : t.WellFormed) {ps : List (Polygon α)}
    (hinsert : t.insert ps = some t') : Dissection (t.polygons ++ ps) t'.polygons :=
  follows_dissection.insert h hinsert

theorem ofPolygons_dissection {ps : List (Polygon α)} {t : BspTree α} (h : ofPolygons ps = some t) :
    Dissection ps t.polygons := wellFormed_root.insert_dissection h

end BspTree

end SolidScript
