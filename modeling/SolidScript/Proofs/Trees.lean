import SolidScript.Proofs.Termination

/-! # Trees as a whole -/

namespace SolidScript

/-- What a plane makes of a polygon for the child on a branch. -/
def Plane.handed {α : Type} [Scalar α] (p : Plane α) (branch : Branch) (q : Polygon α) : List (Polygon α) :=
  match branch with
  | .front => (p.split q).front ++ (p.split q).coplanarFront
  | .back => (p.split q).back ++ (p.split q).coplanarBack

namespace BspTree

open Construction

variable {α : Type}

/-! ## Well-formed trees -/

/-- The nodes hang together below the first, which alone may be without a plane. Then it has no children. -/
def WellFormed (t : BspTree α) : Prop := Growing ⟨t, []⟩

theorem WellFormed.size_pos {t : BspTree α} (h : t.WellFormed) : 0 < t.nodes.size :=
  List.mem_range.mp (h.rooted.linked.mem_iff.mp List.mem_cons_self)

theorem WellFormed.growing {t : BspTree α} (h : t.WellFormed) (ps : List (Polygon α)) :
    Growing ⟨t, [(0, ps)]⟩ where
  rooted := h.rooted
  bare := by
    intro i hi hplane
    obtain ⟨hfresh, hroot | ⟨qs, -, hmem⟩⟩ := h.bare i hi hplane
    · exact ⟨hfresh, Or.inl hroot⟩
    · cases hmem
  inside := by
    intro w hw
    rw [List.mem_singleton.mp hw]
    exact h.size_pos
  apart := List.pairwise_singleton _ _

theorem WellFormed.untouched {t : BspTree α} (h : t.WellFormed) (ps : List (Polygon α)) :
    Untouched t.nodes.size ⟨t, [(0, ps)]⟩ where
  old_le := Nat.le_refl _
  below := by
    intro w hw
    rw [List.mem_singleton.mp hw]
    refine Or.inr fun j hj => ?_
    rcases Relation.ReflTransGen.cases_tail hj with rfl | ⟨m, -, hlink⟩
    · exact h.size_pos
    · exact h.rooted.lt_size hlink

theorem wellFormed_root : (root : BspTree α).WellFormed where
  rooted :=
    { linked := List.Perm.refl _
      down := by
        intro i j hlink
        have hi : i < 1 := lt_size_of_link hlink
        have hzero : i = 0 := by omega
        subst hzero
        exact absurd hlink (not_link_of_fresh rfl) }
  bare := by
    intro i hi _
    have hi : i < 1 := hi
    have hzero : i = 0 := by omega
    subst hzero
    exact ⟨rfl, Or.inl rfl⟩
  inside := by simp
  apart := List.Pairwise.nil

/-! ## Changing all nodes -/

theorem node_map (t : BspTree α) (f : BspNode α → BspNode α) (hfresh : f .fresh = .fresh) (i : Nat) :
    node ⟨t.nodes.map f⟩ i = f (t.node i) := by
  unfold node
  by_cases hi : i < t.nodes.size
  · simp [hi]
  · simp [Nat.le_of_not_lt hi, hfresh]

theorem WellFormed.map {t : BspTree α} (h : t.WellFormed) (f : BspNode α → BspNode α)
    (hlinks : ∀ n, (f n).links.Perm n.links) (hplane : ∀ n, (f n).plane = none → n.plane = none)
    (hfresh : f .fresh = .fresh) : WellFormed ⟨t.nodes.map f⟩ where
  rooted :=
    { linked := by
        have hall : (links ⟨t.nodes.map f⟩).Perm t.links := by
          unfold links
          dsimp only
          rw [Array.toList_map, List.flatMap_map]
          exact List.Perm.flatMap_left _ fun n _ => hlinks n
        rw [Array.size_map]
        exact (hall.cons 0).trans h.rooted.linked
      down := by
        intro i j hlink
        unfold Link at hlink
        rw [node_map t f hfresh, (hlinks _).mem_iff] at hlink
        exact h.rooted.down i j hlink }
  bare := by
    intro i hi hnone
    rw [Array.size_map] at hi
    rw [node_map t f hfresh] at hnone ⊢
    obtain ⟨hbare, hroot⟩ := h.bare i hi (hplane _ hnone)
    exact ⟨by rw [hbare, hfresh], hroot⟩
  inside := by simp
  apart := List.Pairwise.nil

variable [Scalar α]

theorem wellFormed_invert {t : BspTree α} (h : t.WellFormed) : t.invert.WellFormed := by
  refine h.map BspNode.flip (fun n => ?_) (fun n hn => ?_) rfl
  · exact List.perm_append_comm
  · exact Option.map_eq_none_iff.mp hn

/-! ## Clipping -/

def clipChild (t : BspTree α) (i : Nat) (branch : Branch) (ps : List (Polygon α)) (out : Array (Polygon α)) :
    Array (Polygon α) :=
  match (t.node i).child? branch with
  | some c => if i < c ∧ c < t.nodes.size then t.clipFrom c ps out else out
  | none => out

theorem clipChild_cases (t : BspTree α) (i : Nat) (branch : Branch) :
    (∃ c, (t.node i).child? branch = some c ∧ i < c ∧ c < t.nodes.size ∧
      ∀ ps out, t.clipChild i branch ps out = t.clipFrom c ps out) ∨
    ∀ ps out, t.clipChild i branch ps out = out := by
  unfold clipChild
  cases hc : (t.node i).child? branch with
  | none => exact Or.inr fun _ _ => rfl
  | some c =>
    by_cases hlater : i < c ∧ c < t.nodes.size
    · exact Or.inl ⟨c, rfl, hlater.1, hlater.2, fun _ _ => if_pos hlater⟩
    · exact Or.inr fun _ _ => if_neg hlater

theorem clipFrom_of_bare (t : BspTree α) {i : Nat} (h : (t.node i).plane = none) (ps : List (Polygon α))
    (out : Array (Polygon α)) : t.clipFrom i ps out = out ++ ps := by
  rw [clipFrom, h]

/-- The back child comes first. Without a front child, what goes to the front is outside. -/
theorem clipFrom_of_plane (t : BspTree α) {i : Nat} {plane : Plane α} (h : (t.node i).plane = some plane)
    (ps : List (Polygon α)) (out : Array (Polygon α)) :
    t.clipFrom i ps out =
      t.clipChild i .front (ps.flatMap (plane.handed .front))
        (t.clipChild i .back (ps.flatMap (plane.handed .back))
          (if (t.node i).front.isSome then out else out ++ ps.flatMap (plane.handed .front))) := by
  rw [clipFrom, h]
  simp only [List.flatMap_map]
  unfold clipChild BspNode.child?
  cases (t.node i).front <;> cases (t.node i).back <;> rfl

theorem clipFrom_nil (t : BspTree α) (i : Nat) (out : Array (Polygon α)) : t.clipFrom i [] out = out := by
  induction hleft : t.nodes.size - i using Nat.strongRecOn generalizing i out with
  | _ left ih =>
    have hchild (branch : Branch) (out : Array (Polygon α)) : t.clipChild i branch [] out = out := by
      rcases t.clipChild_cases i branch with ⟨c, -, hlater, hsize, heq⟩ | heq
      · rw [heq]
        exact ih (t.nodes.size - c) (by omega) c out rfl
      · exact heq _ _
    cases hplane : (t.node i).plane with
    | none => exact (t.clipFrom_of_bare hplane [] out).trans Array.append_empty
    | some plane =>
      rw [t.clipFrom_of_plane hplane, List.flatMap_nil, List.flatMap_nil, hchild, hchild]
      split
      · rfl
      · exact Array.append_empty

theorem clip_nil (t : BspTree α) : t.clip [] = [] := by
  unfold clip
  rw [clipFrom_nil]

theorem wellFormed_clipTo {t : BspTree α} (h : t.WellFormed) (other : BspTree α) : (t.clipTo other).WellFormed := by
  refine h.map _ (fun n => ?_) (fun n hn => hn) ?_
  · exact List.Perm.refl _
  · show (⟨none, none, none, other.clip []⟩ : BspNode α) = .fresh
    rw [clip_nil]
    rfl

theorem clip_of_bare {t : BspTree α} (h : (t.node 0).plane = none) (ps : List (Polygon α)) : t.clip ps = ps := by
  unfold clip
  rw [t.clipFrom_of_bare h]
  simp

theorem clipTo_of_bare (t : BspTree α) {other : BspTree α} (h : (other.node 0).plane = none) :
    t.clipTo other = t := by
  unfold clipTo
  have hsame : (fun n : BspNode α => { n with polygons := other.clip n.polygons }) = id := by
    funext n
    rw [clip_of_bare h]
    rfl
  rw [hsame, Array.map_id]

/-! ## Inserting -/

theorem WellFormed.insert {t t' : BspTree α} (h : t.WellFormed) {ps : List (Polygon α)}
    (hinsert : t.insert ps = some t') : t'.WellFormed := by
  obtain ⟨n, hwaiting, rfl⟩ := (finish_eq_some_iff _ _).mp hinsert
  have hgrowing := (h.growing ps).iterate n
  generalize step^[n] ⟨t, [(0, ps)]⟩ = c at hwaiting hgrowing
  obtain ⟨t', waiting⟩ := c
  dsimp only at hwaiting
  subst hwaiting
  exact hgrowing

theorem wellFormed_ofPolygons {ps : List (Polygon α)} {t : BspTree α} (h : ofPolygons ps = some t) : t.WellFormed :=
  wellFormed_root.insert h

/-- On the way down some polygon goes astray. -/
def Strays (t : BspTree α) (ps : List (Polygon α)) : Prop := ∃ n, (step^[n] ⟨t, [(0, ps)]⟩).Astray

/-- Polygons can be inserted unless one of them, or a part of one, goes astray on the way. -/
theorem insert_isSome_iff {t : BspTree α} (h : t.WellFormed) (ps : List (Polygon α)) :
    (t.insert ps).isSome = true ↔ ¬ t.Strays ps := by
  unfold insert Strays
  rw [finish_isSome_iff (h.growing ps) (h.untouched ps), not_exists]

theorem insert_of_run {t : BspTree α} {ps : List (Polygon α)} (n : Nat) (h : (step^[n] ⟨t, [(0, ps)]⟩).waiting = []) :
    t.insert ps = some (step^[n] ⟨t, [(0, ps)]⟩).tree :=
  (finish_eq_some_iff _ _).mpr ⟨n, h, rfl⟩

theorem insert_nil (t : BspTree α) : t.insert [] = some t := insert_of_run 1 rfl

theorem root_strays {q : Polygon α} (hq : ¬ q.plane.Contains q) (rest : List (Polygon α)) :
    (root : BspTree α).Strays (q :: rest) :=
  ⟨0, 0, q, rest, List.mem_cons_self, rfl, hq⟩

end BspTree

end SolidScript
