import Mathlib
import SolidScript.Proofs.Splitting
import SolidScript.Solid.Bsp

/-! # How trees grow -/

namespace SolidScript

open Relation

/-! ## Nodes -/

namespace BspNode

variable {α : Type}

def links (n : BspNode α) : List Nat := n.front.toList ++ n.back.toList

@[simp]
theorem links_fresh : (fresh : BspNode α).links = [] := rfl

@[simp]
theorem plane_attach (n : BspNode α) (b : Branch) (c : Nat) : (n.attach b c).plane = n.plane := by
  cases b <;> rfl

@[simp]
theorem polygons_attach (n : BspNode α) (b : Branch) (c : Nat) : (n.attach b c).polygons = n.polygons := by
  cases b <;> rfl

theorem child?_attach (n : BspNode α) (b b' : Branch) (c : Nat) :
    (n.attach b c).child? b' = if b' = b then some c else n.child? b' := by
  cases b <;> cases b' <;> rfl

theorem links_attach {n : BspNode α} {b : Branch} (h : n.child? b = none) (c : Nat) :
    (n.attach b c).links.Perm (n.links ++ [c]) := by
  unfold links
  cases b with
  | front =>
    have hfront : n.front = none := h
    simpa [attach, hfront] using (List.perm_append_singleton c n.back.toList).symm
  | back =>
    have hback : n.back = none := h
    simp [attach, hback]

end BspNode

namespace BspTree

variable {α : Type}

theorem node_eq_fresh {t : BspTree α} {i : Nat} (h : t.nodes.size ≤ i) : t.node i = .fresh := by
  unfold node
  simp [h]

theorem node_modify (t : BspTree α) (i : Nat) (f : BspNode α → BspNode α) (hi : i < t.nodes.size) (j : Nat) :
    (t.modify i f).node j = if j = i then f (t.node i) else t.node j := by
  unfold node modify
  simp only [Array.getD_eq_getD_getElem?, Array.getElem?_modify]
  by_cases h : j = i
  · subst h
    rw [if_pos rfl, if_pos rfl, Array.getElem?_eq_getElem hi]
    rfl
  · rw [if_neg h, if_neg (Ne.symm h)]

theorem size_modify (t : BspTree α) (i : Nat) (f : BspNode α → BspNode α) :
    (t.modify i f).nodes.size = t.nodes.size := Array.size_modify

theorem node_push_fresh (t : BspTree α) (j : Nat) : node ⟨t.nodes.push .fresh⟩ j = t.node j := by
  unfold node
  rcases Nat.lt_trichotomy j t.nodes.size with h | rfl | h
  · simp [Array.getElem_push, h, Nat.lt_succ_of_lt h]
  · simp
  · have : ¬ j < t.nodes.size + 1 := by omega
    simp [this, Nat.le_of_lt h]

/-! ## One node -/

/-- A node changes and is linked to new ones, which come at the end. -/
structure Extends (i : Nat) (t t' : BspTree α) (new : List Nat) : Prop where
  others : ∀ j ≠ i, t'.node j = t.node j
  size : t'.nodes.size = t.nodes.size + new.length
  made : new = List.range' t.nodes.size new.length
  links : (t'.node i).links.Perm ((t.node i).links ++ new)

theorem Extends.trans {i : Nat} {t t' t'' : BspTree α} {new more : List Nat} (h : Extends i t t' new)
    (h' : Extends i t' t'' more) : Extends i t t'' (new ++ more) where
  others j hj := (h'.others j hj).trans (h.others j hj)
  size := by rw [h'.size, h.size, List.length_append, Nat.add_assoc]
  made := by
    have hmore := h'.made
    rw [h.size] at hmore
    rw [List.length_append, List.range'_append_1.symm, ← h.made, ← hmore]
  links := by
    rw [← List.append_assoc]
    exact h'.links.trans (h.links.append_right more)

theorem Extends.range_size {i : Nat} {t t' : BspTree α} {new : List Nat} (h : Extends i t t' new) :
    List.range t'.nodes.size = List.range t.nodes.size ++ new := by
  have happend := List.range'_append_1 (s := 0) (m := t.nodes.size) (n := new.length)
  rw [Nat.zero_add, ← h.made] at happend
  rw [h.size, List.range_eq_range', List.range_eq_range', happend]

theorem child_spec (t : BspTree α) {i : Nat} (hi : i < t.nodes.size) (b : Branch) :
    ∃ new, Extends i t (t.child i b).1 new ∧ (∀ c ∈ new, c = (t.child i b).2) ∧
      (t.child i b).1.node i = (t.node i).attach b (t.child i b).2 := by
  unfold child
  split
  · rename_i c hc
    -- The child is there, and nothing changes.
    refine ⟨[], ⟨fun _ _ => rfl, rfl, rfl, by simp⟩, by simp, ?_⟩
    show t.node i = (t.node i).attach b c
    cases b with
    | front =>
      have hfront : (t.node i).front = some c := hc
      simp [BspNode.attach, ← hfront]
    | back =>
      have hback : (t.node i).back = some c := hc
      simp [BspNode.attach, ← hback]
  · rename_i hnone
    -- The new node comes last in the array, where the branch now leads.
    have hpushed : i < (BspTree.mk (t.nodes.push .fresh)).nodes.size := by
      rw [Array.size_push]
      omega
    have hnode (j : Nat) :
        (modify ⟨t.nodes.push .fresh⟩ i fun n => n.attach b t.nodes.size).node j =
          if j = i then (t.node i).attach b t.nodes.size else t.node j := by
      rw [node_modify _ _ _ hpushed, node_push_fresh, node_push_fresh]
    refine ⟨[t.nodes.size], ⟨?_, ?_, rfl, ?_⟩, by simp, ?_⟩
    · intro j hj
      rw [hnode, if_neg hj]
    · rw [size_modify, Array.size_push]
      rfl
    · rw [hnode, if_pos rfl]
      exact BspNode.links_attach hnone _
    · rw [hnode, if_pos rfl]

/-- Polygons that are handed on wait at a child. A new child is made only for them. -/
structure HandsOn (t : BspTree α) (i : Nat) (b : Branch) (ps : List (Polygon α)) (t' : BspTree α)
    (handed : List (Nat × List (Polygon α))) : Prop where
  grown : ∃ new, Extends i t t' new ∧ ∀ c ∈ new, c ∈ handed.map Prod.fst
  plane : (t'.node i).plane = (t.node i).plane
  polygons : (t'.node i).polygons = (t.node i).polygons
  lists : handed.map Prod.snd = [ps].filter fun ps => !ps.isEmpty
  place : (handed.map Prod.fst).Sublist ((t'.node i).child? b).toList
  other : ∀ b' ≠ b, (t'.node i).child? b' = (t.node i).child? b'

theorem handOn_spec (t : BspTree α) {i : Nat} (hi : i < t.nodes.size) (b : Branch) (ps : List (Polygon α)) :
    HandsOn t i b ps (t.handOn i b ps).1 (t.handOn i b ps).2 := by
  unfold handOn
  by_cases hps : ps.isEmpty = true
  · rw [if_pos hps]
    exact
      { grown := ⟨[], ⟨fun _ _ => rfl, rfl, rfl, by simp⟩, by simp⟩
        plane := rfl
        polygons := rfl
        lists := by simp [hps]
        place := List.nil_sublist _
        other := fun _ _ => rfl }
  · rw [if_neg hps]
    obtain ⟨new, hextends, hnew, hnode⟩ := child_spec t hi b
    exact
      { grown := ⟨new, hextends, fun c hc => by simp [hnew c hc]⟩
        plane := by rw [hnode, BspNode.plane_attach]
        polygons := by rw [hnode, BspNode.polygons_attach]
        lists := by simp [hps]
        place := by rw [hnode, BspNode.child?_attach, if_pos rfl]; exact List.Sublist.refl _
        other := by intro b' hb'; rw [hnode, BspNode.child?_attach, if_neg hb'] }

/-! ## All nodes -/

theorem flatMap_perm_of_update {β : Type} {f g : Nat → List β} {i : Nat} {extra : List β}
    (hothers : ∀ j ≠ i, f j = g j) (hmore : (f i).Perm (g i ++ extra)) {l : List Nat} (hl : l.Nodup) (hi : i ∈ l) :
    (l.flatMap f).Perm (l.flatMap g ++ extra) := by
  induction l with
  | nil => cases hi
  | cons k l ih =>
    obtain ⟨hk, hl⟩ := List.nodup_cons.mp hl
    rw [List.flatMap_cons, List.flatMap_cons]
    by_cases hki : k = i
    · subst hki
      have hsame : l.flatMap f = l.flatMap g := by
        rw [List.flatMap_def, List.flatMap_def]
        exact congrArg List.flatten (List.map_congr_left fun j hj => hothers j (ne_of_mem_of_not_mem hj hk))
      rw [hsame, List.append_assoc]
      refine (hmore.append_right _).trans ?_
      rw [List.append_assoc]
      exact List.perm_append_comm.append_left _
    · rw [hothers k hki, List.append_assoc]
      exact (ih hl ((List.mem_cons.mp hi).resolve_left (Ne.symm hki))).append_left _

theorem toList_nodes (t : BspTree α) : t.nodes.toList = (List.range t.nodes.size).map t.node := by
  refine List.ext_getElem (by simp) fun i h _ => ?_
  have hi : i < t.nodes.size := by simpa using h
  simp [node, hi]

theorem Extends.flatMap_perm {β : Type} {i : Nat} {t t' : BspTree α} {new : List Nat} (h : Extends i t t' new)
    (hi : i < t.nodes.size) (f : BspNode α → List β) (hfresh : f .fresh = []) {extra : List β}
    (hmore : (f (t'.node i)).Perm (f (t.node i) ++ extra)) :
    (t'.nodes.toList.flatMap f).Perm (t.nodes.toList.flatMap f ++ extra) := by
  have hnew : (new.map t'.node).flatMap f = [] := by
    rw [List.flatMap_eq_nil_iff]
    intro n hn
    obtain ⟨j, hj, rfl⟩ := List.mem_map.mp hn
    rw [h.made, List.mem_range'_1] at hj
    rw [h.others j (by omega), node_eq_fresh hj.1, hfresh]
  rw [toList_nodes, toList_nodes, h.range_size, List.map_append, List.flatMap_append, hnew, List.append_nil,
    List.flatMap_map, List.flatMap_map]
  exact flatMap_perm_of_update (fun j hj => by rw [h.others j hj]) hmore List.nodup_range (List.mem_range.mpr hi)

def links (t : BspTree α) : List Nat := t.nodes.toList.flatMap BspNode.links

def Link (t : BspTree α) (i j : Nat) : Prop := j ∈ (t.node i).links

theorem not_link_of_fresh {t : BspTree α} {i j : Nat} (h : t.node i = .fresh) : ¬ Link t i j := by
  unfold Link
  rw [h]
  exact List.not_mem_nil

theorem lt_size_of_link {t : BspTree α} {i j : Nat} (h : Link t i j) : i < t.nodes.size := by
  by_contra hle
  exact not_link_of_fresh (node_eq_fresh (Nat.le_of_not_lt hle)) h

theorem mem_links {t : BspTree α} {j : Nat} : j ∈ t.links ↔ ∃ i, Link t i j := by
  unfold links Link
  rw [toList_nodes, List.mem_flatMap]
  constructor
  · rintro ⟨n, hn, hj⟩
    obtain ⟨i, -, rfl⟩ := List.mem_map.mp hn
    exact ⟨i, hj⟩
  · rintro ⟨i, hj⟩
    exact ⟨t.node i, List.mem_map.mpr ⟨i, List.mem_range.mpr (lt_size_of_link hj), rfl⟩, hj⟩

/-- Nodes that hang below a node, and the node itself. -/
def Below (t : BspTree α) : Nat → Nat → Prop := ReflTransGen (Link t)

theorem Extends.below {i : Nat} {t t' : BspTree α} {new : List Nat} (h : Extends i t t' new) {a b : Nat}
    (hab : Below t' a b) (hai : ¬ Below t a i) : Below t a b := by
  induction hab with
  | refl => exact ReflTransGen.refl
  | @tail m b _ hmb ih =>
    have hne : m ≠ i := by
      rintro rfl
      exact hai ih
    unfold Link at hmb
    rw [h.others m hne] at hmb
    exact ih.tail hmb

/-- Every node but the first has one parent, which comes before it. -/
structure Rooted (t : BspTree α) : Prop where
  linked : (0 :: t.links).Perm (List.range t.nodes.size)
  down : ∀ i j, Link t i j → i < j

namespace Rooted

variable {t : BspTree α} (h : t.Rooted)

include h

theorem lt_size {i j : Nat} (hij : Link t i j) : j < t.nodes.size :=
  List.mem_range.mp (h.linked.mem_iff.mp (List.mem_cons_of_mem 0 (mem_links.mpr ⟨i, hij⟩)))

theorem nodup : t.links.Nodup := (List.nodup_cons.mp (h.linked.nodup_iff.mpr List.nodup_range)).2

theorem parent_unique {i j c : Nat} (hi : Link t i c) (hj : Link t j c) : i = j := by
  by_contra hne
  have hnodup := h.nodup
  unfold links at hnodup
  rw [toList_nodes, List.flatMap_map] at hnodup
  have hapart := (List.nodup_flatMap.mp hnodup).2
  have hsymm : Std.Symm (Function.onFun List.Disjoint fun i => (t.node i).links) :=
    ⟨fun _ _ hd _ ha hb => hd hb ha⟩
  have hdisjoint := hapart.forall (List.mem_range.mpr (lt_size_of_link hi)) (List.mem_range.mpr (lt_size_of_link hj)) hne
  exact hdisjoint hi hj

theorem nodup_links (i : Nat) : (t.node i).links.Nodup := by
  rcases Nat.lt_or_ge i t.nodes.size with hi | hi
  · have hnodup := h.nodup
    unfold links at hnodup
    rw [toList_nodes, List.flatMap_map] at hnodup
    exact (List.nodup_flatMap.mp hnodup).1 i (List.mem_range.mpr hi)
  · rw [node_eq_fresh hi]
    exact List.nodup_nil

theorem le_of_below {i j : Nat} (hij : Below t i j) : i ≤ j := by
  induction hij with
  | refl => exact Nat.le_refl i
  | tail _ hlink ih => exact Nat.le_of_lt (Nat.lt_of_le_of_lt ih (h.down _ _ hlink))

theorem not_below_of_link {i c : Nat} (hic : Link t i c) : ¬ Below t c i :=
  fun hci => Nat.lt_irrefl i (Nat.lt_of_lt_of_le (h.down i c hic) (h.le_of_below hci))

theorem below_parent {i c a : Nat} (hic : Link t i c) (hac : Below t a c) : a = c ∨ Below t a i := by
  rcases ReflTransGen.cases_tail hac with rfl | ⟨m, ham, hmc⟩
  · exact Or.inl rfl
  · rw [h.parent_unique hmc hic] at ham
    exact Or.inr ham

theorem not_below_sibling {i c d : Nat} (hic : Link t i c) (hid : Link t i d) (hne : c ≠ d) : ¬ Below t c d := by
  intro hcd
  rcases h.below_parent hid hcd with heq | hback
  · exact hne heq
  · exact h.not_below_of_link hic hback

end Rooted

/-! ## Serving a list -/

/-- What serving a list does to its node, and what is handed on. -/
structure Settles (t : BspTree α) (i : Nat) (plane : Plane α) (pieces : Pieces α) (t' : BspTree α)
    (handed : List (Nat × List (Polygon α))) : Prop where
  grown : ∃ new, Extends i t t' new ∧ ∀ c ∈ new, c ∈ handed.map Prod.fst
  plane : (t'.node i).plane = some plane
  polygons : (t'.node i).polygons = (t.node i).polygons ++ pieces.coplanarFront ++ pieces.coplanarBack
  lists : handed.map Prod.snd = [pieces.back, pieces.front].filter fun ps => !ps.isEmpty
  places : (handed.map Prod.fst).Sublist ((t'.node i).back.toList ++ (t'.node i).front.toList)

theorem settle_spec [Scalar α] (t : BspTree α) {i : Nat} (hi : i < t.nodes.size) (first : Polygon α)
    (rest : List (Polygon α)) :
    Settles t i ((t.node i).plane.getD first.plane)
      (((t.node i).plane.getD first.plane).splitAll (first :: rest))
      (t.settle i first rest).1 (t.settle i first rest).2 := by
  unfold settle
  generalize (t.node i).plane.getD first.plane = plane
  dsimp only
  generalize plane.splitAll (first :: rest) = pieces
  have hnode : (t.keep i plane pieces).node i =
      { t.node i with
        plane := some plane
        polygons := (t.node i).polygons ++ pieces.coplanarFront ++ pieces.coplanarBack } := by
    rw [keep, node_modify _ _ _ hi, if_pos rfl]
  have hkeep : Extends i t (t.keep i plane pieces) [] := by
    refine ⟨fun j hj => ?_, size_modify .., rfl, ?_⟩
    · rw [keep, node_modify _ _ _ hi, if_neg hj]
    · rw [hnode, List.append_nil]
      exact List.Perm.refl _
  have hfront := handOn_spec (t.keep i plane pieces) (by rw [hkeep.size]; exact hi) .front pieces.front
  generalize (t.keep i plane pieces).handOn i .front pieces.front = r₁ at hfront ⊢
  obtain ⟨t₁, handed₁⟩ := r₁
  obtain ⟨new₁, hextends₁, hnew₁⟩ := hfront.grown
  -- What goes to the back is handed on in the tree that the front has left.
  have hback := handOn_spec t₁ (by rw [hextends₁.size, hkeep.size]; exact Nat.lt_add_right _ hi) .back pieces.back
  generalize t₁.handOn i .back pieces.back = r₂ at hback ⊢
  obtain ⟨t₂, handed₂⟩ := r₂
  obtain ⟨new₂, hextends₂, hnew₂⟩ := hback.grown
  exact
    { grown := by
        refine ⟨_, (hkeep.trans hextends₁).trans hextends₂, fun c hc => ?_⟩
        rw [List.map_append, List.mem_append]
        rcases List.mem_append.mp hc with hc | hc
        · exact Or.inr (hnew₁ c hc)
        · exact Or.inl (hnew₂ c hc)
      plane := by rw [hback.plane, hfront.plane, hnode]
      polygons := by rw [hback.polygons, hfront.polygons, hnode]
      lists := by
        rw [List.map_append, hback.lists, hfront.lists, ← List.filter_append]
        rfl
      places := by
        rw [List.map_append]
        have hplace := hfront.place
        rw [← hback.other .front (by decide)] at hplace
        exact hback.place.append hplace }

section Settles

variable {t t' : BspTree α} {i : Nat} {plane : Plane α} {pieces : Pieces α} {handed : List (Nat × List (Polygon α))}

theorem Settles.mem_links (h : Settles t i plane pieces t' handed) {c : Nat} (hc : c ∈ handed.map Prod.fst) :
    Link t' i c := by
  unfold Link BspNode.links
  rw [List.mem_append]
  exact (List.mem_append.mp (h.places.subset hc)).symm

theorem Settles.ne_nil (h : Settles t i plane pieces t' handed) {w : Nat × List (Polygon α)} (hw : w ∈ handed) :
    w.2 ≠ [] := by
  have hmem : w.2 ∈ handed.map Prod.snd := List.mem_map_of_mem hw
  rw [h.lists, List.mem_filter] at hmem
  simpa using hmem.2

theorem Settles.eq_back_or_front (h : Settles t i plane pieces t' handed) {w : Nat × List (Polygon α)}
    (hw : w ∈ handed) : w.2 = pieces.back ∨ w.2 = pieces.front := by
  have hmem : w.2 ∈ handed.map Prod.snd := List.mem_map_of_mem hw
  rw [h.lists] at hmem
  simpa using List.mem_of_mem_filter hmem

theorem Settles.exists_place (h : Settles t i plane pieces t' handed) {q : Polygon α} {rest : List (Polygon α)}
    (hlist : q :: rest = pieces.front ∨ q :: rest = pieces.back) : ∃ place, (place, q :: rest) ∈ handed := by
  have hmem : q :: rest ∈ handed.map Prod.snd := by
    rw [h.lists, List.mem_filter]
    refine ⟨?_, rfl⟩
    rcases hlist with hfront | hback
    · exact List.mem_cons_of_mem _ (List.mem_singleton.mpr hfront)
    · rw [hback]
      exact List.mem_cons_self
  obtain ⟨⟨place, list⟩, hhanded, rfl⟩ := List.mem_map.mp hmem
  exact ⟨place, hhanded⟩

theorem Settles.rooted (h : Settles t i plane pieces t' handed) (ht : t.Rooted) (hi : i < t.nodes.size) :
    t'.Rooted := by
  obtain ⟨new, hextends, -⟩ := h.grown
  have hmade : ∀ c ∈ new, t.nodes.size ≤ c := by
    intro c hc
    rw [hextends.made, List.mem_range'_1] at hc
    exact hc.1
  constructor
  · have hlinks : t'.links.Perm (t.links ++ new) :=
      hextends.flatMap_perm hi BspNode.links BspNode.links_fresh hextends.links
    have hrange : List.range t'.nodes.size = List.range t.nodes.size ++ new := hextends.range_size
    rw [hrange]
    exact (hlinks.cons 0).trans (ht.linked.append_right new)
  · intro a b hab
    -- A link of the node that is served is an old one, or leads to a new node.
    by_cases ha : a = i
    · subst ha
      rcases List.mem_append.mp (hextends.links.mem_iff.mp hab) with hold | hnew
      · exact ht.down a b hold
      · exact Nat.lt_of_lt_of_le hi (hmade b hnew)
    · unfold Link at hab
      rw [hextends.others a ha] at hab
      exact ht.down a b hab

theorem Settles.apart (h : Settles t i plane pieces t' handed) (ht : t'.Rooted) :
    handed.Pairwise fun v w => ¬ Below t' v.1 w.1 ∧ ¬ Below t' w.1 v.1 := by
  have hnodup : (handed.map Prod.fst).Nodup := by
    refine h.places.nodup ?_
    exact List.perm_append_comm.nodup_iff.mp (ht.nodup_links i)
  refine (List.pairwise_map.mp hnodup).imp_of_mem ?_
  intro v w hv hw hne
  have hlinkv := h.mem_links (List.mem_map_of_mem hv)
  have hlinkw := h.mem_links (List.mem_map_of_mem hw)
  exact ⟨ht.not_below_sibling hlinkv hlinkw hne, ht.not_below_sibling hlinkw hlinkv hne.symm⟩

end Settles

namespace Construction

/-! ## Trees that are being built -/

/-- A node without a plane is the root, or has just been made and waits for polygons. No list waits at a
node that hangs below another one where a list waits. -/
structure Growing (c : Construction α) : Prop where
  rooted : c.tree.Rooted
  bare : ∀ i < c.tree.nodes.size, (c.tree.node i).plane = none →
    c.tree.node i = .fresh ∧ (i = 0 ∨ ∃ ps, ps ≠ [] ∧ (i, ps) ∈ c.waiting)
  inside : ∀ w ∈ c.waiting, w.1 < c.tree.nodes.size
  apart : c.waiting.Pairwise fun v w => ¬ Below c.tree v.1 w.1 ∧ ¬ Below c.tree w.1 v.1

theorem Growing.skip {t : BspTree α} {i : Nat} {waiting : List (Nat × List (Polygon α))}
    (h : Growing ⟨t, (i, []) :: waiting⟩) : Growing ⟨t, waiting⟩ where
  rooted := h.rooted
  bare := by
    intro j hj hplane
    obtain ⟨hfresh, hwaits⟩ := h.bare j hj hplane
    refine ⟨hfresh, hwaits.imp_right ?_⟩
    rintro ⟨ps, hps, hmem⟩
    rcases List.mem_cons.mp hmem with heq | hmem
    · exact absurd (Prod.mk.inj heq).2 hps
    · exact ⟨ps, hps, hmem⟩
  inside w hw := h.inside w (List.mem_cons_of_mem _ hw)
  apart := (List.pairwise_cons.mp h.apart).2

section Serve

variable {t t' : BspTree α} {i : Nat} {ps : List (Polygon α)} {plane : Plane α} {pieces : Pieces α}
  {waiting handed : List (Nat × List (Polygon α))}

theorem Growing.ne_of_mem (h : Growing ⟨t, (i, ps) :: waiting⟩) {w : Nat × List (Polygon α)} (hw : w ∈ waiting) :
    w.1 ≠ i := by
  intro heq
  exact ((List.pairwise_cons.mp h.apart).1 w hw).2 (heq ▸ ReflTransGen.refl)

/-- Lists that wait elsewhere, and what is below them, are not touched. -/
theorem Growing.below_of_mem (h : Growing ⟨t, (i, ps) :: waiting⟩) (hs : Settles t i plane pieces t' handed)
    {w : Nat × List (Polygon α)} (hw : w ∈ waiting) {j : Nat} (hj : Below t' w.1 j) : Below t w.1 j := by
  obtain ⟨new, hextends, -⟩ := hs.grown
  exact hextends.below hj ((List.pairwise_cons.mp h.apart).1 w hw).2

theorem Growing.below_of_handed (h : Growing ⟨t, (i, ps) :: waiting⟩) (hs : Settles t i plane pieces t' handed)
    {c j : Nat} (hc : c ∈ handed.map Prod.fst) (hj : Below t' c j) :
    (t.nodes.size ≤ c ∧ j = c) ∨ (Link t i c ∧ Below t c j) := by
  obtain ⟨new, hextends, -⟩ := hs.grown
  rcases List.mem_append.mp (hextends.links.mem_iff.mp (hs.mem_links hc)) with hold | hnew
  · exact Or.inr ⟨hold, hextends.below hj (h.rooted.not_below_of_link hold)⟩
  · rw [hextends.made, List.mem_range'_1] at hnew
    have hi : i < t.nodes.size := h.inside (i, ps) List.mem_cons_self
    refine Or.inl ⟨hnew.1, ?_⟩
    rcases ReflTransGen.cases_head hj with heq | ⟨m, hlink, -⟩
    · exact heq.symm
    · -- The new node has no children yet.
      have hfresh : t'.node c = .fresh := (hextends.others c (by omega)).trans (node_eq_fresh hnew.1)
      exact absurd hlink (not_link_of_fresh hfresh)

theorem Growing.made_or_link (h : Growing ⟨t, (i, ps) :: waiting⟩) (hs : Settles t i plane pieces t' handed)
    {c : Nat} (hc : c ∈ handed.map Prod.fst) : t.nodes.size ≤ c ∨ Link t i c :=
  (h.below_of_handed hs hc ReflTransGen.refl).imp And.left And.left

theorem Growing.made_of_fresh (h : Growing ⟨t, (i, ps) :: waiting⟩) (hs : Settles t i plane pieces t' handed)
    (hfresh : t.node i = .fresh) {c : Nat} (hc : c ∈ handed.map Prod.fst) : t.nodes.size ≤ c :=
  (h.made_or_link hs hc).resolve_right (not_link_of_fresh hfresh)

theorem Growing.bare_serve (h : Growing ⟨t, (i, ps) :: waiting⟩) (hs : Settles t i plane pieces t' handed) {j : Nat}
    (hj : j < t'.nodes.size) (hplane : (t'.node j).plane = none) :
    t'.node j = .fresh ∧ (j = 0 ∨ ∃ qs, qs ≠ [] ∧ (j, qs) ∈ handed ++ waiting) := by
  obtain ⟨new, hextends, hnew⟩ := hs.grown
  have hji : j ≠ i := by
    rintro rfl
    have := hs.plane
    rw [hplane] at this
    cases this
  rw [hextends.others j hji] at hplane ⊢
  -- A node that was there still waits, as it is not the one that is served.
  rcases Nat.lt_or_ge j t.nodes.size with hold | hmade
  · obtain ⟨hfresh, hwaits⟩ := h.bare j hold hplane
    refine ⟨hfresh, hwaits.imp_right ?_⟩
    rintro ⟨qs, hqs, hmem⟩
    rcases List.mem_cons.mp hmem with heq | hmem
    · exact absurd (Prod.mk.inj heq).1 hji
    · exact ⟨qs, hqs, List.mem_append_right _ hmem⟩
  · have hj' : j ∈ new := by
      have : j < t.nodes.size + new.length := by rw [← hextends.size]; exact hj
      rw [hextends.made, List.mem_range'_1]
      exact ⟨hmade, this⟩
    obtain ⟨w, hw, rfl⟩ := List.mem_map.mp (hnew j hj')
    exact ⟨node_eq_fresh hmade, Or.inr ⟨w.2, hs.ne_nil hw, List.mem_append_left _ hw⟩⟩

theorem Growing.apart_serve (h : Growing ⟨t, (i, ps) :: waiting⟩) (hs : Settles t i plane pieces t' handed)
    {v w : Nat × List (Polygon α)} (hv : v ∈ handed) (hw : w ∈ waiting) :
    ¬ Below t' v.1 w.1 ∧ ¬ Below t' w.1 v.1 := by
  have hrooted := hs.rooted h.rooted (h.inside (i, ps) List.mem_cons_self)
  have hplace := List.mem_map_of_mem (f := Prod.fst) hv
  have hinside : w.1 < t.nodes.size := h.inside w (List.mem_cons_of_mem _ hw)
  obtain ⟨hdown, hup⟩ := (List.pairwise_cons.mp h.apart).1 w hw
  constructor
  · intro hbelow
    rcases h.below_of_handed hs hplace hbelow with ⟨hmade, heq⟩ | ⟨hlink, hold⟩
    · omega
    · exact hdown (ReflTransGen.head hlink hold)
  · intro hbelow
    rcases hrooted.below_parent (hs.mem_links hplace) hbelow with heq | hback
    · rcases h.made_or_link hs hplace with hmade | hlink
      · omega
      · rw [← heq] at hlink
        exact hdown (ReflTransGen.single hlink)
    · exact hup (h.below_of_mem hs hw hback)

theorem Growing.serve (h : Growing ⟨t, (i, ps) :: waiting⟩) (hs : Settles t i plane pieces t' handed) :
    Growing ⟨t', handed ++ waiting⟩ := by
  have hrooted := hs.rooted h.rooted (h.inside (i, ps) List.mem_cons_self)
  obtain ⟨new, hextends, -⟩ := hs.grown
  refine ⟨hrooted, fun j => h.bare_serve hs, ?_, List.pairwise_append.mpr ⟨hs.apart hrooted, ?_, ?_⟩⟩
  · intro w hw
    rcases List.mem_append.mp hw with hw | hw
    · exact hrooted.lt_size (hs.mem_links (List.mem_map_of_mem hw))
    · show w.1 < t'.nodes.size
      rw [hextends.size]
      exact Nat.lt_add_right _ (h.inside w (List.mem_cons_of_mem _ hw))
  · refine (List.pairwise_cons.mp h.apart).2.imp_of_mem fun {v w} hv hw hvw => ⟨fun hbelow => ?_, fun hbelow => ?_⟩
    · exact hvw.1 (h.below_of_mem hs hv hbelow)
    · exact hvw.2 (h.below_of_mem hs hw hbelow)
  · exact fun v hv w hw => h.apart_serve hs hv hw

end Serve

theorem Growing.step [Scalar α] {c : Construction α} (h : c.Growing) : c.step.Growing := by
  obtain ⟨t, waiting⟩ := c
  match waiting, h with
  | [], h => exact h
  | (_, []) :: _, h => exact h.skip
  | (i, first :: rest) :: _, h => exact h.serve (settle_spec t (h.inside _ List.mem_cons_self) first rest)

end Construction

end BspTree

end SolidScript
