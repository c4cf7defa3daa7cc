import SolidScript.Solid.Polygon

/-! # What a plane makes of polygons

A polygon is dealt with as a whole, or it lies on both sides and is cut into exactly two fragments.
-/

namespace SolidScript

open Scalar

/-! ## Sides along a path -/

namespace Side

/-- From one side of a plane straight to the other. -/
def Crosses (s t : Side) : Prop := (s = .front ∧ t = .back) ∨ (s = .back ∧ t = .front)

instance (s t : Side) : Decidable (Crosses s t) := inferInstanceAs (Decidable (_ ∨ _))

/-- How often a path is in the plane or passes through it. What it ends in does not count. -/
def passings : Side → List Side → Nat
  | _, [] => 0
  | s, t :: rest => (if s = .coplanar then 1 else 0) + (if Crosses s t then 1 else 0) + passings t rest

theorem one_le_passings_coplanar {rest : List Side} (h : rest ≠ []) : 1 ≤ passings .coplanar rest := by
  cases rest with
  | nil => exact absurd rfl h
  | cons t rest =>
    rw [passings, if_pos rfl]
    omega

theorem one_le_passings {s t : Side} (hst : Crosses s t) {rest : List Side} (ht : t ∈ rest) :
    1 ≤ passings s rest := by
  induction rest with
  | nil => cases ht
  | cons u rest ih =>
    rw [passings]
    rcases List.mem_cons.mp ht with rfl | hrest
    · rw [if_pos hst]
      omega
    · have hu : u = s ∨ u = t ∨ u = .coplanar := by
        rcases hst with ⟨rfl, rfl⟩ | ⟨rfl, rfl⟩ <;> cases u <;> simp
      rcases hu with rfl | rfl | rfl
      · have := ih hrest
        omega
      · rw [if_pos hst]
        omega
      · have := one_le_passings_coplanar (List.ne_nil_of_mem hrest)
        omega

theorem two_le_passings_coplanar {rest : List Side} (hfront : .front ∈ rest) (hback : .back ∈ rest) :
    2 ≤ passings .coplanar rest := by
  induction rest with
  | nil => cases hfront
  | cons t rest ih =>
    rw [passings, if_pos rfl]
    cases t with
    | coplanar =>
      have := ih (by simpa using hfront) (by simpa using hback)
      omega
    | front =>
      have := one_le_passings (s := .front) (Or.inl ⟨rfl, rfl⟩) (by simpa using hback)
      omega
    | back =>
      have := one_le_passings (s := .back) (Or.inr ⟨rfl, rfl⟩) (by simpa using hfront)
      omega

theorem two_le_passings {s t : Side} (hst : Crosses s t) {visited : List Side} (ht : t ∈ visited) :
    2 ≤ passings s (visited ++ [s]) := by
  have hts : Crosses t s := hst.elim (fun h => Or.inr ⟨h.2, h.1⟩) (fun h => Or.inl ⟨h.2, h.1⟩)
  induction visited with
  | nil => cases ht
  | cons u rest ih =>
    have hu : u = s ∨ u = t ∨ u = .coplanar := by
      rcases hst with ⟨rfl, rfl⟩ | ⟨rfl, rfl⟩ <;> cases u <;> simp
    rw [List.cons_append, passings]
    -- The way begins on the first side, on the other one or in the plane.
    rcases hu with rfl | rfl | rfl
    · have hne : t ≠ u := by
        rintro rfl
        rcases hst with ⟨rfl, h⟩ | ⟨rfl, h⟩ <;> cases h
      have := ih ((List.mem_cons.mp ht).resolve_left hne)
      omega
    · rw [if_pos hst]
      have := one_le_passings hts (List.mem_append_right rest (List.mem_singleton.mpr rfl))
      omega
    · have ht : t ∈ rest := by
        rcases hst with ⟨rfl, rfl⟩ | ⟨rfl, rfl⟩ <;> simpa using ht
      have hboth : .front ∈ rest ++ [s] ∧ .back ∈ rest ++ [s] := by
        rcases hst with ⟨rfl, rfl⟩ | ⟨rfl, rfl⟩ <;> simp [ht]
      have := two_le_passings_coplanar hboth.1 hboth.2
      omega

/-- A round trip that visits both sides comes through the plane at least twice. -/
theorem two_le_passings_round (s : Side) (rest : List Side) (hfront : .front ∈ s :: rest)
    (hback : .back ∈ s :: rest) : 2 ≤ passings s (rest ++ [s]) := by
  cases s with
  | coplanar =>
    exact two_le_passings_coplanar (List.mem_append_left _ (by simpa using hfront))
      (List.mem_append_left _ (by simpa using hback))
  | front => exact two_le_passings (Or.inl ⟨rfl, rfl⟩) (by simpa using hback)
  | back => exact two_le_passings (Or.inr ⟨rfl, rfl⟩) (by simpa using hfront)

end Side

theorem Cyclic.map_fst_pairs {β : Type} (items : List β) : (Cyclic.pairs items).map Prod.fst = items := by
  unfold Cyclic.pairs
  refine List.map_fst_zip ?_
  cases items <;> simp [Cyclic.rotate]

namespace Plane

variable {α : Type} [Scalar α] (p : Plane α)

/-! ## Fragments -/

/-- A polygon has corners on both sides. -/
def Divides (q : Polygon α) : Prop :=
  (∃ c ∈ q.corners, p.side c.position = .front) ∧ ∃ c ∈ q.corners, p.side c.position = .back

/-- What lies on one side, with the places where edges pass through the plane. -/
def part (keep : Side) (q : Polygon α) : Polygon α :=
  ⟨(Cyclic.pairs q.corners).flatMap fun (c, d) => p.fragmentCorners keep c d, q.plane⟩

theorem length_fragmentCorners {keep : Side} (hkeep : keep ≠ .coplanar) (c d : Corner α) :
    (p.fragmentCorners keep c d).length =
      (if p.side c.position = keep then 1 else 0) + (if p.side c.position = .coplanar then 1 else 0) +
      (if Side.Crosses (p.side c.position) (p.side d.position) then 1 else 0) := by
  unfold fragmentCorners Side.Crosses
  generalize p.side c.position = s
  generalize p.side d.position = t
  cases keep with
  | coplanar => exact absurd rfl hkeep
  | front => cases s <;> cases t <;> simp
  | back => cases s <;> cases t <;> simp

theorem length_path {keep : Side} (hkeep : keep ≠ .coplanar) (c last : Corner α) (rest : List (Corner α)) :
    (((c :: rest).zip (rest ++ [last])).flatMap fun (c, d) => p.fragmentCorners keep c d).length =
      (c :: rest).countP (fun c => p.side c.position = keep) +
      Side.passings (p.side c.position) ((rest ++ [last]).map fun c => p.side c.position) := by
  induction rest generalizing c with
  | nil =>
    simp only [List.nil_append, List.zip_cons_cons, List.zip_nil_left, List.flatMap_cons, List.flatMap_nil,
      List.append_nil, List.map_cons, List.map_nil, Side.passings, List.countP_cons, List.countP_nil,
      length_fragmentCorners p hkeep, decide_eq_true_eq]
    omega
  | cons d rest ih =>
    have hrest := ih d
    simp only [List.cons_append, List.zip_cons_cons, List.flatMap_cons, List.length_append, List.map_cons,
      Side.passings, length_fragmentCorners p hkeep] at hrest ⊢
    rw [List.countP_cons, hrest]
    simp only [decide_eq_true_eq]
    omega

theorem three_le_corners_part {keep : Side} (hkeep : keep ≠ .coplanar) {q : Polygon α} (h : p.Divides q) :
    3 ≤ (p.part keep q).corners.length := by
  obtain ⟨⟨c, hc, hfront⟩, ⟨d, hd, hback⟩⟩ := h
  unfold part
  cases hcorners : q.corners with
  | nil => rw [hcorners] at hc; cases hc
  | cons first rest =>
    rw [hcorners] at hc hd
    have hlength := length_path p hkeep first first rest
    have hkept : 1 ≤ (first :: rest).countP fun c => p.side c.position = keep := by
      refine List.one_le_countP_iff.mpr ?_
      cases keep with
      | coplanar => exact absurd rfl hkeep
      | front => exact ⟨c, hc, by simpa using hfront⟩
      | back => exact ⟨d, hd, by simpa using hback⟩
    have hsides (s : Side) (h : ∃ c ∈ first :: rest, p.side c.position = s) :
        s ∈ p.side first.position :: rest.map fun c => p.side c.position := by
      rw [← List.map_cons (f := fun c : Corner α => p.side c.position)]
      exact List.mem_map.mpr h
    have hpassings := Side.two_le_passings_round _ _ (hsides .front ⟨c, hc, hfront⟩) (hsides .back ⟨d, hd, hback⟩)
    rw [List.map_append, List.map_singleton] at hlength
    show 3 ≤ (((first :: rest).zip (rest ++ [first])).flatMap fun (c, d) => p.fragmentCorners keep c d).length
    omega

theorem fragment_eq {keep : Side} (hkeep : keep ≠ .coplanar) {q : Polygon α} (h : p.Divides q) :
    p.fragment keep q = [p.part keep q] := if_pos (three_le_corners_part p hkeep h)

theorem mem_corners_part {keep : Side} {q : Polygon α} {c : Corner α} (hc : c ∈ q.corners)
    (hside : p.side c.position = keep) : c ∈ (p.part keep q).corners := by
  unfold part
  rw [← Cyclic.map_fst_pairs q.corners] at hc
  obtain ⟨⟨c', d⟩, hmem, rfl⟩ := List.mem_map.mp hc
  refine List.mem_flatMap.mpr ⟨(c', d), hmem, ?_⟩
  unfold fragmentCorners
  dsimp only
  rw [if_pos (Or.inl hside)]
  split <;> simp

/-! ## Pieces -/

/-- All corners are in the plane, as far as its thickness goes. -/
def Contains (q : Polygon α) : Prop := ∀ c ∈ q.corners, p.side c.position = .coplanar

instance (q : Polygon α) : Decidable (p.Contains q) := inferInstanceAs (Decidable (∀ c ∈ q.corners, _))

theorem not_contains_of_side {q : Polygon α} {c : Corner α} (hc : c ∈ q.corners) {s : Side}
    (hside : p.side c.position = s) (hs : s ≠ .coplanar) : ¬ p.Contains q :=
  fun h => hs (hside.symm.trans (h c hc))

theorem not_contains_part {q : Polygon α} (h : p.Divides q) :
    ¬ p.Contains (p.part .front q) ∧ ¬ p.Contains (p.part .back q) := by
  obtain ⟨⟨c, hc, hfront⟩, ⟨d, hd, hback⟩⟩ := h
  constructor
  · exact p.not_contains_of_side (mem_corners_part p hc hfront) hfront (by decide)
  · exact p.not_contains_of_side (mem_corners_part p hd hback) hback (by decide)

theorem any_side_iff (q : Polygon α) (s : Side) :
    ((q.corners.map fun c => p.side c.position).any (· == s)) = true ↔ ∃ c ∈ q.corners, p.side c.position = s := by
  simp

def Reaches (s : Side) (q : Polygon α) : Prop := ∃ c ∈ q.corners, p.side c.position = s

theorem contains_of_not_reaches {q : Polygon α} (hfront : ¬ p.Reaches .front q) (hback : ¬ p.Reaches .back q) :
    p.Contains q := by
  intro c hc
  cases hside : p.side c.position with
  | coplanar => rfl
  | front => exact absurd ⟨c, hc, hside⟩ hfront
  | back => exact absurd ⟨c, hc, hside⟩ hback

theorem Reaches.not_contains {s : Side} {q : Polygon α} (h : p.Reaches s q) (hs : s ≠ .coplanar) : ¬ p.Contains q := by
  obtain ⟨c, hc, hside⟩ := h
  exact p.not_contains_of_side hc hside hs

/-- What becomes of a polygon is told by the sides that it reaches. -/
theorem split_of_reaches (q : Polygon α) :
    (¬ p.Reaches .front q ∧ ¬ p.Reaches .back q ∧
      p.split q = (if 0 < p.normal.dot q.plane.normal then { Pieces.none with coplanarFront := [q] }
        else { Pieces.none with coplanarBack := [q] })) ∨
    (p.Reaches .front q ∧ ¬ p.Reaches .back q ∧ p.split q = { Pieces.none with front := [q] }) ∨
    (¬ p.Reaches .front q ∧ p.Reaches .back q ∧ p.split q = { Pieces.none with back := [q] }) ∨
    (p.Divides q ∧ p.split q = { Pieces.none with front := [p.part .front q], back := [p.part .back q] }) := by
  have hreaches (s : Side) : ((q.corners.map fun c => p.side c.position).any (· == s)) = true ↔ p.Reaches s q :=
    p.any_side_iff q s
  have hdivides : p.Divides q ↔ p.Reaches .front q ∧ p.Reaches .back q := Iff.rfl
  unfold split
  dsimp only
  rw [hdivides, ← hreaches .front, ← hreaches .back]
  cases hfront : (q.corners.map fun c => p.side c.position).any (· == .front) with
  | false =>
    cases hback : (q.corners.map fun c => p.side c.position).any (· == .back) with
    | false => exact Or.inl ⟨Bool.false_ne_true, Bool.false_ne_true, rfl⟩
    | true => exact Or.inr (Or.inr (Or.inl ⟨Bool.false_ne_true, rfl, rfl⟩))
  | true =>
    cases hback : (q.corners.map fun c => p.side c.position).any (· == .back) with
    | false => exact Or.inr (Or.inl ⟨rfl, Bool.false_ne_true, rfl⟩)
    | true =>
      have hdivides : p.Divides q := ⟨(hreaches .front).mp hfront, (hreaches .back).mp hback⟩
      refine Or.inr (Or.inr (Or.inr ⟨⟨rfl, rfl⟩, ?_⟩))
      dsimp only
      rw [fragment_eq p (by decide) hdivides, fragment_eq p (by decide) hdivides]

theorem split_cases (q : Polygon α) :
    (p.Contains q ∧ (p.split q = { Pieces.none with coplanarFront := [q] } ∨
      p.split q = { Pieces.none with coplanarBack := [q] })) ∨
    (¬ p.Contains q ∧ (p.split q = { Pieces.none with front := [q] } ∨
      p.split q = { Pieces.none with back := [q] })) ∨
    (¬ p.Contains q ∧ p.Divides q ∧
      p.split q = { Pieces.none with front := [p.part .front q], back := [p.part .back q] }) := by
  rcases p.split_of_reaches q with ⟨hfront, hback, h⟩ | ⟨hfront, -, h⟩ | ⟨-, hback, h⟩ | ⟨hdivides, h⟩
  · refine Or.inl ⟨p.contains_of_not_reaches hfront hback, ?_⟩
    split at h
    · exact Or.inl h
    · exact Or.inr h
  · exact Or.inr (Or.inl ⟨hfront.not_contains p (by decide), Or.inl h⟩)
  · exact Or.inr (Or.inl ⟨hback.not_contains p (by decide), Or.inr h⟩)
  · exact Or.inr (Or.inr ⟨Reaches.not_contains p hdivides.1 (by decide), hdivides, h⟩)

theorem splitAll_eq (qs : List (Polygon α)) :
    p.splitAll qs =
      ⟨qs.flatMap fun q => (p.split q).coplanarFront, qs.flatMap fun q => (p.split q).coplanarBack,
        qs.flatMap fun q => (p.split q).front, qs.flatMap fun q => (p.split q).back⟩ := by
  unfold splitAll
  induction qs with
  | nil => rfl
  | cons q qs ih =>
    rw [List.foldr_cons, ih]
    rfl

/-! ## Numbers of corners -/

def cornersOn (s : Side) (q : Polygon α) : Nat := q.corners.countP fun c => p.side c.position = s

def crossings (q : Polygon α) : Nat :=
  (Cyclic.pairs q.corners).countP fun (c, d) => Side.Crosses (p.side c.position) (p.side d.position)

theorem length_flatMap_fragmentCorners {keep : Side} (hkeep : keep ≠ .coplanar) (edges : List (Corner α × Corner α)) :
    (edges.flatMap fun (c, d) => p.fragmentCorners keep c d).length =
      (edges.map Prod.fst).countP (fun c => p.side c.position = keep) +
      (edges.map Prod.fst).countP (fun c => p.side c.position = .coplanar) +
      edges.countP fun (c, d) => Side.Crosses (p.side c.position) (p.side d.position) := by
  induction edges with
  | nil => rfl
  | cons edge edges ih =>
    obtain ⟨c, d⟩ := edge
    simp only [List.flatMap_cons, List.length_append, List.map_cons, List.countP_cons, ih,
      length_fragmentCorners p hkeep, decide_eq_true_eq]
    omega

theorem length_corners_part {keep : Side} (hkeep : keep ≠ .coplanar) (q : Polygon α) :
    (p.part keep q).corners.length = p.cornersOn keep q + p.cornersOn .coplanar q + p.crossings q := by
  have hlength := length_flatMap_fragmentCorners p hkeep (Cyclic.pairs q.corners)
  rw [Cyclic.map_fst_pairs] at hlength
  exact hlength

theorem cornersOn_add (q : Polygon α) :
    p.cornersOn .front q + p.cornersOn .back q + p.cornersOn .coplanar q = q.corners.length := by
  unfold cornersOn
  induction q.corners with
  | nil => rfl
  | cons c rest ih =>
    simp only [List.countP_cons, List.length_cons, decide_eq_true_eq]
    cases p.side c.position <;> simp <;> omega

/-- A polygon goes as it is to the one list for where it lies, or each side gets one fragment with three corners at
least. The two have the corners in the plane in common, and a new one for each crossing. -/
theorem split_whole_or_in_two (q : Polygon α) :
    (¬ p.Reaches .front q ∧ ¬ p.Reaches .back q ∧
      p.split q = (if 0 < p.normal.dot q.plane.normal then { Pieces.none with coplanarFront := [q] }
        else { Pieces.none with coplanarBack := [q] })) ∨
    (p.Reaches .front q ∧ ¬ p.Reaches .back q ∧ p.split q = { Pieces.none with front := [q] }) ∨
    (¬ p.Reaches .front q ∧ p.Reaches .back q ∧ p.split q = { Pieces.none with back := [q] }) ∨
    (p.Reaches .front q ∧ p.Reaches .back q ∧
      p.split q = { Pieces.none with front := [p.part .front q], back := [p.part .back q] } ∧
      3 ≤ (p.part .front q).corners.length ∧ 3 ≤ (p.part .back q).corners.length ∧
      (p.part .front q).corners.length + (p.part .back q).corners.length =
        q.corners.length + p.cornersOn .coplanar q + 2 * p.crossings q) := by
  rcases p.split_of_reaches q with h | h | h | ⟨hdivides, h⟩
  · exact Or.inl h
  · exact Or.inr (Or.inl h)
  · exact Or.inr (Or.inr (Or.inl h))
  · refine Or.inr (Or.inr (Or.inr ⟨hdivides.1, hdivides.2, h, ?_, ?_, ?_⟩))
    · exact three_le_corners_part p (by decide) hdivides
    · exact three_le_corners_part p (by decide) hdivides
    · rw [length_corners_part p (by decide), length_corners_part p (by decide), ← p.cornersOn_add q]
      omega

end Plane

end SolidScript
