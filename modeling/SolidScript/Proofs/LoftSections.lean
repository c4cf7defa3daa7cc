import SolidScript.Proofs.Generators
import SolidScript.Proofs.Steps

/-!
# Sections of a loft

Each section is cleaned by itself. Corners of the same place among the points that were kept are joined, so that joined
corners can come from different places of the sections that were given.
-/

namespace SolidScript

open Scalar

variable {α : Type} [Scalar α]

/-! ## Points that cleaning keeps -/

namespace Profile

/-- Places of the points that are kept behind the last one kept. The first point of the list is at a place. -/
def keptBehind (last : Vec2 α) : (place : Nat) → List (Vec2 α) → List Nat
  | _, [] => []
  | place, p :: rest =>
    if mergeDistance < Vec2.distance p last then place :: keptBehind p (place + 1) rest
    else keptBehind last (place + 1) rest

/-- Places of the points of a profile that cleaning keeps. -/
def keptPlaces : List (Vec2 α) → List Nat
  | [] => []
  | first :: rest =>
    let closes (k : Nat) : Bool := Vec2.distance first ((first :: rest).getD k default) ≤ mergeDistance
    0 :: ((keptBehind first 1 rest).reverse.dropWhile closes).reverse

variable {points s : List (Vec2 α)} {last : Vec2 α} {place : Nat}

theorem map_keptBehind (h : s.drop place = points) :
    (keptBehind last place points).map (s.getD · default) = dropRepeats last points := by
  induction points generalizing last place with
  | nil => rfl
  | cons p rest ih =>
    have hp : s.getD place default = p := by
      rw [List.getD_eq_getElem?_getD, ← List.head?_drop, h]
      rfl
    have hrest : s.drop (place + 1) = rest := by rw [← List.drop_drop, h]; rfl
    unfold keptBehind dropRepeats
    split
    · rw [List.map_cons, hp, ih hrest]
    · exact ih hrest

theorem keptBehind_bounds {k : Nat} (h : k ∈ keptBehind last place points) : place ≤ k ∧ k < place + points.length := by
  induction points generalizing last place with
  | nil => cases h
  | cons p rest ih =>
    have hstep {last : Vec2 α} (h : k ∈ keptBehind last (place + 1) rest) :
        place ≤ k ∧ k < place + (p :: rest).length := by
      have := ih h
      rw [List.length_cons]
      omega
    unfold keptBehind at h
    split at h
    · rcases List.mem_cons.mp h with rfl | h
      · rw [List.length_cons]
        omega
      · exact hstep h
    · exact hstep h

theorem pairwise_keptBehind (last : Vec2 α) (place : Nat) (points : List (Vec2 α)) :
    (keptBehind last place points).Pairwise (· < ·) := by
  induction points generalizing last place with
  | nil => exact .nil
  | cons p rest ih =>
    unfold keptBehind
    split
    · exact .cons (fun k hk => (keptBehind_bounds hk).1) (ih p (place + 1))
    · exact ih last (place + 1)

theorem sublist_dropEnd {γ : Type} (p : γ → Bool) (l : List γ) : (l.reverse.dropWhile p).reverse.Sublist l := by
  have h := (List.dropWhile_sublist p (l := l.reverse)).reverse
  rwa [List.reverse_reverse] at h

theorem clean_eq_keptPlaces (s : List (Vec2 α)) : clean s = (keptPlaces s).map (s.getD · default) := by
  cases s with
  | nil => rfl
  | cons first rest =>
    have hkept : (keptBehind first 1 rest).map ((first :: rest).getD · default) = dropRepeats first rest :=
      map_keptBehind rfl
    show first :: ((dropRepeats first rest).reverse.dropWhile fun p => Vec2.distance first p ≤ mergeDistance).reverse =
      first :: ((keptBehind first 1 rest).reverse.dropWhile _).reverse.map ((first :: rest).getD · default)
    rw [← hkept, ← List.map_reverse, List.dropWhile_map, ← List.map_reverse]
    rfl

theorem pairwise_keptPlaces (s : List (Vec2 α)) : (keptPlaces s).Pairwise (· < ·) := by
  cases s with
  | nil => exact .nil
  | cons first rest =>
    have hsublist := sublist_dropEnd (fun k => Vec2.distance first ((first :: rest).getD k default) ≤ mergeDistance)
      (keptBehind first 1 rest)
    exact .cons (fun k hk => (keptBehind_bounds (hsublist.subset hk)).1) ((pairwise_keptBehind first 1 rest).sublist hsublist)

theorem keptPlaces_lt {k : Nat} (h : k ∈ keptPlaces s) : k < s.length := by
  cases s with
  | nil => cases h
  | cons first rest =>
    rcases List.mem_cons.mp h with rfl | h
    · exact Nat.succ_pos _
    · have := keptBehind_bounds ((sublist_dropEnd _ _).subset h)
      rw [List.length_cons]
      omega

theorem length_keptPlaces (s : List (Vec2 α)) : (keptPlaces s).length = (clean s).length := by
  rw [clean_eq_keptPlaces, List.length_map]

theorem keptPlaces_of_length (h : (clean s).length = s.length) : keptPlaces s = List.range s.length := by
  have hsubset : keptPlaces s ⊆ List.range s.length := fun k hk => List.mem_range.mpr (keptPlaces_lt hk)
  have hnodup : (keptPlaces s).Nodup := (pairwise_keptPlaces s).imp Nat.ne_of_lt
  have hperm : (keptPlaces s).Perm (List.range s.length) :=
    (hnodup.subperm hsubset).perm_of_length_le (by rw [length_keptPlaces, h, List.length_range])
  exact hperm.eq_of_pairwise (fun a b _ _ hab hba => absurd hab (Nat.lt_asymm hba)) (pairwise_keptPlaces s)
    List.pairwise_lt_range

end Profile

/-! ## Vertices and triangles that are added -/

namespace Mesh

/-- What a mesh becomes when vertices are added at its end, and triangles of a kind. -/
structure GrowsTo (m m' : Mesh α) (points : List (Vec3 α)) (new : Triangle → Prop) : Prop where
  vertices : m'.vertices.toList = m.vertices.toList ++ points
  triangles : ∀ t ∈ m'.triangles, t ∈ m.triangles ∨ new t

variable {m m' m'' : Mesh α} {points points' : List (Vec3 α)} {new new' : Triangle → Prop}

namespace GrowsTo

omit [Scalar α] in
theorem refl (m : Mesh α) (new : Triangle → Prop) : m.GrowsTo m [] new := ⟨(List.append_nil _).symm, fun _ ht => .inl ht⟩

omit [Scalar α] in
theorem trans (h : m.GrowsTo m' points new) (h' : m'.GrowsTo m'' points' new) : m.GrowsTo m'' (points ++ points') new where
  vertices := by rw [h'.vertices, h.vertices, List.append_assoc]
  triangles t ht := (h'.triangles t ht).elim (h.triangles t) .inr

omit [Scalar α] in
theorem mono (h : m.GrowsTo m' points new) (hnew : ∀ t, new t → new' t) : m.GrowsTo m' points new' :=
  ⟨h.vertices, fun t ht => (h.triangles t ht).imp_right (hnew t)⟩

omit [Scalar α] in
theorem vertexCount (h : m.GrowsTo m' points new) : m'.vertexCount = m.vertexCount + points.length := by
  unfold Mesh.vertexCount
  rw [← Array.length_toList, h.vertices, List.length_append, Array.length_toList]

omit [Scalar α] in
theorem foldl {β : Type} {step : Mesh α → β → Mesh α} {added : β → List (Vec3 α)}
    (hstep : ∀ (m : Mesh α) b, m.GrowsTo (step m b) (added b) new) (items : List β) (m : Mesh α) :
    m.GrowsTo (items.foldl step m) (items.flatMap added) new := by
  induction items generalizing m with
  | nil => exact refl m new
  | cons b rest ih => exact (hstep m b).trans (ih _)

omit [Scalar α] in
theorem foldlM {β ε : Type} {step : Mesh α → β → Except ε (Mesh α)} {added : β → List (Vec3 α)} {items : List β}
    (hstep : ∀ (done : List β) b, done ++ [b] <+: items → ∀ m₁ m₂ : Mesh α, step m₁ b = .ok m₂ →
      m₁.vertexCount = m.vertexCount + (done.flatMap added).length → m₁.GrowsTo m₂ (added b) new)
    (h : items.foldlM step m = .ok m') : m.GrowsTo m' (items.flatMap added) new := by
  induction items using List.reverseRecOn generalizing m' with
  | nil =>
    cases h
    exact refl m new
  | append_singleton done b ih =>
    rw [List.foldlM_append, bind_eq_ok_iff] at h
    obtain ⟨half, hhalf, hlast⟩ := h
    rw [List.foldlM_cons, bind_eq_ok_iff] at hlast
    obtain ⟨m₂, hlast, hm₂⟩ := hlast
    cases hm₂
    have hdone := ih (fun done' b' hbefore => hstep done' b' (hbefore.trans (List.prefix_append _ _))) hhalf
    have hb := hstep done b (List.prefix_refl _) half m' hlast hdone.vertexCount
    rw [List.flatMap_append, List.flatMap_singleton]
    exact hdone.trans hb

end GrowsTo

theorem growsTo_addVertexWithNormal (m : Mesh α) (p n : Vec3 α) (new : Triangle → Prop) :
    m.GrowsTo (m.addVertexWithNormal p n) [p] new :=
  ⟨Array.toList_push, fun _ ht => .inl ht⟩

theorem mem_toList_flip {t : Triangle} {i : Nat} : i ∈ t.flip.toList ↔ i ∈ t.toList := by
  simp only [Triangle.flip, Triangle.toList, List.mem_cons, List.not_mem_nil, or_false]
  tauto

theorem growsTo_addIndexedFacing {t : Triangle} {outward : Vec3 α} (h : m.addIndexedFacing t outward = .ok m') :
    m.GrowsTo m' [] fun t' => t'.toList ⊆ t.toList := by
  obtain ⟨-, rfl⟩ := addIndexedFacing_eq_ok_iff.mp h
  split
  · exact .refl m _
  · refine ⟨(List.append_nil _).symm, fun t' ht' => ?_⟩
    rcases Array.mem_push.mp ht' with hold | rfl
    · exact .inl hold
    · refine .inr fun i hi => ?_
      split at hi
      · exact mem_toList_flip.mp hi
      · exact hi

theorem growsTo_addQuadIndexedFacing {a b c d : Nat} {outward : Vec3 α}
    (h : m.addQuadIndexedFacing a b c d outward = .ok m') : m.GrowsTo m' [] fun t => t.toList ⊆ [a, b, c, d] := by
  obtain ⟨half, hfirst, hsecond⟩ := bind_eq_ok_iff.mp h
  refine (growsTo_addIndexedFacing hfirst).mono (fun t ht i hi => ?_) |>.trans
    ((growsTo_addIndexedFacing hsecond).mono fun t ht i hi => ?_)
  all_goals
    have := ht hi
    simp only [Triangle.toList, List.mem_cons, List.not_mem_nil, or_false] at this ⊢
    tauto

/-- Corners of the quad between two rungs of a strip that starts behind so many vertices. -/
def stripQuad (base rungs k : Nat) : List Nat :=
  [base + 2 * k, base + 2 * k + 1, base + 2 * ((k + 1) % rungs) + 1, base + 2 * ((k + 1) % rungs)]

theorem growsTo_addStrip {rungs : List (Rung α)} {outward : List (Vec3 α)} (h : m.addStrip rungs outward = .ok m') :
    m.GrowsTo m' (rungs.flatMap fun r => [r.left, r.right])
      fun t => ∃ k < outward.length, t.toList ⊆ stripQuad m.vertexCount rungs.length k := by
  have hrungs (new : Triangle → Prop) : m.GrowsTo (rungs.foldl addRung m) (rungs.flatMap fun r => [r.left, r.right]) new :=
    .foldl (fun m r => (growsTo_addVertexWithNormal m r.left r.leftNormal new).trans
      (growsTo_addVertexWithNormal _ r.right r.rightNormal new)) rungs m
  have hquads : (rungs.foldl addRung m).GrowsTo m' (outward.zipIdx.flatMap fun _ => [])
      fun t => ∃ k < outward.length, t.toList ⊆ stripQuad m.vertexCount rungs.length k := by
    refine .foldlM (fun done side hside m₁ m₂ hadd _ => ?_) h
    obtain ⟨direction, k⟩ := side
    have hk : k < outward.length :=
      List.snd_lt_of_mem_zipIdx (hside.subset (List.mem_append_right _ (List.mem_singleton_self _)))
    exact (growsTo_addQuadIndexedFacing hadd).mono fun t ht => ⟨k, hk, ht⟩
  have hnone : (outward.zipIdx.flatMap fun _ => ([] : List (Vec3 α))) = [] := by simp
  rw [hnone] at hquads
  have := (hrungs _).trans hquads
  rwa [List.append_nil] at this

theorem growsTo_addCap {ring : List (Vec3 α)} {profile : List (Vec2 α)} {outward : Vec3 α}
    (h : m.addCap ring profile outward = .ok m') : m.GrowsTo m' ring fun t => ∀ i ∈ t.toList, m.vertexCount ≤ i := by
  obtain ⟨triangles, -, hadd⟩ := bind_eq_ok_iff.mp h
  have hring (new : Triangle → Prop) : m.GrowsTo
      (ring.foldl (fun m p => m.addVertexWithNormal p outward.normalize) m) (ring.flatMap fun p => [p]) new :=
    .foldl (fun m p => growsTo_addVertexWithNormal m p _ new) ring m
  have hfaces : (ring.foldl (fun m p => m.addVertexWithNormal p outward.normalize) m).GrowsTo m'
      (triangles.flatMap fun _ => []) fun t => ∀ i ∈ t.toList, m.vertexCount ≤ i := by
    refine .foldlM (fun done t _ m₁ m₂ hadd _ => (growsTo_addIndexedFacing hadd).mono fun t' ht' i hi => ?_) hadd
    have := ht' hi
    simp only [Triangle.toList, List.mem_cons, List.not_mem_nil, or_false] at this
    omega
  have hnone : (triangles.flatMap fun _ => ([] : List (Vec3 α))) = [] := by simp
  rw [hnone] at hfaces
  have := (hring _).trans hfaces
  rwa [List.append_nil, List.flatMap_singleton'] at this

theorem growsTo_orientOutward (m : Mesh α) :
    m.orientOutward.vertices = m.vertices ∧ ∀ t ∈ m.orientOutward.triangles, ∃ t' ∈ m.triangles, t.toList ⊆ t'.toList := by
  unfold orientOutward
  split
  · refine ⟨rfl, fun t ht => ?_⟩
    obtain ⟨t', ht', rfl⟩ := Array.mem_map.mp ht
    exact ⟨t', ht', fun i hi => mem_toList_flip.mp hi⟩
  · exact ⟨rfl, fun t ht => ⟨t, ht, List.Subset.refl _⟩⟩

end Mesh

/-! ## Corners of the sections -/

namespace Loft

/-- The place in a section that a corner of the solid comes from. -/
def place (turned : Bool) (s : List (Vec2 α)) (i : Nat) : Nat :=
  let kept := Profile.keptPlaces s
  kept.getD (if turned then kept.length - 1 - i else i) 0

def corner (turned : Bool) (s : List (Vec2 α)) (i : Nat) : Vec2 α := s.getD (place turned s i) default

variable {sections prepared : List (List (Vec2 α))} {heights : List α}

theorem map_corner (turned : Bool) (s : List (Vec2 α)) :
    (List.range (Profile.keptPlaces s).length).map (corner turned s) =
      if turned then (Profile.clean s).reverse else Profile.clean s := by
  rw [Profile.clean_eq_keptPlaces]
  unfold corner place
  cases turned with
  | false =>
    refine List.ext_getElem (by simp) fun i h _ => ?_
    have hi : i < (Profile.keptPlaces s).length := by simpa using h
    simp [List.getElem?_eq_getElem hi]
  | true =>
    refine List.ext_getElem (by simp) fun i h _ => ?_
    have hi : i < (Profile.keptPlaces s).length := by simpa using h
    have hback : (Profile.keptPlaces s).length - 1 - i < (Profile.keptPlaces s).length := by omega
    simp [List.getElem?_eq_getElem hback]

/-- Whether the sections are turned around, which the first one decides. -/
def turned (sections : List (List (Vec2 α))) : Bool := Profile.signedArea (Profile.clean (sections.headD [])) < 0

theorem corners_of_prepare (h : prepare sections = .ok prepared) :
    ∃ n, 3 ≤ n ∧ sections ≠ [] ∧ (∀ s ∈ sections, (Profile.keptPlaces s).length = n) ∧
      prepared = sections.map fun s => (List.range n).map (corner (turned sections) s) := by
  have hhead : (sections.map Profile.clean).headD [] = Profile.clean (sections.headD []) := by cases sections <;> rfl
  unfold prepare at h
  obtain ⟨hthree, h⟩ := guard_eq_ok_iff.mp h
  rw [hhead] at hthree h
  split at h
  · cases h
  · rename_i hsame
    have hlength (s : List (Vec2 α)) (hs : s ∈ sections) :
        (Profile.keptPlaces s).length = (Profile.clean (sections.headD [])).length := by
      have := List.find?_eq_none.mp hsame _ (List.mem_map_of_mem hs)
      rw [Profile.length_keptPlaces]
      simpa using this
    have hsome : sections ≠ [] := by
      rintro rfl
      exact hthree (Nat.succ_pos 2)
    refine ⟨(Profile.clean (sections.headD [])).length, by omega, hsome, hlength, ?_⟩
    have hcorners : sections.map (fun s => (List.range (Profile.clean (sections.headD [])).length).map
        (corner (turned sections) s)) =
        sections.map fun s => if turned sections then (Profile.clean s).reverse else Profile.clean s := by
      refine List.map_congr_left fun s hs => ?_
      rw [← hlength s hs, map_corner]
    rw [hcorners]
    have h := Except.ok.inj h
    unfold turned
    by_cases hturned : Profile.signedArea (Profile.clean (sections.headD [])) < 0
    · rw [if_pos hturned] at h
      simp only [hturned, decide_true, if_true]
      rw [← h, List.map_map]
      rfl
    · rw [if_neg hturned] at h
      simp only [hturned, decide_false, Bool.false_eq_true, if_false]
      exact h.symm

/-- Both vertices of a side at a level, for so many levels. -/
def sideVertices (levels side level : Nat) : List Nat :=
  [2 * (levels * side + level), 2 * (levels * side + level) + 1]

/-- Corners of one edge of each section, lifted. -/
def sidePoints (heights : List α) (edges : List (Vec2 α × Vec2 α)) : List (Vec3 α) :=
  (edges.zip heights).flatMap fun e => [lift e.2 e.1.1, lift e.2 e.1.2]

/-- Rungs of the strip through one edge of each section. -/
def sideRungs (heights : List α) (edges : List (Vec2 α × Vec2 α)) : List (Mesh.Rung α) :=
  ((edges.zip heights).zip (edges.map fun e => lift (0 : α) (Profile.edgeOutward e.1 e.2))).map fun r =>
    ⟨lift r.1.2 r.1.1.1, r.2, lift r.1.2 r.1.1.2, r.2⟩

theorem length_sideRungs {edges : List (Vec2 α × Vec2 α)} (h : heights.length = edges.length) :
    (sideRungs heights edges).length = edges.length := by
  simp [sideRungs, h]

theorem ends_sideRungs {edges : List (Vec2 α × Vec2 α)} (h : heights.length = edges.length) :
    ((sideRungs heights edges).flatMap fun r => [r.left, r.right]) = sidePoints heights edges := by
  have hfst : ((edges.zip heights).zip (edges.map fun e => lift (0 : α) (Profile.edgeOutward e.1 e.2))).map Prod.fst =
      edges.zip heights := List.map_fst_zip (by simp [h])
  unfold sideRungs sidePoints
  conv_rhs => rw [← hfst]
  rw [List.flatMap_map, List.flatMap_map]

theorem growsTo_addSide {m m' : Mesh α} {edges : List (Vec2 α × Vec2 α)} (hlength : heights.length = edges.length)
    {side : Nat} (hside : m.vertexCount = side * (2 * edges.length)) (h : addSide heights m edges = .ok m') :
    m.GrowsTo m' (sidePoints heights edges) fun t => ∃ k, k + 1 < edges.length ∧
      t.toList ⊆ sideVertices edges.length side k ++ sideVertices edges.length side (k + 1) := by
  have hgrows := Mesh.growsTo_addStrip (show m.addStrip (sideRungs heights edges) _ = .ok m' from h)
  rw [ends_sideRungs hlength, length_sideRungs hlength] at hgrows
  refine hgrows.mono fun t ⟨k, hk, ht⟩ => ?_
  have hk : k + 1 < edges.length := by
    simp only [List.length_map, List.length_zip, List.length_drop] at hk
    omega
  refine ⟨k, hk, fun i hi => ?_⟩
  have hcorner := ht hi
  unfold Mesh.stripQuad at hcorner
  rw [Nat.mod_eq_of_lt hk, hside] at hcorner
  unfold sideVertices
  simp only [List.mem_append, List.mem_cons, List.not_mem_nil, or_false] at hcorner ⊢
  have hbase : side * (2 * edges.length) = 2 * (edges.length * side) := by ring
  omega

def edgesAt (turned : Bool) (sections : List (List (Vec2 α))) (n i : Nat) : List (Vec2 α × Vec2 α) :=
  sections.map fun s => (corner turned s i, corner turned s ((i + 1) % n))

theorem edges_corners (turned : Bool) (sections : List (List (Vec2 α))) (n : Nat) :
    edges (sections.map fun s => (List.range n).map (corner turned s)) n =
      (List.range n).map (edgesAt turned sections n) := by
  unfold edges
  refine List.map_congr_left fun i hi => ?_
  have hi : i < n := List.mem_range.mp hi
  have hnext : (i + 1) % n < n := Nat.mod_lt _ (Nat.zero_lt_of_lt hi)
  rw [List.map_map]
  refine List.map_congr_left fun s _ => ?_
  simp [hi, hnext]

omit [Scalar α] in
theorem length_sidePoints {edges : List (Vec2 α × Vec2 α)} (hlength : heights.length = edges.length) :
    (sidePoints heights edges).length = 2 * edges.length := by
  unfold sidePoints
  rw [List.length_flatMap]
  simp [hlength, Nat.mul_comm]

theorem length_sides (turned : Bool) (n : Nat) (hlength : heights.length = sections.length) :
    (((List.range n).map (edgesAt turned sections n)).flatMap (sidePoints heights)).length = 2 * sections.length * n := by
  have hside (i : Nat) : (sidePoints heights (edgesAt turned sections n i)).length = 2 * sections.length := by
    unfold edgesAt
    rw [length_sidePoints (hlength.trans (List.length_map _).symm), List.length_map]
  rw [List.length_flatMap, List.map_map]
  simp [Function.comp_def, hside, Nat.mul_comm]

theorem growsTo_sides {m m' : Mesh α} {n : Nat} (turned : Bool) (hempty : m.vertexCount = 0)
    (hlength : heights.length = sections.length)
    (h : ((List.range n).map (edgesAt turned sections n)).foldlM (addSide heights) m = .ok m') :
    m.GrowsTo m' (((List.range n).map (edgesAt turned sections n)).flatMap (sidePoints heights)) fun t =>
      ∃ i < n, ∃ k, k + 1 < sections.length ∧
        t.toList ⊆ sideVertices sections.length i k ++ sideVertices sections.length i (k + 1) := by
  refine .foldlM (fun done edges hbefore m₁ m₂ hadd hcount => ?_) h
  have hat (e : List (Vec2 α × Vec2 α)) (he : e ∈ done ++ [edges]) : e.length = sections.length := by
    obtain ⟨i, -, rfl⟩ := List.mem_map.mp (hbefore.subset he)
    exact List.length_map _
  have hedges : edges.length = sections.length := hat edges (List.mem_append_right _ (List.mem_singleton_self _))
  -- All sides before this one have added equally many vertices.
  have hsides : (done.flatMap (sidePoints heights)).length = done.length * (2 * edges.length) := by
    rw [List.length_flatMap, List.map_congr_left (g := fun _ => 2 * edges.length) fun e he => ?_]
    · simp
    · have he := hat e (List.mem_append_left _ he)
      rw [length_sidePoints (hlength.trans he.symm), he, hedges]
  have hlt : done.length < n := by
    have := hbefore.length_le
    rw [List.length_append, List.length_map, List.length_range, List.length_singleton] at this
    omega
  rw [hsides, hempty, Nat.zero_add] at hcount
  refine (growsTo_addSide (hlength.trans hedges.symm) hcount hadd).mono fun t ⟨k, hk, ht⟩ => ⟨done.length, hlt, k, ?_⟩
  rw [hedges] at hk ht
  exact ⟨hk, ht⟩

def capPoints (turned : Bool) (n : Nat) (height : α) (s : List (Vec2 α)) : List (Vec3 α) :=
  (List.range n).map fun i => lift height (corner turned s i)

/-- What a loft that succeeds is made of. -/
theorem parts_of_mesh {m : Mesh α} (h : mesh sections heights = .ok m) :
    ∃ n side bottom top, 3 ≤ n ∧ (∀ s ∈ sections, (Profile.keptPlaces s).length = n) ∧
      (separatedHeights heights).length = sections.length ∧
      ((List.range n).map (edgesAt (turned sections) sections n)).foldlM (addSide (separatedHeights heights))
        Mesh.empty = .ok side ∧
      (∃ profile outward, side.addCap
        (capPoints (turned sections) n ((separatedHeights heights).headD 0) (sections.headD [])) profile outward = .ok bottom) ∧
      (∃ profile outward, bottom.addCap
        (capPoints (turned sections) n ((separatedHeights heights).getLastD 0) (sections.getLastD [])) profile outward =
          .ok top) ∧
      m = top.orientOutward := by
  unfold mesh at h
  obtain ⟨_, hcheck, h⟩ := bind_eq_ok_iff.mp h
  obtain ⟨prepared, hprepared, h⟩ := bind_eq_ok_iff.mp h
  obtain ⟨n, hthree, hsome, hkept, rfl⟩ := corners_of_prepare hprepared
  obtain ⟨side, hside, h⟩ := bind_eq_ok_iff.mp h
  obtain ⟨bottom, hbottom, h⟩ := bind_eq_ok_iff.mp h
  obtain ⟨top, htop, h⟩ := bind_eq_ok_iff.mp h
  have hlength : (separatedHeights heights).length = sections.length := by
    rw [length_separatedHeights]
    exact (sound_check _ _).result _ hcheck
  have hfirst : ((sections.map fun s => (List.range n).map (corner (turned sections) s)).headD []) =
      (List.range n).map (corner (turned sections) (sections.headD [])) := by
    obtain ⟨first, rest, rfl⟩ := List.exists_cons_of_ne_nil hsome
    rfl
  have hlast : ((sections.map fun s => (List.range n).map (corner (turned sections) s)).getLastD []) =
      (List.range n).map (corner (turned sections) (sections.getLastD [])) := by
    obtain ⟨first, rest, rfl⟩ := List.exists_cons_of_ne_nil hsome
    rw [List.getLastD_eq_getLast?, List.getLastD_eq_getLast?, List.getLast?_map, List.getLast?_cons]
    rfl
  rw [hfirst, List.length_map, List.length_range, edges_corners] at hside
  rw [hfirst, List.map_map] at hbottom
  rw [hlast, List.map_map] at htop
  exact ⟨n, side, bottom, top, hthree, hkept, hlength, hside, ⟨_, _, hbottom⟩, ⟨_, _, htop⟩,
    (Mesh.Guarded.orientOutward_eq_ok_iff.mp h).2⟩

/-- A loft joins corners of the same place among the points that cleaning keeps. A triangle of a side lies between two
sections that follow each other. Sections keep equally many points, but each keeps points of its own places, unless
nothing is dropped. -/
theorem loft_joins_kept_points {m : Mesh α} (h : mesh sections heights = .ok m) :
    ∃ n, 3 ≤ n ∧
      (∀ s ∈ sections, (Profile.keptPlaces s).length = n ∧ (Profile.keptPlaces s).Pairwise (· < ·) ∧
        (∀ k ∈ Profile.keptPlaces s, k < s.length) ∧ Profile.clean s = (Profile.keptPlaces s).map (s.getD · default)) ∧
      m.vertices.toList =
        ((List.range n).map (edgesAt (turned sections) sections n)).flatMap (sidePoints (separatedHeights heights)) ++
          capPoints (turned sections) n ((separatedHeights heights).headD 0) (sections.headD []) ++
          capPoints (turned sections) n ((separatedHeights heights).getLastD 0) (sections.getLastD []) ∧
      (∀ t ∈ m.triangles,
        (∃ i < n, ∃ k, k + 1 < sections.length ∧
          t.toList ⊆ sideVertices sections.length i k ++ sideVertices sections.length i (k + 1)) ∨
        ∀ v ∈ t.toList, 2 * sections.length * n ≤ v) ∧
      ((∀ s ∈ sections, s.length = (sections.headD []).length) → (∃ s ∈ sections, (Profile.clean s).length = s.length) →
        ∀ s ∈ sections, Profile.keptPlaces s = List.range n) := by
  obtain ⟨n, side, bottom, top, hthree, hkept, hlength, hside, ⟨_, _, hbottom⟩, ⟨_, _, htop⟩, rfl⟩ := parts_of_mesh h
  have hsides := growsTo_sides (turned sections) rfl hlength hside
  have hlow := Mesh.growsTo_addCap hbottom
  have hhigh := Mesh.growsTo_addCap htop
  have hcount : side.vertexCount = 2 * sections.length * n := by
    rw [hsides.vertexCount, length_sides _ n hlength]
    exact Nat.zero_add _
  obtain ⟨hvertices, htriangles⟩ := Mesh.growsTo_orientOutward top
  refine ⟨n, hthree, fun s hs => ⟨hkept s hs, Profile.pairwise_keptPlaces s, fun k => Profile.keptPlaces_lt,
    Profile.clean_eq_keptPlaces s⟩, ?_, fun t ht => ?_, fun hequal ⟨whole, hwhole, hclean⟩ s hs => ?_⟩
  · rw [hvertices, hhigh.vertices, hlow.vertices, hsides.vertices]
    rfl
  · obtain ⟨t', ht', hcorners⟩ := htriangles t ht
    rcases hhigh.triangles t' ht' with ht' | hcap
    · rcases hlow.triangles t' ht' with ht' | hcap
      · rcases hsides.triangles t' ht' with ht' | ⟨i, hi, k, hk, hsub⟩
        · exact absurd ht' (Array.not_mem_empty t')
        · exact .inl ⟨i, hi, k, hk, fun v hv => hsub (hcorners hv)⟩
      · exact .inr fun v hv => hcount.symm.trans_le (hcap v (hcorners hv))
    · refine .inr fun v hv => ?_
      have := hcap v (hcorners hv)
      rw [hlow.vertexCount, hcount] at this
      exact (Nat.le_add_right _ _).trans this
  · -- One section without repeats has as many points as every section keeps.
    have hn : n = whole.length := by rw [← hkept whole hwhole, Profile.length_keptPlaces, hclean]
    have hs' : (Profile.clean s).length = s.length := by
      rw [← Profile.length_keptPlaces, hkept s hs, hn, hequal whole hwhole, hequal s hs]
    rw [Profile.keptPlaces_of_length hs', ← hs', ← Profile.length_keptPlaces, hkept s hs]

/-! ## A repeat at either end -/

def triangle : List (Vec2 Float) := [⟨0, 0⟩, ⟨1, 0⟩, ⟨0, 1⟩]

def repeatedFirst : List (Vec2 Float) := [⟨0, 0⟩, ⟨0, 0⟩, ⟨1, 0⟩, ⟨0, 1⟩]

def repeatedLast : List (Vec2 Float) := [⟨0, 0⟩, ⟨1, 0⟩, ⟨0, 1⟩, ⟨0, 1⟩]

theorem keptPlaces_repeatedFirst : Profile.keptPlaces repeatedFirst = [0, 2, 3] := by decide +kernel

theorem keptPlaces_repeatedLast : Profile.keptPlaces repeatedLast = [0, 1, 2] := by decide +kernel

theorem clean_repeatedFirst : Profile.clean repeatedFirst = triangle := by
  rw [Profile.clean_eq_keptPlaces, keptPlaces_repeatedFirst]
  rfl

theorem clean_repeatedLast : Profile.clean repeatedLast = triangle := by
  rw [Profile.clean_eq_keptPlaces, keptPlaces_repeatedLast]
  rfl

section

open EarClipping

set_option maxRecDepth 1000 in
theorem ringOf_triangle : ringOf triangle = [⟨2, ⟨0, 1⟩, 0⟩, ⟨0, ⟨0, 0⟩, 0⟩, ⟨1, ⟨1, 0⟩, 0⟩] := by
  have hclockwise : 0 < turning triangle := by decide
  have hends : samePoint (⟨2, ⟨0, 1⟩, 0⟩ : Node Float) ⟨0, ⟨0, 0⟩, 0⟩ = false := rfl
  unfold ringOf
  dsimp only
  rw [if_pos hclockwise]
  show (if samePoint _ _ = true then _ else _) = _
  rw [hends]
  rfl

theorem clip_triangle :
    clip none (ringOf triangle) 0 #[] = ([⟨1, ⟨1, 0⟩, 0⟩, ⟨0, ⟨0, 0⟩, 0⟩], #[(1, 2, 0)]) := by
  have hflat : isEar none (⟨1, ⟨1, 0⟩, 0⟩ : Node Float) [⟨0, ⟨0, 0⟩, 0⟩] = false := rfl
  have hflat' : isEar none (⟨0, ⟨0, 0⟩, 0⟩ : Node Float) [⟨1, ⟨1, 0⟩, 0⟩] = false := rfl
  rw [ringOf_triangle, clip, if_pos (by decide), if_pos (by rfl)]
  simp [clip, before, hflat, hflat']

theorem triangulate_triangle : Profile.triangulate triangle = .ok [(1, 2, 0)] := by
  have hclipped : clipRepaired none (ringOf triangle) #[] = ([⟨1, ⟨1, 0⟩, 0⟩, ⟨0, ⟨0, 0⟩, 0⟩], #[(1, 2, 0)]) := by
    unfold clipRepaired
    rw [clip_triangle]
    rfl
  have hcut : cut triangle.length none (ringOf triangle) #[] = some #[(1, 2, 0)] := by
    show (let r := clipRepaired none (ringOf triangle) #[]
      if r.1.length < 3 then some r.2 else _) = _
    rw [hclipped]
    rfl
  have hfound : triangles? triangle = some [(1, 2, 0)] := by
    unfold triangles?
    dsimp only
    rw [if_pos (by decide), hcut]
    rfl
  have hleftmost : (triangle.any fun p => p.x < largest) = true := by decide +kernel
  have hcut : earcut triangle = .ok [(1, 2, 0)] := by
    unfold earcut
    rw [hleftmost, hfound]
    rfl
  unfold Profile.triangulate
  rw [hcut]
  rfl

end

theorem mesh_eq (hcheck : check sections heights = .ok ()) (hprepare : prepare sections = .ok prepared) :
    mesh sections heights = (do
      let low := (separatedHeights heights).headD 0
      let high := (separatedHeights heights).getLastD 0
      let up : Vec3 α := if low ≤ high then Vec3.unitY else -Vec3.unitY
      let m ← (edges prepared (prepared.headD []).length).foldlM (addSide (separatedHeights heights)) Mesh.empty
      let m ← m.addCap ((prepared.headD []).map (lift low)) (prepared.headD []) (-up)
      let m ← m.addCap ((prepared.getLastD []).map (lift high)) (prepared.getLastD []) up
      Mesh.Guarded.orientOutward m) := by
  unfold mesh
  rw [hcheck, hprepare]
  rfl

theorem repeats_lofted : ∃ m, mesh [repeatedFirst, repeatedLast] [0, 1] = .ok m := by
  have hcheck : check [repeatedFirst, repeatedLast] [0, 1] = .ok () := by rfl
  have hprepare : prepare [repeatedFirst, repeatedLast] = .ok [triangle, triangle] := by
    have hturned : ¬ Profile.signedArea triangle < 0 := by decide +kernel
    unfold prepare
    simp only [List.map_cons, List.map_nil, clean_repeatedFirst, clean_repeatedLast, List.headD_cons]
    rw [if_neg (by decide)]
    simp [hturned]
    rfl
  have hcap (m : Mesh Float) (ring : List (Vec3 Float)) (outward : Vec3 Float) : m.addCap ring triangle outward =
      (ring.foldl (fun m p => m.addVertexWithNormal p outward.normalize) m).addIndexedFacing
        ⟨m.vertexCount + 1, m.vertexCount + 2, m.vertexCount + 0⟩ outward.normalize := by
    unfold Mesh.addCap
    rw [triangulate_triangle]
    exact bind_pure (Mesh.addIndexedFacing _ _ _)
  -- With one triangle for the cap, the rest of the mesh can be worked out.
  have hok : (mesh [repeatedFirst, repeatedLast] [0, 1]).isOk = true := by
    rw [mesh_eq hcheck hprepare]
    simp only [List.headD_cons, List.getLastD_cons, List.getLastD_nil, hcap]
    decide +kernel
  cases hm : mesh [repeatedFirst, repeatedLast] [0, 1] with
  | ok m => exact ⟨m, rfl⟩
  | error e =>
    rw [hm] at hok
    cases hok

theorem repeats_joined :
    ∃ m, mesh [repeatedFirst, repeatedLast] [0, 1] = .ok m ∧ ∃ caps, m.vertices.toList =
      ((List.range 3).map (edgesAt (turned [repeatedFirst, repeatedLast]) [repeatedFirst, repeatedLast] 3)).flatMap
        (sidePoints (separatedHeights [0, 1])) ++ caps := by
  obtain ⟨m, hm⟩ := repeats_lofted
  obtain ⟨n, -, hkept, hvertices, -⟩ := loft_joins_kept_points hm
  have hn : n = 3 := by
    rw [← (hkept repeatedFirst List.mem_cons_self).1, keptPlaces_repeatedFirst]
    rfl
  rw [hn, List.append_assoc] at hvertices
  exact ⟨m, hm, _, hvertices⟩

/-- No places are kept in both sections. -/
theorem repeats_share_no_places :
    (∃ m, mesh [repeatedFirst, repeatedLast] [0, 1] = .ok m) ∧ repeatedFirst.length = repeatedLast.length ∧
      ¬ ∃ (kept : List Nat) (back : Bool), ∀ s ∈ [repeatedFirst, repeatedLast],
        (if back then (Profile.clean s).reverse else Profile.clean s) = kept.map (s.getD · default) := by
  refine ⟨repeats_lofted, rfl, ?_⟩
  rintro ⟨kept, back, h⟩
  have hfirst := h repeatedFirst List.mem_cons_self
  have hlast := h repeatedLast (List.mem_cons_of_mem _ List.mem_cons_self)
  rw [clean_repeatedFirst] at hfirst
  rw [clean_repeatedLast] at hlast
  -- The corner in the middle stays in the middle when the sections are turned around.
  have hmiddle : (if back then triangle.reverse else triangle)[1]? = some ⟨1, 0⟩ := by cases back <;> rfl
  rw [hfirst, List.getElem?_map] at hmiddle
  obtain ⟨k, hk, hinFirst⟩ := Option.map_eq_some_iff.mp hmiddle
  have hinLast : repeatedLast.getD k default = ⟨1, 0⟩ := by
    have hmiddle : (if back then triangle.reverse else triangle)[1]? = some ⟨1, 0⟩ := by cases back <;> rfl
    rw [hlast, List.getElem?_map, hk] at hmiddle
    exact Option.some.inj hmiddle
  have hnowhere : ∀ k < 4, ¬ (0.5 < (repeatedFirst.getD k default).x ∧ 0.5 < (repeatedLast.getD k default).x) := by
    decide +kernel
  have hhalf : (0.5 : Float) < (1 : Float) := by decide +kernel
  rcases Nat.lt_or_ge k 4 with hlt | hge
  · exact hnowhere k hlt (by rw [hinFirst, hinLast]; exact ⟨hhalf, hhalf⟩)
  · rw [List.getD_eq_default _ _ hge] at hinFirst
    have hzero : ¬ (0.5 : Float) < (default : Vec2 Float).x := by decide +kernel
    rw [hinFirst] at hzero
    exact hzero hhalf

end Loft

end SolidScript
