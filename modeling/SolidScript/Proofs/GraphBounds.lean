import SolidScript.Model.ArtifactGraph
import SolidScript.Proofs.MeshBounds

/-!
# Bounds of graphs

The bounds of a graph are merged from those of its solids. They are the bounds of all points that are shown, as if
these came in one list, and the order of the solids does not count.
-/

namespace SolidScript

open Scalar

namespace Binary64

open Float.Model Float.Model.UnpackedFloat

variable {x y : Float}

/-! ## Numbers, infinite ones among them -/

theorem isNumber_iff : isNumber x = true ↔ Number x := by
  unfold isNumber
  rw [decide_eq_true_iff, le_iff]
  exact ⟨fun h => h.1, fun h => ⟨h, h, le_rfl⟩⟩

theorem pack_unpack_model (m : Float.Model) : Float.Model.pack m.unpack = m := by
  obtain ⟨bits, hvalid⟩ := m
  have hbits : UnpackedFloat.pack Format.binary64 (UnpackedFloat.unpack Format.binary64 bits.toBitVec) =
      bits.toBitVec := by
    rw [@pack_unpack Format.binary64 bits.toBitVec (by decide)]
    split
    · rename_i hnan
      obtain ⟨he, hm⟩ := of_decide_eq_true hnan
      exact (hvalid.eq_packedNaN he hm).symm
    · rfl
  rw [Float.Model.mk.injEq]
  exact congrArg UInt64.ofBitVec hbits

theorem eq_of_unpack_eq (h : x.toModel.unpack = y.toModel.unpack) : x = y := by
  have hmodel : x.toModel = y.toModel := by
    rw [← pack_unpack_model x.toModel, h, pack_unpack_model]
  exact congrArg Float.ofModel hmodel

theorem natAbs_units_le (x : Float) : (units x).natAbs ≤ unitsEnd := by
  unfold units
  cases hx : x.toModel.unpack with
  | notANumber | zero => exact Nat.zero_le _
  | infinity s => exact (natAbs_unpackedUnits_infinity s).le
  | finite s m e hm =>
    rw [natAbs_unpackedUnits_finite]
    exact (magnitude_lt hx).le

theorem unpack_of_units_end {s : Sign} (h : units x = s.apply unitsEnd) : x.toModel.unpack = .infinity s := by
  have hend : (units x).natAbs = unitsEnd := by rw [h, natAbs_apply, Int.natAbs_natCast]
  have hpos := unitsEnd_pos
  unfold units at h hend
  cases hx : x.toModel.unpack with
  | notANumber | zero =>
    rw [hx] at hend
    exact absurd hend hpos.ne
  | infinity t =>
    have hsign : t.apply unitsEnd = s.apply unitsEnd := by rw [← h, hx, unpackedUnits]
    generalize unitsEnd = far at hpos hsign
    -- An infinity of the other sign is on the other side.
    cases s <;> cases t
    · rfl
    · have hneg : (far : Int) = -far := hsign
      omega
    · have hneg : -(far : Int) = far := hsign
      omega
    · rfl
  | finite t m e hm =>
    rw [hx, natAbs_unpackedUnits_finite] at hend
    exact absurd hend (magnitude_lt hx).ne

end Binary64

open Binary64

/-! ## Faces -/

/-- The two faces of a box across an axis. -/
inductive Extreme where
  | low
  | high

namespace Extreme

variable {s : Extreme} {x y : Float}

def choose : Extreme → Float → Float → Float
  | low => least
  | high => greatest

def start : Extreme → Float
  | low => infinity
  | high => -infinity

def depth : Extreme → Float → Int
  | low => units
  | high => fun x => -units x

theorem choose_eq_minOn (hx : Number x) (hy : Number y) : s.choose x y = minOn s.depth x y := by
  have hself : x ≤ x := le_refl_float hx
  rw [minOn_eq_if]
  cases s with
  | low =>
    have hlt : ¬ y < x ↔ units x ≤ units y := by simp [lt_iff, hx, hy]
    exact if_congr ((and_iff_right hself).trans hlt) rfl rfl
  | high =>
    have hlt : ¬ x < y ↔ -units x ≤ -units y := by simp [lt_iff, hx, hy]
    exact if_congr ((and_iff_right hself).trans hlt) rfl rfl

theorem number_choose (hx : Number x) (hy : Number y) : Number (s.choose x y) := by
  rw [choose_eq_minOn hx hy]
  rcases minOn_eq_or (f := s.depth) (x := x) (y := y) with h | h <;> rw [h]
  · exact hx
  · exact hy

theorem choose_assoc {z : Float} (hx : Number x) (hy : Number y) (hz : Number z) :
    s.choose (s.choose x y) z = s.choose x (s.choose y z) := by
  rw [choose_eq_minOn (number_choose hx hy) hz, choose_eq_minOn hx (number_choose hy hz), choose_eq_minOn hx hy,
    choose_eq_minOn hy hz]
  exact minOn_assoc

theorem number_start : Number s.start := by
  cases s <;> exact nofun

theorem choose_start (hx : Number x) : s.choose s.start x = x := by
  have hle := natAbs_units_le x
  rw [choose_eq_minOn number_start hx]
  by_cases h : s.depth s.start ≤ s.depth x
  · rw [minOn_eq_left h]
    apply eq_of_unpack_eq
    cases s with
    | low =>
      have hunits : (unitsEnd : Int) ≤ units x := h
      exact (unpack_of_units_end (s := .positive) (show units x = unitsEnd by omega)).symm
    | high =>
      have hunits : - -(unitsEnd : Int) ≤ -units x := h
      exact (unpack_of_units_end (s := .negative) (show units x = -unitsEnd by omega)).symm
  · exact minOn_eq_right h

theorem foldl_choose {xs : List Float} (h : ∀ y ∈ x :: xs, Number y) :
    xs.foldl s.choose x = (x :: xs).minOn s.depth (List.cons_ne_nil x xs) := by
  induction xs generalizing x with
  | nil => exact List.minOn_singleton.symm
  | cons y xs ih =>
    obtain ⟨hx, hy, hrest⟩ := List.forall_mem_cons.mp h |>.imp_right List.forall_mem_cons.mp
    rw [List.foldl_cons, ih (List.forall_mem_cons.mpr ⟨number_choose hx hy, hrest⟩), List.minOn_cons_cons,
      choose_eq_minOn hx hy]

end Extreme

namespace Bounds

section

variable {α : Type}

def face (b : Bounds α) (a : Axis) : Extreme → α
  | .low => b.low.get a
  | .high => b.high.get a

theorem eq_of_face {b c : Bounds α} (h : ∀ a s, b.face a s = c.face a s) : b = c := by
  obtain ⟨⟨x, y, z⟩, x', y', z'⟩ := b
  obtain ⟨⟨u, v, w⟩, u', v', w'⟩ := c
  obtain rfl : x = u := h .x .low
  obtain rfl : y = v := h .y .low
  obtain rfl : z = w := h .z .low
  obtain rfl : x' = u' := h .x .high
  obtain rfl : y' = v' := h .y .high
  obtain rfl : z' = w' := h .z .high
  rfl

end

variable {b : Bounds Float} {points more : List (Vec3 Float)} {a : Axis} {s : Extreme}

theorem face_empty : (empty : Bounds Float).face a s = s.start := by
  cases a <;> cases s <;> rfl

theorem face_insert (p : Vec3 Float) : (b.insert p).face a s = s.choose (b.face a s) (p.get a) := by
  cases s <;> exact Vec3.get_zipWith _

theorem face_foldl_insert : (points.foldl insert b).face a s = (points.map (·.get a)).foldl s.choose (b.face a s) := by
  cases s
  · exact (foldl_insert points b a).1
  · exact (foldl_insert points b a).2

theorem isEmpty_iff : b.isEmpty = true ↔ ∃ a, b.face a .high < b.face a .low := by
  unfold isEmpty
  rw [Bool.or_eq_true, Bool.or_eq_true, decide_eq_true_iff, decide_eq_true_iff, decide_eq_true_iff]
  constructor
  · rintro ((h | h) | h)
    · exact ⟨.x, h⟩
    · exact ⟨.y, h⟩
    · exact ⟨.z, h⟩
  · rintro ⟨a, h⟩
    cases a
    · exact .inl (.inl h)
    · exact .inl (.inr h)
    · exact .inr h

end Bounds

/-! ## Points together -/

/-- Every coordinate is a number, and may be infinite. -/
def Numeric (points : List (Vec3 Float)) : Prop := ∀ p ∈ points, ∀ a, isNumber (p.get a) = true

theorem Vec3.same_of_get {v w : Vec3 Float} (h : ∀ a, v.get a ≤ w.get a ∧ w.get a ≤ v.get a) : v.same w = true := by
  have hsame (a : Axis) : Scalar.same (v.get a) (w.get a) = true :=
    Bool.and_eq_true_iff.mpr ⟨decide_eq_true (h a).1, decide_eq_true (h a).2⟩
  unfold Vec3.same
  rw [Bool.and_eq_true, Bool.and_eq_true]
  exact ⟨⟨hsame .x, hsame .y⟩, hsame .z⟩

namespace Bounds

/-- The least and the greatest coordinates of points. -/
structure Tight (b : Bounds Float) (points : List (Vec3 Float)) : Prop where
  around : ∀ p ∈ points, ∀ a, b.low.get a ≤ p.get a ∧ p.get a ≤ b.high.get a
  low_mem : ∀ a, ∃ p ∈ points, p.get a = b.low.get a
  high_mem : ∀ a, ∃ p ∈ points, p.get a = b.high.get a

/-- Bounds of the same points are the same, however these are listed. -/
theorem Tight.same {b c : Bounds Float} {points more : List (Vec3 Float)} (hb : b.Tight points) (hc : c.Tight more)
    (h : ∀ p, p ∈ points ↔ p ∈ more) : b.low.same c.low = true ∧ b.high.same c.high = true := by
  constructor
  · refine Vec3.same_of_get fun a => ?_
    obtain ⟨p, hp, hpb⟩ := hb.low_mem a
    obtain ⟨q, hq, hqc⟩ := hc.low_mem a
    exact ⟨hqc ▸ (hb.around q ((h q).mpr hq) a).1, hpb ▸ (hc.around p ((h p).mp hp) a).1⟩
  · refine Vec3.same_of_get fun a => ?_
    obtain ⟨p, hp, hpb⟩ := hb.high_mem a
    obtain ⟨q, hq, hqc⟩ := hc.high_mem a
    exact ⟨hpb ▸ (hc.around p ((h p).mp hp) a).2, hqc ▸ (hb.around q ((h q).mpr hq) a).2⟩

variable {points more : List (Vec3 Float)} {p : Vec3 Float} {a : Axis} {s : Extreme}

theorem face_ofPoints (h : Numeric points) (hne : points.map (·.get a) ≠ []) :
    (ofPoints points).face a s = (points.map (·.get a)).minOn s.depth hne := by
  have hnumber : ∀ x ∈ points.map (·.get a), Number x := by
    intro x hx
    obtain ⟨p, hp, rfl⟩ := List.mem_map.mp hx
    exact isNumber_iff.mp (h p hp a)
  unfold ofPoints
  rw [face_foldl_insert, face_empty]
  obtain ⟨x, xs, hcons⟩ := List.exists_cons_of_ne_nil hne
  simp only [hcons] at hnumber ⊢
  rw [List.foldl_cons, Extreme.choose_start (hnumber x List.mem_cons_self), Extreme.foldl_choose hnumber]

theorem exists_mem_face (h : Numeric points) (hne : points ≠ []) :
    ∃ p ∈ points, p.get a = (ofPoints points).face a s := by
  rw [face_ofPoints h (mt List.map_eq_nil_iff.mp hne)]
  exact List.mem_map.mp List.minOn_mem

theorem number_face (h : Numeric points) (hne : points ≠ []) : Number ((ofPoints points).face a s) := by
  obtain ⟨p, hp, heq⟩ := exists_mem_face h hne
  rw [← heq]
  exact isNumber_iff.mp (h p hp a)

theorem depth_face_le (h : Numeric points) (hp : p ∈ points) :
    s.depth ((ofPoints points).face a s) ≤ s.depth (p.get a) := by
  have hmem : p.get a ∈ points.map (·.get a) := List.mem_map_of_mem (f := (·.get a)) hp
  rw [face_ofPoints h (List.ne_nil_of_mem hmem)]
  exact List.apply_minOn_le_of_mem hmem

theorem tight_ofPoints (h : Numeric points) (hne : points ≠ []) : (ofPoints points).Tight points where
  around p hp a := by
    have hlow : units ((ofPoints points).low.get a) ≤ units (p.get a) := depth_face_le (s := .low) h hp
    have hhigh : -units ((ofPoints points).high.get a) ≤ -units (p.get a) := depth_face_le (s := .high) h hp
    have hp := isNumber_iff.mp (h p hp a)
    exact ⟨le_iff.mpr ⟨number_face (s := .low) h hne, hp, hlow⟩,
      le_iff.mpr ⟨hp, number_face (s := .high) h hne, neg_le_neg_iff.mp hhigh⟩⟩
  low_mem a := exists_mem_face (s := .low) h hne
  high_mem a := exists_mem_face (s := .high) h hne

theorem low_le_high (h : Numeric points) (hne : points ≠ []) :
    (ofPoints points).face a .low ≤ (ofPoints points).face a .high := by
  obtain ⟨p, hp⟩ := List.exists_mem_of_ne_nil points hne
  obtain ⟨hlow, hhigh⟩ := (tight_ofPoints h hne).around p hp a
  exact le_trans_float hlow hhigh

theorem isEmpty_ofPoints (h : Numeric points) : (ofPoints points).isEmpty = true ↔ points = [] := by
  constructor
  · intro hempty
    by_contra hne
    obtain ⟨a, hlt⟩ := isEmpty_iff.mp hempty
    exact not_lt_of_le_float (low_le_high h hne) hlt
  · rintro rfl
    rfl

/-! ## Boxes together -/

/-- Where no point is below another, both faces are at the first of them, so that a zero keeps its sign. -/
theorem face_of_flat (h : Numeric points) (hmap : points.map (·.get a) ≠ [])
    (hflat : units ((ofPoints points).face a .high) ≤ units ((ofPoints points).face a .low)) :
    (ofPoints points).face a s = (points.map (·.get a)).head hmap := by
  have hunits : ∀ p ∈ points, units (p.get a) = units ((ofPoints points).face a .low) := by
    intro p hp
    have hlow : units ((ofPoints points).face a .low) ≤ units (p.get a) := depth_face_le (s := .low) h hp
    have hhigh : -units ((ofPoints points).face a .high) ≤ -units (p.get a) := depth_face_le (s := .high) h hp
    exact le_antisymm ((neg_le_neg_iff.mp hhigh).trans hflat) hlow
  have hdepth : ∀ x ∈ points.map (·.get a), ∀ y ∈ points.map (·.get a), s.depth x ≤ s.depth y := by
    intro x hx y hy
    obtain ⟨p, hp, rfl⟩ := List.mem_map.mp hx
    obtain ⟨q, hq, rfl⟩ := List.mem_map.mp hy
    have heq : units (p.get a) = units (q.get a) := (hunits p hp).trans (hunits q hq).symm
    cases s with
    | low => exact heq.le
    | high => exact (congrArg Neg.neg heq).le
  rw [face_ofPoints h hmap]
  exact List.minOn_eq_head hmap (hdepth _ (List.head_mem hmap))

theorem choose_faces (h : Numeric points) (hne : points ≠ []) :
    s.choose ((ofPoints points).face a .low) ((ofPoints points).face a .high) = (ofPoints points).face a s := by
  have hle : units ((ofPoints points).face a .low) ≤ units ((ofPoints points).face a .high) :=
    (le_iff.mp (low_le_high h hne)).2.2
  rw [Extreme.choose_eq_minOn (number_face h hne) (number_face h hne)]
  cases s with
  | low => exact minOn_eq_left (f := Extreme.low.depth) hle
  | high =>
    by_cases hflat : units ((ofPoints points).face a .high) ≤ units ((ofPoints points).face a .low)
    · have hmap : points.map (·.get a) ≠ [] := mt List.map_eq_nil_iff.mp hne
      rw [face_of_flat (s := .low) h hmap hflat, face_of_flat (s := .high) h hmap hflat, minOn_self]
    · exact minOn_eq_right (f := Extreme.high.depth) fun hdepth => hflat (neg_le_neg_iff.mp hdepth)

theorem face_union {b c : Bounds Float} (hb : ¬ b.isEmpty = true) (hc : ¬ c.isEmpty = true) :
    (b.union c).face a s = s.choose (s.choose (b.face a s) (c.face a .low)) (c.face a .high) := by
  unfold union
  rw [if_neg hb, if_neg hc, face_insert, face_insert]
  rfl

/-- Bounds of points can be merged instead of the points. -/
theorem union_ofPoints (h : Numeric (points ++ more)) :
    (ofPoints points).union (ofPoints more) = ofPoints (points ++ more) := by
  obtain ⟨hpoints, hmore⟩ : Numeric points ∧ Numeric more := List.forall_mem_append.mp h
  by_cases hne : points = []
  · subst hne
    exact if_pos rfl
  by_cases hne' : more = []
  · subst hne'
    unfold union
    rw [if_neg (mt (isEmpty_ofPoints hpoints).mp hne), List.append_nil]
    exact if_pos rfl
  refine eq_of_face fun a s => ?_
  have hne_append : points ++ more ≠ [] := fun hnil => hne (List.append_eq_nil_iff.mp hnil).1
  have hmap {points : List (Vec3 Float)} (hne : points ≠ []) : points.map (·.get a) ≠ [] :=
    mt List.map_eq_nil_iff.mp hne
  have hnumber {s : Extreme} : Number ((ofPoints more).face a s) := number_face hmore hne'
  -- The second box is merged corner by corner.
  calc ((ofPoints points).union (ofPoints more)).face a s
    _ = s.choose (s.choose ((ofPoints points).face a s) ((ofPoints more).face a .low)) ((ofPoints more).face a .high) :=
      face_union (mt (isEmpty_ofPoints hpoints).mp hne) (mt (isEmpty_ofPoints hmore).mp hne')
    _ = s.choose ((ofPoints points).face a s)
        (s.choose ((ofPoints more).face a .low) ((ofPoints more).face a .high)) :=
      Extreme.choose_assoc (number_face hpoints hne) hnumber hnumber
    _ = s.choose ((ofPoints points).face a s) ((ofPoints more).face a s) := by rw [choose_faces hmore hne']
    _ = (ofPoints (points ++ more)).face a s := by
      rw [Extreme.choose_eq_minOn (number_face hpoints hne) hnumber, face_ofPoints hpoints (hmap hne),
        face_ofPoints hmore (hmap hne'), face_ofPoints h (hmap hne_append), ← List.minOn_append]
      simp only [List.map_append]

theorem foldl_union (points : List (Vec3 Float)) (meshes : List (Mesh Float))
    (h : Numeric (points ++ meshes.flatMap (·.vertices.toList))) :
    meshes.foldl (fun b m => b.union m.bounds) (ofPoints points) =
      ofPoints (points ++ meshes.flatMap (·.vertices.toList)) := by
  induction meshes generalizing points with
  | nil => rw [List.flatMap_nil, List.append_nil, List.foldl_nil]
  | cons m meshes ih =>
    rw [List.flatMap_cons, ← List.append_assoc] at h ⊢
    have hmerged : (ofPoints points).union m.bounds = ofPoints (points ++ m.vertices.toList) :=
      union_ofPoints (List.forall_mem_append.mp h).1
    rw [List.foldl_cons, hmerged, ih _ h]

end Bounds

/-! ## Graphs -/

namespace ArtifactGraph

def shownPoints (g : ArtifactGraph Float) : List (Vec3 Float) :=
  ((g.visibleArtifacts.filterMap Artifact.geometry).filter fun m => !m.isEmpty).flatMap (·.vertices.toList)

theorem bounds_eq_ofPoints {g : ArtifactGraph Float} (h : Numeric g.shownPoints) :
    g.bounds = Bounds.ofPoints g.shownPoints :=
  Bounds.foldl_union [] _ h

/-- The same solids with others of them shown, or in another order. -/
def showing (g : ArtifactGraph Float) (names : List String) : ArtifactGraph Float := { g with visible := names }

theorem shownPoints_perm {g : ArtifactGraph Float} {names : List String} (h : names.Perm g.visible) :
    (g.showing names).shownPoints.Perm g.shownPoints :=
  (((h.filterMap _).filterMap _).filter _).flatMap_right _

/-- The bounds of what is shown are those of all its points at once. Each face is at the least or the greatest
coordinate, and is the same number in whatever order solids are shown. -/
theorem bounds_of_shown_points (g : ArtifactGraph Float) (h : Numeric g.shownPoints) :
    g.bounds = Bounds.ofPoints g.shownPoints ∧ (g.bounds.isEmpty = true ↔ g.shownPoints = []) ∧
      (g.shownPoints ≠ [] → g.bounds.Tight g.shownPoints) ∧
      ∀ names : List String, names.Perm g.visible →
        (g.showing names).bounds.low.same g.bounds.low = true ∧
          (g.showing names).bounds.high.same g.bounds.high = true := by
  have hbounds := bounds_eq_ofPoints h
  refine ⟨hbounds, ?_, fun hne => ?_, fun names hperm => ?_⟩
  · rw [hbounds]
    exact Bounds.isEmpty_ofPoints h
  · rw [hbounds]
    exact Bounds.tight_ofPoints h hne
  · have hpoints : (g.showing names).shownPoints.Perm g.shownPoints := shownPoints_perm hperm
    have hnumeric : Numeric (g.showing names).shownPoints := fun p hp => h p (hpoints.mem_iff.mp hp)
    rw [bounds_eq_ofPoints hnumeric, hbounds]
    by_cases hne : g.shownPoints = []
    · rw [hne] at hpoints ⊢
      rw [hpoints.eq_nil]
      exact ⟨rfl, rfl⟩
    · have hne' : (g.showing names).shownPoints ≠ [] := fun hnil => hne (List.nil_perm.mp (hnil ▸ hpoints))
      exact (Bounds.tight_ofPoints hnumeric hne').same (Bounds.tight_ofPoints h hne) fun p => hpoints.mem_iff

/-- Two solids are shown, with zeros of both signs, and a third one is hidden. -/
def twoShown : ArtifactGraph Float :=
  let triangle (x y : Float) : Mesh Float := ⟨#[⟨x, -0.0, 1⟩, ⟨y, 0, 1⟩, ⟨y, 0, 2⟩], #[⟨0, 1, 2⟩], none⟩
  ((empty.insertVisible ⟨"b", some (triangle 2 5), none⟩).insertVisible
    ⟨"a", some (triangle 4 7), none⟩).insertVisible ⟨"c", some (triangle 0 9), none⟩ |>.hide "c"

theorem twoShown_bounds :
    twoShown.shownPoints.length = 6 ∧ twoShown.bounds = Bounds.ofPoints twoShown.shownPoints ∧
      twoShown.bounds.Tight twoShown.shownPoints ∧
      (twoShown.showing ["a", "b"]).bounds.low.same twoShown.bounds.low = true := by
  have hnumbers : ∀ p ∈ twoShown.shownPoints, ∀ x ∈ p.toList, isNumber x = true := by decide +kernel
  have hnumeric : Numeric twoShown.shownPoints := fun p hp =>
    Vec3.forall_get (r := fun x => isNumber x = true) (hnumbers p hp)
  obtain ⟨hbounds, -, htight, hsame⟩ := bounds_of_shown_points twoShown hnumeric
  exact ⟨rfl, hbounds, htight (by decide), (hsame ["a", "b"] (.swap "b" "a" [])).1⟩

end ArtifactGraph

end SolidScript
