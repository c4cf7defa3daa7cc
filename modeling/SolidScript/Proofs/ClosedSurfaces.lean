import SolidScript.Proofs.EdgeCounts
import SolidScript.Proofs.RoundSolids

/-!
# Round solids are closed

The lines of a round solid are known by kind, row and column. Triangles pass each line once in either direction: what
one sector does not pass, its neighbour does, and what a band leaves open the next band or a cap closes.
-/

namespace SolidScript

open Scalar

/-! ## Directed edges of triangles -/

def darts (triangles : List Triangle) : Multiset (Nat × Nat) :=
  (triangles.flatMap Triangle.directedEdges : List (Nat × Nat))

section Darts

@[simp]
theorem darts_nil : darts [] = 0 := rfl

@[simp]
theorem darts_append (first rest : List Triangle) : darts (first ++ rest) = darts first + darts rest := by
  simp [darts, List.flatMap_append]

@[simp]
theorem darts_cons (t : Triangle) (rest : List Triangle) :
    darts (t :: rest) = {(t.a, t.b)} + {(t.b, t.c)} + {(t.c, t.a)} + darts rest := rfl

theorem darts_flatMap_range (n : Nat) (triangles : Nat → List Triangle) :
    darts ((List.range n).flatMap triangles) = ∑ j ∈ Finset.range n, darts (triangles j) := by
  induction n with
  | zero => rfl
  | succ n ih => simp [List.range_succ, List.flatMap_append, Finset.sum_range_succ, ih]

theorem darts_map_flip (triangles : List Triangle) :
    darts (triangles.map Triangle.flip) = (darts triangles).map Prod.swap := by
  induction triangles with
  | nil => rfl
  | cons t rest ih =>
    simp only [List.map_cons, darts_cons, ih, Triangle.flip, Multiset.map_add, Multiset.map_singleton, Prod.swap]
    abel

theorem map_swap_sum {ι : Type} (s : Finset ι) (f : ι → Multiset (Nat × Nat)) :
    (∑ i ∈ s, f i).map Prod.swap = ∑ i ∈ s, (f i).map Prod.swap :=
  map_sum (Multiset.mapAddMonoidHom Prod.swap) f s

theorem map_swap_singleton (a b : Nat) : ({(a, b)} : Multiset (Nat × Nat)).map Prod.swap = {(b, a)} := rfl

theorem sum_next {n : Nat} {f : Nat → Multiset (Nat × Nat)} (h : f n = f 0) :
    ∑ j ∈ Finset.range n, f (j + 1) = ∑ j ∈ Finset.range n, f j := by
  apply add_right_cancel (b := f 0)
  rw [← Finset.sum_range_succ', ← h, ← Finset.sum_range_succ]

end Darts

def strand (n : Nat) (a b : Nat → Nat) : Multiset (Nat × Nat) := ∑ j ∈ Finset.range n, {(a j, b j)}

section Strands

variable {n : Nat} {a b : Nat → Nat}

theorem map_swap_strand : (strand n a b).map Prod.swap = strand n b a := by
  unfold strand
  rw [map_swap_sum]
  rfl

theorem strand_next (ha : a n = a 0) (hb : b n = b 0) :
    strand n (fun j => a (j + 1)) (fun j => b (j + 1)) = strand n a b :=
  sum_next (f := fun j => {(a j, b j)}) (by rw [ha, hb])

theorem strand_congr {a' b' : Nat → Nat} (ha : ∀ j < n, a j = a' j) (hb : ∀ j < n, b j = b' j) :
    strand n a b = strand n a' b' :=
  Finset.sum_congr rfl fun j hj => by rw [ha j (Finset.mem_range.mp hj), hb j (Finset.mem_range.mp hj)]

end Strands

namespace Ring

variable {n : Nat}

theorem place_length (base : Nat) : place base n n = place base n 0 := by
  unfold place
  rw [Nat.mod_self, Nat.zero_mod]

theorem place_of_lt {j : Nat} (base : Nat) (hj : j < n) : place base n j = base + j := by
  unfold place
  rw [Nat.mod_eq_of_lt hj]

def hoop (base n : Nat) : Multiset (Nat × Nat) := strand n (place base n) fun j => place base n (j + 1)

theorem darts_fanForward (hub base : Nat) :
    darts (sectors n fun j => [fanForward hub base n j]) =
      strand n (fun _ => hub) (place base n) + strand n (place base n) (fun _ => hub) + hoop base n := by
  have hback := strand_next (b := fun _ => hub) (place_length (n := n) base) rfl
  unfold sectors
  rw [darts_flatMap_range, ← hback]
  simp only [fanForward, darts_cons, darts_nil, hoop, strand, Finset.sum_add_distrib, Finset.sum_const_zero]
  abel

theorem darts_fanBackward (hub base : Nat) :
    darts (sectors n fun j => [fanBackward hub base n j]) =
      strand n (fun _ => hub) (place base n) + strand n (place base n) (fun _ => hub) +
        (hoop base n).map Prod.swap := by
  have hout := strand_next (a := fun _ => hub) rfl (place_length (n := n) base)
  unfold sectors hoop
  rw [darts_flatMap_range, map_swap_strand, ← hout]
  simp only [fanBackward, darts_cons, darts_nil, strand, Finset.sum_add_distrib, Finset.sum_const_zero]
  abel

def rails (upper lower n : Nat) : Multiset (Nat × Nat) := strand n (place upper n) (place lower n)

def diagonals (upper lower n : Nat) : Multiset (Nat × Nat) := strand n (fun j => place upper n (j + 1)) (place lower n)

theorem darts_band (upper lower : Nat) :
    darts (sectors n (band upper lower n)) = hoop upper n + (hoop lower n).map Prod.swap +
      (rails upper lower n + (rails upper lower n).map Prod.swap) +
      (diagonals upper lower n + (diagonals upper lower n).map Prod.swap) := by
  have hrails := strand_next (place_length (n := n) upper) (place_length (n := n) lower)
  unfold sectors hoop rails diagonals
  rw [darts_flatMap_range, map_swap_strand, map_swap_strand, map_swap_strand]
  nth_rewrite 1 [← hrails]
  simp only [band, darts_cons, darts_nil, strand, Finset.sum_add_distrib, Finset.sum_const_zero]
  abel

end Ring

/-! ## Lines by kind, row and column -/

structure Chart (κ β : Type) where
  rows : κ → Nat
  columns : Nat
  ends : κ → Nat → Nat → β × β

namespace Chart

variable {κ β γ : Type} [Fintype κ]

def lines (c : Chart κ β) : Multiset (β × β) :=
  ∑ kind, ∑ i ∈ Finset.range (c.rows kind), ∑ j ∈ Finset.range c.columns, {c.ends kind i j}

/-- No line is there twice, and none is another one backward. -/
structure Plain (c : Chart κ β) : Prop where
  once : ∀ {kind kind' i i' j j'}, i < c.rows kind → i' < c.rows kind' → j < c.columns → j' < c.columns →
    c.ends kind i j = c.ends kind' i' j' → kind = kind' ∧ i = i' ∧ j = j'
  oneWay : ∀ {kind kind' i i' j j'}, i < c.rows kind → i' < c.rows kind' → j < c.columns → j' < c.columns →
    c.ends kind i j ≠ (c.ends kind' i' j').swap

theorem card_lines (c : Chart κ β) : c.lines.card = ∑ kind, c.rows kind * c.columns := by
  simp [lines, Multiset.card_sum]

def places (c : Chart κ β) : Finset (Σ _ : κ, Nat × Nat) :=
  Finset.univ.sigma fun kind => Finset.range (c.rows kind) ×ˢ Finset.range c.columns

theorem mem_places {c : Chart κ β} {kind : κ} {i j : Nat} :
    ⟨kind, i, j⟩ ∈ c.places ↔ i < c.rows kind ∧ j < c.columns := by
  simp [places]

theorem lines_eq_map (c : Chart κ β) : c.lines = c.places.val.map fun place => c.ends place.1 place.2.1 place.2.2 := by
  have hsingletons : c.lines = ∑ place ∈ c.places, {c.ends place.1 place.2.1 place.2.2} := by
    unfold lines places
    rw [Finset.sum_sigma]
    exact Finset.sum_congr rfl fun kind _ => (Finset.sum_product' _ _ fun i j => {c.ends kind i j}).symm
  rw [hsingletons, ← Multiset.sum_map_singleton (c.places.val.map _), Multiset.map_map]
  rfl

theorem mem_lines {c : Chart κ β} {e : β × β} :
    e ∈ c.lines ↔ ∃ kind i j, i < c.rows kind ∧ j < c.columns ∧ c.ends kind i j = e := by
  rw [lines_eq_map, Multiset.mem_map]
  constructor
  · rintro ⟨⟨kind, i, j⟩, hplace, rfl⟩
    obtain ⟨hi, hj⟩ := mem_places.mp hplace
    exact ⟨kind, i, j, hi, hj, rfl⟩
  · rintro ⟨kind, i, j, hi, hj, rfl⟩
    exact ⟨⟨kind, i, j⟩, mem_places.mpr ⟨hi, hj⟩, rfl⟩

theorem Plain.nodup {c : Chart κ β} (h : c.Plain) : (c.lines + c.lines.map Prod.swap).Nodup := by
  have hlines : c.lines.Nodup := by
    rw [lines_eq_map]
    refine Multiset.Nodup.map_on ?_ c.places.nodup
    rintro ⟨kind, i, j⟩ hplace ⟨kind', i', j'⟩ hplace' heq
    obtain ⟨hi, hj⟩ := mem_places.mp hplace
    obtain ⟨hi', hj'⟩ := mem_places.mp hplace'
    obtain ⟨rfl, rfl, rfl⟩ := h.once hi hi' hj hj' heq
    rfl
  refine Multiset.nodup_add.mpr ⟨hlines, hlines.map Prod.swap_injective, Multiset.disjoint_left.mpr ?_⟩
  intro e he hswap
  obtain ⟨kind, i, j, hi, hj, rfl⟩ := mem_lines.mp he
  obtain ⟨e', he', heq⟩ := Multiset.mem_map.mp hswap
  obtain ⟨kind', i', j', hi', hj', rfl⟩ := mem_lines.mp he'
  exact h.oneWay hi hi' hj hj' heq.symm

def map (c : Chart κ β) (number : β → γ) : Chart κ γ where
  rows := c.rows
  columns := c.columns
  ends kind i j := (c.ends kind i j).map number number

omit [Fintype κ] in
theorem Plain.map {c : Chart κ β} (h : c.Plain) {number : β → γ} {spots : Set β} (hnumber : Set.InjOn number spots)
    (hspots : ∀ {kind i j}, i < c.rows kind → j < c.columns →
      (c.ends kind i j).1 ∈ spots ∧ (c.ends kind i j).2 ∈ spots) :
    (c.map number).Plain where
  once hi hi' hj hj' heq := by
    obtain ⟨h1, h2⟩ := hspots hi hj
    obtain ⟨h1', h2'⟩ := hspots hi' hj'
    obtain ⟨heq1, heq2⟩ := Prod.mk.inj heq
    exact h.once hi hi' hj hj' (Prod.ext (hnumber h1 h1' heq1) (hnumber h2 h2' heq2))
  oneWay hi hi' hj hj' heq := by
    obtain ⟨h1, h2⟩ := hspots hi hj
    obtain ⟨h1', h2'⟩ := hspots hi' hj'
    obtain ⟨heq1, heq2⟩ := Prod.mk.inj heq
    exact h.oneWay hi hi' hj hj' (Prod.ext (hnumber h1 h2' heq1) (hnumber h2 h1' heq2))

end Chart

def next (n j : Nat) : Nat := (j + 1) % n

theorem next_cases {n j : Nat} (hj : j < n) : (j + 1 = n ∧ next n j = 0) ∨ (j + 1 < n ∧ next n j = j + 1) := by
  unfold next
  rcases Nat.eq_or_lt_of_le (Nat.succ_le_of_lt hj) with hlast | hlt
  · exact Or.inl ⟨hlast, by rw [show j + 1 = n from hlast, Nat.mod_self]⟩
  · exact Or.inr ⟨hlt, Nat.mod_eq_of_lt hlt⟩

/-! ## Globes -/

/-- Spots on a globe: the poles and `n` spots on each ring. -/
inductive Globe.Spot where
  | north
  | south
  | ring (row column : Nat)
deriving DecidableEq

/-- Lines on a globe: from the poles to the next rings, around rings, and from each ring down to the next, straight or
across. -/
inductive Globe.Kind where
  | fromNorth
  | fromSouth
  | around
  | down
  | across
deriving DecidableEq

namespace Globe

instance : Fintype Kind where
  elems := {.fromNorth, .fromSouth, .around, .down, .across}
  complete kind := by cases kind <;> simp

/-- The lines of a globe with rings of `n` spots and so many bands between them. -/
def chart (n bands : Nat) : Chart Kind Spot where
  rows
    | .fromNorth | .fromSouth => 1
    | .around => bands + 1
    | .down | .across => bands
  columns := n
  ends
    | .fromNorth, _, j => (.north, .ring 0 j)
    | .fromSouth, _, j => (.south, .ring bands j)
    | .around, i, j => (.ring i j, .ring i (next n j))
    | .down, i, j => (.ring i j, .ring (i + 1) j)
    | .across, i, j => (.ring i (next n j), .ring (i + 1) j)

theorem plain_chart {n : Nat} (hn : 3 ≤ n) (bands : Nat) : (chart n bands).Plain where
  once {kind kind' i i' j j'} hi hi' hj hj' heq := by
    have hnext := next_cases hj
    have hnext' := next_cases hj'
    cases kind <;> cases kind' <;>
      simp only [chart, Prod.mk.injEq, Spot.ring.injEq, reduceCtorEq, false_and, and_false, true_and]
        at hi hi' hj hj' heq hnext hnext' ⊢ <;> omega
  oneWay {kind kind' i i' j j'} hi hi' hj hj' heq := by
    have hnext := next_cases hj
    have hnext' := next_cases hj'
    cases kind <;> cases kind' <;>
      simp only [chart, Prod.mk.injEq, Prod.swap, Spot.ring.injEq, reduceCtorEq, false_and, and_false]
        at hi hi' hj hj' heq hnext hnext' <;> omega

/-- Numbers for the poles, and for the spots of a ring in a row. -/
def Spot.number (north south : Nat) (base : Nat → Nat) : Spot → Nat
  | .north => north
  | .south => south
  | .ring i j => base i + j

/-- Rings and poles have numbers of their own. -/
structure Layout (n bands north south : Nat) (base : Nat → Nat) : Prop where
  poles : north ≠ south
  north : ∀ i ≤ bands, ∀ j < n, north ≠ base i + j
  south : ∀ i ≤ bands, ∀ j < n, south ≠ base i + j
  rings : ∀ i ≤ bands, ∀ i' ≤ bands, ∀ j < n, ∀ j' < n, base i + j = base i' + j' → i = i' ∧ j = j'

def spots (n bands : Nat) : Set Spot
  | .ring i j => i ≤ bands ∧ j < n
  | _ => True

variable {n bands north south : Nat} {base : Nat → Nat}

theorem Layout.injOn (h : Layout n bands north south base) :
    Set.InjOn (Spot.number north south base) (spots n bands) := by
  intro s hs t ht heq
  cases s with
  | north =>
    cases t with
    | north => rfl
    | south => exact absurd heq h.poles
    | ring i j => exact absurd heq (h.north i ht.1 j ht.2)
  | south =>
    cases t with
    | north => exact absurd heq.symm h.poles
    | south => rfl
    | ring i j => exact absurd heq (h.south i ht.1 j ht.2)
  | ring i j =>
    cases t with
    | north => exact absurd heq.symm (h.north i hs.1 j hs.2)
    | south => exact absurd heq.symm (h.south i hs.1 j hs.2)
    | ring i' j' =>
      obtain ⟨rfl, rfl⟩ := h.rings i hs.1 i' ht.1 j hs.2 j' ht.2 heq
      rfl

def lines (n bands north south : Nat) (base : Nat → Nat) : Multiset (Nat × Nat) :=
  ((chart n bands).map (Spot.number north south base)).lines

theorem nodup_lines (hn : 3 ≤ n) (h : Layout n bands north south base) :
    (lines n bands north south base + (lines n bands north south base).map Prod.swap).Nodup := by
  refine ((plain_chart hn bands).map h.injOn fun {kind i j} hi hj => ?_).nodup
  have hnext : next n j < n := Nat.mod_lt _ (Nat.lt_of_le_of_lt (Nat.zero_le j) hj)
  cases kind <;> simp only [chart] at hi hj ⊢ <;> constructor <;> first | trivial | (constructor <;> omega)

theorem sum_kinds {M : Type} [AddCommMonoid M] (f : Kind → M) :
    ∑ kind, f kind = f .fromNorth + f .fromSouth + f .around + f .down + f .across := by
  have huniv : (Finset.univ : Finset Kind) = {.fromNorth, .fromSouth, .around, .down, .across} := rfl
  rw [huniv]
  simp [add_assoc]

theorem card_lines : (lines n bands north south base).card = 3 * ((bands + 1) * n) := by
  unfold lines
  rw [Chart.card_lines, sum_kinds]
  simp only [Chart.map, chart]
  ring

theorem lines_eq : lines n bands north south base =
    strand n (fun _ => north) (Ring.place (base 0) n) + strand n (fun _ => south) (Ring.place (base bands) n) +
      ∑ i ∈ Finset.range (bands + 1), Ring.hoop (base i) n +
      ∑ i ∈ Finset.range bands, Ring.rails (base i) (base (i + 1)) n +
      ∑ i ∈ Finset.range bands, Ring.diagonals (base i) (base (i + 1)) n := by
  have hspoke (hub base : Nat) : strand n (fun _ => hub) (Ring.place base n) = strand n (fun _ => hub) (base + ·) :=
    strand_congr (fun _ _ => rfl) fun j hj => Ring.place_of_lt base hj
  have hhoop (base : Nat) : Ring.hoop base n = strand n (base + ·) (fun j => base + next n j) :=
    strand_congr (fun j hj => Ring.place_of_lt base hj) fun _ _ => rfl
  have hrails (upper lower : Nat) : Ring.rails upper lower n = strand n (upper + ·) (lower + ·) :=
    strand_congr (fun j hj => Ring.place_of_lt upper hj) fun j hj => Ring.place_of_lt lower hj
  have hdiagonals (upper lower : Nat) :
      Ring.diagonals upper lower n = strand n (fun j => upper + next n j) (lower + ·) :=
    strand_congr (fun _ _ => rfl) fun j hj => Ring.place_of_lt lower hj
  unfold lines Chart.lines
  rw [sum_kinds, hspoke, hspoke]
  simp only [hhoop, hrails, hdiagonals, Chart.map, chart, Finset.sum_range_one]
  rfl

theorem darts_eq : darts (Ring.sectors n fun j => [Ring.fanBackward north (base 0) n j]) +
    ∑ i ∈ Finset.range bands, darts (Ring.sectors n (Ring.band (base i) (base (i + 1)) n)) +
    darts (Ring.sectors n fun j => [Ring.fanForward south (base bands) n j]) =
      lines n bands north south base + (lines n bands north south base).map Prod.swap := by
  -- Each hoop is passed by what is above it and, backward, by what is below it.
  have hforward := Finset.sum_range_succ (fun i => Ring.hoop (base i) n) bands
  have hbackward := Finset.sum_range_succ' (fun i => (Ring.hoop (base i) n).map Prod.swap) bands
  rw [Ring.darts_fanBackward, Ring.darts_fanForward, lines_eq]
  simp only [Ring.darts_band, Finset.sum_add_distrib, Multiset.map_add, map_swap_sum, map_swap_strand]
  rw [hforward, hbackward]
  abel

theorem twoSided {α : Type} {m : Mesh α} (hn : 3 ≤ n) (h : Layout n bands north south base)
    (hdarts : darts m.triangles.toList = darts (Ring.sectors n fun j => [Ring.fanBackward north (base 0) n j]) +
      ∑ i ∈ Finset.range bands, darts (Ring.sectors n (Ring.band (base i) (base (i + 1)) n)) +
      darts (Ring.sectors n fun j => [Ring.fanForward south (base bands) n j])) :
    m.TwoSided (lines n bands north south base) :=
  ⟨hdarts.trans darts_eq, nodup_lines hn h⟩

end Globe

theorem darts_sectors_append (n : Nat) (f g : Nat → List Triangle) :
    darts (Ring.sectors n fun j => f j ++ g j) = darts (Ring.sectors n f) + darts (Ring.sectors n g) := by
  unfold Ring.sectors
  simp only [darts_flatMap_range, darts_append, Finset.sum_add_distrib]

namespace Round

variable {n : Nat}

theorem three_le_segments (segments : Nat) : 3 ≤ max segments minSegments := Nat.le_max_right segments minSegments

/-! ## Frustums -/

theorem layout_apex : Globe.Layout n 0 (n + 1) 0 fun _ => 1 := by
  constructor
  all_goals omega

theorem darts_apex : darts (frustumTriangles n true) =
    darts (Ring.sectors n fun j => [Ring.fanBackward (n + 1) 1 n j]) +
      darts (Ring.sectors n fun j => [Ring.fanForward 0 1 n j]) :=
  darts_append _ _

/-- Rings of a frustum from the top down. -/
def frustumBase (n i : Nat) : Nat := if i = 0 then n + 2 else 1

theorem layout_frustum : Globe.Layout n 1 (n + 1) 0 (frustumBase n) := by
  unfold frustumBase
  constructor
  · omega
  · intro i _ j _
    split
    all_goals omega
  · intro i _ j _
    split
    all_goals omega
  · intro i _ i' _ j _ j' _ heq
    split at heq
    all_goals
      split at heq
      all_goals omega

theorem darts_frustum : darts (frustumTriangles n false) =
    darts (Ring.sectors n fun j => [Ring.fanBackward (n + 1) (n + 2) n j]) +
      darts (Ring.sectors n (Ring.band (n + 2) 1 n)) + darts (Ring.sectors n fun j => [Ring.fanForward 0 1 n j]) := by
  have hsides := darts_sectors_append n (fun j => [Ring.fanBackward (n + 1) (n + 2) n j]) (Ring.band (n + 2) 1 n)
  rw [← hsides]
  exact darts_append _ _

/-! ## Spheres -/

theorem layout_sphere (bands : Nat) : Globe.Layout n bands 0 (1 + (bands + 1) * n) fun i => 1 + i * n := by
  have hrow {i j : Nat} (hi : i ≤ bands) (hj : j < n) : i * n + j < (bands + 1) * n := grid_lt (Nat.lt_succ_of_le hi) hj
  constructor
  · omega
  · omega
  · intro i hi j hj
    have := hrow hi hj
    omega
  · intro i _ i' _ j hj j' hj' heq
    exact grid_inj hj hj' (by omega)

theorem darts_sphere (bands : Nat) : darts (sphereTriangles n (bands + 2)) =
    darts (Ring.sectors n fun j => [Ring.fanBackward 0 (1 + 0 * n) n j]) +
      ∑ i ∈ Finset.range bands, darts (Ring.sectors n (Ring.band (1 + i * n) (1 + (i + 1) * n) n)) +
      darts (Ring.sectors n fun j => [Ring.fanForward (1 + (bands + 1) * n) (1 + bands * n) n j]) := by
  have hcaps := darts_sectors_append n (fun j => [Ring.fanBackward 0 1 n j])
    fun j => [⟨Ring.place (1 + bands * n) n j, Ring.place (1 + bands * n) n (j + 1), 1 + (bands + 1) * n⟩]
  have hsouth : darts (Ring.sectors n fun j =>
        [⟨Ring.place (1 + bands * n) n j, Ring.place (1 + bands * n) n (j + 1), 1 + (bands + 1) * n⟩]) =
      darts (Ring.sectors n fun j => [Ring.fanForward (1 + (bands + 1) * n) (1 + bands * n) n j]) := by
    unfold Ring.sectors
    rw [darts_flatMap_range, darts_flatMap_range]
    refine Finset.sum_congr rfl fun j _ => ?_
    simp only [Ring.fanForward, darts_cons, darts_nil]
    abel
  rw [Nat.zero_mul, add_right_comm, ← hsouth, ← darts_flatMap_range, ← hcaps]
  exact darts_append _ _

end Round

/-! ## Tori -/

/-- Lines on a torus: around it, along its tube, and across. -/
inductive Torus.Kind where
  | around
  | along
  | across
deriving DecidableEq

namespace Torus

instance : Fintype Kind where
  elems := {.around, .along, .across}
  complete kind := by cases kind <;> simp

theorem sum_kinds {M : Type} [AddCommMonoid M] (f : Kind → M) : ∑ kind, f kind = f .around + f .along + f .across := by
  have huniv : (Finset.univ : Finset Kind) = {.around, .along, .across} := rfl
  rw [huniv]
  simp [add_assoc]

/-- The lines of a torus with `n` rings of `m` spots. -/
def chart (n m : Nat) : Chart Kind (Nat × Nat) where
  rows _ := n
  columns := m
  ends
    | .around, j, k => ((j, k), (next n j, k))
    | .along, j, k => ((j, k), (j, next m k))
    | .across, j, k => ((j, k), (next n j, next m k))

variable {n m : Nat}

theorem plain_chart (hn : 3 ≤ n) (hm : 3 ≤ m) : (chart n m).Plain where
  once {kind kind' j j' k k'} hj hj' hk hk' heq := by
    have hnext := next_cases (show j < n from hj)
    have hnext' := next_cases (show j' < n from hj')
    have hbeside := next_cases (show k < m from hk)
    have hbeside' := next_cases (show k' < m from hk')
    cases kind <;> cases kind' <;>
      simp only [chart, Prod.mk.injEq, reduceCtorEq, false_and, true_and] at heq ⊢ <;> omega
  oneWay {kind kind' j j' k k'} hj hj' hk hk' heq := by
    have hnext := next_cases (show j < n from hj)
    have hnext' := next_cases (show j' < n from hj')
    have hbeside := next_cases (show k < m from hk)
    have hbeside' := next_cases (show k' < m from hk')
    cases kind <;> cases kind' <;> simp only [chart, Prod.mk.injEq, Prod.swap] at heq <;> omega

def number (m : Nat) (spot : Nat × Nat) : Nat := spot.1 * m + spot.2

theorem injOn_number : Set.InjOn (number m) {spot | spot.2 < m} := by
  intro s hs t ht heq
  obtain ⟨h1, h2⟩ := grid_inj hs ht heq
  exact Prod.ext h1 h2

def lines (n m : Nat) : Multiset (Nat × Nat) := ((chart n m).map (number m)).lines

theorem nodup_lines (hn : 3 ≤ n) (hm : 3 ≤ m) : (lines n m + (lines n m).map Prod.swap).Nodup := by
  refine ((plain_chart hn hm).map injOn_number fun {kind j k} _ hk => ?_).nodup
  have hnext : next m k < m := Nat.mod_lt _ (by omega)
  cases kind
  · exact ⟨hk, hk⟩
  · exact ⟨hk, hnext⟩
  · exact ⟨hk, hnext⟩

theorem card_lines : (lines n m).card = 3 * (n * m) := by
  unfold lines
  rw [Chart.card_lines, sum_kinds]
  simp only [Chart.map, chart]
  ring

def place (n m j k : Nat) : Nat := j % n * m + k % m

/-- Lines from each spot to the one so many steps around and along. -/
def strands (n m around along : Nat) : Multiset (Nat × Nat) :=
  ∑ j ∈ Finset.range n, ∑ k ∈ Finset.range m, {(place n m j k, place n m (j + around) (k + along))}

theorem lines_eq : lines n m = strands n m 1 0 + strands n m 0 1 + strands n m 1 1 := by
  have hnumber {j k : Nat} (hj : j < n) (hk : k < m) : number m (j, k) = place n m j k := by
    unfold number place
    rw [Nat.mod_eq_of_lt hj, Nat.mod_eq_of_lt hk]
  have hsum (around along : Nat) : strands n m around along = ∑ j ∈ Finset.range n, ∑ k ∈ Finset.range m,
      {(number m (j, k), number m ((j + around) % n, (k + along) % m))} := by
    refine Finset.sum_congr rfl fun j hj => Finset.sum_congr rfl fun k hk => ?_
    rw [hnumber (Finset.mem_range.mp hj) (Finset.mem_range.mp hk)]
    rfl
  unfold lines Chart.lines
  rw [sum_kinds, hsum, hsum, hsum]
  congr 1
  congr 1
  · refine Finset.sum_congr rfl fun j _ => Finset.sum_congr rfl fun k hk => ?_
    rw [show (k + 0) % m = k from Nat.mod_eq_of_lt (Finset.mem_range.mp hk)]
    rfl
  · refine Finset.sum_congr rfl fun j hj => Finset.sum_congr rfl fun k _ => ?_
    rw [show (j + 0) % n = j from Nat.mod_eq_of_lt (Finset.mem_range.mp hj)]
    rfl

theorem darts_eq : darts (Round.torusTriangles n m) = lines n m + (lines n m).map Prod.swap := by
  have hround (j : Nat) : place n m j m = place n m j 0 := by simp [place]
  have hback (k : Nat) : place n m n k = place n m 0 k := by simp [place]
  -- What a cell leaves open is closed by the cell beside it, or by the one behind it.
  have haround : ∑ j ∈ Finset.range n, ∑ k ∈ Finset.range m, {(place n m j (k + 1), place n m (j + 1) (k + 1))} =
      strands n m 1 0 :=
    Finset.sum_congr rfl fun j _ =>
      sum_next (f := fun k => {(place n m j k, place n m (j + 1) k)}) (by rw [hround, hround])
  have halong : ∑ j ∈ Finset.range n, ∑ k ∈ Finset.range m, {(place n m (j + 1) (k + 1), place n m (j + 1) k)} =
      (strands n m 0 1).map Prod.swap := by
    unfold strands
    simp only [map_swap_sum, map_swap_singleton]
    exact sum_next (f := fun j => ∑ k ∈ Finset.range m, {(place n m j (k + 1), place n m j k)}) (by simp only [hback])
  have hcell (j k : Nat) : darts
      [⟨place n m j k, place n m (j + 1) (k + 1), place n m (j + 1) k⟩,
        ⟨place n m j k, place n m j (k + 1), place n m (j + 1) (k + 1)⟩] =
      {(place n m j k, place n m (j + 1) (k + 1))} + {(place n m (j + 1) (k + 1), place n m j k)} +
        {(place n m j (k + 1), place n m (j + 1) (k + 1))} + {(place n m (j + 1) k, place n m j k)} +
        {(place n m j k, place n m j (k + 1))} + {(place n m (j + 1) (k + 1), place n m (j + 1) k)} := by
    simp only [darts_cons, darts_nil]
    abel
  have htriangles : darts (Round.torusTriangles n m) = ∑ j ∈ Finset.range n, ∑ k ∈ Finset.range m, darts
      [⟨place n m j k, place n m (j + 1) (k + 1), place n m (j + 1) k⟩,
        ⟨place n m j k, place n m j (k + 1), place n m (j + 1) (k + 1)⟩] := by
    unfold Round.torusTriangles
    simp only [darts_flatMap_range]
    rfl
  rw [htriangles, lines_eq]
  simp only [hcell, Finset.sum_add_distrib, haround, halong, Multiset.map_add]
  simp only [strands, map_swap_sum, map_swap_singleton, Nat.add_zero]
  abel

end Torus

/-! ## Closed surfaces -/

namespace Mesh

variable {α : Type} {m : Mesh α} {lines : Multiset (Nat × Nat)}

def eulerNumber (m : Mesh α) : Int := m.vertexCount - m.edgeCounts.length + m.triangleCount

/-- A surface without borders. Its triangles pass each directed edge once, and once in the other direction. -/
structure ClosedSurface (m : Mesh α) : Prop where
  hasFaces : 0 < m.triangleCount
  passedOnce : ∀ e ∈ m.directedEdges, m.directedEdges.count e = 1 ∧ m.directedEdges.count e.swap = 1
  closed : m.isClosed = true
  wound : m.hasConsistentWinding = true

namespace TwoSided

theorem closedSurface {pairs : Nat} (h : m.TwoSided lines) (hcard : lines.card = 3 * pairs) (hpairs : 0 < pairs) :
    m.ClosedSurface ∧ m.eulerNumber = m.vertexCount - pairs := by
  have htriangles : m.triangleCount = 2 * pairs := by
    have := h.three_mul_triangleCount
    omega
  refine ⟨⟨by omega, fun e he => h.count_eq_one he, h.isClosed, h.hasConsistentWinding⟩, ?_⟩
  unfold eulerNumber
  rw [h.length_edgeCounts, htriangles, hcard]
  push_cast
  ring

theorem orientOutward [Scalar α] (h : m.TwoSided lines) : m.orientOutward.TwoSided lines := by
  unfold Mesh.orientOutward
  split
  · refine ⟨?_, h.nodup⟩
    have hflip : (m.reverseWinding.directedEdges : Multiset (Nat × Nat)) =
        (darts m.triangles.toList).map Prod.swap := by
      rw [← darts_map_flip, ← Array.toList_map]
      rfl
    have hedges : darts m.triangles.toList = lines + lines.map Prod.swap := h.edges
    rw [hflip, hedges, Multiset.map_add, Multiset.map_map, Prod.swap_swap_eq, Multiset.map_id, add_comm]
  · exact h

end TwoSided

end Mesh

namespace Round

variable {α : Type} [Scalar α]

theorem closed_frustum (bottomRadius topRadius height : α) (center : Vec3 α) (segments : Nat) :
    (frustum bottomRadius topRadius height center segments).ClosedSurface ∧
      (frustum bottomRadius topRadius height center segments).eulerNumber = 2 := by
  have hn := three_le_segments segments
  have hcount := vertexCount_frustum bottomRadius topRadius height center segments
  have htriangles : (frustum bottomRadius topRadius height center segments).triangles.toList =
    frustumTriangles (max segments minSegments) (decide (magnitude topRadius ≤ ulpOne)) := rfl
  generalize frustum bottomRadius topRadius height center segments = m at hcount htriangles ⊢
  generalize max segments minSegments = n at hn hcount htriangles
  -- The sides of a cone meet in its apex, those of a frustum end on its top.
  by_cases hapex : magnitude topRadius ≤ ulpOne
  · rw [if_pos hapex] at hcount
    rw [decide_eq_true hapex] at htriangles
    have hsides : m.TwoSided (Globe.lines n 0 (n + 1) 0 fun _ => 1) := by
      refine Globe.twoSided hn layout_apex ?_
      rw [htriangles, darts_apex, Finset.sum_range_zero, add_zero]
    obtain ⟨hclosed, heuler⟩ := hsides.closedSurface Globe.card_lines (by omega)
    exact ⟨hclosed, by rw [heuler, hcount]; push_cast; ring⟩
  · rw [if_neg hapex] at hcount
    rw [decide_eq_false hapex] at htriangles
    have hsides : m.TwoSided (Globe.lines n 1 (n + 1) 0 (frustumBase n)) := by
      refine Globe.twoSided hn layout_frustum ?_
      rw [htriangles, darts_frustum, Finset.sum_range_one]
      rfl
    obtain ⟨hclosed, heuler⟩ := hsides.closedSurface Globe.card_lines (by omega)
    exact ⟨hclosed, by rw [heuler, hcount]; push_cast; ring⟩

theorem closed_sphere (radius : α) (center : Vec3 α) (segments rings : Nat) :
    (sphere radius center segments rings).ClosedSurface ∧ (sphere radius center segments rings).eulerNumber = 2 := by
  have hn := three_le_segments segments
  have hcount := vertexCount_sphere radius center segments rings
  have htriangles : (sphere radius center segments rings).triangles.toList =
    sphereTriangles (max segments minSegments) (max rings minRings) := rfl
  generalize sphere radius center segments rings = m at hcount htriangles ⊢
  generalize max segments minSegments = n at hn hcount htriangles
  obtain ⟨bands, hbands⟩ := Nat.exists_eq_add_of_le' (Nat.le_max_right rings minRings)
  rw [hbands] at hcount htriangles
  have hsides : m.TwoSided (Globe.lines n bands 0 (1 + (bands + 1) * n) fun i => 1 + i * n) := by
    refine Globe.twoSided hn (layout_sphere bands) ?_
    rw [htriangles]
    exact darts_sphere bands
  have hpairs : 0 < (bands + 1) * n := Nat.mul_pos (Nat.succ_pos bands) (by omega)
  obtain ⟨hclosed, heuler⟩ := hsides.closedSurface Globe.card_lines hpairs
  refine ⟨hclosed, ?_⟩
  rw [heuler, hcount, show bands + minRings - 1 = bands + 1 from rfl]
  push_cast
  ring

theorem closed_torus (major minor : α) (center : Vec3 α) (segments tubeSegments : Nat) :
    (torus major minor center segments tubeSegments).ClosedSurface ∧
      (torus major minor center segments tubeSegments).eulerNumber = 0 := by
  have hn := three_le_segments segments
  have hm := three_le_segments tubeSegments
  have hcount := vertexCount_torus major minor center segments tubeSegments
  have hsides : (torus major minor center segments tubeSegments).TwoSided
      (Torus.lines (max segments minSegments) (max tubeSegments minSegments)) := by
    unfold torus
    exact Mesh.TwoSided.orientOutward ⟨Torus.darts_eq, Torus.nodup_lines hn hm⟩
  have hpairs := Nat.mul_pos (segments_pos segments) (segments_pos tubeSegments)
  obtain ⟨hclosed, heuler⟩ := hsides.closedSurface Torus.card_lines hpairs
  exact ⟨hclosed, by rw [heuler, hcount, sub_self]⟩

/-- Whatever their dimensions and counts are, frustums, with an apex or without, and spheres and tori are closed, and
their triangles face one side. A torus has a hole, and the others have none. -/
theorem round_solids_closed :
    (∀ (bottomRadius topRadius height : α) (center : Vec3 α) (segments : Nat),
      (frustum bottomRadius topRadius height center segments).ClosedSurface ∧
        (frustum bottomRadius topRadius height center segments).eulerNumber = 2) ∧
    (∀ (radius : α) (center : Vec3 α) (segments rings : Nat),
      (sphere radius center segments rings).ClosedSurface ∧
        (sphere radius center segments rings).eulerNumber = 2) ∧
    ∀ (major minor : α) (center : Vec3 α) (segments tubeSegments : Nat),
      (torus major minor center segments tubeSegments).ClosedSurface ∧
        (torus major minor center segments tubeSegments).eulerNumber = 0 :=
  ⟨closed_frustum, closed_sphere, closed_torus⟩

end Round

end SolidScript
