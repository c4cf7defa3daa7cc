import SolidScript.Feature.Pattern
import SolidScript.Proofs.Joining
import SolidScript.Proofs.Steps

/-!
# Copies of a mesh

A pattern places one copy of a mesh behind the other. Its vertices and normals come in blocks, a block for each copy,
and so do its triangles, which name the vertices of their own block.
-/

namespace SolidScript

open Scalar

/-! ## Lists in blocks -/

/-- A list of `n` blocks of `w` items, where item `j` of block `k` is known. -/
structure Blocks {β : Type} (n w : Nat) (item : Nat → Nat → Option β) (xs : Array β) : Prop where
  size : xs.size = n * w
  getElem? : ∀ k < n, ∀ j < w, xs[k * w + j]? = item k j

namespace Blocks

variable {β : Type} {n w : Nat} {item : Nat → Nat → Option β} {xs ys : Array β}

theorem place_lt {k j : Nat} (hk : k < n) (hj : j < w) : k * w + j < n * w := by
  have hrows : (k + 1) * w ≤ n * w := Nat.mul_le_mul_right w hk
  rw [Nat.succ_mul] at hrows
  omega

theorem nil : Blocks 0 w item #[] := ⟨by simp, by simp⟩

theorem append (h : Blocks n w item xs) (hsize : ys.size = w) (hys : ∀ j < w, ys[j]? = item n j) :
    Blocks (n + 1) w item (xs ++ ys) where
  size := by rw [Array.size_append, h.size, hsize, Nat.succ_mul]
  getElem? k hk j hj := by
    rcases Nat.lt_succ_iff_lt_or_eq.mp hk with hk | rfl
    · rw [Array.getElem?_append_left (h.size ▸ place_lt hk hj), h.getElem? k hk j hj]
    · rw [Array.getElem?_append_right (by rw [h.size]; omega), h.size, Nat.add_sub_cancel_left, hys j hj]

theorem nest {γ : Type} {n' : Nat} {f : Nat → β → γ} {zs : Array γ} (h : Blocks n w item xs)
    (hzs : Blocks n' (n * w) (fun k i => xs[i]?.map (f k)) zs) :
    Blocks (n' * n) w (fun k j => (item (k % n) j).map (f (k / n))) zs where
  size := by rw [hzs.size, Nat.mul_assoc]
  getElem? k hk j hj := by
    have hn : 0 < n := Nat.pos_of_mul_pos_left (Nat.zero_lt_of_lt hk)
    have hrow : k / n < n' := Nat.div_lt_of_lt_mul (Nat.mul_comm n' n ▸ hk)
    have hplace : k * w + j = k / n * (n * w) + (k % n * w + j) := by
      conv_lhs => rw [← Nat.div_add_mod' k n]
      ring
    rw [hplace, hzs.getElem? _ hrow _ (place_lt (Nat.mod_lt k hn) hj), h.getElem? _ (Nat.mod_lt k hn) j hj]

theorem unique (hxs : Blocks n w item xs) (hys : Blocks n w item ys) : xs = ys := by
  apply Array.ext_getElem?
  intro i
  by_cases hi : i < n * w
  · have hw : 0 < w := Nat.pos_of_mul_pos_left (Nat.zero_lt_of_lt hi)
    have hblock : i / w < n := Nat.div_lt_of_lt_mul (Nat.mul_comm n w ▸ hi)
    rw [← Nat.div_add_mod' i w, hxs.getElem? _ hblock _ (Nat.mod_lt i hw), hys.getElem? _ hblock _ (Nat.mod_lt i hw)]
  · rw [Array.getElem?_eq_none (by rw [hxs.size]; omega), Array.getElem?_eq_none (by rw [hys.size]; omega)]

end Blocks

namespace Mesh

variable {α : Type}

/-- A copy with its points moved by one map and its normals by another. -/
def placed (m : Mesh α) (place turn : Vec3 α → Vec3 α) : Mesh α :=
  ⟨m.vertices.map place, m.triangles, m.normals.map fun ns => ns.map turn⟩

/-- The mesh `r` is `n` copies of `m`, of which the `k`-th is moved by `place k` and its normals by `turn k`. -/
structure Copies (m : Mesh α) (n : Nat) (place turn : Nat → Vec3 α → Vec3 α) (r : Mesh α) : Prop where
  valid : r.Valid
  vertices : Blocks n m.vertexCount (fun k j => m.vertices[j]?.map (place k)) r.vertices
  triangles : Blocks n m.triangleCount (fun k i => m.triangles[i]?.map (·.map (· + k * m.vertexCount))) r.triangles
  isSome_normals : r.normals.isSome = true ↔ m.normals.isSome = true ∧ 0 < n
  normals : ∀ ns ∈ m.normals, ∀ rs ∈ r.normals, Blocks n m.vertexCount (fun k j => ns[j]?.map (turn k)) rs

namespace Copies

variable {m r r' : Mesh α} {n n' : Nat} {place turn place' turn' : Nat → Vec3 α → Vec3 α}

theorem vertexCount (h : m.Copies n place turn r) : r.vertexCount = n * m.vertexCount := h.vertices.size

theorem triangleCount (h : m.Copies n place turn r) : r.triangleCount = n * m.triangleCount := h.triangles.size

theorem zero : m.Copies 0 place turn Mesh.empty where
  valid := valid_empty
  vertices := Blocks.nil
  triangles := Blocks.nil
  isSome_normals := by simp [Mesh.empty]
  normals := by simp [Mesh.empty]

theorem unique (h : m.Copies n place turn r) (h' : m.Copies n place turn r') : r = r' := by
  ext1
  · exact h.vertices.unique h'.vertices
  · exact h.triangles.unique h'.triangles
  · have hsome : r.normals.isSome = true ↔ r'.normals.isSome = true := h.isSome_normals.trans h'.isSome_normals.symm
    cases hr : r.normals with
    | none =>
      cases hr' : r'.normals with
      | none => rfl
      | some rs' => simp [hr, hr'] at hsome
    | some rs =>
      cases hr' : r'.normals with
      | none => simp [hr, hr'] at hsome
      | some rs' =>
        obtain ⟨ns, hns⟩ := Option.isSome_iff_exists.mp (h.isSome_normals.mp (by simp [hr])).1
        rw [(h.normals ns hns rs hr).unique (h'.normals ns hns rs' hr')]

theorem nest {row : Mesh α} (hrow : m.Copies n place turn row) (h : row.Copies n' place' turn' r) :
    m.Copies (n' * n) (fun k p => place' (k / n) (place (k % n) p)) (fun k v => turn' (k / n) (turn (k % n) v)) r where
  valid := h.valid
  vertices := by
    have hnested := hrow.vertices.nest (hrow.vertexCount ▸ h.vertices)
    simpa only [Option.map_map, Function.comp_def] using hnested
  triangles := by
    have hnested := hrow.triangles.nest (hrow.triangleCount ▸ h.triangles)
    -- The numbers of a copy are shifted by the vertices of all copies before it.
    have hshift (k : Nat) : k % n * m.vertexCount + k / n * row.vertexCount = k * m.vertexCount := by
      rw [hrow.vertexCount]
      conv_rhs => rw [← Nat.mod_add_div' k n]
      ring
    simpa only [Option.map_map, Function.comp_def, Triangle.map, Nat.add_assoc, hshift] using hnested
  isSome_normals := by
    rw [h.isSome_normals, hrow.isSome_normals, Nat.pos_iff_ne_zero, Nat.pos_iff_ne_zero, Nat.pos_iff_ne_zero,
      Nat.mul_ne_zero_iff, and_assoc, and_comm (a := n ≠ 0)]
  normals ns hns rs hrs := by
    obtain ⟨rows, hrows⟩ := Option.isSome_iff_exists.mp (h.isSome_normals.mp (by simp [Option.mem_def.mp hrs])).1
    have hnested := (hrow.normals ns hns rows hrows).nest (hrow.vertexCount ▸ h.normals rows hrows rs hrs)
    simpa only [Option.map_map, Function.comp_def] using hnested

end Copies

variable [Scalar α] {m r : Mesh α} {n : Nat} {place turn : Nat → Vec3 α → Vec3 α}

/-! ## One copy after another -/

omit [Scalar α] in
theorem Valid.placed (h : m.Valid) (place turn : Vec3 α → Vec3 α) : (m.placed place turn).Valid := by
  have hcount : (m.placed place turn).vertexCount = m.vertexCount := Array.size_map
  refine h.of_triangles_eq rfl hcount.ge fun ns hns => ?_
  obtain ⟨old, hold, rfl⟩ := Option.map_eq_some_iff.mp hns
  rw [Array.size_map, h.normalCount old hold, hcount]

theorem ownNormals_of_some {ns : Array (Vec3 α)} (h : m.normals = some ns) : m.ownNormals = ns := by
  rw [ownNormals, h, Option.getD_some]

namespace Copies

theorem ownNormals (h : m.Copies n place turn r) {ns : Array (Vec3 α)} (hns : m.normals = some ns) :
    Blocks n m.vertexCount (fun k j => ns[j]?.map (turn k)) r.ownNormals := by
  cases hr : r.normals with
  | some rs =>
    rw [ownNormals_of_some hr]
    exact h.normals ns hns rs hr
  | none =>
    -- Only a mesh without copies has lost the normals.
    have hn : n = 0 := by simpa [hr, hns] using h.isSome_normals
    subst hn
    have hsize : r.ownNormals.size = 0 := by rw [h.valid.size_ownNormals, h.vertexCount, Nat.zero_mul]
    rw [Array.eq_empty_of_size_eq_zero hsize]
    exact Blocks.nil

theorem merge (h : m.Copies n place turn r) (hm : m.Valid) :
    m.Copies (n + 1) place turn (r.merge (m.placed (place n) (turn n))) where
  valid := h.valid.merge (hm.placed _ _)
  vertices := by
    rw [vertices_merge]
    apply h.vertices.append
    · simp [placed, Mesh.vertexCount]
    · simp [placed]
  triangles := by
    rw [triangles_merge, h.vertexCount]
    apply h.triangles.append
    · simp [placed, Mesh.triangleCount]
    · simp [placed]
  isSome_normals := by
    rw [isSome_normals_merge, Bool.or_eq_true, h.isSome_normals]
    simp +contextual [placed]
  normals ns hns rs hrs := by
    have hplaced : (m.placed (place n) (turn n)).normals = some (ns.map (turn n)) := by
      rw [placed, Option.mem_def.mp hns, Option.map_some]
    have hjoined : r.ownNormals ++ ns.map (turn n) = rs := by
      simpa [normals_merge, hplaced, ownNormals_of_some hplaced] using hrs
    rw [← hjoined]
    apply (h.ownNormals hns).append
    · rw [Array.size_map, hm.normalCount ns hns]
    · simp

end Copies

theorem copies_concat (hm : m.Valid) (n : Nat) (place turn : Nat → Vec3 α → Vec3 α) :
    m.Copies n place turn (concat ((List.range n).map fun k => m.placed (place k) (turn k))) := by
  induction n with
  | zero => exact Copies.zero
  | succ n ih =>
    have hlast : concat ((List.range (n + 1)).map fun k => m.placed (place k) (turn k)) =
        (concat ((List.range n).map fun k => m.placed (place k) (turn k))).merge (m.placed (place n) (turn n)) := by
      simp [concat, List.range_succ]
    rw [hlast]
    exact ih.merge hm

theorem translate_eq_placed (m : Mesh α) (offset : Vec3 α) : m.translate offset = m.placed (· + offset) id := by
  unfold translate placed
  cases m.normals <;> simp

theorem map_eq_placed (m : Mesh α) (point direction : Vec3 α → Vec3 α) :
    m.map point direction = m.placed point fun v => (direction v).normalize := rfl

omit [Scalar α] in
theorem placed_placed (m : Mesh α) (place place' turn turn' : Vec3 α → Vec3 α) :
    (m.placed place turn).placed place' turn' = m.placed (place' ∘ place) (turn' ∘ turn) := by
  unfold placed
  cases m.normals <;> simp

end Mesh

/-! ## Patterns -/

namespace Pattern

variable {α : Type} [Scalar α] {m r : Mesh α} {n : Nat} {place turn : Nat → Vec3 α → Vec3 α}

theorem requireDirection_eq_ok_iff {v unit : Vec3 α} {missing : OperatorError α} :
    requireDirection v missing = .ok unit ↔ v.normalize? = some unit := by
  unfold requireDirection
  cases v.normalize? with
  | none => exact ⟨nofun, nofun⟩
  | some d => exact pure_eq_ok_iff.trans Option.some_inj.symm

theorem requireFinite_eq_ok_iff {name : String} {a : α} {u : Unit} :
    requireFinite name a = .ok u ↔ Scalar.isFinite a = true :=
  require_eq_ok_iff

theorem copies_eq_ok_iff (hm : m.Valid) (place turn : Nat → Vec3 α → Vec3 α) :
    copies n (fun k => m.placed (place k) (turn k)) = .ok r ↔
      n * Room.meshBytes ≤ Room.maxBytes ∧ m.Copies n place turn r := by
  have hcopies := Mesh.copies_concat hm n place turn
  have hplaced : ∀ copy ∈ (List.range n).map fun k => m.placed (place k) (turn k), copy.Valid := by
    intro copy hcopy
    obtain ⟨k, -, rfl⟩ := List.mem_map.mp hcopy
    exact hm.placed _ _
  have hjoined := Mesh.Guarded.concat_of_valid hplaced
  simp only [copies, hjoined, Room.requireList, bind_eq_ok_iff, require_eq_ok_iff, Except.ok.injEq, exists_and_left,
    exists_const]
  exact and_congr_right fun _ => ⟨fun h => h ▸ hcopies, hcopies.unique⟩

/-- A pattern can be made: its direction has a length, its numbers are finite, and there is room for the copies. -/
@[mk_iff]
structure Possible (direction unit : Vec3 α) (numbers : List α) (n : Nat) : Prop where
  unit : direction.normalize? = some unit
  finite : ∀ a ∈ numbers, Scalar.isFinite a = true
  room : n * Room.meshBytes ≤ Room.maxBytes

/-- Where copy `k` along a line has a point. -/
def alongLine (unit : Vec3 α) (spacing : α) (k : Nat) (p : Vec3 α) : Vec3 α := p + unit * spacing * (ofNat k : α)

def turnAround (angle : α) (n k : Nat) : α := radians (circularStep angle n) * ofNat k

/-- The direction in which the copies of a spiral move away from its axis. -/
def outward (m : Mesh α) (unit center : Vec3 α) : Vec3 α :=
  let offset := m.bounds.center - center
  ((offset - unit * offset.dot unit).normalize?).getD unit.anyPerpendicular

def turnSpiral (angle : α) (k : Nat) : α := radians (angle * ofNat k)

/-- Where copy `k` of a spiral has a point: moved away from the axis, turned about it, and moved along it. -/
def alongSpiral (radial unit center : Vec3 α) (angle pitch growth : α) (k : Nat) (p : Vec3 α) : Vec3 α :=
  Vec3.rotateAbout center unit (turnSpiral angle k) (p + radial * growth * (ofNat k : α)) + unit * pitch * (ofNat k : α)

end Pattern

namespace Mesh

open Pattern

variable {α : Type} [Scalar α] {m r : Mesh α} {n : Nat}

theorem linearPattern_eq_ok_iff (hm : m.Valid) {direction : Vec3 α} {spacing : α} :
    m.linearPattern direction n spacing = .ok r ↔
      ∃ unit, Possible direction unit [spacing] n ∧ m.Copies n (alongLine unit spacing) (fun _ => id) r := by
  have hcopies (unit : Vec3 α) : copies n (fun k => m.translate (unit * spacing * (ofNat k : α))) = .ok r ↔
      n * Room.meshBytes ≤ Room.maxBytes ∧ m.Copies n (alongLine unit spacing) (fun _ => id) r := by
    simp only [translate_eq_placed]
    exact copies_eq_ok_iff hm (alongLine unit spacing) fun _ => id
  simp only [linearPattern, bind_eq_ok_iff, requireDirection_eq_ok_iff, requireFinite_eq_ok_iff, hcopies,
    exists_and_left, exists_const, possible_iff, List.forall_mem_singleton, and_assoc]

theorem circularPattern_eq_ok_iff (hm : m.Valid) {axis center : Vec3 α} {angle : α} :
    m.circularPattern axis center n angle = .ok r ↔
      ∃ unit, Possible axis unit [angle] n ∧
        m.Copies n (fun k => Vec3.rotateAbout center unit (turnAround angle n k))
          (fun k v => (v.rotate unit (turnAround angle n k)).normalize) r := by
  have hcopies (unit : Vec3 α) := copies_eq_ok_iff (r := r) (n := n) hm
    (fun k => Vec3.rotateAbout center unit (turnAround angle n k))
    fun k v => (v.rotate unit (turnAround angle n k)).normalize
  simp only [turnAround, ← map_eq_placed] at hcopies ⊢
  simp only [circularPattern, bind_eq_ok_iff, requireDirection_eq_ok_iff, requireFinite_eq_ok_iff, rotated, hcopies,
    exists_and_left, exists_const, possible_iff, List.forall_mem_singleton, and_assoc]

theorem spiralPattern_eq_ok_iff (hm : m.Valid) {axis center : Vec3 α} {angle pitch growth : α} :
    m.spiralPattern axis center n angle pitch growth = .ok r ↔
      ∃ unit, Possible axis unit [angle, pitch, growth] n ∧
        m.Copies n (alongSpiral (outward m unit center) unit center angle pitch growth)
          (fun k v => (v.rotate unit (turnSpiral angle k)).normalize) r := by
  have hcopies (unit : Vec3 α) : copies n (fun k =>
      (rotated (m.translate (outward m unit center * growth * (ofNat k : α))) center unit
        (turnSpiral angle k)).translate (unit * pitch * (ofNat k : α))) = .ok r ↔
      n * Room.meshBytes ≤ Room.maxBytes ∧
        m.Copies n (alongSpiral (outward m unit center) unit center angle pitch growth)
          (fun k v => (v.rotate unit (turnSpiral angle k)).normalize) r := by
    simp only [rotated, map_eq_placed, translate_eq_placed, placed_placed]
    exact copies_eq_ok_iff hm (alongSpiral (outward m unit center) unit center angle pitch growth)
      fun k v => (v.rotate unit (turnSpiral angle k)).normalize
  simp only [outward, turnSpiral] at hcopies ⊢
  simp only [spiralPattern, bind_eq_ok_iff, requireDirection_eq_ok_iff, requireFinite_eq_ok_iff, hcopies,
    exists_and_left, exists_const, possible_iff, List.forall_mem_cons, List.not_mem_nil, false_implies, implies_true, true_and, and_assoc]

theorem gridPattern_eq_ok_iff (hm : m.Valid) {direction₁ direction₂ : Vec3 α} {n₁ n₂ : Nat} {spacing₁ spacing₂ : α} :
    m.gridPattern direction₁ n₁ spacing₁ direction₂ n₂ spacing₂ = .ok r ↔
      ∃ unit₁ unit₂, Possible direction₁ unit₁ [spacing₁] n₁ ∧ Possible direction₂ unit₂ [spacing₂] n₂ ∧
        m.Copies (n₂ * n₁)
          (fun k p => alongLine unit₂ spacing₂ (k / n₁) (alongLine unit₁ spacing₁ (k % n₁) p)) (fun _ => id) r := by
  rw [gridPattern, bind_eq_ok_iff]
  constructor
  · rintro ⟨row, hrow, hr⟩
    obtain ⟨unit₁, hpossible₁, hrow⟩ := (linearPattern_eq_ok_iff hm).mp hrow
    obtain ⟨unit₂, hpossible₂, hr⟩ := (linearPattern_eq_ok_iff hrow.valid).mp hr
    exact ⟨unit₁, unit₂, hpossible₁, hpossible₂, hrow.nest hr⟩
  · rintro ⟨unit₁, unit₂, hpossible₁, hpossible₂, hr⟩
    have hrow := copies_concat hm n₁ (alongLine unit₁ spacing₁) fun _ => id
    have hrows := copies_concat hrow.valid n₂ (alongLine unit₂ spacing₂) fun _ => id
    refine ⟨_, (linearPattern_eq_ok_iff hm).mpr ⟨unit₁, hpossible₁, hrow⟩, ?_⟩
    refine (linearPattern_eq_ok_iff hrow.valid).mpr ⟨unit₂, hpossible₂, ?_⟩
    rw [hr.unique (hrow.nest hrows)]
    exact hrows

/-- A pattern of `n` copies has a result when it is possible, and then it is the `n` copies one behind the other: for
each copy a block of vertices that are moved as the pattern says, a block of triangles over them, and a block of normals
if the mesh has normals. A grid is a line of lines, so that its copies are counted through. Without copies there is the
empty mesh. -/
theorem patterns_are_copies (hm : m.Valid) :
    (∀ direction n spacing r, m.linearPattern direction n spacing = .ok r ↔
      ∃ unit, Possible direction unit [spacing] n ∧ m.Copies n (alongLine unit spacing) (fun _ => id) r) ∧
    (∀ axis center n angle r, m.circularPattern axis center n angle = .ok r ↔
      ∃ unit, Possible axis unit [angle] n ∧
        m.Copies n (fun k => Vec3.rotateAbout center unit (turnAround angle n k))
          (fun k v => (v.rotate unit (turnAround angle n k)).normalize) r) ∧
    (∀ axis center n angle pitch growth r, m.spiralPattern axis center n angle pitch growth = .ok r ↔
      ∃ unit, Possible axis unit [angle, pitch, growth] n ∧
        m.Copies n (alongSpiral (outward m unit center) unit center angle pitch growth)
          (fun k v => (v.rotate unit (turnSpiral angle k)).normalize) r) ∧
    (∀ direction₁ n₁ spacing₁ direction₂ n₂ spacing₂ r,
      (m.gridPattern direction₁ n₁ spacing₁ direction₂ n₂ spacing₂ = .ok r ↔
        ∃ row, m.linearPattern direction₁ n₁ spacing₁ = .ok row ∧ row.linearPattern direction₂ n₂ spacing₂ = .ok r) ∧
      (m.gridPattern direction₁ n₁ spacing₁ direction₂ n₂ spacing₂ = .ok r ↔
        ∃ unit₁ unit₂, Possible direction₁ unit₁ [spacing₁] n₁ ∧ Possible direction₂ unit₂ [spacing₂] n₂ ∧
          m.Copies (n₂ * n₁)
            (fun k p => alongLine unit₂ spacing₂ (k / n₁) (alongLine unit₁ spacing₁ (k % n₁) p)) (fun _ => id) r)) ∧
    ∀ place turn r, m.Copies 0 place turn r → r = empty := by
  refine ⟨?_, ?_, ?_, ?_, ?_⟩
  · exact fun direction n spacing r => linearPattern_eq_ok_iff hm
  · exact fun axis center n angle r => circularPattern_eq_ok_iff hm
  · exact fun axis center n angle pitch growth r => spiralPattern_eq_ok_iff hm
  · exact fun direction₁ n₁ spacing₁ direction₂ n₂ spacing₂ r => ⟨bind_eq_ok_iff, gridPattern_eq_ok_iff hm⟩
  · exact fun place turn r hr => hr.unique Copies.zero

/-- Three triangles with normals behind each other, of which the third has moved twice as far as the second. -/
theorem triangle_three_times :
    let m : Mesh Float := ⟨#[⟨0, 0, 0⟩, ⟨1, 0, 0⟩, ⟨0, 1, 0⟩], #[⟨0, 1, 2⟩], some #[Vec3.unitZ, Vec3.unitZ, Vec3.unitX]⟩
    m.Valid ∧ ∃ r, m.linearPattern ⟨0, 0, 10⟩ 3 1.5 = .ok r ∧ r.vertexCount = 9 ∧ r.triangleCount = 3 ∧
      r.vertices[7]? = some ⟨1, 0, 3⟩ ∧ r.triangles[2]? = some ⟨6, 7, 8⟩ ∧ r.normals.isSome = true := by
  intro m
  have hm : m.Valid := ⟨by decide, by simp [m, vertexCount]⟩
  have hcopies := copies_concat hm 3 (alongLine Vec3.unitZ 1.5) fun _ => id
  have hpossible : Possible ⟨0, 0, 10⟩ Vec3.unitZ [(1.5 : Float)] 3 :=
    ⟨by decide +kernel, by decide +kernel, by decide +kernel⟩
  refine ⟨hm, _, ((patterns_are_copies hm).1 _ _ _ _).mpr ⟨_, hpossible, hcopies⟩, hcopies.vertexCount,
    hcopies.triangleCount, ?_, ?_, hcopies.isSome_normals.mpr ⟨rfl, by decide⟩⟩
  · exact (hcopies.vertices.getElem? 2 (by decide) 1 (by decide)).trans (by decide +kernel)
  · exact (hcopies.triangles.getElem? 2 (by decide) 0 (by decide)).trans (by decide)

end Mesh

end SolidScript
