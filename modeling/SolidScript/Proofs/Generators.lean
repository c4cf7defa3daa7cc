import SolidScript.Feature.Draft
import SolidScript.Feature.EdgeTreatment
import SolidScript.Feature.Shell
import SolidScript.Feature.Sweep
import SolidScript.Feature.Transform
import SolidScript.Proofs.EarClipping
import SolidScript.Proofs.RoundSolids

/-!
# Meshes that are made

Generators and operators work out the places of corners by themselves. Whatever numbers and counts they are given, they
never ask for a vertex that does not exist, and meshes that come out are valid when those that go in are.
-/

namespace SolidScript

open Scalar

variable {α : Type}

/-! ## Making without missing vertices -/

/-- A failure because of a place that no vertex has. -/
def OperatorError.MissesVertex : OperatorError α → Prop
  | .fault (.missingVertex _ _) | .mesh (.indexOutOfRange _ _) => True
  | _ => False

/-- What comes out has a property, and no failure is that of a missing vertex. -/
structure Sound {β : Type} (P : β → Prop) (x : Except (OperatorError α) β) : Prop where
  result : ∀ b, x = .ok b → P b
  failure : ∀ e, x = .error e → ¬e.MissesVertex

namespace Sound

variable {β γ : Type} {P Q : β → Prop} {R : γ → Prop}

theorem pure {b : β} (h : P b) : Sound P (pure b : Except (OperatorError α) β) :=
  ⟨fun _ hb => Except.ok.inj hb ▸ h, fun _ he => nomatch he⟩

theorem throw {e : OperatorError α} (h : ¬e.MissesVertex) : Sound P (throw e : Except (OperatorError α) β) :=
  ⟨fun _ hb => (nomatch hb), fun _ he => Except.error.inj he ▸ h⟩

theorem bind {x : Except (OperatorError α) β} {f : β → Except (OperatorError α) γ} (hx : Sound P x)
    (hf : ∀ b, P b → Sound R (f b)) : Sound R (x >>= f) := by
  cases x with
  | ok b => exact hf b (hx.result b rfl)
  | error e => exact Sound.throw (hx.failure e rfl)

theorem mono {x : Except (OperatorError α) β} (hx : Sound P x) (hPQ : ∀ b, P b → Q b) : Sound Q x :=
  ⟨fun b hb => hPQ b (hx.result b hb), hx.failure⟩

theorem of_eq {x : Except (OperatorError α) β} {b : β} (hx : x = .ok b) (h : P b) : Sound P x := hx ▸ Sound.pure h

theorem foldlM {items : List γ} {f : β → γ → Except (OperatorError α) β}
    (hstep : ∀ b, P b → ∀ c ∈ items, Sound P (f b c)) {b : β} (hb : P b) : Sound P (items.foldlM f b) := by
  induction items generalizing b with
  | nil => exact Sound.pure hb
  | cons c rest ih =>
    rw [List.foldlM_cons]
    refine (hstep b hb c List.mem_cons_self).bind fun b' hb' => ?_
    exact ih (fun b hb c hc => hstep b hb c (List.mem_cons_of_mem _ hc)) hb'

theorem mapM {items : List γ} {f : γ → Except (OperatorError α) β} (hf : ∀ c ∈ items, Sound P (f c)) :
    Sound (fun results => ∀ b ∈ results, P b) (items.mapM f) := by
  induction items with
  | nil => exact Sound.pure (by simp)
  | cons c rest ih =>
    rw [List.mapM_cons]
    refine (hf c List.mem_cons_self).bind fun b hb => ?_
    refine (ih fun c hc => hf c (List.mem_cons_of_mem _ hc)).bind fun results hresults => Sound.pure ?_
    exact List.forall_mem_cons.mpr ⟨hb, hresults⟩

theorem guard {c : Prop} [Decidable c] {e : OperatorError α} {f : Unit → Except (OperatorError α) β}
    (he : ¬e.MissesVertex) (hf : ¬c → Sound P (f ())) : Sound P (if c then MonadExcept.throw e >>= f else f ()) := by
  split
  · exact Sound.throw he
  · rename_i hc
    exact hf hc

theorem check {c : Prop} [Decidable c] {b : β} {e : OperatorError α} (he : ¬e.MissesVertex) :
    Sound (fun _ => True) (if c then Pure.pure b else MonadExcept.throw e : Except (OperatorError α) β) := by
  split
  · exact Sound.pure True.intro
  · exact Sound.throw he

end Sound

/-! ## Checks -/

section Checks

theorem sound_requireList (itemBytes count : Nat) :
    Sound (fun _ => True) (Room.requireList itemBytes count : Except (OperatorError α) Unit) :=
  Sound.check id

theorem sound_requireMesh (vertices triangles : Nat) :
    Sound (fun _ => True) (Room.requireMesh vertices triangles : Except (OperatorError α) Unit) := by
  unfold Room.requireMesh
  cases fitsUnsigned 64 triangles with
  | true => exact sound_requireList _ _
  | false => exact Sound.throw id

theorem sound_item {β : Type} {items : Array β} {i : Nat} (h : i < items.size) :
    Sound (fun _ => True) (Fault.item items i : Except (OperatorError α) β) :=
  Sound.of_eq (Fault.item_eq_ok_iff.mpr (Array.getElem?_eq_getElem h)) True.intro

variable [Scalar α]

theorem sound_clamp (low high a : α) : Sound (fun _ => True) (Fault.clamp low high a) := by
  unfold Fault.clamp
  split
  · exact Sound.pure True.intro
  · exact Sound.throw id

theorem sound_requireDirection (v : Vec3 α) {missing : OperatorError α} (h : ¬missing.MissesVertex) :
    Sound (fun _ => True) (Pattern.requireDirection v missing) := by
  unfold Pattern.requireDirection
  split
  · exact Sound.pure True.intro
  · exact Sound.throw h

theorem sound_requireFinite (name : String) (a : α) : Sound (fun _ => True) (Pattern.requireFinite name a) :=
  Sound.check id

theorem sound_checkThickness (thickness : α) : Sound (fun _ => True) (Shell.checkThickness thickness) :=
  Sound.check id

theorem sound_prepare (points : List (Vec2 α)) (required : Nat) :
    Sound (fun _ => True) (Profile.prepare points required) := by
  unfold Profile.prepare
  split
  · exact Sound.throw id
  · dsimp only
    split
    · exact Sound.throw id
    · split
      all_goals exact Sound.pure True.intro

/-- What a cutter answers are triangles between corners of the polygon, and it has no vertices of a mesh to miss. -/
def PolygonCutter.Lawful (cutter : PolygonCutter α) : Prop :=
  ∀ points, Sound (fun triangles => ∀ t ∈ triangles, t.Below points.length) (cutter points)

theorem lawful_earcut : PolygonCutter.Lawful (EarClipping.earcut (α := α)) := by
  refine fun points => ⟨fun triangles h => EarClipping.below_earcut h, fun e h => ?_⟩
  unfold EarClipping.earcut at h
  split at h
  · cases h
    exact id
  · split at h
    · cases h
      exact id
    · cases h

theorem sound_orient {points : Array (Vec2 α)} {t : EarClipping.Corners} (h : t.Below points.size) :
    Sound (fun t => t.Below points.size) (Profile.orient points t) := by
  obtain ⟨a, b, c⟩ := t
  obtain ⟨ha, hb, hc⟩ := h
  unfold Profile.orient
  refine (sound_item ha).bind fun p _ => (sound_item hb).bind fun q _ => (sound_item hc).bind fun r _ => Sound.pure ?_
  split
  · exact ⟨ha, hc, hb⟩
  · exact ⟨ha, hb, hc⟩

theorem sound_triangulate {cutter : PolygonCutter α} (hcutter : cutter.Lawful) (points : List (Vec2 α)) :
    Sound (fun triangles => ∀ t ∈ triangles, t.Below points.length) (Profile.triangulate points cutter) := by
  unfold Profile.triangulate
  refine Sound.guard id fun _ => (hcutter points).bind fun triangles htriangles => Sound.guard id fun _ => ?_
  exact Sound.mapM fun t ht => sound_orient (htriangles t ht)

end Checks

/-! ## Faces over vertices of one ring or grid -/

namespace Mesh

variable [Scalar α] {m : Mesh α}

def Over (count : Nat) (m : Mesh α) : Prop := m.Valid ∧ m.vertexCount = count

omit [Scalar α] in
theorem Valid.over (h : m.Valid) : m.Over m.vertexCount := ⟨h, rfl⟩

theorem Over.addIndexedFacing {count : Nat} (h : m.Over count) {t : Triangle} (ht : t.top < count)
    (outward : Vec3 α) : Sound (Over count) (m.addIndexedFacing t outward) := by
  obtain ⟨hvalid, rfl⟩ := h
  rcases addIndexedFacing_cases hvalid t outward with ⟨-, m', hadd, hvalid', hcount⟩ | ⟨hle, -⟩
  · rw [hadd]
    exact Sound.pure ⟨hvalid', hcount⟩
  · exact absurd ht (Nat.not_lt.mpr hle)

theorem Over.addQuadIndexedFacing {count a b c d : Nat} (h : m.Over count) (ha : a < count) (hb : b < count)
    (hc : c < count) (hd : d < count) (outward : Vec3 α) :
    Sound (Over count) (m.addQuadIndexedFacing a b c d outward) := by
  have hfirst : Triangle.top ⟨a, b, c⟩ < count := by simp [Triangle.top, ha, hb, hc]
  have hsecond : Triangle.top ⟨a, c, d⟩ < count := by simp [Triangle.top, ha, hc, hd]
  exact (h.addIndexedFacing hfirst outward).bind fun m' h' => h'.addIndexedFacing hsecond outward

omit [Scalar α] in
theorem over_foldl {β : Type} {add : Mesh α → β → Mesh α} {each : Nat}
    (hadd : ∀ {m : Mesh α} {count : Nat} (b : β), m.Over count → (add m b).Over (count + each)) {count : Nat}
    (items : List β) (h : m.Over count) : (items.foldl add m).Over (count + items.length * each) := by
  induction items generalizing m count with
  | nil => simpa using h
  | cons b rest ih =>
    have hrest := ih (hadd b h)
    rwa [List.length_cons, Nat.add_mul, Nat.one_mul, Nat.add_comm (rest.length * each), ← Nat.add_assoc]

omit [Scalar α] in
theorem over_foldl_one {β : Type} {add : Mesh α → β → Mesh α}
    (hadd : ∀ {m : Mesh α} {count : Nat} (b : β), m.Over count → (add m b).Over (count + 1)) {count : Nat}
    (items : List β) (h : m.Over count) : (items.foldl add m).Over (count + items.length) := by
  simpa using over_foldl hadd items h

theorem Over.addVertexWithNormal {count : Nat} (h : m.Over count) (p n : Vec3 α) :
    (m.addVertexWithNormal p n).Over (count + 1) :=
  ⟨h.1.addVertexWithNormal p n, by rw [vertexCount_addVertexWithNormal, h.2]⟩

theorem sound_addCap {cutter : PolygonCutter α} (hcutter : cutter.Lawful) (h : m.Valid) {ring : List (Vec3 α)}
    {profile : List (Vec2 α)} (hlength : profile.length ≤ ring.length) (outward : Vec3 α) :
    Sound Valid (m.addCap ring profile outward cutter) := by
  unfold addCap
  refine (sound_triangulate hcutter profile).bind fun triangles htriangles => ?_
  have hring : (ring.foldl (fun m p => m.addVertexWithNormal p outward.normalize) m).Over
      (m.vertexCount + ring.length) := over_foldl_one (fun p h => h.addVertexWithNormal p _) ring h.over
  refine (Sound.foldlM (fun m' hm' t ht => ?_) hring).mono fun m' hm' => hm'.1
  obtain ⟨a, b, c⟩ := t
  obtain ⟨ha, hb, hc⟩ : a < profile.length ∧ b < profile.length ∧ c < profile.length := htriangles _ ht
  refine hm'.addIndexedFacing ?_ _
  rw [Triangle.top_lt_iff]
  simp only [Triangle.toList, List.mem_cons, List.not_mem_nil, or_false, forall_eq_or_imp, forall_eq]
  omega

theorem sound_addStrip (h : m.Valid) {rungs : List (Rung α)} {outward : List (Vec3 α)}
    (hlength : outward.length ≤ rungs.length) : Sound Valid (m.addStrip rungs outward) := by
  unfold addStrip
  have hrung {m : Mesh α} {count : Nat} (r : Rung α) (h : m.Over count) : (addRung m r).Over (count + 2) :=
    (h.addVertexWithNormal r.left r.leftNormal).addVertexWithNormal r.right r.rightNormal
  have hrungs := over_foldl hrung rungs h.over
  refine (Sound.foldlM (fun m' hm' side hside => ?_) hrungs).mono fun m' hm' => hm'.1
  obtain ⟨direction, k⟩ := side
  have hk : k < rungs.length := Nat.lt_of_lt_of_le (List.snd_lt_of_mem_zipIdx hside) hlength
  have hnext : (k + 1) % rungs.length < rungs.length := Nat.mod_lt _ (by omega)
  exact hm'.addQuadIndexedFacing (by omega) (by omega) (by omega) (by omega) direction

/-! ## Reading vertices of valid meshes -/

theorem sound_recomputeNormals (h : m.Valid) : Sound Valid (Guarded.recomputeNormals m) :=
  Sound.of_eq (Guarded.recomputeNormals_eq_ok_iff.mpr ⟨h.inRange, rfl⟩) h.recomputeNormals

theorem sound_orientOutward (h : m.Valid) : Sound Valid (Guarded.orientOutward m) :=
  Sound.of_eq (Guarded.orientOutward_eq_ok_iff.mpr ⟨h.inRange, rfl⟩) h.orientOutward

theorem sound_ensureNormals (h : m.Valid) :
    Sound (fun r => r.Valid ∧ r.normals.isSome = true) (Guarded.ensureNormals m) :=
  Sound.of_eq (Guarded.ensureNormals_of_inRange h.inRange) ⟨h.ensureNormals, isSome_normals_ensureNormals m⟩

theorem sound_merge (hm : m.Valid) {n : Mesh α} (hn : n.Valid) : Sound Valid (Guarded.merge m n) :=
  Sound.of_eq (Guarded.merge_of_inRange hm.inRange hn.inRange) (hm.merge hn)

theorem sound_concat {meshes : List (Mesh α)} (h : ∀ m ∈ meshes, m.Valid) : Sound Valid (Guarded.concat meshes) :=
  Sound.of_eq (Guarded.concat_of_valid h) (valid_concat h)

theorem sound_readMesh (h : m.Valid) : Sound (fun _ => True) (Solid.readMesh m) := by
  refine Sound.of_eq (Solid.readMesh_eq_ok_iff.mpr ⟨_, Guarded.ensureNormals_of_inRange h.inRange, ?_, rfl⟩) True.intro
  intro t ht i hi
  have hi := (t.top_lt_iff m.vertexCount).mp (h.inRange t ht) i hi
  obtain ⟨ns, hns⟩ := Option.isSome_iff_exists.mp (isSome_normals_ensureNormals m)
  have hcount := h.ensureNormals.normalCount ns hns
  rw [vertexCount, vertices_ensureNormals] at hcount
  rw [hns, Option.getD_some, hcount]
  exact ⟨hi, hi⟩

end Mesh

section Generators

variable [Scalar α] {cutter : PolygonCutter α}

/-! ## Boxes and prisms -/

omit [Scalar α] in
theorem sound_requireRoom (p : Primitive α) : Sound (fun _ => True) p.requireRoom := by
  cases p with
  | sphere radius center segments rings =>
    show Sound _ (Round.requireSphereRoom segments rings)
    exact sound_requireMesh _ _
  | _ => exact Sound.pure True.intro

theorem sound_build (p : Primitive α) : Sound Mesh.Valid p.build := by
  rw [Primitive.build_eq]
  exact (sound_requireRoom p).bind fun _ _ => Sound.pure p.valid_toMesh

theorem sound_sweep (hcutter : cutter.Lawful) (profile : List (ProfileCorner α)) (frame : ProfileFrame α)
    (halfLength : α) (layers : Nat) : Sound Mesh.Valid (Prism.sweep profile frame halfLength layers cutter) := by
  unfold Prism.sweep
  refine Sound.guard id fun _ => ?_
  refine (Sound.foldlM (fun m hm edge _ => ?_) Mesh.valid_empty).bind fun m hm => ?_
  · unfold Prism.addSide
    split
    split
    all_goals exact Mesh.sound_addStrip hm (by simp)
  · refine (Mesh.sound_addCap hcutter hm (by simp) _).bind fun m hm => ?_
    exact Mesh.sound_addCap hcutter hm (by simp) _

/-! ## Edges of boxes -/

theorem sound_treatment {t : EdgeTreatment α} (hbuild : ∀ size center amount, Sound Mesh.Valid (t.build size center amount))
    (size center : Vec3 α) (amount : α) : Sound Mesh.Valid (t.apply size center amount) := by
  unfold EdgeTreatment.apply
  refine Sound.guard id fun _ => (sound_clamp _ _ _).bind fun amount _ => ?_
  split
  · exact sound_build _
  · exact hbuild size center amount

theorem sound_rounded (segments : Nat) (size center : Vec3 α) (r : α) :
    Sound Mesh.Valid (Fillet.rounded segments size center r) := by
  unfold Fillet.rounded
  extract_lets n inner columns rows places start cells
  refine (sound_requireMesh _ _).bind fun _ _ => ?_
  have hstart : start.Over (rows * columns) := by
    have hplaces : places.length = rows * columns := by simp [places, List.length_flatMap]
    have hover : start.Over (0 + places.length) := by
      refine Mesh.over_foldl_one (fun place h => ?_) places Mesh.valid_empty.over
      exact h.addVertexWithNormal _ _
    rwa [hplaces, Nat.zero_add] at hover
  -- The quads name vertices of the grid only, and the last column is followed by the first one.
  refine (Sound.foldlM (fun m hm cell hcell => ?_) hstart).bind fun m hm => ?_
  · obtain ⟨row, hrow, hcell⟩ := List.mem_flatMap.mp hcell
    obtain ⟨column, hcolumn, rfl⟩ := List.mem_map.mp hcell
    have hrow := List.mem_range.mp hrow
    have hcolumn := List.mem_range.mp hcolumn
    have hnext : (column + 1) % columns < columns := Nat.mod_lt _ (by omega)
    refine hm.addQuadIndexedFacing ?_ ?_ ?_ ?_ _
    all_goals exact grid_lt (by omega) (by omega)
  · exact Sound.pure ((hm.1.addQuadFacing _ _).addQuadFacing _ _)

omit [Scalar α] in
theorem valid_foldl {β : Type} {add : Mesh α → β → Mesh α} (hadd : ∀ {m : Mesh α} (b : β), m.Valid → (add m b).Valid)
    (items : List β) {m : Mesh α} (h : m.Valid) : (items.foldl add m).Valid :=
  List.foldlRecOn items add h fun _ hm b _ => hadd b hm

theorem valid_beveled (size center : Vec3 α) (d : α) : (Chamfer.beveled size center d).Valid := by
  unfold Chamfer.beveled
  refine valid_foldl (fun s h => h.addTriangleFacing _ _ _ _) _ ?_
  refine valid_foldl (fun axis h => valid_foldl (fun signs h => h.addQuadFacing _ _) _ h) _ ?_
  exact valid_foldl (fun axis h => valid_foldl (fun side h => h.addQuadFacing _ _) _ h) _ Mesh.valid_empty

/-! ## Hollow solids -/

theorem sound_shell_box (size center : Vec3 α) (thickness : α) (openFaces : List Face) :
    Sound Mesh.Valid (Shell.box size center thickness openFaces) := by
  unfold Shell.box
  refine (sound_checkThickness _).bind fun _ _ => (sound_clamp _ _ _).bind fun t _ => Sound.pure ?_
  refine valid_foldl (fun face h => ?_) _ Mesh.valid_empty
  unfold Shell.addBoxSide
  extract_lets axis plane
  split
  extract_lets outer
  split
  · refine valid_foldl (fun q h => ?_) _ h
    split
    · exact h.addQuadFacing _ _
    · exact h
  · exact (h.addQuadFacing _ _).addQuadFacing _ _

theorem valid_addEnd {m : Mesh α} (h : m.Valid) (center : Vec3 α) (r ri outerHeight innerHeight : α) (n : Nat)
    (isOpen : Bool) (up : Vec3 α) : (Shell.addEnd center r ri outerHeight innerHeight n isOpen up m).Valid := by
  unfold Shell.addEnd
  dsimp only
  split
  · exact valid_foldl (fun sides h => h.addQuadFacing _ _) _ h
  · exact valid_foldl (fun sides h => (h.addTriangleFacing _ _ _ _).addTriangleFacing _ _ _ _) _ h

theorem sound_shell_cylinder (radius height : α) (center : Vec3 α) (segments : Nat) (thickness : α)
    (openTop openBottom : Bool) :
    Sound Mesh.Valid (Shell.cylinder radius height center segments thickness openTop openBottom) := by
  unfold Shell.cylinder
  refine (sound_checkThickness _).bind fun _ _ => (sound_clamp _ _ _).bind fun t _ => Sound.pure ?_
  have hwall (lower upper : List (Vec3 α)) (sign : α) {m : Mesh α} (h : m.Valid) :
      (Shell.addWall lower upper sign m).Valid := valid_foldl (fun side h => h.addQuadFacing _ _) _ h
  exact valid_addEnd (valid_addEnd (hwall _ _ _ (hwall _ _ _ Mesh.valid_empty)) _ _ _ _ _ _ _ _) _ _ _ _ _ _ _ _

theorem sound_addSphere {m : Mesh α} (h : m.Valid) (center : Vec3 α) (span : Shell.Span α) {n : Nat} (hn : 0 < n)
    (radius sign : α) : Sound Mesh.Valid (Shell.addSphere center span n radius sign m) := by
  unfold Shell.addSphere
  extract_lets base points start place cells
  have hstart : start.Over (base + (span.rows + 1) * n) := by
    have hpoints : points.length = (span.rows + 1) * n := by simp [points, List.length_flatMap]
    have hover : start.Over (base + points.length) := by
      refine Mesh.over_foldl_one (fun d h => ?_) points h.over
      exact h.addVertexWithNormal _ _
    rwa [hpoints] at hover
  have hplace {i : Nat} (hi : i < span.rows + 1) (j : Nat) : place i j < base + (span.rows + 1) * n :=
    Nat.add_lt_add_left (grid_lt hi (Nat.mod_lt j hn)) base
  refine (Sound.foldlM (fun m hm cell hcell => ?_) hstart).mono fun m hm => hm.1
  obtain ⟨i, hi, hcell⟩ := List.mem_flatMap.mp hcell
  obtain ⟨j, -, rfl⟩ := List.mem_map.mp hcell
  have hi := List.mem_range.mp hi
  refine hm.addQuadIndexedFacing ?_ ?_ ?_ ?_ _
  all_goals exact hplace (by omega) _

theorem valid_addRim {m : Mesh α} (h : m.Valid) (center : Vec3 α) (r ri angle : α) (n : Nat) (towardPole : α) :
    (Shell.addRim center r ri angle n towardPole m).Valid :=
  valid_foldl (fun _ h => h.addQuadFacing _ _) _ h

theorem sound_shell_sphere (radius : α) (center : Vec3 α) (segments rings : Nat) (thickness : α)
    (openTop openBottom : Bool) (opening : α) :
    Sound Mesh.Valid (Shell.sphere radius center segments rings thickness openTop openBottom opening) := by
  unfold Shell.sphere
  have hn : 0 < max segments 3 := Nat.lt_of_lt_of_le (by decide) (Nat.le_max_right segments 3)
  refine (sound_checkThickness _).bind fun _ _ => ?_
  refine Sound.guard id fun _ => (sound_clamp _ _ _).bind fun t _ => (sound_clamp _ _ _).bind fun opening _ => ?_
  refine (sound_addSphere Mesh.valid_empty _ _ hn _ _).bind fun m hm => ?_
  refine (sound_addSphere hm _ _ hn _ _).bind fun m hm => ?_
  extract_lets both
  have hboth : both.Valid := by
    unfold both
    split
    · exact valid_addRim hm _ _ _ _ _ _
    · exact hm
  split
  · exact Sound.pure (valid_addRim hboth _ _ _ _ _ _)
  · exact Sound.pure hboth

theorem sound_shell_ofMesh {m : Mesh α} (h : m.Valid) (thickness : α) :
    Sound Mesh.Valid (Shell.ofMesh m thickness) := by
  unfold Shell.ofMesh
  refine (sound_checkThickness _).bind fun _ _ => (Mesh.sound_ensureNormals h).bind fun outer houter => ?_
  obtain ⟨houter, hsome⟩ := houter
  obtain ⟨normals, hnormals⟩ := Option.isSome_iff_exists.mp hsome
  have hcount : normals.size = outer.vertexCount := houter.normalCount normals hnormals
  dsimp only
  rw [hnormals, Option.getD_some]
  refine Mesh.sound_merge houter ?_
  -- The inner surface has as many vertices as the outer one.
  have hinner (f : Vec3 α → Vec3 α → Vec3 α) : (Array.zipWith f outer.vertices normals).size = outer.vertexCount := by
    rw [Array.size_zipWith, hcount]
    exact Nat.min_self _
  refine ⟨fun t ht => ?_, fun ns hns => ?_⟩
  · obtain ⟨t', ht', rfl⟩ := Array.mem_map.mp ht
    rw [Triangle.top_flip]
    exact Nat.lt_of_lt_of_eq (houter.inRange t' ht') (hinner _).symm
  · dsimp only at hns
    split at hns
    · cases hns
    · obtain rfl := Option.some.inj hns
      rw [Array.size_map, hcount]
      exact (hinner _).symm

/-! ## Sweeping -/

theorem sound_frames (path : List (Vec3 α)) : Sound (fun _ => True) (Path.frames path) := by
  unfold Path.frames
  split
  · exact Sound.throw id
  · dsimp only
    split
    · exact Sound.throw id
    · exact Sound.pure True.intro

theorem sound_alongPath (hcutter : cutter.Lawful) (profile : List (Vec2 α)) (path : List (Vec3 α)) :
    Sound Mesh.Valid (Sweep.alongPath profile path cutter) := by
  unfold Sweep.alongPath
  refine (sound_prepare _ _).bind fun profile _ => (sound_frames _).bind fun frames _ => ?_
  refine (Sound.foldlM (fun m hm edge _ => ?_) Mesh.valid_empty).bind fun m hm => ?_
  · unfold Sweep.addSide
    refine Mesh.sound_addStrip hm ?_
    simp only [List.length_map, List.length_zip, List.length_drop]
    omega
  · split
    · refine (Mesh.sound_addCap hcutter hm (by simp) _).bind fun m hm => ?_
      exact Mesh.sound_addCap hcutter hm (by simp) _
    · exact Sound.pure hm

theorem sound_helix (hcutter : cutter.Lawful) (h : Helix α) : Sound Mesh.Valid (h.mesh cutter) := by
  unfold Helix.mesh Helix.path
  refine (sound_requireFinite _ _).bind fun _ _ => (sound_requireFinite _ _).bind fun _ _ => ?_
  refine (sound_requireFinite _ _).bind fun _ _ => (sound_requireFinite _ _).bind fun _ _ => ?_
  have hpath := (sound_requireList (α := α) Room.positionBytes (h.steps + 1)).bind fun _ _ =>
    Sound.pure (P := fun _ => True) (b := (List.range (h.steps + 1)).map fun i => h.pointAt (ofNat i / ofNat h.steps))
      True.intro
  exact hpath.bind fun path _ => sound_alongPath hcutter _ path

theorem sound_tour_addSide (t : Revolve.Tour α) {m : Mesh α} (h : m.Valid) (side : (Vec3 α × Vec3 α) × Vec3 α) :
    Sound Mesh.Valid (t.addSide m side) := by
  unfold Revolve.Tour.addSide
  refine Mesh.sound_addStrip h ?_
  simp only [List.length_map, List.length_range, Revolve.Tour.rings]
  split
  all_goals omega

theorem sound_tour_addCaps (hcutter : cutter.Lawful) (t : Revolve.Tour α) {placed : List (Vec3 α)}
    {profile : List (Vec2 α)} (hlength : profile.length ≤ placed.length) {m : Mesh α} (h : m.Valid) :
    Sound Mesh.Valid (t.addCaps placed profile cutter m) := by
  unfold Revolve.Tour.addCaps
  refine (Mesh.sound_addCap hcutter h hlength _).bind fun m hm => ?_
  exact Mesh.sound_addCap hcutter hm (by simpa using hlength) _

theorem sound_revolve (hcutter : cutter.Lawful) (profile : List (Vec2 α)) (axis : Vec3 α) (angle : α) (center : Vec3 α)
    (segments : Nat) : Sound Mesh.Valid (Revolve.mesh profile axis angle center segments cutter) := by
  unfold Revolve.mesh
  refine (sound_requireDirection _ id).bind fun axis _ => (sound_requireFinite _ _).bind fun _ _ => ?_
  refine Sound.guard id fun _ => (sound_prepare _ _).bind fun profile _ => Sound.guard id fun _ => ?_
  refine (Sound.foldlM (fun m hm side _ => sound_tour_addSide _ hm side) Mesh.valid_empty).bind fun m hm => ?_
  split
  · exact Mesh.sound_orientOutward hm
  · refine (sound_tour_addCaps hcutter _ (by simp) hm).bind fun m hm => ?_
    exact Mesh.sound_orientOutward hm

/-! ## Lofting -/

theorem length_separatedHeights (heights : List α) : (Loft.separatedHeights heights).length = heights.length := by
  have hfrom (rising : Bool) (previous : α) (rest : List α) :
      (Loft.separateFrom rising previous rest).length = rest.length := by
    induction rest generalizing previous with
    | nil => rfl
    | cons h rest ih =>
      unfold Loft.separateFrom
      rw [List.length_cons, ih, List.length_cons]
  cases heights with
  | nil => rfl
  | cons first rest =>
    unfold Loft.separatedHeights
    rw [List.length_cons, hfrom, List.length_cons]

theorem sound_check (sections : List (List (Vec2 α))) (heights : List α) :
    Sound (fun _ => heights.length = sections.length) (Loft.check sections heights) := by
  unfold Loft.check
  refine Sound.guard id fun _ => Sound.guard id fun hlength => ?_
  split
  · exact Sound.throw id
  · exact Sound.pure (not_not.mp hlength)

theorem sound_loft_prepare (sections : List (List (Vec2 α))) :
    Sound (fun prepared => prepared.length = sections.length) (Loft.prepare sections) := by
  unfold Loft.prepare
  refine Sound.guard id fun _ => ?_
  split
  · exact Sound.throw id
  · refine Sound.pure ?_
    split
    all_goals simp

theorem sound_loft_addSide {heights : List α} {m : Mesh α} (h : m.Valid) {edges : List (Vec2 α × Vec2 α)}
    (hlength : edges.length ≤ heights.length) : Sound Mesh.Valid (Loft.addSide heights m edges) := by
  unfold Loft.addSide
  refine Mesh.sound_addStrip h ?_
  simp only [List.length_map, List.length_zip, List.length_drop]
  omega

theorem sound_loft (hcutter : cutter.Lawful) (sections : List (List (Vec2 α))) (heights : List α) :
    Sound Mesh.Valid (Loft.mesh sections heights cutter) := by
  unfold Loft.mesh
  refine (sound_check _ _).bind fun _ hheights => (sound_loft_prepare _).bind fun prepared hprepared => ?_
  refine (Sound.foldlM (fun m hm edges hedges => ?_) Mesh.valid_empty).bind fun m hm => ?_
  · refine sound_loft_addSide hm ?_
    obtain ⟨i, -, rfl⟩ := List.mem_map.mp hedges
    rw [List.length_map, length_separatedHeights, hprepared, hheights]
  · refine (Mesh.sound_addCap hcutter hm (by simp) _).bind fun m hm => ?_
    refine (Mesh.sound_addCap hcutter hm (by simp) _).bind fun m hm => ?_
    exact Mesh.sound_orientOutward hm

/-! ## Copies -/

theorem sound_copies (count : Nat) {copy : Nat → Mesh α} (h : ∀ i, (copy i).Valid) :
    Sound Mesh.Valid (Pattern.copies count copy) := by
  unfold Pattern.copies
  refine (sound_requireList _ _).bind fun _ _ => Mesh.sound_concat fun m hm => ?_
  obtain ⟨i, -, rfl⟩ := List.mem_map.mp hm
  exact h i

variable {m : Mesh α}

theorem sound_linearPattern (h : m.Valid) (direction : Vec3 α) (count : Nat) (spacing : α) :
    Sound Mesh.Valid (m.linearPattern direction count spacing) := by
  unfold Mesh.linearPattern
  refine (sound_requireDirection _ id).bind fun direction _ => (sound_requireFinite _ _).bind fun _ _ => ?_
  exact sound_copies _ fun i => h.translate _

theorem sound_circularPattern (h : m.Valid) (axis center : Vec3 α) (count : Nat) (angle : α) :
    Sound Mesh.Valid (m.circularPattern axis center count angle) := by
  unfold Mesh.circularPattern
  refine (sound_requireDirection _ id).bind fun axis _ => (sound_requireFinite _ _).bind fun _ _ => ?_
  exact sound_copies _ fun i => h.map _ _

theorem sound_spiralPattern (h : m.Valid) (axis center : Vec3 α) (count : Nat) (angle pitch growth : α) :
    Sound Mesh.Valid (m.spiralPattern axis center count angle pitch growth) := by
  unfold Mesh.spiralPattern
  refine (sound_requireDirection _ id).bind fun axis _ => (sound_requireFinite _ _).bind fun _ _ => ?_
  refine (sound_requireFinite _ _).bind fun _ _ => (sound_requireFinite _ _).bind fun _ _ => ?_
  exact sound_copies _ fun i => ((h.translate _).map _ _).translate _

theorem sound_mirror (h : m.Valid) (normal point : Vec3 α) (keep : Bool) :
    Sound Mesh.Valid (m.mirror normal point keep) := by
  unfold Mesh.mirror
  refine (sound_requireDirection _ id).bind fun normal _ => ?_
  have himage := (h.map (Vec3.reflectPoint point normal) (Vec3.reflect normal)).flipTriangles
  split
  · exact Mesh.sound_merge h himage
  · exact Sound.pure himage

/-! ## Changed meshes -/

theorem sound_taper (h : m.Valid) (pull : Vec3 α) (angle : α) (neutral : Option α) :
    Sound (fun drafted => drafted.mesh.Valid) (Draft.taper m pull angle neutral) := by
  unfold Draft.taper
  dsimp only
  split
  · exact Sound.pure h
  · refine (sound_clamp _ _ _).bind fun applied _ => (Mesh.sound_recomputeNormals ?_).bind fun _ hm => Sound.pure hm
    have hcount (move : Vec3 α → Vec3 α) : (m.vertices.map move).size = m.vertexCount := Array.size_map
    refine h.of_triangles_eq rfl (hcount _).ge fun ns hns => ?_
    exact (h.normalCount ns hns).trans (hcount _).symm

theorem sound_draft (h : m.Valid) (angle : α) (direction : Vec3 α) (neutral : Option α) :
    Sound (fun drafted => drafted.mesh.Valid) (m.draft angle direction neutral) := by
  unfold Mesh.draft
  extract_lets rest
  have hrest (pull : Vec3 α) : Sound (fun drafted => drafted.mesh.Valid) (rest pull) := by
    refine Sound.guard id fun _ => Sound.guard id fun _ => ?_
    split
    · exact Sound.pure h
    · exact sound_taper h _ _ _
  split
  · exact hrest _
  · exact Sound.throw id

theorem sound_apply (h : m.Valid) (transform : Transform α) : Sound Mesh.Valid (m.apply transform) := by
  cases transform with
  | translate offset =>
    refine Sound.bind (Sound.check id) fun _ _ => ?_
    exact Sound.pure (h.translate _)
  | rotate axis angle pivot =>
    have hcheck : Sound (fun _ => True) (Transform.checkRotation axis angle) := by
      unfold Transform.checkRotation
      split
      · exact Sound.throw id
      · exact Sound.check id
    refine hcheck.bind fun turned _ => ?_
    exact Sound.pure (h.map _ _)
  | scale factor pivot =>
    have hcheck : Sound (fun _ => True) (Transform.checkFactor factor) := by
      unfold Transform.checkFactor
      split
      · exact Sound.throw id
      · split
        · exact Sound.throw id
        · exact Sound.pure True.intro
    have hmatrix := hcheck.bind fun _ _ =>
      Sound.pure (b := Matrix4.about pivot (Matrix4.scaling factor)) (P := fun _ => True) True.intro
    exact hmatrix.bind fun matrix _ => Sound.pure (h.transform matrix)

/-! ## Booleans -/

theorem valid_addFan (h : m.Valid) (p : Polygon α) : (Solid.addFan m p).Valid := by
  unfold Solid.addFan
  extract_lets base corners
  have hcorners : corners.Over (base + p.corners.length) := by
    refine Mesh.over_foldl_one (fun c h => ?_) p.corners h.over
    exact h.addVertexWithNormal _ _
  -- A triangle of the fan adds no vertex.
  refine (List.foldlRecOn _ _ hcorners fun m hm i hi => ?_ : Mesh.Over (base + p.corners.length) _).1
  have hi := List.mem_range.mp hi
  refine ⟨hm.1.pushTriangle ?_, hm.2⟩
  rw [hm.2, Triangle.top_lt_iff]
  simp only [Triangle.toList, List.mem_cons, List.not_mem_nil, or_false, forall_eq_or_imp, forall_eq]
  omega

theorem valid_toMesh (s : Solid α) : s.toMesh.Valid := valid_foldl (fun p h => valid_addFan h p) _ Mesh.valid_empty

theorem not_missesVertex_fault? (h : m.Valid) {e : MeshError} (he : m.fault? = some e) :
    ¬(OperatorError.mesh (α := α) e).MissesVertex := by
  have hfind : m.indices.find? (m.vertexCount ≤ ·) = none := by
    rw [List.find?_eq_none]
    simpa using (Mesh.indices_lt_iff m).mpr h.inRange
  unfold Mesh.fault? at he
  rw [hfind] at he
  cases e with
  | indexOutOfRange index count =>
    dsimp only at he
    split at he
    · split at he
      · cases he
      · simp [Mesh.fault?.nonFinite] at he
    · simp [Mesh.fault?.nonFinite] at he
  | _ => exact id

theorem sound_combine (backend : BooleanBackend α) (hbackend : ∀ s t kind, Sound (fun _ => True) (backend s t kind))
    {m n : Mesh α} (hm : m.Valid) (hn : n.Valid) (kind : BooleanKind) :
    Sound Mesh.Valid (Mesh.combine backend m n kind) := by
  unfold Mesh.combine
  refine (Mesh.sound_readMesh hm).bind fun _ _ => (Mesh.sound_readMesh hn).bind fun _ _ => ?_
  refine (hbackend _ _ _).bind fun solid _ => ?_
  have hvalid := valid_toMesh solid
  dsimp only
  split
  · rename_i e he
    exact Sound.throw (not_missesVertex_fault? hvalid he)
  · exact Sound.pure hvalid

theorem sound_solid_combine (s t : Solid α) (kind : BooleanKind) : Sound (fun _ => True) (Solid.combine s t kind) := by
  unfold Solid.combine
  split
  · exact Sound.pure True.intro
  · exact Sound.throw id

end Generators

/-! ## All of them -/

/-- A call that makes a mesh. -/
inductive Making (α : Type) where
  | primitive (p : Primitive α)
  | torus (major minor : α) (center : Vec3 α) (segments tubeSegments : Nat)
  | prism (profile : List (ProfileCorner α)) (frame : ProfileFrame α) (halfLength : α) (layers : Nat)
  | filletEdge (size center : Vec3 α) (index : Int) (radius : α) (segments : Nat)
  | filletAll (size center : Vec3 α) (radius : α) (segments : Nat)
  | chamferEdge (size center : Vec3 α) (index : Int) (distance : α)
  | chamferAll (size center : Vec3 α) (distance : α)
  | shellBox (size center : Vec3 α) (thickness : α) (openFaces : List Face)
  | shellCylinder (radius height : α) (center : Vec3 α) (segments : Nat) (thickness : α) (openTop openBottom : Bool)
  | shellSphere (radius : α) (center : Vec3 α) (segments rings : Nat) (thickness : α) (openTop openBottom : Bool)
      (opening : α)
  | shellMesh (m : Mesh α) (thickness : α)
  | sweep (profile : List (Vec2 α)) (path : List (Vec3 α))
  | helix (h : Helix α)
  | revolve (profile : List (Vec2 α)) (axis : Vec3 α) (angle : α) (center : Vec3 α) (segments : Nat)
  | loft (sections : List (List (Vec2 α))) (heights : List α)
  | linearPattern (m : Mesh α) (direction : Vec3 α) (count : Nat) (spacing : α)
  | circularPattern (m : Mesh α) (axis center : Vec3 α) (count : Nat) (angle : α)
  | gridPattern (m : Mesh α) (direction₁ : Vec3 α) (count₁ : Nat) (spacing₁ : α) (direction₂ : Vec3 α) (count₂ : Nat)
      (spacing₂ : α)
  | spiralPattern (m : Mesh α) (axis center : Vec3 α) (count : Nat) (angle pitch growth : α)
  | mirror (m : Mesh α) (normal point : Vec3 α) (keep : Bool)
  | draft (m : Mesh α) (angle : α) (direction : Vec3 α) (neutral : Option α)
  | transform (m : Mesh α) (transform : Transform α)
  | boolean (backend : BooleanBackend α) (m n : Mesh α) (kind : BooleanKind)

namespace Making

def given : Making α → List (Mesh α)
  | shellMesh m _ | linearPattern m .. | circularPattern m .. | gridPattern m .. | spiralPattern m .. | mirror m ..
  | draft m .. | transform m _ => [m]
  | boolean _ m n _ => [m, n]
  | _ => []

/-- The meshes that are given are consistent. A backend for booleans works on solids, so that it has no vertices of a
mesh to miss. -/
structure Proper (k : Making α) : Prop where
  given : ∀ m ∈ k.given, m.Consistent
  backend : ∀ backend m n kind, k = boolean backend m n kind → ∀ s t kind, Sound (fun _ => True) (backend s t kind)

variable [Scalar α]

def run (cutter : PolygonCutter α) : Making α → Except (OperatorError α) (Mesh α)
  | primitive p => p.build
  | torus major minor center segments tubeSegments => Round.buildTorus major minor center segments tubeSegments
  | prism profile frame halfLength layers => Prism.sweep profile frame halfLength layers cutter
  | filletEdge size center index radius segments => (Fillet.ofEdge index segments cutter).apply size center radius
  | filletAll size center radius segments => (Fillet.ofAll segments).apply size center radius
  | chamferEdge size center index distance => (Chamfer.ofEdge index cutter).apply size center distance
  | chamferAll size center distance => Chamfer.ofAll.apply size center distance
  | shellBox size center thickness openFaces => Shell.box size center thickness openFaces
  | shellCylinder radius height center segments thickness openTop openBottom =>
    Shell.cylinder radius height center segments thickness openTop openBottom
  | shellSphere radius center segments rings thickness openTop openBottom opening =>
    Shell.sphere radius center segments rings thickness openTop openBottom opening
  | shellMesh m thickness => Shell.ofMesh m thickness
  | sweep profile path => Sweep.alongPath profile path cutter
  | helix h => h.mesh cutter
  | revolve profile axis angle center segments => Revolve.mesh profile axis angle center segments cutter
  | loft sections heights => Loft.mesh sections heights cutter
  | linearPattern m direction count spacing => m.linearPattern direction count spacing
  | circularPattern m axis center count angle => m.circularPattern axis center count angle
  | gridPattern m direction₁ count₁ spacing₁ direction₂ count₂ spacing₂ =>
    m.gridPattern direction₁ count₁ spacing₁ direction₂ count₂ spacing₂
  | spiralPattern m axis center count angle pitch growth => m.spiralPattern axis center count angle pitch growth
  | mirror m normal point keep => m.mirror normal point keep
  | draft m angle direction neutral => Drafted.mesh <$> m.draft angle direction neutral
  | transform m t => m.apply t
  | boolean backend m n kind => Mesh.combine backend m n kind

theorem sound_run {cutter : PolygonCutter α} (hcutter : cutter.Lawful) {k : Making α} (h : k.Proper) :
    Sound Mesh.Valid (k.run cutter) := by
  have hgiven : ∀ m ∈ k.given, m.Valid := fun m hm => (Mesh.consistent_iff_valid m).mp (h.given m hm)
  cases k with
  | primitive p => exact sound_build p
  | torus major minor center segments tubeSegments =>
    show Sound _ (Round.buildTorus major minor center segments tubeSegments)
    rw [Round.buildTorus_eq]
    exact (sound_requireMesh _ _).bind fun _ _ => Sound.pure (Round.valid_torusSurface _ _ _ _ _).orientOutward
  | prism => exact sound_sweep hcutter _ _ _ _
  | filletEdge size center index radius segments =>
    exact sound_treatment (t := Fillet.ofEdge index segments cutter) (fun _ _ _ => sound_sweep hcutter _ _ _ _) _ _ _
  | filletAll size center radius segments =>
    exact sound_treatment (t := Fillet.ofAll segments) (sound_rounded segments) _ _ _
  | chamferEdge size center index distance =>
    exact sound_treatment (t := Chamfer.ofEdge index cutter) (fun _ _ d =>
      sound_sweep hcutter (Chamfer.profile _ _ d) _ _ 1) _ _ _
  | chamferAll =>
    exact sound_treatment (t := Chamfer.ofAll) (fun _ _ _ => Sound.pure (valid_beveled _ _ _)) _ _ _
  | shellBox => exact sound_shell_box _ _ _ _
  | shellCylinder => exact sound_shell_cylinder _ _ _ _ _ _ _
  | shellSphere => exact sound_shell_sphere _ _ _ _ _ _ _ _
  | shellMesh m thickness => exact sound_shell_ofMesh (hgiven m (by simp [given])) thickness
  | sweep => exact sound_alongPath hcutter _ _
  | helix spiral => exact sound_helix hcutter spiral
  | revolve => exact sound_revolve hcutter _ _ _ _ _
  | loft => exact sound_loft hcutter _ _
  | linearPattern m => exact sound_linearPattern (hgiven m (by simp [given])) _ _ _
  | circularPattern m => exact sound_circularPattern (hgiven m (by simp [given])) _ _ _ _
  | gridPattern m =>
    refine (sound_linearPattern (hgiven m (by simp [given])) _ _ _).bind fun row hrow => ?_
    exact sound_linearPattern hrow _ _ _
  | spiralPattern m => exact sound_spiralPattern (hgiven m (by simp [given])) _ _ _ _ _ _
  | mirror m => exact sound_mirror (hgiven m (by simp [given])) _ _ _
  | draft m =>
    refine (sound_draft (hgiven m (by simp [given])) _ _ _).bind fun drafted hdrafted => ?_
    exact Sound.pure hdrafted
  | transform m t => exact sound_apply (hgiven m (by simp [given])) t
  | boolean backend m n kind =>
    exact sound_combine backend (h.backend _ _ _ _ rfl) (hgiven m (by simp [given])) (hgiven n (by simp [given])) kind

/-- Whatever numbers and counts a generator or an operator is given, it asks for no vertex that does not exist, and the
mesh that it makes of consistent meshes is consistent. Polygons may be cut in any way, as long as the triangles lie
between their corners. -/
theorem made_meshes_consistent {cutter : PolygonCutter α} (hcutter : cutter.Lawful) {k : Making α} (h : k.Proper) :
    (∀ m, k.run cutter = .ok m → m.Consistent) ∧ ∀ e, k.run cutter = .error e → ¬e.MissesVertex :=
  ⟨fun m hm => (Mesh.consistent_iff_valid m).mpr ((sound_run hcutter h).result m hm), (sound_run hcutter h).failure⟩

/-- A boolean of a triangle with a corner that is no number. -/
theorem union_with_nan_consistent :
    let m : Mesh Float := ⟨#[⟨0.0, 0.0, 0.0⟩, ⟨1.0, 0.0, 0.0⟩, ⟨0.0, 0.0 / 0.0, 0.0⟩], #[⟨0, 1, 2⟩], none⟩
    let k := boolean Solid.combine m m .union
    PolygonCutter.Lawful (EarClipping.earcut (α := Float)) ∧ k.Proper ∧
      (∀ m, k.run EarClipping.earcut = .ok m → m.Consistent) ∧
      ∀ e, k.run EarClipping.earcut = .error e → ¬e.MissesVertex := by
  intro m k
  have hm : m.Consistent := ⟨by decide, by decide, by simp [m]⟩
  have hproper : k.Proper := by
    refine ⟨by simpa [k, given] using hm, ?_⟩
    intro backend m' n' kind hk
    obtain ⟨hbackend, -⟩ := boolean.inj hk
    rw [← hbackend]
    exact sound_solid_combine
  exact ⟨lawful_earcut, hproper, made_meshes_consistent lawful_earcut hproper⟩

end Making

end SolidScript
