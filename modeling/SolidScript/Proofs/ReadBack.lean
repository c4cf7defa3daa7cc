import Mathlib
import SolidScript.Json.Geometry
import SolidScript.Proofs.MeshChecks
import SolidScript.Proofs.NameMap

/-!
# What is written reads back

A float that is not finite is written as `null`, which is no number. So geometry reads back as it was where its floats
are finite and its counts have 32 bits, and what is written for any other is refused.
-/

namespace SolidScript

open Json

/-- What is written for a sound value reads as that value, and what is written for any other is refused. -/
def ReadsBack {β : Type} (write : β → Json) (read : Json → Option β) (isSound : β → Bool) : Prop :=
  ∀ b, read (write b) = Option.guard isSound b

namespace ReadsBack

variable {β : Type} {write : β → Json} {read : Json → Option β} {isSound : β → Bool}

theorem sound (h : ReadsBack write read isSound) {b : β} (hb : isSound b = true) : read (write b) = some b := by
  rw [h b, Option.guard_eq_some_iff]
  exact ⟨rfl, hb⟩

end ReadsBack

/-! ## Numbers -/

theorem readsBack_number : ReadsBack number float? Float.isFinite := by
  intro x
  unfold number
  cases hx : x.isFinite <;> simp [float?, Option.guard, hx]

def hasBits (bits n : Nat) : Bool := n < twoTo bits

theorem fitsUnsigned_natCast (bits n : Nat) : fitsUnsigned bits n = hasBits bits n := by
  simp [fitsUnsigned, hasBits]

theorem readsBack_natural (bits : Nat) : ReadsBack natural (natural? bits) (hasBits bits) := by
  intro n
  rw [Option.guard_eq_ite, ← fitsUnsigned_natCast]
  rfl

theorem readsBack_nat32 : ReadsBack natural nat32? (hasBits 32) := readsBack_natural 32

theorem readsBack_nat64 : ReadsBack natural nat64? (hasBits 64) := readsBack_natural 64

theorem readsBack_int : ReadsBack int int64? (fitsSigned 64) := fun _ => rfl

/-! ## Lists -/

theorem mapM_guard {β : Type} (isSound : β → Bool) (l : List β) :
    l.mapM (Option.guard isSound) = Option.guard (List.all · isSound) l := by
  induction l with
  | nil => rfl
  | cons b rest ih =>
    rw [List.mapM_cons, ih]
    cases hb : isSound b <;> cases hrest : rest.all isSound <;> simp [Option.guard, hb, hrest]

theorem ReadsBack.list {β : Type} {write : β → Json} {read : Json → Option β} {isSound : β → Bool}
    (h : ReadsBack write read isSound) :
    ReadsBack (fun l => arr (l.map write)) (listOf? read) (List.all · isSound) := by
  intro l
  have hread : read ∘ write = Option.guard isSound := funext h
  unfold listOf?
  simp only [arr?, Option.bind_eq_bind, Option.bind_some, List.mapM_map, hread]
  exact mapM_guard isSound l

theorem all_toList_isFinite (v : Vec3 Float) : v.toList.all Float.isFinite = v.isFinite := by
  simp [Vec3.toList, Vec3.isFinite, Scalar.isFinite, Bool.and_assoc]

theorem readsBack_vec3 : ReadsBack Vec3.toJson vec3? Vec3.isFinite := by
  intro v
  unfold vec3? Vec3.toJson
  rw [readsBack_number.list v.toList, Option.guard_eq_ite, Option.guard_eq_ite, all_toList_isFinite]
  cases v.isFinite <;> rfl

theorem readsBack_vec2 : ReadsBack Vec2.toJson vec2? Vec2.isFinite := by
  intro v
  have hall : [v.x, v.y].all Float.isFinite = v.isFinite := by simp [Vec2.isFinite, Scalar.isFinite]
  have hlist := readsBack_number.list [v.x, v.y]
  unfold vec2? Vec2.toJson
  rw [show [number v.x, number v.y] = [v.x, v.y].map number from rfl, hlist, Option.guard_eq_ite,
    Option.guard_eq_ite, hall]
  cases v.isFinite <;> rfl

theorem guard_bind {β γ : Type} (isSound : β → Bool) (b : β) (f : β → Option γ) :
    (Option.guard isSound b).bind f = if isSound b then f b else none := by
  rw [Option.guard_eq_ite]
  split <;> rfl

/-! ## Fields -/

namespace Record

@[simp]
theorem get?_cons (name field : String) (j : Json) (fields : List (String × Json)) (named : Bool) :
    (Record.mk named ((field, j) :: fields)).get? name =
      if name = field then some j else (Record.mk named fields).get? name :=
  NameMap.lookup_cons_if name (field, j) fields

@[simp]
theorem get?_nil (name : String) (named : Bool) : (Record.mk named []).get? name = none := rfl

section Fields

variable {β : Type} {write : β → Json} {read : Json → Option β} {isSound : β → Bool} {r : Record} {name : String}

theorem need_of_get? {b : β} (h : ReadsBack write read isSound) (hget : r.get? name = some (write b)) :
    r.need name read = Option.guard isSound b := by
  unfold need
  rw [hget]
  exact h b

theorem getOr_of_get? {b absent : β} (h : ReadsBack write read isSound) (hget : r.get? name = some (write b)) :
    r.getOr name read absent = Option.guard isSound b := by
  unfold getOr
  rw [hget]
  exact h b

theorem getOr_of_sound {b absent : β} (h : ReadsBack write read isSound) (hget : r.get? name = some (write b))
    (hb : isSound b = true) : r.getOr name read absent = some b := by
  rw [getOr_of_get? h hget, Option.guard_eq_some_iff]
  exact ⟨rfl, hb⟩

theorem nullable_of_ne_null {j : Json} (h : j ≠ .null) : nullable read j = (read j).map some := by
  cases j <;> first | rfl | contradiction

theorem nullable_guard {b : β} (h : ReadsBack write read isSound) (hnull : write b ≠ .null) :
    nullable read (write b) = Option.guard (Option.all isSound) (some b) := by
  rw [nullable_of_ne_null hnull, h b]
  cases hb : isSound b <;> simp [Option.guard, hb]

theorem optional_of_get? {b : Option β} (h : ReadsBack write read isSound) (hnull : ∀ c ∈ b, write c ≠ .null)
    (hget : r.get? name = b.map write ∨ r.get? name = some (Json.ofOption (b.map write))) :
    r.optional name read = Option.guard (Option.all isSound) b := by
  unfold optional getOr
  cases b with
  | none => rcases hget with hget | hget <;> rw [hget] <;> rfl
  | some c => rcases hget with hget | hget <;> rw [hget] <;> exact nullable_guard h (hnull c rfl)

end Fields

end Record

/-! ## Meshes -/

theorem Triangle.ofIndices_flatMap (l : List Triangle) : Triangle.ofIndices (l.flatMap Triangle.toList) = l := by
  induction l with
  | nil => rfl
  | cons t rest ih =>
    rw [List.flatMap_cons]
    simp [Triangle.toList, Triangle.ofIndices, ih]

namespace Mesh

theorem toOption_ofBuffers {α : Type} [Scalar α] (m : Mesh α) :
    (ofBuffers m.vertices m.indices m.normals).toOption = Option.guard (fun m => m.fault?.isNone) m := by
  have htriangles : (Triangle.ofIndices m.indices).toArray = m.triangles := by
    unfold indices
    rw [Triangle.ofIndices_flatMap]
  unfold ofBuffers
  rw [if_neg (not_not.mpr (indices_byThrees m)), htriangles]
  cases hfault : m.fault? with
  | none => simp [Option.guard, hfault]; rfl
  | some e => simp [Option.guard, hfault]; rfl

/-- Finite floats, indices of 32 bits and buffers that fit together. -/
def isStorable (m : Mesh Float) : Bool :=
  m.indices.all (hasBits 32) && (m.normals.all fun ns => ns.toList.all Vec3.isFinite) && m.fault?.isNone

theorem all_isFinite_of_fault? {m : Mesh Float} (h : m.fault? = none) : m.vertices.toList.all Vec3.isFinite = true := by
  have hchecked := (fault?_eq_none_iff m).mp h
  rw [List.all_eq_true]
  exact fun v hv => hchecked.finite v (Array.mem_toList_iff.mp hv)

theorem record_toJson (m : Mesh Float) : ∃ r, Record.of? ["vertices", "indices", "normals"] m.toJson = some r ∧
    r.get? "vertices" = some (vectorsJson m.vertices) ∧ r.get? "indices" = some (arr (m.indices.map natural)) ∧
    r.get? "normals" = (m.normals.map Array.toList).map fun ns => vectorsJson ns.toArray := by
  refine ⟨_, rfl, by simp, by simp, ?_⟩
  cases m.normals <;> simp

theorem readsBack_vectors : ReadsBack (fun l => vectorsJson l.toArray) (listOf? vec3?) (List.all · Vec3.isFinite) :=
  readsBack_vec3.list

theorem readsBack : ReadsBack toJson ofJson? isStorable := by
  intro m
  obtain ⟨r, hr, hv, hi, hn⟩ := record_toJson m
  have hvertices := Record.need_of_get? (b := m.vertices.toList) readsBack_vectors hv
  have hindices := Record.need_of_get? readsBack_nat32.list hi
  have hnormals := Record.optional_of_get? readsBack_vectors (fun _ _ => by simp [vectorsJson]) (.inl hn)
  have hsame : (m.normals.map Array.toList).map List.toArray = m.normals := by
    cases m.normals <;> rfl
  unfold ofJson?
  rw [hr]
  simp only [Option.bind_eq_bind, Option.bind_some, hvertices, hindices, hnormals, guard_bind, hsame,
    Array.toArray_toList, toOption_ofBuffers]
  cases hfault : m.fault? with
  | some e => simp [isStorable, Option.guard, hfault]
  | none =>
    have hall := all_isFinite_of_fault? hfault
    rw [if_pos hall]
    cases hn : m.normals <;> simp [isStorable, Option.guard, hfault, hn, ite_and]

end Mesh

/-! ## Primitives -/

namespace Primitive

def hasWordCounts : Primitive Float → Bool
  | box .. => true
  | cylinder _ _ _ segments | cone _ _ _ _ segments => hasBits 32 segments
  | sphere _ _ segments rings => hasBits 32 segments && hasBits 32 rings

def isStorable (p : Primitive Float) : Bool := p.isFinite && p.hasWordCounts

theorem ofRecord?_of_fields (p : Primitive Float) {r : Record} (h : ∀ f ∈ p.fields, r.get? f.1 = some f.2) :
    ofRecord? p.kind r = Option.guard isStorable p := by
  simp only [Option.guard_eq_ite, isStorable, isFinite, hasWordCounts, Scalar.isFinite]
  cases p with
  | box size center =>
    obtain ⟨-, hsize, hcenter, -⟩ := by simpa only [fields, List.forall_mem_cons] using h
    simp only [kind, ofRecord?, Option.bind_eq_bind, guard_bind, Record.need_of_get? readsBack_vec3 hsize,
      Record.need_of_get? readsBack_vec3 hcenter]
    split_ifs <;> simp_all [Primitive.center]
  | cylinder radius height center segments =>
    obtain ⟨-, hradius, hheight, hcenter, hsegments, -⟩ := by simpa only [fields, List.forall_mem_cons] using h
    simp only [kind, ofRecord?, Option.bind_eq_bind, guard_bind, Record.need_of_get? readsBack_number hradius,
      Record.need_of_get? readsBack_number hheight, Record.need_of_get? readsBack_vec3 hcenter,
      Record.need_of_get? readsBack_nat32 hsegments]
    split_ifs <;> simp_all [Primitive.center]
  | sphere radius center segments rings =>
    obtain ⟨-, hradius, hcenter, hsegments, hrings, -⟩ := by simpa only [fields, List.forall_mem_cons] using h
    simp only [kind, ofRecord?, Option.bind_eq_bind, guard_bind, Record.need_of_get? readsBack_number hradius,
      Record.need_of_get? readsBack_vec3 hcenter, Record.need_of_get? readsBack_nat32 hsegments,
      Record.need_of_get? readsBack_nat32 hrings]
    split_ifs <;> simp_all [Primitive.center]
  | cone radius radiusTop height center segments =>
    obtain ⟨-, hradius, htop, hheight, hcenter, hsegments, -⟩ := by
      simpa only [fields, List.forall_mem_cons] using h
    simp only [kind, ofRecord?, Option.bind_eq_bind, guard_bind, Record.need_of_get? readsBack_number hradius,
      Record.getOr_of_get? readsBack_number htop, Record.need_of_get? readsBack_number hheight,
      Record.need_of_get? readsBack_vec3 hcenter, Record.need_of_get? readsBack_nat32 hsegments]
    split_ifs <;> simp_all [Primitive.center]

theorem get?_fields (p : Primitive Float) : ∀ f ∈ p.fields, (Record.mk true p.fields).get? f.1 = some f.2 := by
  cases p <;> simp [fields]

theorem readsBack : ReadsBack toJson ofJson? isStorable := by
  intro p
  have hkind : p.fields.lookup "type" = some (str p.kind) := by cases p <;> rfl
  unfold ofJson? toJson
  simp only [hkind, Option.bind_eq_bind, Option.bind_some, str?]
  exact ofRecord?_of_fields p (get?_fields p)

end Primitive

end SolidScript
