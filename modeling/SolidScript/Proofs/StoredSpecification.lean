import SolidScript.Model.SpecificationJson
import SolidScript.Proofs.ReadBack
import SolidScript.Proofs.Specification

/-!
# Specifications that are stored and loaded again

Each kind of entry writes the fields that it reads, and leaves out only what reads as missing. So a specification
reads back as it was where its floats are finite, whether empty lists are written or left out.
-/

namespace SolidScript

open Json

/-! ## Fields of entries -/

theorem readsBack_face : ReadsBack (fun f : Face => str f.name) (oneOf? Face.ofName?) fun _ => true := by
  intro f
  cases f <;> rfl

theorem readsBack_booleanKind :
    ReadsBack (fun k : BooleanKind => str k.name) (oneOf? BooleanKind.ofName?) fun _ => true := by
  intro k
  cases k <;> rfl

namespace EdgeSelection

def hasWordIndex : EdgeSelection → Bool
  | index i => fitsSigned 64 i
  | all => true

theorem readsBack : ReadsBack toJson ofJson? hasWordIndex := by
  intro e
  cases e with
  | index i =>
    unfold toJson ofJson? hasWordIndex
    simp only [readsBack_int i, Option.guard_eq_ite]
    split <;> rfl
  | all => rfl

end EdgeSelection

/-! ## Fields by what they hold -/

section Fields

@[simp]
theorem float?_number {x : Float} (h : x.isFinite = true) : float? (number x) = some x := readsBack_number.sound h

@[simp]
theorem vec3?_toJson {v : Vec3 Float} (h : v.isFinite = true) : vec3? v.toJson = some v := readsBack_vec3.sound h

@[simp]
theorem nat32?_natural {n : Nat} (h : hasBits 32 n = true) : nat32? (natural n) = some n := readsBack_nat32.sound h

@[simp]
theorem int64?_int {i : Int} (h : fitsSigned 64 i = true) : int64? (int i) = some i := readsBack_int.sound h

@[simp]
theorem ofJson?_edges {e : EdgeSelection} (h : e.hasWordIndex = true) : EdgeSelection.ofJson? e.toJson = some e :=
  EdgeSelection.readsBack.sound h

@[simp]
theorem oneOf?_face (f : Face) : oneOf? Face.ofName? (str f.name) = some f := readsBack_face.sound rfl

@[simp]
theorem oneOf?_booleanKind (k : BooleanKind) : oneOf? BooleanKind.ofName? (str k.name) = some k :=
  readsBack_booleanKind.sound rfl

@[simp]
theorem listOf?_faces (faces : List Face) :
    listOf? (oneOf? Face.ofName?) (arr (faces.map fun f => str f.name)) = some faces :=
  readsBack_face.list.sound (List.all_eq_true.mpr fun _ _ => rfl)

@[simp]
theorem listOf?_numbers {xs : List Float} (h : ∀ x ∈ xs, x.isFinite = true) :
    listOf? float? (arr (xs.map number)) = some xs :=
  readsBack_number.list.sound (List.all_eq_true.mpr h)

@[simp]
theorem readPoints2_points2 {points : List (Vec2 Float)} (h : ∀ p ∈ points, p.isFinite = true) :
    Operation.readPoints2 (Operation.points2 points) = some points :=
  readsBack_vec2.list.sound (List.all_eq_true.mpr h)

@[simp]
theorem listOf?_points3 {points : List (Vec3 Float)} (h : ∀ p ∈ points, p.isFinite = true) :
    listOf? vec3? (Operation.points3 points) = some points :=
  readsBack_vec3.list.sound (List.all_eq_true.mpr h)

theorem listOf?_sections {sections : List (List (Vec2 Float))} (h : ∀ s ∈ sections, ∀ p ∈ s, p.isFinite = true) :
    listOf? Operation.readPoints2 (arr (sections.map Operation.points2)) = some sections :=
  readsBack_vec2.list.list.sound (List.all_eq_true.mpr fun s hs => List.all_eq_true.mpr (h s hs))

theorem nullable_of_reads {β : Type} {read : Json → Option β} {j : Json} {b : β} (hnull : j ≠ .null)
    (h : read j = some b) : Record.nullable read j = some (some b) := by
  rw [Record.nullable_of_ne_null hnull, h]
  rfl

@[simp]
theorem nullable_number {x : Float} (h : x.isFinite = true) : Record.nullable float? (number x) = some (some x) :=
  nullable_of_reads (by simp [number, h]) (float?_number h)

@[simp]
theorem nullable_vec3 {v : Vec3 Float} (h : v.isFinite = true) : Record.nullable vec3? v.toJson = some (some v) :=
  nullable_of_reads (by simp [Vec3.toJson]) (vec3?_toJson h)

@[simp]
theorem nullable_natural {n : Nat} (h : hasBits 32 n = true) : Record.nullable nat32? (natural n) = some (some n) :=
  nullable_of_reads (by simp [natural]) (nat32?_natural h)

end Fields

/-! ## Operations -/

namespace Operation

def isFinite : Operation → Bool
  | primitive shape => shape.isFinite
  | extrude _ _ distance | chamfer _ _ distance => distance.isFinite
  | fillet _ _ radius _ => radius.isFinite
  | boolean .. => true
  | revolve profile axis angle center _ =>
    profile.all Vec2.isFinite && axis.isFinite && angle.isFinite && center.isFinite
  | linearPattern _ direction _ spacing => direction.isFinite && spacing.isFinite
  | circularPattern _ axis center _ angle => axis.isFinite && center.isFinite && angle.isFinite
  | shell _ thickness _ => thickness.isFinite
  | mirror _ normal point _ => normal.isFinite && point.isFinite
  | scale _ factor center => factor.isFinite && center.all Vec3.isFinite
  | rotate _ axis angle center => axis.isFinite && angle.isFinite && center.all Vec3.isFinite
  | translate _ offset => offset.isFinite
  | sweep profile path => profile.all Vec2.isFinite && path.all Vec3.isFinite
  | loft sections heights => sections.all (List.all · Vec2.isFinite) && heights.all Float.isFinite
  | draft _ angle direction neutral => angle.isFinite && direction.isFinite && neutral.all Float.isFinite
  | torus majorRadius minorRadius center _ _ => majorRadius.isFinite && minorRadius.isFinite && center.isFinite
  | helix radius pitch turns tubeRadius center _ =>
    radius.isFinite && pitch.isFinite && turns.isFinite && tubeRadius.isFinite && center.isFinite
  | gridPattern _ direction₁ _ spacing₁ direction₂ _ spacing₂ =>
    direction₁.isFinite && spacing₁.isFinite && direction₂.isFinite && spacing₂.isFinite
  | spiralPattern _ axis center _ angle pitch radiusGrowth =>
    axis.isFinite && center.isFinite && angle.isFinite && pitch.isFinite && radiusGrowth.isFinite

/-- Counts of 32 bits where they may not be negative, and of 64 bits with their sign elsewhere. -/
def hasWordCounts : Operation → Bool
  | primitive shape => shape.hasWordCounts
  | fillet _ edges _ segments => edges.hasWordIndex && segments.all (hasBits 32)
  | chamfer _ edges _ => edges.hasWordIndex
  | revolve _ _ _ _ segments | helix _ _ _ _ _ segments => segments.all (hasBits 32)
  | linearPattern _ _ count _ | circularPattern _ _ _ count _ | spiralPattern _ _ _ count .. => fitsSigned 64 count
  | gridPattern _ _ count₁ _ _ count₂ _ => fitsSigned 64 count₁ && fitsSigned 64 count₂
  | torus _ _ _ segments tubeSegments => segments.all (hasBits 32) && tubeSegments.all (hasBits 32)
  | extrude .. | boolean .. | shell .. | mirror .. | scale .. | rotate .. | translate .. | sweep .. | loft ..
  | draft .. => true

/-- The parameters behind the name and the line of an entry. -/
def entryRecord (id line : Json) (o : Operation) : Record := ⟨true, ("id", id) :: ("line", line) :: o.fields⟩

theorem ofRecord?_primitive (id line : Json) {shape : Primitive Float} (hfinite : shape.isFinite = true)
    (hwords : shape.hasWordCounts = true) :
    ofRecord? .primitives (entryRecord id line (primitive shape)) = some (primitive shape) := by
  have hkind : (entryRecord id line (primitive shape)).need "type" readShapeKind = some shape.kind := by
    cases shape <;> rfl
  have hfields : ∀ f ∈ shape.fields, (entryRecord id line (primitive shape)).get? f.1 = some f.2 := by
    cases shape <;> simp [entryRecord, fields, Primitive.fields]
  have hshape := shape.ofRecord?_of_fields hfields
  have hsound : shape.isStorable = true := by simp [Primitive.isStorable, hfinite, hwords]
  rw [Option.guard_eq_ite, if_pos hsound] at hshape
  simp [ofRecord?, hkind, hshape]

section Parameters

attribute [local simp] category entryRecord fields given ofRecord? Record.need Record.optional Record.getOr str? bool?
  isFinite hasWordCounts

theorem ofRecord?_entryRecord (id line : Json) {o : Operation} (hfinite : o.isFinite = true)
    (hwords : o.hasWordCounts = true) : ofRecord? o.category (entryRecord id line o) = some o := by
  cases o with
  | primitive shape => exact ofRecord?_primitive id line hfinite hwords
  | loft sections heights =>
    simp only [isFinite, Bool.and_eq_true, List.all_eq_true] at hfinite
    have hsections := listOf?_sections hfinite.1
    simp_all
  -- A parameter that may be missing is written or left out.
  | fillet _ _ _ segments | revolve _ _ _ _ segments | helix _ _ _ _ _ segments => cases segments <;> simp_all
  | torus _ _ _ segments tubeSegments => cases segments <;> cases tubeSegments <;> simp_all
  | scale _ _ center | rotate _ _ _ center => cases center <;> simp_all
  | draft _ _ _ neutral => cases neutral <;> simp_all
  | _ => simp_all

end Parameters

end Operation

/-! ## Entries and specifications -/

namespace Entry

theorem ofJson?_of_record {c : Category} {j : Json} {e : Entry} {r : Record} (hrecord : Record.ofObject? j = some r)
    (hr : r = Operation.entryRecord (str e.id) (natural e.line) e.operation) (hline : hasBits 64 e.line = true)
    (hoperation : Operation.ofRecord? c r = some e.operation) : ofJson? c j = some e := by
  have hid : r.need "id" str? = some e.id := by simp [hr, Operation.entryRecord, Record.need, str?]
  have hget : r.get? "line" = some (natural e.line) := by simp [hr, Operation.entryRecord]
  have hread : r.getOr "line" nat64? 0 = some e.line := Record.getOr_of_sound readsBack_nat64 hget hline
  unfold ofJson?
  simp [hrecord, hid, hread, hoperation]

theorem ofJson?_toJson {e : Entry} (hfinite : e.operation.isFinite = true) (hwords : e.operation.hasWordCounts = true)
    (hline : hasBits 64 e.line = true) : ofJson? e.category e.toJson = some e :=
  ofJson?_of_record rfl rfl hline (Operation.ofRecord?_entryRecord (str e.id) (natural e.line) hfinite hwords)

end Entry

theorem listOf?_of_reads {β : Type} {write : β → Json} {read : Json → Option β} {l : List β}
    (h : ∀ b ∈ l, read (write b) = some b) : listOf? read (arr (l.map write)) = some l := by
  change (l.map write).mapM read = some l
  induction l with
  | nil => rfl
  | cons b rest ih =>
    obtain ⟨hfirst, hrest⟩ := List.forall_mem_cons.mp h
    rw [List.map_cons, List.mapM_cons, hfirst, ih hrest]
    rfl

namespace Specification

def Finite (s : Specification) : Prop := ∀ e ∈ s.byCategory, e.operation.isFinite = true

/-- Whole numbers that their fields can hold: counts of 32 bits, signed numbers and lines of 64 bits. -/
def HasWords (s : Specification) : Prop :=
  ∀ e ∈ s.byCategory, e.operation.hasWordCounts = true ∧ hasBits 64 e.line = true

theorem listOf?_inCategory {s : Specification} (hfinite : s.Finite) (hwords : s.HasWords) (c : Category) :
    listOf? (Entry.ofJson? c) (arr ((s.inCategory c).map Entry.toJson)) = some (s.inCategory c) := by
  apply listOf?_of_reads
  intro e he
  have hc := s.category_eq c e he
  subst hc
  have hmem := (s.mem_byCategory e).mpr he
  exact Entry.ofJson?_toJson (hfinite e hmem) (hwords e hmem).1 (hwords e hmem).2

theorem filter_inCategory (s : Specification) (c d : Category) :
    (s.inCategory d).filter (fun e => e.category == c) = if d = c then s.inCategory d else [] := by
  split
  · rename_i hdc
    exact List.filter_eq_self.mpr fun e he => by rw [s.category_eq d e he, hdc, beq_self_eq_true]
  · rename_i hdc
    exact List.filter_eq_nil_iff.mpr fun e he hc => hdc ((s.category_eq d e he).symm.trans (beq_iff_eq.mp hc))

theorem filter_flatMap_inCategory (s : Specification) {cs : List Category} (hcs : cs.Nodup) (c : Category) :
    (cs.flatMap s.inCategory).filter (fun e => e.category == c) = if c ∈ cs then s.inCategory c else [] := by
  induction cs with
  | nil => rfl
  | cons d cs ih =>
    obtain ⟨hnew, hcs⟩ := List.nodup_cons.mp hcs
    rw [List.flatMap_cons, List.filter_append, ih hcs, filter_inCategory]
    by_cases hdc : d = c
    · subst hdc
      simp [hnew]
    · simp [hdc, Ne.symm hdc]

theorem ofEntries_flatMap (s : Specification) {cs : List Category} (hcs : cs.Nodup) (hall : ∀ c, c ∈ cs) :
    ofEntries (cs.flatMap s.inCategory) = s := by
  have hlists : (ofEntries (cs.flatMap s.inCategory)).inCategory = s.inCategory := by
    funext c
    exact (s.filter_flatMap_inCategory hcs c).trans (if_pos (hall c))
  exact eq_of_inCategory hlists

theorem nodup_listed : listed.Nodup := by decide

theorem mem_listed (c : Category) : c ∈ listed := by cases c <;> decide

theorem name_injective : Function.Injective Category.name :=
  fun c d => List.inj_on_of_nodup_map (by decide : (listed.map Category.name).Nodup) (mem_listed c) (mem_listed d)

/-! ## Lists by the names of categories -/

section Lists

variable (write : Category → Option Json) (cs : List Category)

/-- Fields for those categories for which there is something to write. -/
def listFields : List (String × Json) := cs.filterMap fun c => (write c).map fun j => (c.name, j)

theorem get?_listFields (c : Category) :
    (Record.mk true (listFields write cs)).get? c.name = if c ∈ cs then write c else none := by
  unfold listFields
  induction cs with
  | nil => rfl
  | cons d cs ih =>
    by_cases hcd : c = d
    · subst hcd
      cases hwrite : write c with
      | none => simp [hwrite, ih]
      | some j => simp [hwrite]
    · have hname : ¬ c.name = d.name := fun h => hcd (name_injective h)
      cases hwrite : write d with
      | none => simp [hwrite, ih, hcd]
      | some j => simp [hwrite, ih, hcd, hname]

end Lists

theorem toFullJson_eq (s : Specification) :
    s.toFullJson = obj (listFields (fun c => some (arr ((s.inCategory c).map Entry.toJson))) listed) := by
  unfold toFullJson listFields
  rw [← List.filterMap_eq_map]
  rfl

theorem toJson_eq (s : Specification) :
    s.toJson = obj (listFields
      (fun c => if s.inCategory c = [] then none else some (arr ((s.inCategory c).map Entry.toJson))) Category.all) := by
  unfold toJson listFields
  congr 2
  funext c
  cases hlist : s.inCategory c <;> simp [hlist]

theorem ofJson?_listFields {s : Specification} (hfinite : s.Finite) (hwords : s.HasWords) {cs : List Category}
    (hall : ∀ c, c ∈ cs) {write : Category → Option Json}
    (hwrite : ∀ c, write c = some (arr ((s.inCategory c).map Entry.toJson)) ∨ write c = none ∧ s.inCategory c = []) :
    ofJson? (obj (listFields write cs)) = some s := by
  let r : Record := ⟨true, listFields write cs⟩
  have hlist : ∀ c, r.getOr c.name (listOf? (Entry.ofJson? c)) [] = some (s.inCategory c) := by
    intro c
    have hget : r.get? c.name = write c := (get?_listFields write cs c).trans (if_pos (hall c))
    unfold Record.getOr
    rw [hget]
    rcases hwrite c with hsome | ⟨hnone, hempty⟩
    · rw [hsome]
      exact listOf?_inCategory hfinite hwords c
    · rw [hnone, hempty]
  have hlists :
      listed.mapM (fun c => r.getOr c.name (listOf? (Entry.ofJson? c)) []) = some (listed.map s.inCategory) := by
    simp only [hlist]
    exact List.mapM_pure
  have hrecord : Record.of? (listed.map Category.name) (obj (listFields write cs)) = some r := rfl
  unfold ofJson?
  simp only [hrecord, hlists, Option.bind_eq_bind, Option.bind_some]
  rw [← List.flatMap_def, s.ofEntries_flatMap nodup_listed mem_listed]
  rfl

/-- A specification reads back as it was where its floats are finite, whether empty lists are written or left out. -/
theorem stored_specification_reads_back {s : Specification} (hfinite : s.Finite) (hwords : s.HasWords) :
    ofJson? s.toFullJson = some s ∧ ofJson? s.toJson = some s := by
  constructor
  · rw [toFullJson_eq]
    exact ofJson?_listFields hfinite hwords mem_listed fun c => Or.inl rfl
  · rw [toJson_eq]
    refine ofJson?_listFields hfinite hwords mem_all fun c => ?_
    split
    · rename_i hempty
      exact Or.inr ⟨rfl, hempty⟩
    · exact Or.inl rfl

/-- Some optional parameters are there and some are missing. -/
def coneAndTreatments : Specification :=
  .ofEntries [
    ⟨"c", 1, .primitive (.cone 1.5 0.0 2.0 ⟨0.0, 1.0, 0.0⟩ 24)⟩,
    ⟨"c_draft", 2, .draft "c" 3.5 ⟨0.0, 1.0, 0.0⟩ (some (-0.25))⟩,
    ⟨"c_fillet", 2, .fillet "c" (.index (-1)) 0.1 none⟩,
    ⟨"t", 4, .torus 2.0 0.5 ⟨0.0, 0.0, 0.0⟩ none (some 12)⟩,
    ⟨"t_shell", 0, .shell "t" 0.1 [.top, .left]⟩]

theorem coneAndTreatments_reads_back :
    coneAndTreatments.Finite ∧ coneAndTreatments.HasWords ∧
      ofJson? coneAndTreatments.toFullJson = some coneAndTreatments ∧
      ofJson? coneAndTreatments.toJson = some coneAndTreatments := by
  have hfinite : coneAndTreatments.Finite := by
    unfold Finite
    decide +kernel
  have hwords : coneAndTreatments.HasWords := by
    unfold HasWords
    decide +kernel
  exact ⟨hfinite, hwords, stored_specification_reads_back hfinite hwords⟩

end Specification

end SolidScript
