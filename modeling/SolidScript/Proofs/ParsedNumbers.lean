import SolidScript.Proofs.Arguments
import SolidScript.Proofs.EdgeLiterals
import SolidScript.Proofs.EntryNames
import SolidScript.Proofs.RoundSolids
import SolidScript.Proofs.StoredSpecification
import SolidScript.Proofs.WholeNumbers

/-!
# Numbers of a script

A literal that is not finite is refused, so that no value holds one and no operation gets one. Whole numbers are what
their literals say, since only those are let through that a cast does not change.
-/

namespace SolidScript.Script

/-! ## Values without infinities -/

inductive Value.Finite : Value → Prop
  | number {x : Float} (finite : x.isFinite = true) : Finite (.number x)
  | boolean (b : Bool) : Finite (.boolean b)
  | text (s : String) : Finite (.text s)
  | list {items : List Value} (finite : ∀ v ∈ items, Finite v) : Finite (.list items)
  | reference (r : Reference) : Finite (.reference r)

theorem isFinite_numberOf {literal : String} {x : Float} (h : numberOf literal = .ok x) : x.isFinite = true := by
  unfold numberOf at h
  split at h
  · cases h
  · split at h
    · rename_i hfinite
      obtain rfl := pure_eq_ok_iff.mp h
      exact hfinite
    · cases h

mutual

theorem finite_valueOf : ∀ {t : Term} {v : Value}, valueOf t = .ok v → v.Finite
  | .number literal, v, h => by
    obtain ⟨x, hx, hv⟩ := bind_eq_ok_iff.mp h
    obtain rfl := pure_eq_ok_iff.mp hv
    exact .number (isFinite_numberOf hx)
  | .boolean b, v, h => by
    obtain rfl := pure_eq_ok_iff.mp h
    exact .boolean b
  | .text s, v, h => by
    obtain rfl := pure_eq_ok_iff.mp h
    exact .text s
  | .list items, v, h => by
    obtain ⟨values, hvalues, hv⟩ := bind_eq_ok_iff.mp h
    obtain rfl := pure_eq_ok_iff.mp hv
    exact .list (finite_valuesOf hvalues)
  | .reference name selector, v, h => by
    obtain ⟨part, -, hv⟩ := bind_eq_ok_iff.mp h
    obtain rfl := pure_eq_ok_iff.mp hv
    exact .reference _

theorem finite_valuesOf : ∀ {ts : List Term} {vs : List Value}, valuesOf ts = .ok vs → ∀ v ∈ vs, v.Finite
  | [], vs, h => by
    obtain rfl := pure_eq_ok_iff.mp h
    simp
  | t :: ts, vs, h => by
    simp only [valuesOf, bind_eq_ok_iff, pure_eq_ok_iff] at h
    obtain ⟨v, hv, rest, hrest, rfl⟩ := h
    exact List.forall_mem_cons.mpr ⟨finite_valueOf hv, finite_valuesOf hrest⟩

end

/-! ## Types of arguments -/

/-- What is read from a value without infinities has none either. -/
def Keeps {β : Type} (read : Value → Option β) (isFinite : β → Bool) : Prop :=
  ∀ ⦃v b⦄, v.Finite → read v = some b → isFinite b = true

theorem keeps_number : Keeps Value.number? Float.isFinite := by
  intro v x hv hread
  cases hv with
  | number hfinite => cases hread; exact hfinite
  | _ => cases hread

theorem Keeps.list {β : Type} {read : Value → Option β} {isFinite : β → Bool} (h : Keeps read isFinite) :
    Keeps (Value.list? read) fun l => l.all isFinite := by
  intro v l hv hread
  cases hv with
  | list hitems =>
    refine List.all_eq_true.mpr fun b hb => ?_
    obtain ⟨item, hitem, hread⟩ := mem_of_mapM_eq_some hread hb
    exact h (hitems item hitem) hread
  | _ => cases hread

theorem keeps_vec2 : Keeps Value.vec2? Vec2.isFinite := by
  intro v b hv hread
  unfold Value.vec2? at hread
  split at hread
  · rename_i x y hxy
    cases hread
    have hall := keeps_number.list hv hxy
    simp only [List.all_cons, List.all_nil, Bool.and_true] at hall
    exact hall
  · cases hread

theorem keeps_vec3 : Keeps Value.vec3? Vec3.isFinite := by
  intro v b hv hread
  unfold Value.vec3? at hread
  split at hread
  · rename_i x y z hxyz
    cases hread
    have hall := keeps_number.list hv hxyz
    simp only [List.all_cons, List.all_nil, Bool.and_true, ← Bool.and_assoc] at hall
    exact hall
  · cases hread

theorem keeps_spread : Keeps Value.spread? Vec3.isFinite := by
  intro v b hv hread
  unfold Value.spread? at hread
  split at hread
  · rename_i x
    cases hread
    cases hv with
    | number hfinite =>
      show (x.isFinite && x.isFinite && x.isFinite) = true
      simp only [hfinite, Bool.and_true]
  · exact keeps_vec3 hv hread

/-! ## Arguments without infinities -/

section Arguments

variable {β : Type} {a : Arguments} {s : Statement} {type : ArgumentType β} {names : List String} {place : Nat}
  {isFinite : β → Bool}

theorem Statement.Written.finite {found : Option β} (h : s.Written type names place found)
    (hkeeps : Keeps type.read isFinite) : found.all isFinite = true := by
  cases h with
  | absent => rfl
  | present _ value read => exact hkeeps (finite_valueOf value) read

namespace Arguments.Reads

theorem finite_optional (h : a.Reads s) (hkeeps : Keeps type.read isFinite) {found : Option β}
    (hfound : a.optional type names place = .ok found) : found.all isFinite = true :=
  (h.optional hfound).finite hkeeps

theorem finite_getOr (h : a.Reads s) (hkeeps : Keeps type.read isFinite) {absent b : β} (habsent : isFinite absent = true)
    (hb : a.getOr type names place absent = .ok b) : isFinite b = true := by
  obtain ⟨found, hfound, rfl⟩ := h.getOr hb
  have hfinite := hfound.finite hkeeps
  cases found with
  | none => exact habsent
  | some b => exact hfinite

theorem finite_need (h : a.Reads s) (hkeeps : Keeps type.read isFinite) {b : β}
    (hb : a.need type names place = .ok b) : isFinite b = true :=
  (h.need hb).finite hkeeps

theorem finite_center (h : a.Reads s) {center : Vec3 Float} (hcenter : Call.center a place = .ok center) :
    center.isFinite = true :=
  h.finite_getOr keeps_vec3 rfl hcenter

end Arguments.Reads

end Arguments

/-! ## Whole numbers -/

open Binary64

/-- A whole number that an operation has as a parameter: where its literal stands, the ends of the range it is cast to,
what it is, and what it is without a literal. -/
structure WholeNumber where
  names : List String
  place : Nat
  low : Int
  high : Int
  value : Option Int
  absent : Option Int
deriving DecidableEq, Repr

namespace WholeNumber

def copies (name : String) (place : Nat) (n : Int) : WholeNumber :=
  ⟨[name], place, leastInt, greatestInt, some n, none⟩

def steps (name : String) (place : Nat) (n absent : Option Nat) : WholeNumber :=
  ⟨[name], place, 0, twoTo 32 - 1, n.map Int.ofNat, absent.map Int.ofNat⟩

/-- The number is what a cast makes of the float that its literal is read as, and is that float exactly. -/
def AsWritten (s : Statement) (w : WholeNumber) : Prop :=
  match s.term? w.names w.place with
  | none => w.value = w.absent
  | some t => ∃ literal x n, t = .number literal ∧ numberOf literal = .ok x ∧ w.value = some n ∧
      n = cast w.low w.high x ∧ units x = n * one

end WholeNumber

section Counts

variable {a : Arguments} {s : Statement} {name : String} {place : Nat}

theorem number_of_says {t : Term} {x : Float} (h : Says t (.number x)) :
    ∃ literal, t = .number literal ∧ numberOf literal = .ok x := by
  cases t with
  | number literal =>
    obtain ⟨y, hy, hx⟩ := bind_eq_ok_iff.mp h
    cases pure_eq_ok_iff.mp hx
    exact ⟨literal, rfl, hy⟩
  | boolean | text => cases h
  | list items =>
    obtain ⟨_, -, h⟩ := bind_eq_ok_iff.mp h
    cases h
  | reference name selector =>
    obtain ⟨_, -, h⟩ := bind_eq_ok_iff.mp h
    cases h

theorem Statement.Written.copies {n : Int} (h : s.Written .integer [name] place (some n)) :
    (WholeNumber.copies name place n).AsWritten s := by
  unfold WholeNumber.AsWritten WholeNumber.copies
  cases h with
  | present term value read =>
    obtain ⟨x, rfl, -, -, hcast, hunits⟩ := Value.integer?_iff_cast.mp read
    obtain ⟨literal, rfl, hliteral⟩ := number_of_says value
    rw [term]
    exact ⟨literal, x, n, rfl, hliteral, rfl, hcast, hunits⟩

theorem Statement.Written.steps {found : Option Nat} (h : s.Written .count [name] place found) (absent : Option Nat) :
    (WholeNumber.steps name place (found.or absent) absent).AsWritten s := by
  unfold WholeNumber.AsWritten WholeNumber.steps
  cases h with
  | absent term => rw [term]; rfl
  | @present t v n term value read =>
    obtain ⟨x, rfl, -, -, -, hcast, hunits⟩ := Value.count?_iff_cast.mp read
    obtain ⟨literal, rfl, hliteral⟩ := number_of_says value
    rw [term]
    exact ⟨literal, x, n, rfl, hliteral, rfl, hcast, hunits⟩

namespace Arguments.Reads

theorem copies_need (h : a.Reads s) {n : Int} (hn : a.need .integer [name] place = .ok n) :
    (WholeNumber.copies name place n).AsWritten s :=
  (h.need hn).copies

theorem steps_optional (h : a.Reads s) {found : Option Nat} (hfound : a.optional .count [name] place = .ok found) :
    (WholeNumber.steps name place found none).AsWritten s := by
  have hsteps := (h.optional hfound).steps none
  rwa [Option.or_none] at hsteps

theorem steps_getOr (h : a.Reads s) {n absent : Nat} (hn : a.getOr .count [name] place absent = .ok n) :
    (WholeNumber.steps name place (some n) (some absent)).AsWritten s := by
  obtain ⟨found, hfound, rfl⟩ := h.getOr hn
  have hsteps := hfound.steps (some absent)
  rwa [Option.or_some] at hsteps

end Arguments.Reads

end Counts

/-- The whole numbers of an operation, but for an edge index. -/
def wholeNumbers (config : Config) : Operation → List WholeNumber
  | .primitive (.cylinder _ _ _ segments) | .primitive (.cone _ _ _ _ segments) =>
    [.steps "segments" 3 (some segments) (some config.segments)]
  | .primitive (.sphere _ _ segments rings) =>
    [.steps "segments" 2 (some segments) (some config.segments),
      .steps "rings" 3 (some rings) (some config.sphereRings)]
  | .fillet _ _ _ segments => [.steps "segments" 2 segments none]
  | .revolve _ _ _ _ segments => [.steps "segments" 4 segments none]
  | .linearPattern _ _ count _ => [.copies "count" 2 count]
  | .circularPattern _ _ _ count _ => [.copies "count" 3 count]
  | .spiralPattern _ _ _ count _ _ _ => [.copies "count" 3 count]
  | .gridPattern _ _ count₁ _ _ count₂ _ => [.copies "count1" 2 count₁, .copies "count2" 5 count₂]
  | .torus _ _ _ segments tubeSegments =>
    [.steps "segments" 3 segments none, .steps "tube_segments" 4 tubeSegments none]
  | .helix _ _ _ _ _ segments => [.steps "segments" 5 segments none]
  | _ => []

def edgeIndex? : Operation → Option Int
  | .fillet _ (.index i) _ _ | .chamfer _ (.index i) _ => some i
  | _ => none

/-- The index is the integer that its literal spells. -/
def EdgeAsWritten (s : Statement) (i : Int) : Prop :=
  ∃ source, ∃ spelling : Spelling, s.term? ["edge", "target"] 0 = some (.reference source (.edge spelling.literal)) ∧
    i = spelling.value

/-- No number of an operation is infinite, and its whole numbers are what a statement says. -/
structure Exact (config : Config) (s : Statement) (o : Operation) : Prop where
  finite : o.isFinite = true
  whole : ∀ w ∈ wholeNumbers config o, w.AsWritten s
  edge : ∀ i, edgeIndex? o = some i → EdgeAsWritten s i

@[simp]
theorem scalar_isFinite (x : Float) : Scalar.isFinite x = x.isFinite := rfl

namespace Call

variable {config : Config} {a : Arguments} {s : Statement} {o : Operation}

theorem exact_of_finite (hfinite : o.isFinite = true) (hwhole : wholeNumbers config o = []) (hedge : edgeIndex? o = none) :
    Exact config s o where
  finite := hfinite
  whole := by simp [hwhole]
  edge := by simp [hedge]

/-! ### Primitives -/

theorem exact_box (h : a.Reads s) (ho : box a = .ok o) : Exact config s o := by
  simp only [box, bind_eq_ok_iff, pure_eq_ok_iff] at ho
  obtain ⟨size, hsize, center, hcenter, rfl⟩ := ho
  have hsize := h.finite_getOr keeps_spread rfl hsize
  have hcenter := h.finite_center hcenter
  exact exact_of_finite (by simp [Operation.isFinite, Primitive.isFinite, Primitive.center, hsize, hcenter]) rfl rfl

theorem exact_cylinder (h : a.Reads s) (ho : cylinder config a = .ok o) : Exact config s o := by
  simp only [cylinder, bind_eq_ok_iff, pure_eq_ok_iff] at ho
  obtain ⟨radius, hradius, height, hheight, center, hcenter, segments, hsegments, rfl⟩ := ho
  have hradius := h.finite_getOr keeps_number rfl hradius
  have hheight := h.finite_getOr keeps_number rfl hheight
  have hcenter := h.finite_center hcenter
  refine ⟨?_, ?_, nofun⟩
  · simp [Operation.isFinite, Primitive.isFinite, Primitive.center, hradius, hheight, hcenter]
  · simpa [wholeNumbers] using h.steps_getOr hsegments

theorem exact_sphere (h : a.Reads s) (ho : sphere config a = .ok o) : Exact config s o := by
  simp only [sphere, bind_eq_ok_iff, pure_eq_ok_iff] at ho
  obtain ⟨radius, hradius, center, hcenter, segments, hsegments, rings, hrings, rfl⟩ := ho
  have hradius := h.finite_getOr keeps_number rfl hradius
  have hcenter := h.finite_center hcenter
  refine ⟨?_, ?_, nofun⟩
  · simp [Operation.isFinite, Primitive.isFinite, Primitive.center, hradius, hcenter]
  · simpa [wholeNumbers] using ⟨h.steps_getOr hsegments, h.steps_getOr hrings⟩

theorem exact_cone (h : a.Reads s) (ho : cone config a = .ok o) : Exact config s o := by
  simp only [cone, bind_eq_ok_iff, pure_eq_ok_iff] at ho
  obtain ⟨radius, hradius, height, hheight, center, hcenter, segments, hsegments, top, htop, rfl⟩ := ho
  have hradius := h.finite_getOr keeps_number rfl hradius
  have hheight := h.finite_getOr keeps_number rfl hheight
  have hcenter := h.finite_center hcenter
  have htop := h.finite_getOr keeps_number rfl htop
  refine ⟨?_, ?_, nofun⟩
  · simp [Operation.isFinite, Primitive.isFinite, Primitive.center, hradius, hheight, hcenter, htop]
  · simpa [wholeNumbers] using h.steps_getOr hsegments

/-! ### Treatments of faces and edges -/

theorem exact_extrude (h : a.Reads s) (ho : extrude a = .ok o) : Exact config s o := by
  -- The face says nothing of numbers, so that both checks of it are passed at once.
  have hextruded : ∃ source face distance, a.need .number ["distance"] 1 = .ok distance ∧
      o = .extrude source face distance := by
    simp only [extrude, bind_eq_ok_iff] at ho
    obtain ⟨target, -, ho⟩ := ho
    split at ho
    · split at ho
      · simp only [pure_bind, bind_eq_ok_iff, pure_eq_ok_iff] at ho
        obtain ⟨distance, hdistance, rfl⟩ := ho
        exact ⟨_, _, distance, hdistance, rfl⟩
      · cases ho
    · cases ho
  obtain ⟨source, face, distance, hdistance, rfl⟩ := hextruded
  have hdistance := h.finite_need keeps_number hdistance
  exact exact_of_finite hdistance rfl rfl

theorem edge_of_says {t : Term} {r : Reference} {i : Int} (hmeans : Says t (.reference r)) (hpart : r.part = .edge i) :
    ∃ literal, t = .reference r.name (.edge literal) ∧ edgeIndexOf literal = .ok i := by
  cases t with
  | number literal | list items =>
    obtain ⟨_, -, h⟩ := bind_eq_ok_iff.mp hmeans
    cases h
  | boolean | text => cases hmeans
  | reference name selector =>
    obtain ⟨part, hpartOf, h⟩ := bind_eq_ok_iff.mp hmeans
    cases pure_eq_ok_iff.mp h
    obtain rfl : part = .edge i := hpart
    cases selector with
    | edge literal =>
      obtain ⟨j, hj, hi⟩ := bind_eq_ok_iff.mp hpartOf
      cases pure_eq_ok_iff.mp hi
      exact ⟨literal, rfl, hj⟩
    | _ => cases hpartOf

theorem edgeAsWritten (h : a.Reads s) (hspelled : s.Spelled) {source : String} {i : Int}
    (hedges : edges a = .ok (source, .index i)) : EdgeAsWritten s i := by
  simp only [edges, bind_eq_ok_iff] at hedges
  obtain ⟨r, hr, hedges⟩ := hedges
  split at hedges
  · rename_i j hpart
    cases pure_eq_ok_iff.mp hedges
    cases h.need hr with
    | @present t v _ term value read =>
      cases v with
      | reference r' =>
        cases read
        obtain ⟨literal, rfl, hindex⟩ := edge_of_says value hpart
        obtain ⟨argument, hmem, hargument⟩ := Statement.mem_of_term? term
        obtain ⟨spelling, rfl⟩ := hspelled argument hmem _ _ hargument _ rfl
        exact ⟨r.name, spelling, term, spelling.edgeIndexOf_literal hindex⟩
      | text name => cases read; cases hpart
      | number | boolean | list => cases read
  · cases hedges
  · cases hedges

theorem exact_fillet (h : a.Reads s) (hspelled : s.Spelled) (ho : fillet a = .ok o) : Exact config s o := by
  simp only [fillet, bind_eq_ok_iff, pure_eq_ok_iff] at ho
  obtain ⟨⟨source, selection⟩, hedges, radius, hradius, segments, hsegments, rfl⟩ := ho
  have hradius := h.finite_need keeps_number hradius
  refine ⟨hradius, ?_, fun i hi => ?_⟩
  · simpa [wholeNumbers] using h.steps_optional hsegments
  · cases selection with
    | index j =>
      obtain rfl : j = i := Option.some.inj hi
      exact edgeAsWritten h hspelled hedges
    | all => cases hi

theorem exact_chamfer (h : a.Reads s) (hspelled : s.Spelled) (ho : chamfer a = .ok o) : Exact config s o := by
  simp only [chamfer, bind_eq_ok_iff, pure_eq_ok_iff] at ho
  obtain ⟨⟨source, selection⟩, hedges, distance, hdistance, rfl⟩ := ho
  have hdistance := h.finite_need keeps_number hdistance
  refine ⟨hdistance, by simp [wholeNumbers], fun i hi => ?_⟩
  cases selection with
  | index j =>
    obtain rfl : j = i := Option.some.inj hi
    exact edgeAsWritten h hspelled hedges
  | all => cases hi

/-! ### Copies -/

theorem exact_linearPattern (h : a.Reads s) (ho : linearPattern a = .ok o) : Exact config s o := by
  simp only [linearPattern, bind_eq_ok_iff, pure_eq_ok_iff] at ho
  obtain ⟨source, -, direction, hdirection, count, hcount, spacing, hspacing, rfl⟩ := ho
  have hdirection := h.finite_need keeps_vec3 hdirection
  have hspacing := h.finite_need keeps_number hspacing
  refine ⟨?_, ?_, nofun⟩
  · simp [Operation.isFinite, hdirection, hspacing]
  · simpa [wholeNumbers] using h.copies_need hcount

theorem exact_circularPattern (h : a.Reads s) (ho : circularPattern a = .ok o) : Exact config s o := by
  simp only [circularPattern, bind_eq_ok_iff, pure_eq_ok_iff] at ho
  obtain ⟨source, -, axis, haxis, center, hcenter, count, hcount, angle, hangle, rfl⟩ := ho
  have haxis := h.finite_need keeps_vec3 haxis
  have hcenter := h.finite_center hcenter
  have hangle := h.finite_getOr keeps_number rfl hangle
  refine ⟨?_, ?_, nofun⟩
  · simp [Operation.isFinite, haxis, hcenter, hangle]
  · simpa [wholeNumbers] using h.copies_need hcount

theorem exact_gridPattern (h : a.Reads s) (ho : gridPattern a = .ok o) : Exact config s o := by
  simp only [gridPattern, bind_eq_ok_iff, pure_eq_ok_iff] at ho
  obtain ⟨source, -, direction₁, hdirection₁, count₁, hcount₁, spacing₁, hspacing₁, direction₂, hdirection₂, count₂,
    hcount₂, spacing₂, hspacing₂, rfl⟩ := ho
  have hdirection₁ := h.finite_need keeps_vec3 hdirection₁
  have hspacing₁ := h.finite_need keeps_number hspacing₁
  have hdirection₂ := h.finite_need keeps_vec3 hdirection₂
  have hspacing₂ := h.finite_need keeps_number hspacing₂
  refine ⟨?_, ?_, nofun⟩
  · simp [Operation.isFinite, hdirection₁, hspacing₁, hdirection₂, hspacing₂]
  · simpa [wholeNumbers] using ⟨h.copies_need hcount₁, h.copies_need hcount₂⟩

theorem exact_spiralPattern (h : a.Reads s) (ho : spiralPattern a = .ok o) : Exact config s o := by
  simp only [spiralPattern, bind_eq_ok_iff, pure_eq_ok_iff] at ho
  obtain ⟨source, -, axis, haxis, center, hcenter, count, hcount, angle, hangle, pitch, hpitch, growth, hgrowth, rfl⟩ := ho
  have haxis := h.finite_getOr keeps_vec3 rfl haxis
  have hcenter := h.finite_center hcenter
  have hangle := h.finite_need keeps_number hangle
  have hpitch := h.finite_getOr keeps_number rfl hpitch
  have hgrowth := h.finite_getOr keeps_number rfl hgrowth
  refine ⟨?_, ?_, nofun⟩
  · simp [Operation.isFinite, haxis, hcenter, hangle, hpitch, hgrowth]
  · simpa [wholeNumbers] using h.copies_need hcount

/-! ### Round solids -/

theorem exact_revolve (h : a.Reads s) (ho : revolve a = .ok o) : Exact config s o := by
  simp only [revolve, bind_eq_ok_iff, pure_eq_ok_iff] at ho
  obtain ⟨profile, hprofile, axis, haxis, angle, hangle, center, hcenter, segments, hsegments, rfl⟩ := ho
  have hprofile := h.finite_need keeps_vec2.list hprofile
  have haxis := h.finite_getOr keeps_vec3 rfl haxis
  have hangle := h.finite_getOr keeps_number rfl hangle
  have hcenter := h.finite_center hcenter
  refine ⟨?_, ?_, nofun⟩
  · simp only [Operation.isFinite, hprofile, haxis, hangle, hcenter, Bool.and_self]
  · simpa [wholeNumbers] using h.steps_optional hsegments

theorem exact_torus (h : a.Reads s) (ho : torus a = .ok o) : Exact config s o := by
  simp only [torus, bind_eq_ok_iff, pure_eq_ok_iff] at ho
  obtain ⟨major, hmajor, minor, hminor, center, hcenter, segments, hsegments, tubeSegments, htubeSegments, rfl⟩ := ho
  have hmajor := h.finite_need keeps_number hmajor
  have hminor := h.finite_need keeps_number hminor
  have hcenter := h.finite_center hcenter
  refine ⟨?_, ?_, nofun⟩
  · simp [Operation.isFinite, hmajor, hminor, hcenter]
  · simpa [wholeNumbers] using ⟨h.steps_optional hsegments, h.steps_optional htubeSegments⟩

theorem exact_helix (h : a.Reads s) (ho : helix a = .ok o) : Exact config s o := by
  simp only [helix, bind_eq_ok_iff, pure_eq_ok_iff] at ho
  obtain ⟨radius, hradius, pitch, hpitch, turns, hturns, tubeRadius, htubeRadius, center, hcenter, segments, hsegments,
    rfl⟩ := ho
  have hradius := h.finite_need keeps_number hradius
  have hpitch := h.finite_need keeps_number hpitch
  have hturns := h.finite_need keeps_number hturns
  have htubeRadius := h.finite_getOr keeps_number rfl htubeRadius
  have hcenter := h.finite_center hcenter
  refine ⟨?_, ?_, nofun⟩
  · simp [Operation.isFinite, hradius, hpitch, hturns, htubeRadius, hcenter]
  · simpa [wholeNumbers] using h.steps_optional hsegments

/-! ### Other solids -/

theorem exact_boolean (kind : BooleanKind) (ho : boolean kind a = .ok o) : Exact config s o := by
  simp only [boolean, bind_eq_ok_iff, pure_eq_ok_iff] at ho
  obtain ⟨first, -, second, -, rfl⟩ := ho
  exact exact_of_finite rfl rfl rfl

theorem exact_sweep (h : a.Reads s) (ho : sweep a = .ok o) : Exact config s o := by
  simp only [sweep, bind_eq_ok_iff, pure_eq_ok_iff] at ho
  obtain ⟨profile, hprofile, path, hpath, rfl⟩ := ho
  have hprofile := h.finite_need keeps_vec2.list hprofile
  have hpath := h.finite_need keeps_vec3.list hpath
  exact exact_of_finite (by simp only [Operation.isFinite, hprofile, hpath, Bool.and_self]) rfl rfl

theorem exact_loft (h : a.Reads s) (ho : loft a = .ok o) : Exact config s o := by
  simp only [loft, bind_eq_ok_iff, pure_eq_ok_iff] at ho
  obtain ⟨profiles, hprofiles, heights, hheights, rfl⟩ := ho
  have hprofiles := h.finite_need keeps_vec2.list.list hprofiles
  have hheights := h.finite_need keeps_number.list hheights
  exact exact_of_finite (by simp only [Operation.isFinite, hprofiles, hheights, Bool.and_self]) rfl rfl

/-! ### Solids that are moved or reshaped -/

theorem exact_shell (h : a.Reads s) (ho : shell a = .ok o) : Exact config s o := by
  simp only [shell, bind_eq_ok_iff, pure_eq_ok_iff] at ho
  obtain ⟨source, -, thickness, hthickness, faces, -, rfl⟩ := ho
  have hthickness := h.finite_need keeps_number hthickness
  exact exact_of_finite hthickness rfl rfl

theorem exact_mirror (h : a.Reads s) (ho : mirror a = .ok o) : Exact config s o := by
  simp only [mirror, bind_eq_ok_iff, pure_eq_ok_iff] at ho
  obtain ⟨source, -, normal, hnormal, point, hpoint, keepOriginal, -, rfl⟩ := ho
  have hnormal := h.finite_need keeps_vec3 hnormal
  have hpoint := h.finite_getOr keeps_vec3 rfl hpoint
  exact exact_of_finite (by simp [Operation.isFinite, hnormal, hpoint]) rfl rfl

theorem exact_translate (h : a.Reads s) (ho : translate a = .ok o) : Exact config s o := by
  simp only [translate, bind_eq_ok_iff, pure_eq_ok_iff] at ho
  obtain ⟨source, -, offset, hoffset, rfl⟩ := ho
  have hoffset := h.finite_need keeps_vec3 hoffset
  exact exact_of_finite hoffset rfl rfl

theorem exact_rotate (h : a.Reads s) (ho : rotate a = .ok o) : Exact config s o := by
  simp only [rotate, bind_eq_ok_iff, pure_eq_ok_iff] at ho
  obtain ⟨source, -, axis, haxis, angle, hangle, center, hcenter, rfl⟩ := ho
  have haxis := h.finite_need keeps_vec3 haxis
  have hangle := h.finite_need keeps_number hangle
  have hcenter := h.finite_optional keeps_vec3 hcenter
  exact exact_of_finite (by simp only [Operation.isFinite, haxis, hangle, hcenter, Bool.and_self]) rfl rfl

theorem exact_scale (h : a.Reads s) (ho : scale a = .ok o) : Exact config s o := by
  simp only [scale, bind_eq_ok_iff, pure_eq_ok_iff] at ho
  obtain ⟨found, hfound, source, -, factor, hfactor, center, hcenter, rfl⟩ := ho
  obtain rfl := Arguments.eq_some_of_require hfactor
  have hfactor := h.finite_optional keeps_spread hfound
  have hcenter := h.finite_optional keeps_vec3 hcenter
  rw [Option.all_some] at hfactor
  exact exact_of_finite (by simp only [Operation.isFinite, hfactor, hcenter, Bool.and_self]) rfl rfl

theorem exact_draft (h : a.Reads s) (ho : draft a = .ok o) : Exact config s o := by
  simp only [draft, bind_eq_ok_iff, pure_eq_ok_iff] at ho
  obtain ⟨source, -, angle, hangle, direction, hdirection, neutral, hneutral, rfl⟩ := ho
  have hangle := h.finite_need keeps_number hangle
  have hdirection := h.finite_getOr keeps_vec3 rfl hdirection
  have hneutral := h.finite_optional keeps_number hneutral
  exact exact_of_finite (by simp only [Operation.isFinite, hangle, hdirection, hneutral, Bool.and_self]) rfl rfl

end Call

/-! ## Scripts -/

variable {config : Config}

theorem exact_operation {a : Arguments} {s : Statement} {o : Operation} (h : a.Reads s) (hspelled : s.Spelled)
    (ho : a.operation config = .ok o) : Exact config s o := by
  unfold Arguments.operation at ho
  split at ho
  · exact Call.exact_box h ho
  · exact Call.exact_box h ho
  · exact Call.exact_cylinder h ho
  · exact Call.exact_sphere h ho
  · exact Call.exact_cone h ho
  · exact Call.exact_extrude h ho
  · exact Call.exact_fillet h hspelled ho
  · exact Call.exact_chamfer h hspelled ho
  · exact Call.exact_boolean _ ho
  · exact Call.exact_boolean _ ho
  · exact Call.exact_boolean _ ho
  · exact Call.exact_revolve h ho
  · exact Call.exact_linearPattern h ho
  · exact Call.exact_circularPattern h ho
  · exact Call.exact_gridPattern h ho
  · exact Call.exact_spiralPattern h ho
  · exact Call.exact_shell h ho
  · exact Call.exact_mirror h ho
  · exact Call.exact_translate h ho
  · exact Call.exact_rotate h ho
  · exact Call.exact_scale h ho
  · exact Call.exact_sweep h ho
  · exact Call.exact_loft h ho
  · exact Call.exact_draft h ho
  · exact Call.exact_torus h ho
  · exact Call.exact_helix h ho
  · cases ho

theorem exact_of_accepted {line : List Char} {s : Statement} {o : Operation}
    (haccepted : accepted? config line = some (s, o)) : Exact config s o := by
  obtain ⟨text, -, hread, hrequest⟩ := accepted?_eq_some_iff.mp haccepted
  obtain ⟨a, ha, ho⟩ := bind_eq_ok_iff.mp hrequest
  exact exact_operation (Arguments.reads_ofStatement ha) (spelled_of_read hread) ho

theorem fault_of_build {p : Primitive Float} {e : OperatorError Float} (h : p.build = .error e) : ∃ f, e = .fault f := by
  have hroom : ∀ {vertices triangles : Nat} {e : OperatorError Float},
      Room.requireMesh vertices triangles = .error e → ∃ f, e = .fault f := by
    intro vertices triangles e h
    unfold Room.requireMesh Room.requireList at h
    split at h
    · split at h
      · cases h
      · cases h
        exact ⟨_, rfl⟩
    · cases h
      exact ⟨_, rfl⟩
  rw [Primitive.build_eq] at h
  cases hroomed : p.requireRoom with
  | ok u =>
    rw [hroomed] at h
    cases h
  | error e' =>
    rw [hroomed] at h
    cases h
    -- Only spheres are checked for the room they take.
    cases p with
    | sphere radius center segments rings =>
      have hsphere : Round.requireSphereRoom segments rings = .error e := hroomed
      exact hroom hsphere
    | _ => cases hroomed

theorem primitive_ne_nonFinite {id : String} {shape : Primitive Float} (hfinite : shape.isFinite = true)
    (parameter : String) : Plan.primitive id shape ≠ .error (.failed (.nonFinite parameter)) := by
  unfold Plan.primitive
  simp only [hfinite, Bool.not_true, Bool.false_eq_true, if_false]
  cases hbuild : shape.build with
  | ok mesh => exact nofun
  | error e =>
    obtain ⟨f, rfl⟩ := fault_of_build hbuild
    exact nofun

/-- No number of a script is infinite, each entry has its whole numbers as the statement of its line has them written,
and no primitive fails for a number that is not finite. -/
theorem parsed_numbers_exact [SyntaxReport] (config : Config) (script : String) :
    let spec := (parse config script).1
    spec.Finite ∧
    (∀ e ∈ spec.byCategory, ∃ line s, (line, e.line) ∈ numberedLines script ∧
      accepted? config line = some (s, e.operation) ∧ Exact config s e.operation) ∧
    ∀ e ∈ spec.byCategory, ∀ shape, e.operation = .primitive shape → ∀ config' backend g parameter,
      Plan.ofEntry config' backend g e ≠ .error (.failed (.nonFinite parameter)) := by
  intro spec
  have hexact : ∀ e ∈ spec.byCategory, ∃ line s, (line, e.line) ∈ numberedLines script ∧
      accepted? config line = some (s, e.operation) ∧ Exact config s e.operation := by
    intro e he
    have he : e ∈ (Specification.ofEntries (Progress.ofLines config (numberedLines script)).entries).byCategory := by
      rwa [← parse_entries]
    have hnamed := Named.ofLines config _ (numberedLines_ascending script)
    obtain ⟨line, s, hline, haccepted, -⟩ := hnamed.asked e (Specification.mem_ofEntries.mp he)
    exact ⟨line, s, hline, haccepted, exact_of_accepted haccepted⟩
  have hfinite : spec.Finite := by
    intro e he
    obtain ⟨line, s, -, -, hexact⟩ := hexact e he
    exact hexact.finite
  refine ⟨hfinite, hexact, fun e he shape hshape config' backend g parameter => ?_⟩
  have hfinite := hfinite e he
  unfold Plan.ofEntry
  rw [hshape] at hfinite ⊢
  exact primitive_ne_nonFinite hfinite parameter

def treatedEdge : String := "fillet(b.edge[-2],0,5)"

theorem treatedEdge_exact : ∃ e ∈ (parse {} treatedEdge).1.byCategory, ∃ s, edgeIndex? e.operation = some (-2) ∧
    EdgeAsWritten s (-2) ∧ (WholeNumber.steps "segments" 2 (some 5) none).AsWritten s := by
  have hentry : (parse {} treatedEdge).1.byCategory.any fun e => edgeIndex? e.operation = some (-2) ∧
      wholeNumbers {} e.operation = [.steps "segments" 2 (some 5) none] := by decide +kernel
  obtain ⟨e, he, hnumbers⟩ := List.any_eq_true.mp hentry
  obtain ⟨hindex, hwhole⟩ := of_decide_eq_true hnumbers
  obtain ⟨line, s, -, -, hexact⟩ := (parsed_numbers_exact {} treatedEdge).2.1 e he
  exact ⟨e, he, s, hindex, hexact.edge _ hindex, hexact.whole _ (by rw [hwhole]; exact List.mem_singleton_self _)⟩

end SolidScript.Script
