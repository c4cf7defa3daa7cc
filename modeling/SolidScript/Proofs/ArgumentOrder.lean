import SolidScript.Proofs.Arguments
import SolidScript.Proofs.EntryNames
import SolidScript.Proofs.NameMap

/-!
# The order of arguments

An argument with a name may stand anywhere among the others, and its name may be spelled with other case and
underscores. What is asked for stays the same, as long as no two names are the same but for their spelling.
-/

namespace SolidScript.Script

/-! ## Statements rearranged -/

/-- The same argument under a name that is spelled in another way, or without one as before. -/
def Argument.Respells (a b : Argument) : Prop :=
  b.term = a.term ∧ b.name.map Arguments.plainName = a.name.map Arguments.plainName

namespace Statement

/-- Arguments are moved, but those without a name past none of their kind, and names may be spelled anew. -/
structure Rearranges (s s' : Statement) : Prop where
  binding : s'.binding = s.binding
  callee : s'.callee = s.callee
  arguments : ∃ moved : List Argument, moved.Perm s.arguments ∧
    (moved.filter fun a => a.name.isNone) = (s.arguments.filter fun a => a.name.isNone) ∧
    List.Forall₂ Argument.Respells moved s'.arguments

def NamesDistinct (s : Statement) : Prop := (s.arguments.filterMap fun a => a.name.map Arguments.plainName).Nodup

theorem filterMap_respelled {β : Type} {f : Argument → Option β} (hf : ∀ a b, Argument.Respells a b → f b = f a)
    {l l' : List Argument} (h : List.Forall₂ Argument.Respells l l') : l'.filterMap f = l.filterMap f := by
  induction h with
  | nil => rfl
  | cons hfirst _ ih => rw [List.filterMap_cons, List.filterMap_cons, hf _ _ hfirst, ih]

theorem exists_respelled {l l' : List Argument} (h : List.Forall₂ Argument.Respells l l') {b : Argument}
    (hb : b ∈ l') : ∃ a ∈ l, a.Respells b := by
  induction h with
  | nil => cases hb
  | cons hfirst _ ih =>
    rcases List.mem_cons.mp hb with rfl | hb
    · exact ⟨_, List.mem_cons_self, hfirst⟩
    · obtain ⟨a, ha, hrespells⟩ := ih hb
      exact ⟨a, List.mem_cons_of_mem _ ha, hrespells⟩

theorem filterMap_unnamed (l : List Argument) :
    (l.filterMap fun a => if a.name.isSome then none else some a.term) =
      (l.filter fun a => a.name.isNone).map Argument.term := by
  induction l with
  | nil => rfl
  | cons a l ih => cases hname : a.name <;> simp [hname, ih]

namespace Rearranges

variable {s s' : Statement}

theorem positional (h : s.Rearranges s') : s'.positional = s.positional := by
  obtain ⟨moved, -, hunnamed, hrespelled⟩ := h.arguments
  unfold Statement.positional
  rw [filterMap_respelled ?_ hrespelled, filterMap_unnamed, filterMap_unnamed, hunnamed]
  rintro ⟨n, t⟩ ⟨n', t'⟩ ⟨hterm, hname⟩
  obtain rfl : t' = t := hterm
  cases n <;> cases n' <;> simp_all

theorem named (h : s.Rearranges s') : s'.named.Perm s.named := by
  obtain ⟨moved, hmoved, -, hrespelled⟩ := h.arguments
  unfold Statement.named
  rw [filterMap_respelled ?_ hrespelled]
  · exact (List.reverse_perm _).trans ((hmoved.filterMap _).trans (List.reverse_perm _).symm)
  · rintro ⟨n, t⟩ ⟨n', t'⟩ ⟨hterm, hname⟩
    obtain rfl : t' = t := hterm
    cases n <;> cases n' <;> simp_all

theorem exists_term (h : s.Rearranges s') {argument : Argument} (hmem : argument ∈ s'.arguments) :
    ∃ before ∈ s.arguments, before.term = argument.term := by
  obtain ⟨moved, hmoved, -, hrespelled⟩ := h.arguments
  obtain ⟨before, hbefore, hterm, -⟩ := exists_respelled hrespelled hmem
  exact ⟨before, hmoved.mem_iff.mp hbefore, hterm.symm⟩

theorem term? (h : s.Rearranges s') (hdistinct : s.NamesDistinct) (names : List String) (place : Nat) :
    s'.term? names place = s.term? names place := by
  have hkeys : (s.named.map Prod.fst).Nodup := by
    have hnames : (s.named.map Prod.fst).reverse = s.arguments.filterMap fun a => a.name.map Arguments.plainName := by
      simp [Statement.named, List.map_filterMap, Function.comp_def]
    rw [← List.nodup_reverse, hnames]
    exact hdistinct
  have hlookup (n : String) : s'.named.lookup n = s.named.lookup n := by
    refine Option.ext fun t => ?_
    rw [NameMap.lookup_eq_some_iff hkeys, NameMap.lookup_eq_some_iff ((h.named.map _).nodup_iff.mpr hkeys),
      h.named.mem_iff]
  unfold Statement.term?
  simp only [hlookup, h.positional]

end Rearranges

end Statement

namespace Arguments

/-! ## Arguments that agree -/

/-- The same arguments are found, whatever the order in which they were given. -/
structure Agrees (a b : Arguments) : Prop where
  statement : b.statement = a.statement
  get? : ∀ names place, b.get? names place = a.get? names place

namespace Agrees

variable {a b : Arguments} {β : Type}

theorem optional (h : a.Agrees b) (type : ArgumentType β) (names : List String) (place : Nat) :
    b.optional type names place = a.optional type names place := by
  unfold Arguments.optional
  rw [h.get?]

theorem getOr (h : a.Agrees b) (type : ArgumentType β) (names : List String) (place : Nat) (absent : β) :
    b.getOr type names place absent = a.getOr type names place absent := by
  unfold Arguments.getOr
  rw [h.optional]

theorem require (h : a.Agrees b) (names : List String) (found : Option β) :
    b.require names found = a.require names found := by
  unfold Arguments.require
  rw [h.statement]

theorem need (h : a.Agrees b) (type : ArgumentType β) (names : List String) (place : Nat) :
    b.need type names place = a.need type names place := by
  unfold Arguments.need
  simp only [h.optional, h.require]

theorem solid (h : a.Agrees b) (names : List String) (place : Nat) : b.solid names place = a.solid names place := by
  unfold Arguments.solid
  rw [h.need]

theorem operation (h : a.Agrees b) (config : Config) : b.operation config = a.operation config := by
  unfold Arguments.operation
  rw [h.statement]
  simp only [Call.box, Call.cylinder, Call.sphere, Call.cone, Call.extrude, Call.edges, Call.fillet, Call.chamfer,
    Call.boolean, Call.revolve, Call.linearPattern, Call.circularPattern, Call.gridPattern, Call.spiralPattern,
    Call.shell, Call.mirror, Call.translate, Call.rotate, Call.scale, Call.sweep, Call.loft, Call.draft, Call.torus,
    Call.helix, Call.center, h.optional, h.getOr, h.require, h.need, h.solid]

end Agrees

theorem exists_foldlM_add_iff (a : Arguments) (l : List Argument) :
    (∃ b, l.foldlM add a = .ok b) ↔ ∀ argument ∈ l, ∃ v, Says argument.term v := by
  induction l generalizing a with
  | nil => exact ⟨fun _ _ h => (nomatch h), fun _ => ⟨a, rfl⟩⟩
  | cons argument l ih =>
    have hadd : (∃ b, a.add argument = .ok b) ↔ ∃ v, Says argument.term v := by
      simp only [add, bind_eq_ok_iff, Says]
      cases argument.name <;> simp [pure_eq_ok_iff]
    simp only [List.foldlM_cons, bind_eq_ok_iff, List.forall_mem_cons, ← hadd]
    constructor
    · rintro ⟨b, c, hc, hb⟩
      exact ⟨⟨c, hc⟩, (ih c).mp ⟨b, hb⟩⟩
    · rintro ⟨⟨c, hc⟩, hl⟩
      obtain ⟨b, hb⟩ := (ih c).mpr hl
      exact ⟨b, c, hc, hb⟩

theorem Reads.agrees {a b : Arguments} {s s' : Statement} (ha : a.Reads s) (hb : b.Reads s')
    (hcallee : s'.callee = s.callee) (hterms : ∀ names place, s'.term? names place = s.term? names place) :
    a.Agrees b := by
  refine ⟨by rw [ha.statement, hb.statement, hcallee], fun names place => ?_⟩
  have hbefore := ha.get? names place
  have hbehind := hb.get? names place
  rw [hterms] at hbehind
  generalize s.term? names place = t at hbefore hbehind
  generalize a.get? names place = v at hbefore ⊢
  generalize b.get? names place = w at hbehind ⊢
  cases hbefore with
  | none =>
    cases hbehind
    rfl
  | some hv =>
    cases hbehind with
    | some hw => exact congrArg some (Except.ok.inj (hw.symm.trans hv))

end Arguments

namespace Statement

variable {s s' : Statement}

theorem Rearranges.ofStatement (h : s.Rearranges s') (hdistinct : s.NamesDistinct) {a : Arguments}
    (ha : Arguments.ofStatement s = .ok a) : ∃ b, Arguments.ofStatement s' = .ok b ∧ a.Agrees b := by
  have hsays : ∀ argument ∈ s'.arguments, ∃ v, Says argument.term v := by
    intro argument hmem
    obtain ⟨before, hbefore, hterm⟩ := h.exists_term hmem
    rw [← hterm]
    exact (Arguments.exists_foldlM_add_iff _ s.arguments).mp ⟨a, ha⟩ before hbefore
  obtain ⟨b, hb⟩ := (Arguments.exists_foldlM_add_iff ⟨s'.callee, [], []⟩ s'.arguments).mpr hsays
  exact ⟨b, hb, (Arguments.reads_ofStatement ha).agrees (Arguments.reads_ofStatement hb) h.callee (h.term? hdistinct)⟩

/-- A statement that is accepted asks for the same when its arguments are moved and spelled anew, and leads to the
same entry. -/
theorem request_rearranged (config : Config) (h : s.Rearranges s') (hdistinct : s.NamesDistinct) {o : Operation}
    (hrequest : s.request config = .ok o) :
    s'.request config = .ok o ∧ ∀ (p : Progress) (line : Nat),
      p.addStatement config line s = .ok (p.accept line s o) ∧
        p.addStatement config line s' = .ok (p.accept line s o) := by
  obtain ⟨a, ha, hoperation⟩ := bind_eq_ok_iff.mp hrequest
  obtain ⟨b, hb, hagrees⟩ := h.ofStatement hdistinct ha
  have hrequest' : s'.request config = .ok o := bind_eq_ok_iff.mpr ⟨b, hb, by rw [hagrees.operation, hoperation]⟩
  refine ⟨hrequest', fun p line => ?_⟩
  have haccept : p.accept line s' o = p.accept line s o := by
    unfold Progress.accept
    rw [h.binding, h.callee]
  rw [Progress.addStatement_eq, Progress.addStatement_eq, hrequest, hrequest', Except.map, Except.map, haccept]
  exact ⟨rfl, rfl⟩

/-- `mirror(b, normal: [1, 0, 0], keepOriginal = true)` -/
def reflected : Statement := ⟨none, "mirror", [⟨none, .reference "b" .whole⟩,
  ⟨some "normal", .list [.number "1", .number "0", .number "0"]⟩, ⟨some "keepOriginal", .boolean true⟩]⟩

/-- `mirror(keep_original = true, b, Normal: [1, 0, 0])` -/
def reflectedAnew : Statement := ⟨none, "mirror", [⟨some "keep_original", .boolean true⟩,
  ⟨none, .reference "b" .whole⟩, ⟨some "Normal", .list [.number "1", .number "0", .number "0"]⟩]⟩

theorem reflectedAnew_request : reflected.Rearranges reflectedAnew ∧ reflected.NamesDistinct ∧
    reflectedAnew.request {} = .ok (.mirror "b" ⟨1, 0, 0⟩ ⟨0, 0, 0⟩ true) := by
  have hrearranges : reflected.Rearranges reflectedAnew :=
    ⟨rfl, rfl, _, @List.perm_append_comm _ [_] [_, _], rfl,
      .cons ⟨rfl, by decide⟩ (.cons ⟨rfl, rfl⟩ (.cons ⟨rfl, by decide⟩ .nil))⟩
  have hdistinct : reflected.NamesDistinct := by
    unfold NamesDistinct
    decide
  have hrequest : reflected.request {} = .ok (.mirror "b" ⟨1, 0, 0⟩ ⟨0, 0, 0⟩ true) := by rfl
  exact ⟨hrearranges, hdistinct, (request_rearranged {} hrearranges hdistinct hrequest).1⟩

end Statement

end SolidScript.Script
