import SolidScript.Proofs.Steps
import SolidScript.Script.Arguments

/-!
# Arguments as they are written

What an argument of a call says is what one term of its statement says, found under the same names or at the same
place. The values of terms hold no number that is not finite.
-/

namespace SolidScript.Script

variable {β γ : Type}

/-! ## Terms of a statement -/

namespace Statement

/-- Terms that are given by name, from the last one on. -/
def named (s : Statement) : List (String × Term) :=
  (s.arguments.filterMap fun a => a.name.map fun n => (Arguments.plainName n, a.term)).reverse

def positional (s : Statement) : List Term :=
  s.arguments.filterMap fun a => if a.name.isSome then none else some a.term

/-- The term under one of some names, or else at a place among those without a name. -/
def term? (s : Statement) (names : List String) (place : Nat) : Option Term :=
  (names.findSome? fun n => s.named.lookup (Arguments.plainName n)) <|> s.positional[place]?

theorem mem_of_mem_named {s : Statement} {n : String} {t : Term} (h : (n, t) ∈ s.named) :
    ∃ argument ∈ s.arguments, argument.term = t := by
  unfold named at h
  simp only [List.mem_reverse, List.mem_filterMap, Option.map_eq_some_iff, Prod.mk.injEq] at h
  obtain ⟨argument, hmem, _, -, -, hterm⟩ := h
  exact ⟨argument, hmem, hterm⟩

theorem mem_of_mem_positional {s : Statement} {t : Term} (h : t ∈ s.positional) :
    ∃ argument ∈ s.arguments, argument.term = t := by
  obtain ⟨argument, hmem, hterm⟩ := List.mem_filterMap.mp h
  obtain ⟨-, hterm⟩ := Option.ite_none_left_eq_some.mp hterm
  exact ⟨argument, hmem, Option.some.inj hterm⟩

theorem mem_of_term? {s : Statement} {names : List String} {place : Nat} {t : Term}
    (ht : s.term? names place = some t) : ∃ argument ∈ s.arguments, argument.term = t := by
  unfold term? at ht
  cases hnamed : names.findSome? fun n => s.named.lookup (Arguments.plainName n) with
  | some t' =>
    rw [hnamed] at ht
    obtain rfl := Option.some.inj ht
    obtain ⟨n, -, hlookup⟩ := List.exists_of_findSome?_eq_some hnamed
    obtain ⟨before, behind, hlist, -⟩ := List.lookup_eq_some_iff.mp hlookup
    have hmem : (Arguments.plainName n, t') ∈ s.named := by
      rw [hlist]
      simp
    exact mem_of_mem_named hmem
  | none =>
    rw [hnamed] at ht
    exact mem_of_mem_positional (List.mem_of_getElem? ht)

end Statement

def Says (t : Term) (v : Value) : Prop := valueOf t = .ok v

namespace Arguments

variable {a : Arguments} {s : Statement} {names : List String} {place : Nat}

/-- The arguments of a call are what the terms of its statement say. -/
structure Reads (a : Arguments) (s : Statement) : Prop where
  statement : a.statement = s.callee
  named : List.Forall₂ (fun t v => t.1 = v.1 ∧ Says t.2 v.2) s.named a.named
  positional : List.Forall₂ Says s.positional a.positional

theorem Reads.add {b : Arguments} {argument : Argument} (h : a.Reads s) (hadd : a.add argument = .ok b) :
    b.Reads { s with arguments := s.arguments ++ [argument] } := by
  obtain ⟨v, hvalue, hadd⟩ := bind_eq_ok_iff.mp hadd
  cases hname : argument.name with
  | none =>
    rw [hname] at hadd
    cases hadd
    refine ⟨h.statement, ?_, ?_⟩
    · simpa [Statement.named, hname] using h.named
    · simpa [Statement.positional, hname] using List.rel_append h.positional (.cons hvalue .nil)
  | some n =>
    rw [hname] at hadd
    cases hadd
    have hnamed : List.Forall₂ (fun t v => t.1 = v.1 ∧ Says t.2 v.2) ((plainName n, argument.term) :: s.named)
        ((plainName n, v) :: a.named) := .cons ⟨rfl, hvalue⟩ h.named
    refine ⟨h.statement, ?_, ?_⟩
    · simpa [Statement.named, hname] using hnamed
    · simpa [Statement.positional, hname] using h.positional

theorem reads_ofStatement (h : ofStatement s = .ok a) : a.Reads s := by
  obtain ⟨binding, callee, arguments⟩ := s
  unfold ofStatement at h
  dsimp only at h
  induction arguments using List.reverseRecOn generalizing a with
  | nil => cases h; exact ⟨rfl, .nil, .nil⟩
  | append_singleton arguments argument ih =>
    rw [List.foldlM_append] at h
    obtain ⟨b, hbefore, hadd⟩ := bind_eq_ok_iff.mp h
    simp only [List.foldlM_cons, List.foldlM_nil, bind_eq_ok_iff, pure_eq_ok_iff] at hadd
    obtain ⟨c, hadd, rfl⟩ := hadd
    exact (ih hbefore).add hadd

/-! ## Looking up -/

theorem says_lookup {terms : List (String × Term)} {values : List (String × Value)}
    (h : List.Forall₂ (fun t v => t.1 = v.1 ∧ Says t.2 v.2) terms values) (n : String) :
    Option.Rel Says (terms.lookup n) (values.lookup n) := by
  induction h with
  | nil => exact .none
  | cons hfirst _ ih =>
    rw [List.lookup_cons, List.lookup_cons, ← hfirst.1]
    split
    · exact .some hfirst.2
    · exact ih

theorem says_getElem? {terms : List Term} {values : List Value} (h : List.Forall₂ Says terms values) (i : Nat) :
    Option.Rel Says terms[i]? values[i]? := by
  induction h generalizing i with
  | nil => exact .none
  | cons hfirst _ ih =>
    cases i with
    | zero => exact .some hfirst
    | succ i => exact ih i

theorem says_findSome? {f : String → Option Term} {g : String → Option Value} (h : ∀ n, Option.Rel Says (f n) (g n))
    (names : List String) : Option.Rel Says (names.findSome? f) (names.findSome? g) := by
  induction names with
  | nil => exact .none
  | cons n names ih =>
    have hn := h n
    rw [List.findSome?_cons, List.findSome?_cons]
    generalize f n = t at hn
    generalize g n = v at hn
    cases hn with
    | some hmeans => exact .some hmeans
    | none => exact ih

/-- An argument is found where its term is. -/
theorem Reads.get? (h : a.Reads s) (names : List String) (place : Nat) :
    Option.Rel Says (s.term? names place) (a.get? names place) := by
  have hnamed := says_findSome? (fun n => says_lookup h.named (plainName n)) names
  have hpositional := says_getElem? h.positional place
  unfold Statement.term? Arguments.get?
  generalize names.findSome? (fun n => s.named.lookup (plainName n)) = t at hnamed
  generalize names.findSome? (fun n => a.named.lookup (plainName n)) = v at hnamed
  cases hnamed with
  | some hmeans => exact .some hmeans
  | none => exact hpositional

end Arguments

/-- What an argument of some type was read from, if its term is there. -/
inductive Statement.Written (s : Statement) (type : ArgumentType β) (names : List String) (place : Nat) :
    Option β → Prop
  | absent (term : s.term? names place = none) : s.Written type names place none
  | present {t : Term} {v : Value} {b : β} (term : s.term? names place = some t) (value : Says t v)
      (read : type.read v = some b) : s.Written type names place (some b)

namespace Arguments

variable {a : Arguments} {s : Statement} {type : ArgumentType β} {names : List String} {place : Nat}

theorem eq_some_of_require {found : Option β} {b : β} (hb : a.require names found = .ok b) : found = some b := by
  cases found with
  | none => cases hb
  | some c => cases hb; rfl

namespace Reads

theorem optional (h : a.Reads s) {found : Option β} (hfound : a.optional type names place = .ok found) :
    s.Written type names place found := by
  have hget := h.get? names place
  unfold Arguments.optional at hfound
  cases hterm : s.term? names place with
  | none =>
    rw [hterm] at hget
    generalize a.get? names place = v at hget hfound
    cases hget
    obtain rfl := pure_eq_ok_iff.mp hfound
    exact .absent hterm
  | some t =>
    rw [hterm] at hget
    generalize a.get? names place = v at hget hfound
    cases hget with
    | some hmeans =>
      dsimp only at hfound
      split at hfound
      · rename_i hread
        obtain rfl := pure_eq_ok_iff.mp hfound
        exact .present hterm hmeans hread
      · cases hfound

theorem getOr (h : a.Reads s) {absent b : β} (hb : a.getOr type names place absent = .ok b) :
    ∃ found, s.Written type names place found ∧ found.getD absent = b := by
  obtain ⟨found, hfound, hb⟩ := bind_eq_ok_iff.mp hb
  exact ⟨found, h.optional hfound, pure_eq_ok_iff.mp hb⟩

theorem need (h : a.Reads s) {b : β} (hb : a.need type names place = .ok b) :
    s.Written type names place (some b) := by
  obtain ⟨found, hfound, hb⟩ := bind_eq_ok_iff.mp hb
  rw [← eq_some_of_require hb]
  exact h.optional hfound

end Reads

end Arguments

end SolidScript.Script
