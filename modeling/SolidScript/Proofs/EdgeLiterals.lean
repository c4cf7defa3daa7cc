import Mathlib
import SolidScript.Script.Value

/-!
# Edge indices as they are written

Wherever an edge index stands in a statement, it is a minus sign or none and digits. It is read as the integer that they
spell.
-/

namespace SolidScript.Script

structure Spelling where
  negative : Bool
  digits : List Char
  nonempty : digits ≠ []
  allDigits : ∀ c ∈ digits, c.isDigit = true

namespace Spelling

def literal (s : Spelling) : String := String.ofList ((if s.negative then ['-'] else []) ++ s.digits)

def value (s : Spelling) : Int :=
  (if s.negative then -1 else 1) * (Nat.ofDigits 10 (s.digits.reverse.map fun c => c.toNat - '0'.toNat) : Nat)

theorem natOfDigits_eq (digits : List Char) :
    Decimal.natOfDigits digits = (Nat.ofDigits 10 (digits.reverse.map fun c => c.toNat - '0'.toNat) : Nat) := by
  rw [Nat.ofDigits_eq_foldr, List.foldr_map, List.foldr_reverse]
  unfold Decimal.natOfDigits
  simp [Nat.add_comm]

theorem takeSign_literal (s : Spelling) : Decimal.takeSign s.literal.toList = (s.negative, s.digits) := by
  obtain ⟨negative, digits, nonempty, allDigits⟩ := s
  unfold literal
  rw [String.toList_ofList]
  cases negative with
  | true => rfl
  | false =>
    obtain ⟨c, rest, rfl⟩ := List.exists_cons_of_ne_nil nonempty
    have hdigit := allDigits c List.mem_cons_self
    show Decimal.takeSign (c :: rest) = (false, c :: rest)
    -- A digit is no sign.
    unfold Decimal.takeSign
    split
    · rename_i hminus
      obtain ⟨rfl, -⟩ := List.cons.inj hminus
      exact absurd hdigit (by decide)
    · rename_i hplus
      obtain ⟨rfl, -⟩ := List.cons.inj hplus
      exact absurd hdigit (by decide)
    · rfl

theorem edgeIndexOf_literal (s : Spelling) {i : Int} (h : edgeIndexOf s.literal = .ok i) : i = s.value := by
  unfold edgeIndexOf at h
  rw [takeSign_literal] at h
  dsimp only at h
  split at h
  · cases h
    unfold Decimal.signedNat value
    rw [natOfDigits_eq]
    cases s.negative <;> simp
  · cases h

end Spelling

/-! ## What readers yield -/

def Yields {β : Type} (r : Reader β) (P : β → Prop) : Prop := ∀ ⦃text b rest⦄, r text = some (b, rest) → P b

section Readers

variable {β γ : Type} {r s : Reader β} {P : β → Prop}

theorem yields_of_forall (h : ∀ b, P b) : Yields r P := fun _ b _ _ => h b

theorem Yields.map {f : β → γ} {Q : γ → Prop} (h : Yields r fun b => Q (f b)) : Yields (r.map f) Q := by
  intro text c rest hread
  obtain ⟨⟨b, rest⟩, hb, hc⟩ := Option.map_eq_some_iff.mp hread
  cases hc
  exact h hb

theorem Yields.orElse (hr : Yields r P) (hs : Yields s P) : Yields (r.orElse s) P := by
  intro text b rest hread
  unfold Reader.orElse at hread
  split at hread
  · rename_i hfirst
    cases hread
    exact hr hfirst
  · exact hs hread

theorem Yields.next (h : Yields r P) : Yields (Grammar.next r) P :=
  fun _ _ _ hread => h hread

theorem Yields.optional (h : Yields r P) : Yields (Reader.optional r) fun found => ∀ b ∈ found, P b := by
  intro text found rest hread
  unfold Reader.optional at hread
  split at hread
  · rename_i hsome
    cases hread
    simpa using h hsome
  · cases hread
    simp

theorem yields_closed {items : List β} (h : ∀ b ∈ items, P b) (close : Char) :
    Yields ((Grammar.mark close).map fun _ => items) fun items => ∀ b ∈ items, P b :=
  Yields.map (yields_of_forall fun _ => h)

theorem Yields.moreItems (h : Yields r P) {close : Char} {fuel : Nat} {found : Array β} (hfound : ∀ b ∈ found, P b) :
    Yields (Grammar.moreItems r close fuel found) fun items => ∀ b ∈ items, P b := by
  induction fuel generalizing found with
  | zero => exact nofun
  | succ fuel ih =>
    intro text items rest hread
    have hclosed := yields_closed (fun b hb => hfound b (Array.mem_def.mpr hb)) close
    unfold Grammar.moreItems at hread
    split at hread
    · exact hclosed hread
    · split at hread
      · rename_i b behind hb
        have hmore : ∀ c ∈ found.push b, P c := by
          intro c hc
          rcases Array.mem_push.mp hc with hc | rfl
          · exact hfound c hc
          · exact h.next hb
        exact ih hmore hread
      · exact hclosed hread

theorem Yields.items (h : Yields r P) (close : Char) : Yields (Grammar.items r close) fun items => ∀ b ∈ items, P b := by
  intro text items rest hread
  unfold Grammar.items at hread
  split at hread
  · rename_i b behind hb
    refine h.moreItems ?_ hread
    simpa using h.next hb
  · exact yields_closed (by simp) close hread

end Readers

/-! ## Statements -/

def Selector.Spelled (s : Selector) : Prop := ∀ literal, s = .edge literal → ∃ spelling : Spelling, literal = spelling.literal

def Term.Spelled (t : Term) : Prop := ∀ source s, t = .reference source s → s.Spelled

theorem yields_integer : Yields Grammar.integer fun literal => ∃ spelling : Spelling, literal = spelling.literal := by
  have hspelled : ∀ (negative : Bool) {behind digits rest : List Char},
      Reader.someOf Char.isDigit behind = some (digits, rest) →
        ∃ s : Spelling, String.ofList ((if negative then ['-'] else []) ++ digits) = s.literal := by
    intro negative behind digits rest hdigits
    unfold Reader.someOf at hdigits
    dsimp only at hdigits
    split at hdigits
    · cases hdigits
    · rename_i hnonempty
      cases hdigits
      exact ⟨⟨negative, _, by simpa using hnonempty, fun c hc => List.mem_takeWhile_imp hc⟩, rfl⟩
  intro text literal rest hread
  simp only [Grammar.integer, Option.bind_eq_bind, Option.bind_eq_some_iff, Option.pure_def, Option.some_inj,
    Prod.mk.injEq, Prod.exists] at hread
  obtain ⟨digits, behind, hdigits, rfl, rfl⟩ := hread
  split at hdigits
  · exact hspelled true hdigits
  · exact hspelled false hdigits

theorem yields_edge : Yields Grammar.edgeSelector Selector.Spelled := by
  intro text s rest hread
  unfold Grammar.edgeSelector at hread
  simp only [Option.bind_eq_bind, Option.bind_eq_some_iff, pure, Option.some_inj, Prod.mk.injEq, Prod.exists] at hread
  obtain ⟨_, _, -, _, _, -, literal, _, hliteral, _, _, -, rfl, rfl⟩ := hread
  rintro _ ⟨⟩
  exact yields_integer.next hliteral

theorem Selector.spelled_of_ne {s : Selector} (h : ∀ literal, s ≠ .edge literal) : s.Spelled :=
  fun literal hs => absurd hs (h literal)

theorem yields_selected : Yields Grammar.selected Selector.Spelled := by
  refine Yields.orElse ?_ (Yields.orElse ?_ (Yields.orElse ?_ yields_edge))
  · intro text s rest hread
    simp only [Grammar.faceSelector, Option.bind_eq_bind, Option.bind_eq_some_iff, Option.pure_def, Option.some_inj,
      Prod.mk.injEq, Prod.exists] at hread
    obtain ⟨_, _, -, _, _, -, face, _, -, rfl, rfl⟩ := hread
    exact Selector.spelled_of_ne fun _ => nofun
  · exact Yields.map (yields_of_forall fun _ => Selector.spelled_of_ne fun _ => nofun)
  · intro text s rest hread
    simp only [Grammar.starSelector, Option.bind_eq_bind, Option.bind_eq_some_iff, Option.pure_def, Option.some_inj,
      Prod.mk.injEq, Prod.exists] at hread
    obtain ⟨_, _, -, _, _, -, _, _, -, _, _, -, rfl, rfl⟩ := hread
    exact Selector.spelled_of_ne fun _ => nofun

theorem yields_selector : Yields Grammar.selector Selector.Spelled := by
  intro text s rest hread
  simp only [Grammar.selector, Option.bind_eq_bind, Option.bind_eq_some_iff, Prod.exists] at hread
  obtain ⟨_, _, -, hread⟩ := hread
  exact yields_selected.next hread

theorem yields_reference : Yields Grammar.reference Term.Spelled := by
  intro text t rest hread
  simp only [Grammar.reference, Option.bind_eq_bind, Option.bind_eq_some_iff, Option.pure_def, Option.some_inj,
    Prod.mk.injEq, Prod.exists] at hread
  obtain ⟨source, _, -, found, _, hfound, rfl, rfl⟩ := hread
  rintro _ s ⟨⟩
  cases found with
  | none => exact Selector.spelled_of_ne fun _ => nofun
  | some s => exact yields_selector.optional hfound s rfl

theorem Term.spelled_of_ne {t : Term} (h : ∀ source s, t ≠ .reference source s) : t.Spelled :=
  fun source s ht => absurd ht (h source s)

theorem yields_scalar : Yields Grammar.scalar Term.Spelled := by
  refine Yields.orElse ?_ (Yields.orElse ?_ (Yields.orElse ?_ (Yields.orElse ?_ yields_reference)))
  all_goals exact Yields.map (yields_of_forall fun _ => Term.spelled_of_ne fun _ _ => nofun)

theorem yields_term (depth : Nat) : Yields (Grammar.term depth) Term.Spelled := by
  cases depth with
  | zero => exact yields_scalar
  | succ depth =>
    refine yields_scalar.orElse ?_
    intro text t rest hread
    simp only [Option.bind_eq_bind, Option.bind_eq_some_iff, Prod.exists] at hread
    obtain ⟨_, _, -, hread⟩ := hread
    -- Edge indices within a list are not looked at, since a list is no reference.
    have hlist : Yields ((Grammar.items (Grammar.term depth) ']').map Term.list) Term.Spelled :=
      Yields.map (yields_of_forall fun _ => Term.spelled_of_ne fun _ _ => nofun)
    exact hlist hread

theorem yields_argument (depth : Nat) : Yields (Grammar.argument depth) fun a => a.term.Spelled := by
  refine Yields.orElse ?_ (Yields.map (yields_term depth))
  intro text a rest hread
  simp only [Grammar.named, Option.bind_eq_bind, Option.bind_eq_some_iff, Option.pure_def, Option.some_inj,
    Prod.mk.injEq, Prod.exists] at hread
  obtain ⟨n, _, -, _, _, -, t, _, hterm, rfl, rfl⟩ := hread
  exact (yields_term depth).next hterm

def Statement.Spelled (s : Statement) : Prop := ∀ a ∈ s.arguments, a.term.Spelled

theorem yields_statement : Yields Grammar.statement Statement.Spelled := by
  intro text s rest hread
  simp only [Grammar.statement, Option.bind_eq_bind, Option.bind_eq_some_iff, Option.pure_def, Option.some_inj,
    Prod.mk.injEq, Prod.exists] at hread
  obtain ⟨_, _, -, _, _, -, _, _, -, arguments, _, harguments, rfl, rfl⟩ := hread
  exact (yields_argument _).items ')' harguments

theorem spelled_of_read {text : List Char} {s : Statement} (h : Statement.read? text = some (some s)) : s.Spelled := by
  simp only [Statement.read?] at h
  split at h
  · rename_i hread
    obtain ⟨-, h⟩ := Option.ite_none_right_eq_some.mp h
    obtain rfl := Option.some.inj (Option.some.inj h)
    exact yields_statement hread
  · obtain ⟨-, h⟩ := Option.ite_none_right_eq_some.mp h
    cases h

end SolidScript.Script
