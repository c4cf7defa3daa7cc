import Mathlib

/-!
# Steps that can fail

Steps that follow each other come out right if each of them does.
-/

namespace SolidScript

variable {ε β γ : Type}

theorem bind_eq_ok_iff {x : Except ε β} {f : β → Except ε γ} {c : γ} :
    (x >>= f) = .ok c ↔ ∃ b, x = .ok b ∧ f b = .ok c := by
  cases x with
  | ok b => exact ⟨fun h => ⟨b, rfl, h⟩, fun ⟨_, hb, h⟩ => by cases hb; exact h⟩
  | error e =>
    constructor
    · intro h
      cases h
    · rintro ⟨b, hb, -⟩
      cases hb

theorem guard_eq_ok_iff {c : Prop} [Decidable c] {e : ε} {f : Unit → Except ε β} {b : β} :
    (if c then MonadExcept.throw e >>= f else f ()) = .ok b ↔ ¬ c ∧ f () = .ok b := by
  split
  · rename_i hc
    constructor
    · intro h
      cases h
    · rintro ⟨hnot, -⟩
      exact absurd hc hnot
  · rename_i hc
    exact ⟨fun h => ⟨hc, h⟩, And.right⟩

theorem require_eq_ok_iff {c : Prop} [Decidable c] {e : ε} {u : Unit} :
    (if c then pure () else throw e : Except ε Unit) = .ok u ↔ c := by
  split
  · rename_i hc
    exact ⟨fun _ => hc, fun _ => rfl⟩
  · rename_i hc
    exact ⟨nofun, fun h => absurd h hc⟩

theorem pure_eq_ok_iff {a b : β} : (pure a : Except ε β) = .ok b ↔ a = b :=
  ⟨Except.ok.inj, congrArg _⟩

theorem mem_of_mapM_eq_some {f : β → Option γ} {l : List β} {l' : List γ} (h : l.mapM f = some l')
    {c : γ} (hc : c ∈ l') : ∃ b ∈ l, f b = some c := by
  induction l generalizing l' with
  | nil =>
    cases h
    cases hc
  | cons b rest ih =>
    rw [List.mapM_cons] at h
    simp only [Option.pure_def, Option.bind_eq_bind, Option.bind_eq_some_iff, Option.some.injEq] at h
    obtain ⟨c', hb, rest', hrest, rfl⟩ := h
    rcases List.mem_cons.mp hc with rfl | hc
    · exact ⟨b, List.mem_cons_self, hb⟩
    · obtain ⟨b', hb', hc'⟩ := ih hrest hc
      exact ⟨b', List.mem_cons_of_mem b hb', hc'⟩

end SolidScript
