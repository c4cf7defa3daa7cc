import Mathlib.Algebra.Order.Field.Basic
import SolidScript.Feature.Sweep
import SolidScript.Proofs.Clipping

/-!
# Heights of sections

Sections are pushed apart one after another. Read without rounding, no height is pushed further than it has to be,
upward or downward, and heights that are apart stay where they are.
-/

namespace SolidScript

namespace Loft

variable {K : Type} [LinearOrder K] {rising : Bool}

/-! ## Directions -/

/-- The second height is as far on as the first, or further. -/
def Reaches (rising : Bool) (a b : K) : Prop := if rising then a ≤ b else b ≤ a

instance (rising : Bool) (a b : K) : Decidable (Reaches rising a b) :=
  inferInstanceAs (Decidable (if rising then a ≤ b else b ≤ a))

theorem reaches_refl (rising : Bool) (a : K) : Reaches rising a a := by
  cases rising <;> exact le_refl a

theorem Reaches.antisymm {a b : K} (hab : Reaches rising a b) (hba : Reaches rising b a) : a = b := by
  cases rising with
  | true => exact le_antisymm hab hba
  | false => exact le_antisymm hba hab

theorem getLastD_reaches {heights other : List K} (h : List.Forall₂ (Reaches rising) heights other) {a b : K}
    (hab : Reaches rising a b) : Reaches rising (heights.getLastD a) (other.getLastD b) := by
  induction h generalizing a b with
  | nil => exact hab
  | cons hnext _ ih =>
    rw [List.getLastD_cons, List.getLastD_cons]
    exact ih hnext

variable [Field K] [Elementary K]

/-- The second height is further on than the first, by the least gap or more. -/
def Clears (rising : Bool) (a b : K) : Prop := if rising then a + minGap ≤ b else b ≤ a - minGap

instance (rising : Bool) (a b : K) : Decidable (Clears rising a b) :=
  inferInstanceAs (Decidable (if rising then a + minGap ≤ b else b ≤ a - minGap))

theorem Clears.of_reaches [IsStrictOrderedRing K] {a b c : K} (hbc : Clears rising b c) (hab : Reaches rising a b) :
    Clears rising a c := by
  cases rising with
  | true => exact le_trans (add_le_add_left hab minGap) hbc
  | false => exact le_trans hbc (sub_le_sub_right hab minGap)

/-- From the first height to the last it goes up, or they are equal. -/
def isRising (heights : List K) : Bool := heights.headD 0 ≤ heights.getLastD 0

/-- Heights that do where others were asked for: they start from the same one, lie apart, and none falls short of what
was asked for. -/
structure Separates (heights separated : List K) : Prop where
  head : separated.head? = heights.head?
  apart : separated.IsChain (Clears (isRising heights))
  far : List.Forall₂ (Reaches (isRising heights)) heights separated

/-! ## One height after another -/

variable {previous : K} {rest : List K}

theorem exists_pushed (rising : Bool) (previous height : K) (rest : List K) :
    ∃ pushed, separateFrom rising previous (height :: rest) = pushed :: separateFrom rising pushed rest ∧
      ∀ c, Reaches rising pushed c ↔ Reaches rising height c ∧ Clears rising previous c := by
  refine ⟨_, rfl, fun c => ?_⟩
  cases rising with
  | true =>
    show Scalar.greatest height (previous + minGap) ≤ c ↔ height ≤ c ∧ previous + minGap ≤ c
    rw [Scalar.greatest_eq_max, max_le_iff]
  | false =>
    show c ≤ Scalar.least height (previous - minGap) ↔ c ≤ height ∧ c ≤ previous - minGap
    rw [Scalar.least_eq_min, le_min_iff]

theorem isChain_separateFrom (rising : Bool) (previous : K) (rest : List K) :
    (previous :: separateFrom rising previous rest).IsChain (Clears rising) := by
  induction rest generalizing previous with
  | nil => exact List.isChain_singleton previous
  | cons height rest ih =>
    obtain ⟨pushed, hcons, hleast⟩ := exists_pushed rising previous height rest
    rw [hcons]
    exact (ih pushed).cons_cons ((hleast pushed).mp (reaches_refl rising pushed)).2

theorem reaches_separateFrom (rising : Bool) (previous : K) (rest : List K) :
    List.Forall₂ (Reaches rising) rest (separateFrom rising previous rest) := by
  induction rest generalizing previous with
  | nil => exact .nil
  | cons height rest ih =>
    obtain ⟨pushed, hcons, hleast⟩ := exists_pushed rising previous height rest
    rw [hcons]
    exact .cons ((hleast pushed).mp (reaches_refl rising pushed)).1 (ih pushed)

theorem separateFrom_reaches [IsStrictOrderedRing K] {start : K} {other : List K}
    (hstart : Reaches rising previous start) (hapart : (start :: other).IsChain (Clears rising))
    (hfar : List.Forall₂ (Reaches rising) rest other) :
    List.Forall₂ (Reaches rising) (separateFrom rising previous rest) other := by
  induction hfar generalizing previous start with
  | nil => exact .nil
  | @cons height next rest other hheight _ ih =>
    obtain ⟨hclears, hother⟩ := List.isChain_cons_cons.mp hapart
    obtain ⟨pushed, hcons, hleast⟩ := exists_pushed rising previous height rest
    have hpushed : Reaches rising pushed next := (hleast next).mpr ⟨hheight, hclears.of_reaches hstart⟩
    rw [hcons]
    exact .cons hpushed (ih hpushed hother)

theorem separateFrom_of_isChain (h : (previous :: rest).IsChain (Clears rising)) :
    separateFrom rising previous rest = rest := by
  induction rest generalizing previous with
  | nil => rfl
  | cons height rest ih =>
    obtain ⟨hclears, hrest⟩ := List.isChain_cons_cons.mp h
    obtain ⟨pushed, hcons, hleast⟩ := exists_pushed rising previous height rest
    have hforth : Reaches rising height pushed := ((hleast pushed).mp (reaches_refl rising pushed)).1
    have hback : Reaches rising pushed height := (hleast height).mpr ⟨reaches_refl rising height, hclears⟩
    rw [hcons, hback.antisymm hforth, ih hrest]

/-! ## All heights -/

theorem isRising_cons (first : K) (rest : List K) :
    isRising (first :: rest) = decide (first ≤ rest.getLastD first) := by
  unfold isRising
  rw [List.headD_cons, List.getLastD_cons]

theorem separatedHeights_eq (first : K) (rest : List K) :
    separatedHeights (first :: rest) = first :: separateFrom (isRising (first :: rest)) first rest := by
  rw [isRising_cons]
  rfl

theorem separates_separatedHeights (heights : List K) : Separates heights (separatedHeights heights) := by
  cases heights with
  | nil => exact ⟨rfl, .nil, .nil⟩
  | cons first rest =>
    rw [separatedHeights_eq]
    exact ⟨rfl, isChain_separateFrom _ first rest, .cons (reaches_refl _ first) (reaches_separateFrom _ first rest)⟩

theorem Separates.reached [IsStrictOrderedRing K] {heights other : List K} (h : Separates heights other) :
    List.Forall₂ (Reaches (isRising heights)) (separatedHeights heights) other := by
  obtain ⟨hhead, hapart, hfar⟩ := h
  cases hfar with
  | nil => exact .nil
  | @cons first start rest other hfirst hrest =>
    obtain rfl : start = first := Option.some.inj hhead
    rw [separatedHeights_eq]
    exact .cons hfirst (separateFrom_reaches hfirst hapart hrest)

/-- The last height is never pushed back past the first one. -/
theorem isRising_separateFrom (first : K) (rest : List K) :
    isRising (first :: separateFrom (isRising (first :: rest)) first rest) = isRising (first :: rest) := by
  have hlast := getLastD_reaches (reaches_separateFrom (isRising (first :: rest)) first rest) (reaches_refl _ first)
  rw [isRising_cons, isRising_cons] at *
  by_cases hrising : first ≤ rest.getLastD first
  · rw [decide_eq_true hrising] at *
    exact decide_eq_true (le_trans hrising hlast)
  · rw [decide_eq_false hrising] at *
    exact decide_eq_false fun hle => hrising (le_trans hle hlast)

theorem separatedHeights_of_separated (heights : List K) :
    separatedHeights (separatedHeights heights) = separatedHeights heights := by
  cases heights with
  | nil => rfl
  | cons first rest =>
    rw [separatedHeights_eq, separatedHeights_eq, isRising_separateFrom,
      separateFrom_of_isChain (isChain_separateFrom _ first rest)]

/-- Sections are put at the least advanced of all heights that do, as many as were asked for. Once they are there they
stay. -/
theorem separated_heights_least [IsStrictOrderedRing K] (heights : List K) :
    (separatedHeights heights).length = heights.length ∧ Separates heights (separatedHeights heights) ∧
      (∀ other, Separates heights other →
        List.Forall₂ (Reaches (isRising heights)) (separatedHeights heights) other) ∧
      separatedHeights (separatedHeights heights) = separatedHeights heights := by
  have hseparates := separates_separatedHeights heights
  exact ⟨hseparates.far.length_eq.symm, hseparates, fun other hother => hother.reached,
    separatedHeights_of_separated heights⟩

section

attribute [local instance] Elementary.none

/-- Heights that go down in the end, with the last one pushed down as well. -/
theorem falling_heights_least :
    separatedHeights [1, 2, 0, (1 / 2 : ℚ)] = [1, 999 / 1000, 0, -1 / 1000] ∧
      Separates [1, 2, 0, (1 / 2 : ℚ)] [1, 1 / 2, -1, -2] ∧
      List.Forall₂ (Reaches (isRising [1, 2, 0, (1 / 2 : ℚ)])) (separatedHeights [1, 2, 0, (1 / 2 : ℚ)])
        [1, 1 / 2, -1, -2] := by
  have hother : Separates [1, 2, 0, (1 / 2 : ℚ)] [1, 1 / 2, -1, -2] := by
    refine ⟨rfl, by decide +kernel, ?_⟩
    exact .cons (by decide +kernel)
      (.cons (by decide +kernel) (.cons (by decide +kernel) (.cons (by decide +kernel) .nil)))
  exact ⟨by decide +kernel, hother, (separated_heights_least _).2.2.1 _ hother⟩

end

end Loft

end SolidScript
