import Mathlib
import SolidScript.NameMap

/-! # Looking up names -/

namespace SolidScript.NameMap

variable {β : Type}

theorem lookup_cons_if (id : String) (e : String × β) (l : List (String × β)) :
    (e :: l).lookup id = if id = e.1 then some e.2 else l.lookup id := by
  by_cases h : id = e.1
  · subst h; simp [List.lookup]
  · have hb : (id == e.1) = false := beq_false_of_ne h
    simp [List.lookup, hb, h]

theorem lookup_eq_some_iff {l : List (String × β)} (h : (l.map Prod.fst).Nodup) (name : String) (b : β) :
    l.lookup name = some b ↔ (name, b) ∈ l := by
  induction l with
  | nil => simp
  | cons e rest ih =>
    obtain ⟨hfirst, hrest⟩ := List.nodup_cons.mp h
    rw [lookup_cons_if, List.mem_cons]
    split
    · rename_i hname
      subst hname
      have hnot : (e.1, b) ∉ rest := fun hmem => hfirst (List.mem_map.mpr ⟨_, hmem, rfl⟩)
      simp [hnot, Prod.ext_iff, eq_comm]
    · rename_i hname
      rw [ih hrest]
      simp [Prod.ext_iff, hname]

theorem lookup_insertInto (name id : String) (b : β) (l : List (String × β)) :
    (insertInto name b l).lookup id = if id = name then some b else l.lookup id := by
  induction l with
  | nil => rw [insertInto, lookup_cons_if]
  | cons e rest ih =>
    rw [insertInto]
    split
    case isTrue => rw [lookup_cons_if]
    case isFalse notBelow =>
      split
      case isTrue above =>
        rw [lookup_cons_if, lookup_cons_if, ih]
        by_cases he : id = e.1
        · have hne : ¬ id = name := by
            rintro rfl
            exact String.lt_irrefl _ (he ▸ above)
          rw [if_pos he, if_neg hne, if_pos he]
        · rw [if_neg he, if_neg he]
      case isFalse notAbove =>
        have same : name = e.1 :=
          String.le_antisymm (String.not_lt.1 notAbove) (String.not_lt.1 notBelow)
        rw [lookup_cons_if, lookup_cons_if, same]
        split <;> rfl

@[simp]
theorem get?_empty (id : String) : (empty : NameMap β).get? id = none := rfl

@[simp]
theorem get?_insert (m : NameMap β) (name id : String) (b : β) :
    (m.insert name b).get? id = if id = name then some b else m.get? id :=
  lookup_insertInto name id b m.entries

/-! ## Maps by what they hold -/

theorem nodup_names (m : NameMap β) : (m.entries.map Prod.fst).Nodup := by
  refine List.Pairwise.map _ ?_ m.ascending
  intro a b hab heq
  exact String.lt_irrefl _ (heq ▸ hab)

theorem mem_entries (m : NameMap β) (id : String) (b : β) : (id, b) ∈ m.entries ↔ m.get? id = some b :=
  (lookup_eq_some_iff (nodup_names m) id b).symm

theorem mem_names (m : NameMap β) (id : String) : id ∈ m.entries.map Prod.fst ↔ m.contains id = true := by
  unfold contains
  rw [Option.isSome_iff_exists]
  simp [mem_entries]

/-- Maps that hold the same values are equal. -/
theorem eq_of_get? {m n : NameMap β} (h : ∀ id, m.get? id = n.get? id) : m = n := by
  have hmem : ∀ e, e ∈ m.entries ↔ e ∈ n.entries := by
    rintro ⟨id, b⟩
    rw [mem_entries, mem_entries, h]
  have hperm : m.entries.Perm n.entries :=
    (List.perm_ext_iff_of_nodup (nodup_names m).of_map (nodup_names n).of_map).mpr hmem
  have heq : m.entries = n.entries := by
    refine hperm.eq_of_pairwise ?_ m.ascending n.ascending
    intro a b _ _ hab hba
    exact absurd (String.lt_trans hab hba) (String.lt_irrefl _)
  cases m
  cases n
  cases heq
  rfl

end SolidScript.NameMap
