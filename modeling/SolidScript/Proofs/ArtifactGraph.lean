import SolidScript.Model.ArtifactGraph
import SolidScript.Proofs.NameMap

/-! # What showing, hiding and changing solids keeps -/

namespace SolidScript.ArtifactGraph

variable {α : Type}

/-! ## Looking up solids -/

theorem contains_iff (g : ArtifactGraph α) (id : String) :
    g.contains id = true ↔ ∃ a, g.get? id = some a := Option.isSome_iff_exists

theorem contains_eq_false_iff (g : ArtifactGraph α) (id : String) :
    g.contains id = false ↔ g.get? id = none := Option.isSome_eq_false_iff.trans Option.isNone_iff_eq_none

@[simp]
theorem get?_empty (id : String) : (empty : ArtifactGraph α).get? id = none := rfl

@[simp]
theorem get?_insertVisible (g : ArtifactGraph α) (a : Artifact α) (id : String) :
    (g.insertVisible a).get? id = if id = a.id then some a else g.get? id :=
  NameMap.get?_insert ..

@[simp]
theorem get?_modify (g : ArtifactGraph α) (name id : String) (f : Artifact α → Artifact α) :
    (g.modify name f).get? id = if id = name then (g.get? id).map f else g.get? id := by
  unfold modify
  split
  · rename_i a ha
    have hget := NameMap.get?_insert g.nodes name id (f a)
    by_cases h : id = name
    · subst h
      rw [if_pos rfl] at hget
      rw [if_pos rfl, ha]
      exact hget
    · rw [if_neg h] at hget ⊢
      exact hget
  · rename_i ha
    by_cases h : id = name
    · subst h; rw [if_pos rfl, ha]; rfl
    · rw [if_neg h]

theorem visible_modify (g : ArtifactGraph α) (name : String) (f : Artifact α → Artifact α) :
    (g.modify name f).visible = g.visible := by
  unfold modify
  split <;> rfl

@[simp]
theorem get?_hideAll (g : ArtifactGraph α) (names : List String) (id : String) :
    (names.foldl hide g).get? id = g.get? id := by
  induction names generalizing g with
  | nil => rfl
  | cons name rest ih => exact ih (g.hide name)

theorem visible_hideAll (g : ArtifactGraph α) (names : List String) :
    (names.foldl hide g).visible = g.visible.filter fun id => !names.contains id := by
  induction names generalizing g with
  | nil => simp
  | cons name rest ih =>
    rw [List.foldl_cons, ih, hide, List.filter_filter]
    refine List.filter_congr fun id _ => ?_
    rw [List.contains_cons, Bool.not_or, Bool.and_comm, bne]

theorem visible_insertVisible (g : ArtifactGraph α) (a : Artifact α) :
    (g.insertVisible a).visible = if a.id ∈ g.visible then g.visible else g.visible ++ [a.id] := by
  simp [insertVisible]

theorem mem_visible_insertVisible (g : ArtifactGraph α) (a : Artifact α) (id : String) :
    id ∈ (g.insertVisible a).visible ↔ id = a.id ∨ id ∈ g.visible := by
  rw [visible_insertVisible]
  split
  · rename_i hmem
    exact (or_iff_right_of_imp fun h => h ▸ hmem).symm
  · simp [or_comm]

/-! ## Sound graphs -/

/-- Visible names are listed once and have a solid. Each solid goes by its own name and has geometry. -/
structure Sound (g : ArtifactGraph α) : Prop where
  nodup : g.visible.Nodup
  known : ∀ id ∈ g.visible, g.contains id = true
  ownName : ∀ id a, g.get? id = some a → a.id = id
  solid : ∀ id a, g.get? id = some a → a.geometry.isSome = true

namespace Sound

variable {g : ArtifactGraph α}

theorem empty : (ArtifactGraph.empty : ArtifactGraph α).Sound :=
  ⟨List.nodup_nil, by simp [ArtifactGraph.empty], by simp, by simp⟩

theorem hide (h : g.Sound) (name : String) : (g.hide name).Sound where
  nodup := h.nodup.filter _
  known id hid := h.known id (List.mem_filter.mp hid).1
  ownName := h.ownName
  solid := h.solid

theorem hideAll (h : g.Sound) (names : List String) : (names.foldl ArtifactGraph.hide g).Sound := by
  induction names generalizing g with
  | nil => exact h
  | cons name rest ih => exact ih (h.hide name)

theorem insertVisible (h : g.Sound) (a : Artifact α) (ha : a.geometry.isSome = true) :
    (g.insertVisible a).Sound where
  nodup := by
    unfold ArtifactGraph.insertVisible
    split
    · exact h.nodup
    · rename_i hnew
      have hnot : ¬ a.id ∈ g.visible := fun hmem => hnew (List.contains_iff_mem.mpr hmem)
      refine List.nodup_append.mpr ⟨h.nodup, by simp, ?_⟩
      rintro x hx y hy rfl
      rw [List.mem_singleton] at hy
      exact hnot (hy ▸ hx)
  known id hid := by
    rw [contains_iff, get?_insertVisible]
    split
    · exact ⟨a, rfl⟩
    · rename_i hne
      have hmem := ((mem_visible_insertVisible g a id).mp hid).resolve_left hne
      exact (contains_iff g id).mp (h.known id hmem)
  ownName id b hb := by
    rw [get?_insertVisible] at hb
    split at hb
    · rename_i hid
      rw [hid, ← Option.some.inj hb]
    · exact h.ownName id b hb
  solid id b hb := by
    rw [get?_insertVisible] at hb
    split at hb
    · rw [← Option.some.inj hb]; exact ha
    · exact h.solid id b hb

theorem modify (h : g.Sound) (name : String) (f : Artifact α → Artifact α)
    (hname : ∀ a, (f a).id = a.id) (hsolid : ∀ a, (f a).geometry.isSome = true) :
    (g.modify name f).Sound where
  nodup := by rw [visible_modify]; exact h.nodup
  known id hid := by
    rw [visible_modify] at hid
    obtain ⟨a, ha⟩ := (contains_iff g id).mp (h.known id hid)
    rw [contains_iff, get?_modify, ha]
    split
    · exact ⟨f a, rfl⟩
    · exact ⟨a, rfl⟩
  ownName id b hb := by
    rw [get?_modify] at hb
    split at hb
    · obtain ⟨a, ha, rfl⟩ := Option.map_eq_some_iff.mp hb
      rw [hname, h.ownName id a ha]
    · exact h.ownName id b hb
  solid id b hb := by
    rw [get?_modify] at hb
    split at hb
    · obtain ⟨a, -, rfl⟩ := Option.map_eq_some_iff.mp hb
      exact hsolid a
    · exact h.solid id b hb

end Sound

end SolidScript.ArtifactGraph
