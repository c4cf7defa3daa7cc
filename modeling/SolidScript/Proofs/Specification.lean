import Mathlib
import SolidScript.Model.Specification

/-!
# What a specification holds

Entries that are sorted into categories are the same entries, each in its own category.
-/

namespace SolidScript

namespace Specification

theorem mem_all (c : Category) : c ∈ Category.all := by cases c <;> decide

theorem nodup_all : Category.all.Nodup := by decide

theorem mem_byCategory (s : Specification) (e : Entry) : e ∈ s.byCategory ↔ e ∈ s.inCategory e.category := by
  unfold byCategory
  rw [List.mem_flatMap]
  constructor
  · rintro ⟨c, -, he⟩
    rwa [s.category_eq c e he]
  · exact fun he => ⟨e.category, mem_all _, he⟩

theorem eq_of_inCategory {s t : Specification} (h : s.inCategory = t.inCategory) : s = t := by
  cases s
  cases t
  cases h
  rfl

theorem disjoint_inCategory (s : Specification) {c d : Category} (hne : c ≠ d) :
    (s.inCategory c).Disjoint (s.inCategory d) :=
  fun e hc hd => hne ((s.category_eq c e hc).symm.trans (s.category_eq d e hd))

theorem mem_ofEntries {entries : List Entry} {e : Entry} : e ∈ (ofEntries entries).byCategory ↔ e ∈ entries := by
  rw [mem_byCategory]
  simp [ofEntries]

theorem byCategory_ofEntries {entries : List Entry} (hdistinct : entries.Nodup) :
    (ofEntries entries).byCategory.Perm entries := by
  refine (List.perm_ext_iff_of_nodup ?_ hdistinct).mpr fun e => mem_ofEntries
  refine List.nodup_flatMap.mpr ⟨fun c _ => hdistinct.filter _, ?_⟩
  exact nodup_all.imp fun hne => disjoint_inCategory _ hne

end Specification

end SolidScript
