/-!
# Values by name

A map is the list of its entries in the order of names, so that equal maps are equal lists.
-/

namespace SolidScript

structure NameMap (β : Type) where
  entries : List (String × β)
  ascending : entries.Pairwise fun a b => a.1 < b.1

namespace NameMap

variable {β : Type}

/-- Puts a value where its name belongs, in place of another one of that name. -/
def insertInto (name : String) (b : β) : List (String × β) → List (String × β)
  | [] => [(name, b)]
  | e :: rest =>
    if name < e.1 then (name, b) :: e :: rest
    else if e.1 < name then e :: insertInto name b rest
    else (name, b) :: rest

theorem mem_insertInto {name : String} {b : β} {l : List (String × β)} {e : String × β}
    (h : e ∈ insertInto name b l) : e = (name, b) ∨ e ∈ l := by
  induction l with
  | nil => simpa [insertInto] using h
  | cons e' rest ih =>
    simp only [insertInto] at h
    split at h
    · simpa using h
    · split at h
      · rcases List.mem_cons.1 h with rfl | h
        · simp
        · rcases ih h with h | h <;> simp [h]
      · rcases List.mem_cons.1 h with h | h <;> simp [h]

theorem ascending_insertInto (name : String) (b : β) {l : List (String × β)}
    (h : l.Pairwise fun a b => a.1 < b.1) : (insertInto name b l).Pairwise fun a b => a.1 < b.1 := by
  induction l with
  | nil => simp [insertInto]
  | cons e rest ih =>
    rw [List.pairwise_cons] at h
    simp only [insertInto]
    split
    case isTrue below =>
      refine List.pairwise_cons.2 ⟨fun e' he' => ?_, List.pairwise_cons.2 h⟩
      rcases List.mem_cons.1 he' with rfl | he'
      · exact below
      · exact String.lt_trans below (h.1 e' he')
    case isFalse notBelow =>
      split
      case isTrue above =>
        refine List.pairwise_cons.2 ⟨fun e' he' => ?_, ih h.2⟩
        rcases mem_insertInto he' with rfl | he'
        · exact above
        · exact h.1 e' he'
      case isFalse notAbove =>
        have same : name = e.1 := String.le_antisymm (String.not_lt.1 notAbove) (String.not_lt.1 notBelow)
        exact List.pairwise_cons.2 ⟨fun e' he' => same ▸ h.1 e' he', h.2⟩

def empty : NameMap β := ⟨[], List.Pairwise.nil⟩

def insert (m : NameMap β) (name : String) (b : β) : NameMap β :=
  ⟨insertInto name b m.entries, ascending_insertInto name b m.ascending⟩

def get? (m : NameMap β) (name : String) : Option β := m.entries.lookup name

def contains (m : NameMap β) (name : String) : Bool := (m.get? name).isSome

/-- Of two values with one name the later one stays. -/
def ofList (entries : List (String × β)) : NameMap β :=
  entries.foldl (fun m (name, b) => m.insert name b) empty

end NameMap

end SolidScript
