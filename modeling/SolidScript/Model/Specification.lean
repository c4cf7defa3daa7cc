import SolidScript.Model.Operation

/-!
# Specifications

The entries of a script, kept category by category. They are looked at in that order, or in the order
of their lines.
-/

namespace SolidScript

structure Entry where
  id : String
  /-- Counted from one, and zero when the entry comes from no script. -/
  line : Nat
  operation : Operation

namespace Entry

def category (e : Entry) : Category := e.operation.category

def sources (e : Entry) : List String := e.operation.sources

def isGenerative (e : Entry) : Bool := e.operation.isGenerative

/-- Name of the solid that is made or changed. -/
def target (e : Entry) : String := if e.isGenerative then e.id else e.sources.headD e.id

end Entry

structure Specification where
  /-- In the order of their declaration. -/
  inCategory : Category → List Entry
  category_eq : ∀ c, ∀ e ∈ inCategory c, e.category = c

namespace Specification

/-- Sorts entries into their categories, where they keep their order. -/
def ofEntries (entries : List Entry) : Specification :=
  ⟨fun c => entries.filter fun e => e.category == c, by simp⟩

def empty : Specification := ofEntries []

/-- Category by category, in each one as declared. -/
def byCategory (s : Specification) : List Entry := Category.all.flatMap s.inCategory

/-- By lines. Entries of one line stay by category. -/
def byLine (s : Specification) : List Entry := s.byCategory.mergeSort fun a b => a.line ≤ b.line

def size (s : Specification) : Nat := s.byCategory.length

def isEmpty (s : Specification) : Bool := s.byCategory.isEmpty

def contains (s : Specification) (id : String) : Bool := s.byCategory.any fun e => e.id == id

/-- Category of the entry that makes a solid. -/
def producerCategory? (s : Specification) (id : String) : Option Category :=
  (s.byCategory.find? fun e => e.isGenerative && e.id == id).map Entry.category

end Specification

end SolidScript
