import SolidScript.Model.Specification

/-!
# Schedules

Entries that touch one solid run in the order of their declaration, behind the entry that makes it.
Of all entries that may run the first declared goes first. Entries on a cycle are never ready.
-/

namespace SolidScript

/-- Which entry runs before which, by their places. -/
structure Precedence where
  count : Nat
  /-- The first of each pair runs before the second. -/
  pairs : List (Nat × Nat)

namespace Precedence

/-- Places of the entries that read a solid. -/
def readers (entries : List Entry) (id : String) : List Nat :=
  (entries.zipIdx.filter fun (e, _) => e.sources.contains id).map Prod.snd

/-- Place of the first entry that makes a solid. -/
def producer? (entries : List Entry) (id : String) : Option Nat :=
  entries.findIdx? fun e => e.isGenerative && e.id == id

/-- All that touch a solid, in the order in which they run. -/
def chain (entries : List Entry) (id : String) : List Nat :=
  (producer? entries id).toList ++ readers entries id

/-- An entry that reads what it makes does not run before itself. -/
def links (entries : List Entry) (id : String) : List (Nat × Nat) :=
  let c := chain entries id
  (c.zip (c.drop 1)).filter fun (i, j) => i != j

/-- Links the entries that touch the solids of some names, one name after another. -/
def ofNames (entries : List Entry) (names : List String) : Precedence :=
  { count := entries.length
    pairs := (names.flatMap (links entries)).eraseDups }

/-- Links all entries. A solid that no entry reads links none. -/
def ofEntries (entries : List Entry) : Precedence := ofNames entries (entries.flatMap Entry.sources).eraseDups

def isEmpty (p : Precedence) : Bool := p.count == 0

/-- Places that have to come before a place. -/
def parents (p : Precedence) (i : Nat) : List Nat := (p.pairs.filter fun (_, j) => j == i).map Prod.fst

end Precedence

structure Schedule where
  order : List Nat
  /-- Places that cannot be put into any order. -/
  cyclic : List Nat
deriving DecidableEq, Repr

namespace Schedule

/-- Takes the first place that waits for none of the others, again and again. The fuel bounds the
number of places. -/
def sortFrom (parents : Nat → List Nat) : (fuel : Nat) → (waiting done : List Nat) → Schedule
  | 0, waiting, done => ⟨done.reverse, waiting⟩
  | fuel + 1, waiting, done =>
    match waiting.find? fun i => !(parents i).any waiting.contains with
    | some i => sortFrom parents fuel (waiting.erase i) (i :: done)
    | none => ⟨done.reverse, waiting⟩

def ofPrecedence (p : Precedence) : Schedule := sortFrom p.parents p.count (List.range p.count) []

end Schedule

end SolidScript
