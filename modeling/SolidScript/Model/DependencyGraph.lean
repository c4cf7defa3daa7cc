import SolidScript.Model.Schedule

/-!
# Counting down

The order of a schedule, found in a single pass: each place counts those that it waits for, and is ready once
none is left. Links are kept in both directions for that.
-/

namespace SolidScript

/-- For each place, those linked behind it and those linked before it, in the order of linking. -/
structure DependencyGraph where
  count : Nat
  children : Nat → List Nat
  parents : Nat → List Nat

namespace DependencyGraph

def unlinked (count : Nat) : DependencyGraph := ⟨count, fun _ => [], fun _ => []⟩

/-- Puts one place before another one. No place comes before itself, and no two are linked twice. -/
def link (g : DependencyGraph) (i j : Nat) : DependencyGraph :=
  if i = j then g
  else if (g.children i).contains j then g
  else
    { g with
      children := fun k => if k = i then g.children k ++ [j] else g.children k
      parents := fun k => if k = j then g.parents k ++ [i] else g.parents k }

/-- Puts each place before the next one. -/
def linkAll (g : DependencyGraph) : List Nat → DependencyGraph
  | i :: j :: rest => (g.link i j).linkAll (j :: rest)
  | _ => g

/-- Links the entries that touch the solids of some names, one name after another. -/
def ofNames (entries : List Entry) (names : List String) : DependencyGraph :=
  names.foldl (fun g id => g.linkAll (Precedence.chain entries id)) (unlinked entries.length)

end DependencyGraph

/-- Who makes and who reads the solids of some names. -/
structure Usage where
  maker? : String → Option Nat
  readers : String → List Nat
  /-- The names that have readers. -/
  names : List String

namespace Usage

def empty : Usage := ⟨fun _ => none, fun _ => [], []⟩

/-- Of all that make a solid the first one counts. -/
def make (u : Usage) (place : Nat) (id : String) : Usage :=
  { u with maker? := fun k => if k = id then (u.maker? k).or (some place) else u.maker? k }

/-- Whoever reads a solid is listed once. -/
def read (u : Usage) (place : Nat) (id : String) : Usage :=
  { u with
    readers := fun k =>
      if k = id ∧ place ∉ u.readers k then u.readers k ++ [place] else u.readers k
    names := u.names.insert id }

def add (u : Usage) (e : Entry) (place : Nat) : Usage :=
  e.sources.foldl (fun u id => u.read place id) (if e.isGenerative then u.make place e.id else u)

def ofEntries (entries : List Entry) : Usage :=
  entries.zipIdx.foldl (fun u (e, place) => u.add e place) empty

/-- Links those that use a solid, one name after another. -/
def graph (u : Usage) (count : Nat) (names : List String) : DependencyGraph :=
  names.foldl (fun g id => g.linkAll ((u.maker? id).toList ++ u.readers id)) (DependencyGraph.unlinked count)

end Usage

structure Countdown where
  /-- How many places have to be taken before a place that has not been taken itself. -/
  pending : Nat → Option Nat
  /-- The places that wait for none. -/
  ready : List Nat
  /-- The places that have been taken. -/
  order : List Nat

namespace Countdown

def start (g : DependencyGraph) : Countdown where
  pending i := if i < g.count then some (g.parents i).length else none
  ready := (List.range g.count).filter fun i => (g.parents i).length == 0
  order := []

def take (s : Countdown) (i : Nat) : Countdown where
  pending k := if k = i then none else s.pending k
  ready := s.ready.erase i
  order := s.order ++ [i]

/-- One place less to wait for. Nothing is counted below zero. -/
def release? (s : Countdown) (i : Nat) : Option Countdown :=
  match s.pending i with
  | none => some s
  | some 0 => none
  | some (n + 1) =>
    some { s with
      pending := fun k => if k = i then some n else s.pending k
      ready := if n = 0 then s.ready.insert i else s.ready }

/-- What has been taken, and what never will be. -/
def schedule (g : DependencyGraph) (s : Countdown) : Schedule :=
  ⟨s.order, (List.range g.count).filter fun i => (s.pending i).isSome⟩

/-- Takes the least place that is ready, and releases those behind it, until none is ready. The fuel bounds
the number of places. -/
def run? (g : DependencyGraph) (fuel : Nat) (s : Countdown) : Option Schedule :=
  match s.ready.min?, fuel with
  | none, _ => some (s.schedule g)
  | some _, 0 => none
  | some i, fuel + 1 => do
    let s ← (g.children i).foldlM release? (s.take i)
    run? g fuel s

end Countdown

/-- The schedule of a graph, unless a count falls below zero. -/
def DependencyGraph.sort? (g : DependencyGraph) : Option Schedule := Countdown.run? g g.count (Countdown.start g)

end SolidScript
