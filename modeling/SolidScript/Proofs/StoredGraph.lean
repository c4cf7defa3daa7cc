import SolidScript.Proofs.LoadedGraph
import SolidScript.Proofs.ReadBack

/-!
# Graphs that are stored and loaded again

A graph that is written and read is the same graph, as long as its floats are finite and its meshes are sound. One
float in a mesh or a primitive that is not finite makes the whole payload unreadable.
-/

namespace SolidScript

open Json

/-! ## Solids -/

theorem Mesh.isStorable_iff (m : Mesh Float) :
    m.isStorable = true ↔
      (m.Finite ∧ ∀ ns ∈ m.normals, ∀ n ∈ ns, n.isFinite = true) ∧ m.Valid ∧ ∀ i ∈ m.indices, i < twoTo 32 := by
  unfold isStorable
  simp only [Bool.and_eq_true, List.all_eq_true, hasBits, decide_eq_true_eq, Option.all_eq_true,
    Option.isNone_iff_eq_none, fault?_eq_none_iff, checked_iff, Array.mem_toList_iff, Option.mem_def]
  tauto

namespace Artifact

def isStorable (a : Artifact Float) : Bool := a.geometry.all Mesh.isStorable && a.origin.all Primitive.isStorable

theorem record_toJson (a : Artifact Float) : ∃ r, Record.of? ["id", "type", "geometry", "spec"] a.toJson = some r ∧
    r.named = true ∧ r.get? "id" = some (str a.id) ∧ r.get? "type" = some (str "solid") ∧
    r.get? "geometry" = some (Json.ofOption (a.geometry.map Mesh.toJson)) ∧
    r.get? "spec" = a.origin.map Primitive.toJson := by
  refine ⟨_, rfl, rfl, by simp, by simp, by simp, ?_⟩
  cases a.origin <;> simp

theorem readsBack : ReadsBack toJson ofJson? isStorable := by
  intro a
  obtain ⟨r, hr, hnamed, hid, htype, hgeometry, hspec⟩ := record_toJson a
  have hid' : r.need "id" str? = some a.id := by simp [Record.need, hid, str?]
  have htype' : r.getOr "type" solidType? () = some () := by simp [Record.getOr, htype, solidType?]
  have hgeometry' := Record.optional_of_get? Mesh.readsBack (fun _ _ => by simp [Mesh.toJson]) (.inr hgeometry)
  have hspec' := Record.optional_of_get? Primitive.readsBack (fun _ _ => by simp [Primitive.toJson]) (.inl hspec)
  unfold ofJson?
  rw [hr]
  simp only [Option.bind_eq_bind, Option.bind_some, hid', htype', hnamed, Bool.not_true, Bool.false_and,
    Bool.false_eq_true, if_false, hgeometry', hspec', guard_bind]
  simp only [Option.guard_eq_ite, isStorable, Bool.and_eq_true, ite_and]
  rfl

/-- Each float of a solid, in its mesh and in the primitive that it is. -/
structure Finite (a : Artifact Float) : Prop where
  vertices : ∀ m ∈ a.geometry, m.Finite
  normals : ∀ m ∈ a.geometry, ∀ ns ∈ m.normals, ∀ n ∈ ns, n.isFinite = true
  origin : ∀ p ∈ a.origin, p.isFinite = true

/-- Buffers that fit together, and indices and counts of 32 bits. -/
structure WellFormed (a : Artifact Float) : Prop where
  valid : ∀ m ∈ a.geometry, m.Valid
  indices : ∀ m ∈ a.geometry, ∀ i ∈ m.indices, i < twoTo 32
  counts : ∀ p ∈ a.origin, p.hasWordCounts = true

theorem isStorable_iff (a : Artifact Float) : a.isStorable = true ↔ a.Finite ∧ a.WellFormed := by
  unfold isStorable
  simp only [Bool.and_eq_true, Option.all_eq_true, Mesh.isStorable_iff, Primitive.isStorable]
  constructor
  · rintro ⟨hmesh, horigin⟩
    exact ⟨⟨fun m hm => (hmesh m hm).1.1, fun m hm => (hmesh m hm).1.2, fun p hp => (horigin p hp).1⟩,
      ⟨fun m hm => (hmesh m hm).2.1, fun m hm => (hmesh m hm).2.2, fun p hp => (horigin p hp).2⟩⟩
  · rintro ⟨hfinite, hformed⟩
    exact ⟨fun m hm => ⟨⟨hfinite.vertices m hm, hfinite.normals m hm⟩, hformed.valid m hm, hformed.indices m hm⟩,
      fun p hp => ⟨hfinite.origin p hp, hformed.counts p hp⟩⟩

end Artifact

/-! ## Graphs -/

namespace NameMap

variable {β : Type}

theorem ofList_entries (m : NameMap β) : ofList m.entries = m := by
  apply eq_of_get?
  intro name
  rw [get?_ofList]
  ext b
  have hreverse : (m.entries.reverse.map Prod.fst).Nodup := by
    rw [List.map_reverse, List.nodup_reverse]
    exact m.nodup_names
  rw [lookup_eq_some_iff hreverse, List.mem_reverse, mem_entries]

end NameMap

namespace ArtifactGraph

theorem readsBack_str : ReadsBack str str? fun _ => true := fun _ => rfl

theorem mapM_nodes (entries : List (String × Artifact Float)) :
    (entries.map fun e => (e.1, e.2.toJson)).mapM (fun (id, node) => (Artifact.ofJson? node).map fun a => (id, a)) =
      Option.guard (List.all · (·.2.isStorable)) entries := by
  rw [List.mapM_map, ← mapM_guard]
  congr 1
  funext e
  change (Artifact.ofJson? e.2.toJson).map (fun a => (e.1, a)) = Option.guard (·.2.isStorable) e
  rw [Artifact.readsBack e.2, Option.guard_eq_ite, Option.guard_eq_ite]
  split <;> rfl

theorem ofFields?_toJson (g : ArtifactGraph Float) :
    ofFields? g.toJson = if g.nodes.entries.all (·.2.isStorable) then some g else none := by
  have hvisible := readsBack_str.list.sound (b := g.visible) (by simp)
  unfold ofFields? toJson Record.ofObject?
  simp only [obj?, Option.map_some, Option.bind_eq_bind, Option.bind_some, Record.need, Record.get?_cons, if_true,
    hvisible, String.reduceEq, if_false, mapM_nodes, guard_bind, NameMap.ofList_entries]
  rfl

theorem all_isStorable_iff (g : ArtifactGraph Float) :
    g.nodes.entries.all (·.2.isStorable) = true ↔ ∀ id a, g.get? id = some a → a.Finite ∧ a.WellFormed := by
  simp only [List.all_eq_true, Prod.forall, NameMap.mem_entries, Artifact.isStorable_iff]
  rfl

theorem ofJson_of_malformed {fields : List (String × Json)} (hread : ofFields? (obj fields) = none) :
    ofJson (obj fields) = .error .malformed := by
  unfold ofJson
  simp only [hread]
  rfl

theorem ofJson_of_known {fields : List (String × Json)} {g : ArtifactGraph Float} (hread : ofFields? (obj fields) = some g)
    (hknown : g.Known) : ofJson (obj fields) = .ok g := by
  have hvisible : (g.visible.find? fun id => !g.contains id) = none := by
    rw [List.find?_eq_none]
    intro id hid
    simp [hknown id hid]
  unfold ofJson
  simp only [hread, hvisible]
  rfl

/-- A graph reads back as it was where each visible name has a node, its meshes are well formed and all of its floats
are finite. With one float that is not finite it does not read at all. -/
theorem stored_graph_reads_back (g : ArtifactGraph Float) :
    (g.Known → (∀ id a, g.get? id = some a → a.Finite ∧ a.WellFormed) → ofJson g.toJson = .ok g) ∧
    (∀ id a, g.get? id = some a → ¬ a.Finite → ofJson g.toJson = .error .malformed) := by
  constructor
  · intro hknown hsound
    refine ofJson_of_known ?_ hknown
    exact (ofFields?_toJson g).trans (if_pos ((all_isStorable_iff g).mpr hsound))
  · intro id a ha hinfinite
    refine ofJson_of_malformed ((ofFields?_toJson g).trans (if_neg fun hall => ?_))
    exact hinfinite ((all_isStorable_iff g).mp hall id a ha).1

/-- One solid that is shown and one that is not, with a height that may be anything. -/
def cylinderAndGhost (height : Float) : ArtifactGraph Float where
  visible := ["a"]
  nodes := NameMap.ofList [
    ("a", ⟨"a",
      some ⟨#[⟨0.0, 0.0, 0.0⟩, ⟨1.0, 0.0, 0.0⟩, ⟨0.0, height, 0.0⟩], #[⟨0, 1, 2⟩],
        some #[⟨0.0, 0.0, 1.0⟩, ⟨0.0, 0.0, 1.0⟩, ⟨0.0, 0.0, 1.0⟩]⟩,
      some (.cylinder 1.0 height ⟨0.0, 0.0, 0.0⟩ 32)⟩),
    ("b", ⟨"c", none, none⟩)]

theorem cylinderAndGhost_reads_back :
    let sound := cylinderAndGhost 0.5
    let broken := cylinderAndGhost (1.0 / 0.0)
    sound.Known ∧ (∀ id a, sound.get? id = some a → a.Finite ∧ a.WellFormed) ∧ ofJson sound.toJson = .ok sound ∧
      (∃ a, broken.get? "a" = some a ∧ ¬ a.Finite) ∧ ofJson broken.toJson = .error .malformed := by
  intro sound broken
  have hknown : sound.Known := by
    intro id hid
    cases List.mem_singleton.mp hid
    rfl
  have hsound : ∀ id a, sound.get? id = some a → a.Finite ∧ a.WellFormed :=
    (all_isStorable_iff sound).mp (by decide +kernel)
  have hbroken : ∃ a, broken.get? "a" = some a ∧ ¬ a.Finite := by
    refine ⟨_, rfl, fun h => ?_⟩
    have hfinite := h.origin _ rfl
    exact absurd hfinite (by decide +kernel)
  obtain ⟨a, ha, hinfinite⟩ := hbroken
  exact ⟨hknown, hsound, (stored_graph_reads_back sound).1 hknown hsound, ⟨a, ha, hinfinite⟩,
    (stored_graph_reads_back broken).2 "a" a ha hinfinite⟩

end ArtifactGraph

end SolidScript
