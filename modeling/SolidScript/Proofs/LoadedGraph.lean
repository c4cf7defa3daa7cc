import SolidScript.Proofs.ArtifactGraph
import SolidScript.Proofs.MeshChecks
import SolidScript.Proofs.Steps

/-!
# Graphs that are read

A payload is refused unless each visible name has a node and each mesh passes its checks. Nothing is asked of the
names themselves: one may be listed twice, and a node may carry another name than the one it is found by. Showing
and hiding adds no such case.
-/

namespace SolidScript

/-! ## Readers -/

theorem NameMap.get?_foldl_insert {β : Type} (entries : List (String × β)) (m : NameMap β) (name : String) :
    (entries.foldl (fun m (e : String × β) => m.insert e.1 e.2) m).get? name =
      (entries.reverse.lookup name).or (m.get? name) := by
  induction entries generalizing m with
  | nil => simp
  | cons e rest ih =>
    rw [List.foldl_cons, ih, NameMap.get?_insert, List.reverse_cons, List.lookup_append, Option.or_assoc]
    congr 1
    rw [NameMap.lookup_cons_if]
    split <;> simp

theorem NameMap.get?_ofList {β : Type} (entries : List (String × β)) (name : String) :
    (NameMap.ofList entries).get? name = entries.reverse.lookup name := by
  unfold NameMap.ofList
  rw [NameMap.get?_foldl_insert, NameMap.get?_empty, Option.or_none]

theorem NameMap.mem_of_get?_ofList {β : Type} {entries : List (String × β)} {name : String} {b : β}
    (h : (NameMap.ofList entries).get? name = some b) : (name, b) ∈ entries := by
  rw [NameMap.get?_ofList, List.lookup_eq_some_iff] at h
  obtain ⟨before, behind, h, -⟩ := h
  rw [← List.mem_reverse, h]
  simp

theorem Record.optional_eq_some {β : Type} {r : Record} {name : String} {read : Json → Option β} {b : β}
    (h : r.optional name read = some (some b)) : ∃ j, read j = some b := by
  unfold Record.optional Record.getOr at h
  split at h
  · rename_i j _
    unfold Record.nullable at h
    split at h
    · cases h
    · obtain ⟨b', hb', heq⟩ := Option.map_eq_some_iff.mp h
      cases heq
      exact ⟨_, hb'⟩
  · cases h

theorem Mesh.checked_of_ofJson? {j : Json} {m : Mesh Float} (h : Mesh.ofJson? j = some m) : m.Checked := by
  unfold Mesh.ofJson? at h
  simp only [Option.bind_eq_bind, Option.bind_eq_some_iff] at h
  obtain ⟨r, -, vertices, -, indices, -, normals, -, h⟩ := h
  cases hbuffers : Mesh.ofBuffers vertices.toArray indices (normals.map List.toArray) with
  | error e =>
    rw [hbuffers] at h
    cases h
  | ok m' =>
    rw [hbuffers] at h
    cases h
    exact Mesh.checked_of_ofBuffers hbuffers

def Artifact.Checked (a : Artifact Float) : Prop := ∀ m, a.geometry = some m → m.Checked

theorem Artifact.checked_of_ofJson? {j : Json} {a : Artifact Float} (h : Artifact.ofJson? j = some a) : a.Checked := by
  unfold Artifact.ofJson? at h
  simp only [Option.bind_eq_bind, Option.bind_eq_some_iff] at h
  obtain ⟨r, -, id, -, -, -, h⟩ := h
  split at h
  · cases h
  · simp only [Option.bind_eq_some_iff] at h
    obtain ⟨geometry, hgeometry, origin, -, h⟩ := h
    cases h
    rintro m rfl
    obtain ⟨j', hm⟩ := Record.optional_eq_some hgeometry
    exact Mesh.checked_of_ofJson? hm

namespace ArtifactGraph

/-! ## What is kept -/

section Properties

variable (g : ArtifactGraph Float)

def Known : Prop := ∀ id ∈ g.visible, g.contains id = true

def OwnNames : Prop := ∀ id a, g.get? id = some a → a.id = id

def Checked : Prop := ∀ id a, g.get? id = some a → a.Checked

/-- What graphs are meant to be. -/
structure Proper : Prop where
  distinct : g.visible.Nodup
  known : g.Known
  ownNames : g.OwnNames
  checked : g.Checked

end Properties

theorem read_of_ofJson {j : Json} {g : ArtifactGraph Float} (h : ofJson j = .ok g) :
    ∃ fields nodes, j = .obj fields ∧
      fields.lookup "artifacts" >>= Json.listOf? Json.str? = some g.visible ∧
      fields.lookup "nodes" >>= Json.obj? = some nodes ∧
      (∀ id a, g.get? id = some a → ∃ node, (id, node) ∈ nodes ∧ Artifact.ofJson? node = some a) ∧ g.Known := by
  unfold ofJson at h
  split at h
  · rename_i fields
    split at h
    · cases h
    · rename_i g' hread
      split at h
      · cases h
      · rename_i hfind
        cases h
        unfold ofFields? at hread
        simp only [Option.bind_eq_bind, Option.bind_eq_some_iff] at hread
        obtain ⟨r, hr, visible, hvisible, nodeFields, hnodes, nodes, hmap, hg⟩ := hread
        cases hr
        cases hg
        refine ⟨fields, nodeFields, rfl, hvisible, hnodes, ?_, ?_⟩
        · intro id a ha
          obtain ⟨⟨name, node⟩, hmem, hnode⟩ := mem_of_mapM_eq_some hmap (NameMap.mem_of_get?_ofList ha)
          obtain ⟨a', ha', heq⟩ := Option.map_eq_some_iff.mp hnode
          cases heq
          exact ⟨node, hmem, ha'⟩
        · intro id hid
          have hnot := List.find?_eq_none.mp hfind id hid
          simpa using hnot
  · cases h

theorem checked_of_ofJson {j : Json} {g : ArtifactGraph Float} (h : ofJson j = .ok g) : g.Checked := by
  obtain ⟨_, _, -, -, -, hnodes, -⟩ := read_of_ofJson h
  intro id a ha
  obtain ⟨node, -, hnode⟩ := hnodes id a ha
  exact Artifact.checked_of_ofJson? hnode

/-! ## Calls -/

inductive Call where
  | insert (a : Artifact Float)
  | hide (id : String)

def Call.run (g : ArtifactGraph Float) : Call → ArtifactGraph Float
  | insert a => g.insertVisible a
  | hide id => g.hide id

def Call.Checked : Call → Prop
  | insert a => a.Checked
  | hide _ => True

section Calls

variable {g : ArtifactGraph Float} {c : Call}

theorem Known.run (h : g.Known) : (c.run g).Known := by
  cases c with
  | insert a =>
    intro id hid
    unfold Call.run
    rw [contains_iff, get?_insertVisible]
    split
    · exact ⟨a, rfl⟩
    · rename_i hne
      exact (contains_iff g id).mp (h id (((mem_visible_insertVisible g a id).mp hid).resolve_left hne))
  | hide name =>
    intro id hid
    exact h id (List.mem_filter.mp hid).1

theorem Checked.run (h : g.Checked) (hc : c.Checked) : (c.run g).Checked := by
  cases c with
  | insert a =>
    intro id b hb
    unfold Call.run at hb
    rw [get?_insertVisible] at hb
    split at hb
    · cases hb
      exact hc
    · exact h id b hb
  | hide name => exact h

theorem count_run (id : String) : (c.run g).visible.count id ≤ max 1 (g.visible.count id) := by
  cases c with
  | insert a =>
    unfold Call.run insertVisible
    dsimp only
    split
    · exact Nat.le_max_right _ _
    · rename_i hnew
      have hnot : a.id ∉ g.visible := fun hmem => hnew (List.contains_iff_mem.mpr hmem)
      rw [List.count_append, List.count_singleton]
      split
      · rename_i hid
        rw [beq_iff_eq] at hid
        subst hid
        rw [List.count_eq_zero_of_not_mem hnot]
        exact Nat.le_max_left _ _
      · exact Nat.le_max_right _ _
  | hide name => exact le_max_of_le_right ((List.filter_sublist).count_le id)

theorem get?_run {id : String} {a : Artifact Float} (h : (c.run g).get? id = some a) :
    a.id = id ∨ g.get? id = some a := by
  cases c with
  | insert b =>
    unfold Call.run at h
    rw [get?_insertVisible] at h
    split at h
    · rename_i hid
      cases h
      exact Or.inl hid.symm
    · exact Or.inr h
  | hide name => exact Or.inr h

end Calls

/-- What a graph keeps of another one that it came from by calls. -/
structure CameFrom (g g' : ArtifactGraph Float) : Prop where
  known : g'.Known
  checked : g'.Checked
  count_le : ∀ id, g'.visible.count id ≤ max 1 (g.visible.count id)
  ownOrOld : ∀ id a, g'.get? id = some a → a.id = id ∨ g.get? id = some a

theorem cameFrom_calls {g : ArtifactGraph Float} (hknown : g.Known) (hchecked : g.Checked) {calls : List Call}
    (hcalls : ∀ c ∈ calls, c.Checked) : CameFrom g (calls.foldl Call.run g) := by
  induction calls using List.reverseRecOn with
  | nil => exact ⟨hknown, hchecked, fun id => Nat.le_max_right _ _, fun id a ha => Or.inr ha⟩
  | append_singleton calls c ih =>
    rw [List.foldl_append, List.foldl_cons, List.foldl_nil]
    have hbefore := ih fun c' hc' => hcalls c' (List.mem_append_left _ hc')
    refine ⟨hbefore.known.run, hbefore.checked.run (hcalls c (by simp)), fun id => ?_, fun id a ha => ?_⟩
    · have hnow := count_run (g := calls.foldl Call.run g) (c := c) id
      have hthen := hbefore.count_le id
      omega
    · rcases get?_run ha with hown | hold
      · exact Or.inl hown
      · exact hbefore.ownOrOld id a hold

theorem CameFrom.proper {g g' : ArtifactGraph Float} (h : CameFrom g g') (hdistinct : g.visible.Nodup)
    (hown : g.OwnNames) : g'.Proper where
  distinct := by
    rw [List.nodup_iff_count_le_one] at hdistinct ⊢
    intro id
    have hnow := h.count_le id
    have hthen := hdistinct id
    omega
  known := h.known
  ownNames id a ha := (h.ownOrOld id a ha).elim (fun h => h) (hown id a)
  checked := h.checked

/-- A payload that is accepted lists visible names that mean something and meshes that pass their checks. After any
calls this is still so. No name is listed more often than before, or else once, and a solid that goes by another
name is one from the payload. Where the payload lists no name twice and each node under its own name, the graph is as
graphs are meant to be, before and after. -/
theorem loaded_graph_after_calls {j : Json} {g : ArtifactGraph Float} (hload : ofJson j = .ok g) {calls : List Call}
    (hcalls : ∀ c ∈ calls, c.Checked) :
    (∃ fields nodes, j = .obj fields ∧
      fields.lookup "artifacts" >>= Json.listOf? Json.str? = some g.visible ∧
      fields.lookup "nodes" >>= Json.obj? = some nodes ∧
      ∀ id a, g.get? id = some a → ∃ node, (id, node) ∈ nodes ∧ Artifact.ofJson? node = some a) ∧
    CameFrom g (calls.foldl Call.run g) ∧
    (g.visible.Nodup → g.OwnNames → (calls.foldl Call.run g).Proper) := by
  obtain ⟨fields, nodes, hj, hvisible, hnodes, hread, hknown⟩ := read_of_ofJson hload
  have hkept := cameFrom_calls hknown (checked_of_ofJson hload) hcalls
  exact ⟨⟨fields, nodes, hj, hvisible, hnodes, hread⟩, hkept, hkept.proper⟩

theorem loaded_graph_after_insert_and_hide :
    let j := Json.obj
      [("artifacts", .arr [.str "a"]), ("nodes", .obj [("a", .obj [("id", .str "a"), ("geometry", .null)])])]
    let calls := [Call.insert ⟨"b", some .empty, none⟩, .hide "a"]
    ∃ g, ofJson j = .ok g ∧ (∀ c ∈ calls, c.Checked) ∧ g.visible = ["a"] ∧
      CameFrom g (calls.foldl Call.run g) ∧ (calls.foldl Call.run g).visible = ["b"] ∧
      (calls.foldl Call.run g).Proper := by
  intro j calls
  let g : ArtifactGraph Float := ⟨["a"], NameMap.ofList [("a", ⟨"a", none, none⟩)]⟩
  have hload : ofJson j = .ok g := by rfl
  have hcalls : ∀ c ∈ calls, c.Checked := by
    intro c hc
    rcases List.mem_pair.mp hc with rfl | rfl
    · rintro m ⟨⟩
      exact (Mesh.fault?_eq_none_iff _).mp (by decide +kernel)
    · trivial
  have hown : g.OwnNames := by
    intro id a ha
    have hmem := NameMap.mem_of_get?_ofList ha
    rw [List.mem_singleton] at hmem
    cases hmem
    rfl
  obtain ⟨-, hkept, hproper⟩ := loaded_graph_after_calls hload hcalls
  exact ⟨g, hload, hcalls, rfl, hkept, by decide, hproper (by decide) hown⟩

/-- A payload that is accepted although it shows a name twice, and has another name in the node than before it. -/
theorem accepted_with_names_at_odds :
    let j := Json.obj
      [("artifacts", .arr [.str "a", .str "a"]), ("nodes", .obj [("a", .obj [("id", .str "b"), ("geometry", .null)])])]
    ∃ g, ofJson j = .ok g ∧ ¬ g.visible.Nodup ∧ ¬ g.OwnNames := by
  refine ⟨⟨["a", "a"], NameMap.ofList [("a", ⟨"b", none, none⟩)]⟩, by rfl, by decide, fun h => ?_⟩
  have hname : "b" = "a" := h "a" ⟨"b", none, none⟩ rfl
  exact absurd hname (by decide)

end ArtifactGraph

end SolidScript
