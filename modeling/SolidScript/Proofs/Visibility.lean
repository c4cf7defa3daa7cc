import SolidScript.Proofs.DependencyOrder
import SolidScript.Proofs.Footprint

/-!
# What is shown in the end

Solids are shown when they are made, and hidden when a boolean takes them. With names of their own no solid
is made twice, so that nothing hidden is shown again.
-/

namespace SolidScript

/-! ## Sources of entries that make solids -/

theorem Entry.sources_of_not_boolean {e : Entry} (hgen : e.isGenerative = true)
    (hboolean : Evaluation.isBoolean e.operation = false) : e.sources = [] := by
  obtain ⟨id, line, operation⟩ := e
  cases operation with
  | boolean => cases hboolean
  | primitive | revolve | sweep | loft | torus | helix => rfl
  | _ => cases hgen

theorem Entry.generative_of_boolean {e : Entry} (h : Evaluation.isBoolean e.operation = true) :
    e.isGenerative = true := by
  obtain ⟨id, line, operation⟩ := e
  cases operation with
  | boolean => rfl
  | _ => cases h

/-! ## Graphs -/

namespace ArtifactGraph

variable {α : Type}

/-- The solids that have been made, of which those that were taken are hidden. -/
structure Shows (g : ArtifactGraph α) (made taken : List String) : Prop where
  visible : g.visible = made.filter fun id => !taken.contains id
  contains_iff : ∀ id, g.contains id = true ↔ id ∈ made
  taken_subset : taken ⊆ made

namespace Shows

variable {g : ArtifactGraph α} {made taken : List String}

theorem empty : (ArtifactGraph.empty : ArtifactGraph α).Shows [] [] where
  visible := rfl
  contains_iff id := by simp [ArtifactGraph.contains_iff]
  taken_subset := List.nil_subset _

theorem modify (h : g.Shows made taken) (name : String) (f : Artifact α → Artifact α) :
    (g.modify name f).Shows made taken where
  visible := by rw [visible_modify, h.visible]
  contains_iff id := by
    rw [← h.contains_iff, ArtifactGraph.contains_iff, ArtifactGraph.contains_iff, get?_modify]
    split <;> simp
  taken_subset := h.taken_subset

theorem create (h : g.Shows made taken) (a : Artifact α) (hnew : a.id ∉ made) {hidden : List String}
    (hhidden : hidden ⊆ made) :
    ((hidden.foldl hide g).insertVisible a).Shows (made ++ [a.id]) (taken ++ hidden) where
  visible := by
    have hshown : (hidden.foldl hide g).visible = made.filter fun id => !(taken ++ hidden).contains id := by
      rw [visible_hideAll, h.visible, List.filter_filter]
      refine List.filter_congr fun id _ => ?_
      rw [List.contains_append, Bool.not_or, Bool.and_comm]
    have hmade : a.id ∉ (hidden.foldl hide g).visible := by
      rw [hshown]
      exact fun hmem => hnew (List.mem_filter.mp hmem).1
    have htaken : (taken ++ hidden).contains a.id = false := by
      rw [List.contains_eq_mem, decide_eq_false_iff_not, List.mem_append]
      exact fun hmem => hnew (hmem.elim (h.taken_subset ·) (hhidden ·))
    unfold insertVisible
    rw [if_neg (by simpa using hmade), hshown, List.filter_append, List.filter_singleton, htaken]
    rfl
  contains_iff id := by
    rw [ArtifactGraph.contains_iff, get?_insertVisible, get?_hideAll, List.mem_append, List.mem_singleton,
      ← h.contains_iff, ArtifactGraph.contains_iff]
    split <;> simp [*]
  taken_subset := by
    refine List.append_subset.mpr ⟨?_, ?_⟩
    · exact fun id hid => List.mem_append_left _ (h.taken_subset hid)
    · exact fun id hid => List.mem_append_left _ (hhidden hid)

end Shows

end ArtifactGraph

namespace Evaluation

variable (spec : Specification) (config : Config) (backend : BooleanBackend Float)

/-! ## Entries that are carried out -/

/-- The entries that are carried out among the first so many, in the order of evaluation. -/
def carriedOut : Nat → List Entry
  | 0 => []
  | count + 1 =>
    let e? := (ordered config.order spec).1[count]?.filter fun e =>
      (Plan.ofEntry config backend (after spec config backend count).graph e).isOk
    carriedOut count ++ e?.toList

def made (entries : List Entry) : List String := (entries.filter Entry.isGenerative).map Entry.id

def taken (entries : List Entry) : List String :=
  (entries.filter fun e => isBoolean e.operation).flatMap Entry.sources

theorem carriedOut_sublist (count : Nat) :
    (carriedOut spec config backend count).Sublist ((ordered config.order spec).1.take count) := by
  induction count with
  | zero => exact List.nil_sublist _
  | succ count ih =>
    rw [carriedOut, List.take_add_one]
    refine ih.append ?_
    cases (ordered config.order spec).1[count]? with
    | none => exact List.Sublist.refl _
    | some e =>
      rw [Option.filter_some]
      split
      · exact List.Sublist.refl _
      · exact List.nil_sublist _

theorem made_sublist {entries all : List Entry} (h : entries.Sublist all) :
    (made entries).Sublist (all.map Entry.id) :=
  ((List.filter_sublist (p := Entry.isGenerative)).trans h).map Entry.id

/-! ## One entry -/

theorem made_append (entries : List Entry) (e : Entry) :
    made (entries ++ [e]) = made entries ++ if e.isGenerative then [e.id] else [] := by
  unfold made
  rw [List.filter_append, List.map_append, List.filter_singleton]
  cases e.isGenerative <;> rfl

theorem taken_append (entries : List Entry) (e : Entry) :
    taken (entries ++ [e]) = taken entries ++ if isBoolean e.operation then e.sources else [] := by
  unfold taken
  rw [List.filter_append, List.flatMap_append, List.filter_singleton]
  cases isBoolean e.operation <;> simp

/-- An entry that is carried out shows what it makes, and hides what it takes. -/
theorem shows_of_ok {g : ArtifactGraph Float} {e : Entry} {plan : Plan} {entries : List Entry}
    (h : g.Shows (made entries) (taken entries)) (hnew : e.id ∉ made entries)
    (hplan : Plan.ofEntry config backend g e = .ok plan) :
    (plan.change.carryOut g).Shows (made (entries ++ [e])) (taken (entries ++ [e])) := by
  have hends := Plan.ofEntry_ends config backend g e
  rw [hplan] at hends
  rw [made_append, taken_append]
  rcases hends with ⟨hgen, ⟨mesh, origin, hchange⟩, -⟩ | ⟨hgen, id, -, ⟨mesh, origin, hchange⟩, -⟩
  · rw [hchange, hgen, if_pos rfl]
    -- Of all that makes solids, only booleans take some.
    have hsources : (if isBoolean e.operation then e.sources else []) = e.sources := by
      cases hboolean : isBoolean e.operation with
      | true => rfl
      | false => exact (Entry.sources_of_not_boolean hgen hboolean).symm
    rw [hsources]
    refine h.create ⟨e.id, some mesh, origin⟩ hnew fun id hid => ?_
    rw [← h.contains_iff]
    cases hboolean : isBoolean e.operation with
    | true => exact Plan.known_of_ok hplan id hid
    | false =>
      rw [Entry.sources_of_not_boolean hgen hboolean] at hid
      cases hid
  · have hboolean : isBoolean e.operation = false := by
      cases hb : isBoolean e.operation with
      | false => rfl
      | true => rw [Entry.generative_of_boolean hb] at hgen; cases hgen
    rw [hchange, hgen, hboolean, if_neg Bool.false_ne_true, List.append_nil, if_neg Bool.false_ne_true,
      List.append_nil]
    exact h.modify id _

/-! ## Runs -/

theorem carriedOut_succ_ok {count : Nat} {e : Entry} {plan : Plan}
    (he : (ordered config.order spec).1[count]? = some e)
    (hplan : Plan.ofEntry config backend (after spec config backend count).graph e = .ok plan) :
    carriedOut spec config backend (count + 1) = carriedOut spec config backend count ++ [e] := by
  rw [carriedOut, he, Option.filter_some, hplan]
  rfl

theorem carriedOut_succ_error {count : Nat} {e : Entry} {refusal : Refusal}
    (he : (ordered config.order spec).1[count]? = some e)
    (hplan : Plan.ofEntry config backend (after spec config backend count).graph e = .error refusal) :
    carriedOut spec config backend (count + 1) = carriedOut spec config backend count := by
  rw [carriedOut, he, Option.filter_some, hplan]
  exact List.append_nil _

variable {spec}

theorem after_shows (hids : ((ordered config.order spec).1.map Entry.id).Nodup) (count : Nat) :
    (after spec config backend count).graph.Shows (made (carriedOut spec config backend count))
      (taken (carriedOut spec config backend count)) := by
  induction count with
  | zero => exact ArtifactGraph.Shows.empty
  | succ count ih =>
    cases he : (ordered config.order spec).1[count]? with
    | none =>
      rw [after_succ_of_none spec config backend he, carriedOut, he]
      simpa using ih
    | some e =>
      rw [after_succ spec config backend he]
      cases hplan : Plan.ofEntry config backend (after spec config backend count).graph e with
      | ok plan =>
        -- No name is used twice up to here, so that this one is new.
        have hnew : e.id ∉ made (carriedOut spec config backend count) := by
          have htake : ((ordered config.order spec).1.take (count + 1)).map Entry.id =
              ((ordered config.order spec).1.take count).map Entry.id ++ [e.id] := by
            rw [List.take_add_one, he, List.map_append]
            rfl
          have hnodup := hids.sublist ((List.take_sublist (count + 1) _).map Entry.id)
          rw [htake] at hnodup
          intro hmem
          have hearlier := (made_sublist (carriedOut_sublist spec config backend count)).subset hmem
          exact (List.nodup_append.mp hnodup).2.2 _ hearlier _ (List.mem_singleton_self _) rfl
        rw [step_graph, hplan, carriedOut_succ_ok spec config backend he hplan]
        exact shows_of_ok config backend ih hnew hplan
      | error refusal =>
        rw [step_graph, hplan, carriedOut_succ_error spec config backend he hplan]
        exact ih

/-- Suppose that no two entries share a name. What is shown in the end are the solids of the entries that were
carried out, in the order of evaluation, less those that some boolean has taken that was carried out itself.
There is a solid for each entry that was carried out and makes one, and no other. -/
theorem shown_are_made_and_not_taken (hids : (spec.byCategory.map Entry.id).Nodup) :
    let done := carriedOut spec config backend spec.size
    let graph := (spec.evaluate config backend).graph
    graph.visible = (made done).filter (fun id => !(taken done).contains id) ∧
    (graph.nodes.entries.map Prod.fst).Perm (made done) := by
  have hperm := ordered_perm spec config.order
  have hordered : ((ordered config.order spec).1.map Entry.id).Nodup := (hperm.map Entry.id).nodup_iff.mpr hids
  have hshows := after_shows config backend hordered spec.size
  have hgraph : (spec.evaluate config backend).graph = (after spec config backend spec.size).graph := by
    rw [evaluate_eq]
    exact congrArg (fun n => (after spec config backend n).graph) hperm.length_eq
  have hmade : (made (carriedOut spec config backend spec.size)).Nodup :=
    ((made_sublist (carriedOut_sublist spec config backend spec.size)).trans
      ((List.take_sublist _ _).map Entry.id)).nodup hordered
  dsimp only
  rw [hgraph]
  refine ⟨hshows.visible, ?_⟩
  refine (List.perm_ext_iff_of_nodup (NameMap.nodup_names _) hmade).mpr fun id => ?_
  rw [NameMap.mem_names]
  exact hshows.contains_iff id

def twoUnions : Specification :=
  let box (id : String) (line : Nat) : Entry := ⟨id, line, .primitive (.box ⟨1, 1, 1⟩ ⟨0, 0, 0⟩)⟩
  .ofEntries
    [box "a" 1, box "b" 2, box "c" 3, ⟨"pair", 4, .boolean .union "a" "b"⟩,
      ⟨"lost", 5, .boolean .union "c" "nothing"⟩]

theorem failed_union_takes_nothing :
    let graph := (twoUnions.evaluate {} fun first _ _ => pure first).graph
    (twoUnions.byCategory.map Entry.id).Nodup ∧
    graph.visible = ["c", "pair"] ∧ (graph.nodes.entries.map Prod.fst).Perm ["a", "b", "c", "pair"] := by
  have hids : (twoUnions.byCategory.map Entry.id).Nodup := by decide +kernel
  obtain ⟨hvisible, hnames⟩ := shown_are_made_and_not_taken {} (fun first _ _ => pure first) hids
  have hmade : made (carriedOut twoUnions {} (fun first _ _ => pure first) twoUnions.size) = ["a", "b", "c", "pair"] := by
    decide +kernel
  have htaken : taken (carriedOut twoUnions {} (fun first _ _ => pure first) twoUnions.size) = ["a", "b"] := by
    decide +kernel
  rw [hmade] at hvisible hnames
  rw [htaken] at hvisible
  exact ⟨hids, hvisible, hnames⟩

end Evaluation

end SolidScript
