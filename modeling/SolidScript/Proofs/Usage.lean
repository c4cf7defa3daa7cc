import SolidScript.Proofs.DependencyGraph

/-!
# The users of a solid

Links stand in another order when names are gone through in another order, but they are the same links, and the sort
asks for no more. Those that use one solid are taken in the order of their declaration, behind the entry that makes it.
-/

namespace SolidScript

open Relation

namespace Precedence

variable (entries : List Entry) (e : Entry) (id : String)

theorem producer?_concat :
    producer? (entries ++ [e]) id =
      (producer? entries id).or (if e.isGenerative && e.id == id then some entries.length else none) := by
  unfold producer?
  rw [List.findIdx?_append, List.findIdx?_singleton]
  split <;> simp

theorem readers_concat :
    readers (entries ++ [e]) id = readers entries id ++ if id ∈ e.sources then [entries.length] else [] := by
  unfold readers
  rw [List.zipIdx_append, List.filter_append, List.map_append]
  by_cases hsource : id ∈ e.sources <;> simp [hsource]

end Precedence

namespace Usage

open DependencyGraph

variable {u : Usage} {entries : List Entry} (place : Nat) (sources : List String)

/-! ## One pass over the entries -/

theorem maker?_reads (u : Usage) : (sources.foldl (fun u id => u.read place id) u).maker? = u.maker? := by
  induction sources generalizing u with
  | nil => rfl
  | cons id sources ih => rw [List.foldl_cons, ih]; rfl

theorem readers_reads (u : Usage) (id : String) :
    (sources.foldl (fun u id => u.read place id) u).readers id =
      if id ∈ sources ∧ place ∉ u.readers id then u.readers id ++ [place] else u.readers id := by
  induction sources generalizing u with
  | nil => simp
  | cons source sources ih =>
    rw [List.foldl_cons, ih]
    unfold read
    by_cases hsource : id = source <;> by_cases hlisted : place ∈ u.readers id <;> simp [hsource, hlisted] <;> grind

theorem mem_names_reads (u : Usage) (id : String) :
    id ∈ (sources.foldl (fun u id => u.read place id) u).names ↔ id ∈ u.names ∨ id ∈ sources := by
  induction sources generalizing u with
  | nil => simp
  | cons source sources ih =>
    rw [List.foldl_cons, ih]
    simp only [read, List.mem_insert_iff, List.mem_cons]
    tauto

theorem nodup_names_reads {u : Usage} (h : u.names.Nodup) :
    (sources.foldl (fun u id => u.read place id) u).names.Nodup := by
  induction sources generalizing u with
  | nil => exact h
  | cons source sources ih => exact ih h.insert

/-- What is known after some entries: the first to make each solid, and all that read it as declared. -/
structure Tracks (u : Usage) (entries : List Entry) : Prop where
  maker? : ∀ id, u.maker? id = Precedence.producer? entries id
  readers : ∀ id, u.readers id = Precedence.readers entries id
  mem_names : ∀ id, id ∈ u.names ↔ ∃ e ∈ entries, id ∈ e.sources
  nodup_names : u.names.Nodup

theorem Tracks.add (h : u.Tracks entries) (e : Entry) : (u.add e entries.length).Tracks (entries ++ [e]) := by
  have hnew : ∀ id, entries.length ∉ u.readers id := fun id hid => by
    rw [h.readers] at hid
    exact absurd (Precedence.lt_length_of_mem_readers hid) (Nat.lt_irrefl _)
  unfold Usage.add
  refine ⟨fun id => ?_, fun id => ?_, fun id => ?_, ?_⟩
  · rw [maker?_reads, Precedence.producer?_concat]
    by_cases hgen : e.isGenerative
    · by_cases hid : id = e.id
      · simp [hgen, hid, make, h.maker?]
      · simp [hgen, hid, Ne.symm hid, make, h.maker?]
    · simp [hgen, h.maker?]
  · rw [readers_reads, Precedence.readers_concat]
    have hreaders : (if e.isGenerative = true then u.make entries.length e.id else u).readers id = u.readers id := by
      split <;> rfl
    rw [hreaders, ← h.readers]
    by_cases hsource : id ∈ e.sources <;> simp [hsource, hnew]
  · rw [mem_names_reads]
    have hnames : (if e.isGenerative = true then u.make entries.length e.id else u).names = u.names := by
      split <;> rfl
    rw [hnames, h.mem_names]
    simp [or_and_right, exists_or]
  · apply nodup_names_reads
    split <;> exact h.nodup_names

theorem tracks_ofEntries (entries : List Entry) : (ofEntries entries).Tracks entries := by
  induction entries using List.reverseRecOn with
  | nil => exact ⟨fun _ => rfl, fun _ => rfl, fun id => by simp [ofEntries, empty], List.nodup_nil⟩
  | append_singleton entries e ih =>
    have hlast : ofEntries (entries ++ [e]) = (ofEntries entries).add e entries.length := by
      unfold ofEntries
      rw [List.zipIdx_append, List.foldl_append]
      simp
    rw [hlast]
    exact ih.add e

theorem graph_ofEntries (entries : List Entry) (names : List String) :
    (ofEntries entries).graph entries.length names = ofNames entries names := by
  have h := tracks_ofEntries entries
  unfold graph ofNames Precedence.chain
  simp only [h.maker?, h.readers]

end Usage

/-! ## Names in any order -/

namespace DependencyGraph

variable {entries : List Entry} {names others : List String}

theorem precedes_congr (h : ∀ id, id ∈ names ↔ id ∈ others) (i j : Nat) :
    (i, j) ∈ (Precedence.ofNames entries names).pairs ↔ (i, j) ∈ (Precedence.ofNames entries others).pairs := by
  simp only [Precedence.mem_ofNames, h]

theorem children_perm (h : ∀ id, id ∈ names ↔ id ∈ others) (i : Nat) :
    ((ofNames entries names).children i).Perm ((ofNames entries others).children i) := by
  have hmirrors := ofNames_mirrors entries names
  have hmirrors' := ofNames_mirrors entries others
  apply (List.perm_ext_iff_of_nodup (hmirrors.nodup_children i) (hmirrors'.nodup_children i)).mpr
  intro j
  rw [hmirrors.mem_children, hmirrors'.mem_children, precedes_congr h]

theorem parents_perm (h : ∀ id, id ∈ names ↔ id ∈ others) (j : Nat) :
    ((ofNames entries names).parents j).Perm ((ofNames entries others).parents j) := by
  have hmirrors := ofNames_mirrors entries names
  have hmirrors' := ofNames_mirrors entries others
  apply (List.perm_ext_iff_of_nodup (hmirrors.nodup_parents j) (hmirrors'.nodup_parents j)).mpr
  intro i
  rw [hmirrors.mem_parents, hmirrors'.mem_parents, precedes_congr h]

theorem sort?_congr (h : ∀ id, id ∈ names ↔ id ∈ others) :
    (ofNames entries names).sort? = (ofNames entries others).sort? := by
  rw [sort?_ofNames, sort?_ofNames]
  apply congrArg some
  apply Schedule.sortFrom_congr
  intro i j
  rw [Precedence.mem_parents, Precedence.mem_parents, precedes_congr h]

/-- The schedule that evaluation goes by comes of any order of the names. -/
theorem sort?_eq_ofEntries (h : names.Perm (Usage.ofEntries entries).names) :
    (ofNames entries names).sort? = some (Schedule.ofEntries entries) := by
  have hread : ∀ id, id ∈ names ↔ id ∈ (entries.flatMap Entry.sources).eraseDups := fun id => by
    rw [h.mem_iff, (Usage.tracks_ofEntries entries).mem_names, List.mem_eraseDups, List.mem_flatMap]
  rw [sort?_congr hread, sort?_ofNames]
  rfl

end DependencyGraph

namespace Usage

open Precedence

variable {entries : List Entry} {names others : List String}

/-- Two orders of the names that are read give graphs with the same places, children and parents, though not in the same
order. Both are sorted, and into one schedule. -/
theorem graph_of_any_order (hnames : names.Perm (ofEntries entries).names)
    (hothers : others.Perm (ofEntries entries).names) :
    let g := (ofEntries entries).graph entries.length names
    let g' := (ofEntries entries).graph entries.length others
    g.count = g'.count ∧ (∀ i, (g.children i).Perm (g'.children i)) ∧ (∀ i, (g.parents i).Perm (g'.parents i)) ∧
      g.sort? = some (Schedule.ofEntries entries) ∧ g'.sort? = some (Schedule.ofEntries entries) := by
  have hsame : ∀ id, id ∈ names ↔ id ∈ others := fun id => hnames.mem_iff.trans hothers.mem_iff.symm
  simp only [graph_ofEntries]
  refine ⟨?_, ?_, ?_, ?_, ?_⟩
  · rw [DependencyGraph.count_ofNames, DependencyGraph.count_ofNames]
  · exact DependencyGraph.children_perm hsame
  · exact DependencyGraph.parents_perm hsame
  · exact DependencyGraph.sort?_eq_ofEntries hnames
  · exact DependencyGraph.sort?_eq_ofEntries hothers

def boxesAndUnion : List Entry :=
  [⟨"a", 1, .primitive (.box ⟨1, 1, 1⟩ ⟨0, 0, 0⟩)⟩, ⟨"b", 2, .primitive (.box ⟨1, 1, 1⟩ ⟨1, 0, 0⟩)⟩,
    ⟨"u", 3, .boolean .union "a" "b"⟩]

theorem boxesAndUnion_graphs :
    let g := (ofEntries boxesAndUnion).graph 3 ["a", "b"]
    let g' := (ofEntries boxesAndUnion).graph 3 ["b", "a"]
    ["a", "b"].Perm (ofEntries boxesAndUnion).names ∧ ["b", "a"].Perm (ofEntries boxesAndUnion).names ∧
      g.parents 2 = [0, 1] ∧ g'.parents 2 = [1, 0] ∧ g.sort? = some ⟨[0, 1, 2], []⟩ ∧ g'.sort? = g.sort? := by
  have hnames : ["a", "b"].Perm (ofEntries boxesAndUnion).names := by decide
  have hothers : ["b", "a"].Perm (ofEntries boxesAndUnion).names := by decide
  obtain ⟨-, -, -, hsort, hsort'⟩ := graph_of_any_order hnames hothers
  exact ⟨hnames, hothers, by decide, by decide, by decide, hsort'.trans hsort.symm⟩

end Usage

namespace Precedence

variable {entries : List Entry} {names : List String}

/-! ## One solid -/

theorem idxOf_lt_of_precedes {i j : Nat} (h : Precedes entries i j) (hne : i ≠ j)
    (hj : j ∈ (Schedule.ofEntries entries).order) :
    i ∈ (Schedule.ofEntries entries).order ∧
      (Schedule.ofEntries entries).order.idxOf i < (Schedule.ofEntries entries).order.idxOf j := by
  have hparents : ∀ k, ∀ l ∈ (Precedence.ofEntries entries).parents k, l < entries.length := by
    intro k l hl
    exact (lt_length_of_precedes (precedes_of_mem_pairs (mem_parents.mp hl)).1).1
  have hfirst := (Schedule.sortFrom_leastFirst hparents).1
  have hlinked : TransGen (fun a b => a ∈ (Precedence.ofEntries entries).parents b) i j :=
    TransGen.mono (fun a b hab => mem_parents.mpr hab) _ _ (linked_of_precedes h hne)
  exact hfirst.idxOf_lt_of_transGen hj hlinked

theorem readers_in_turn (entries : List Entry) (id : String) :
    ((Schedule.ofEntries entries).order.filter (readers entries id).contains).Pairwise (· < ·) := by
  have hnodup := (Schedule.nodup_places (.ofEntries entries)).of_append_left
  rw [List.pairwise_filter, List.pairwise_iff_getElem]
  intro m n hm hn hmn hreads hreads'
  rw [List.contains_iff_mem] at hreads hreads'
  by_contra hle
  rcases Nat.lt_or_eq_of_le (Nat.le_of_not_lt hle) with hlt | heq
  · have hback := (idxOf_lt_of_precedes (Or.inr ⟨hlt, id, hreads', hreads⟩) (Nat.ne_of_lt hlt) (List.getElem_mem hm)).2
    rw [hnodup.idxOf_getElem, hnodup.idxOf_getElem] at hback
    omega
  · have := hnodup.getElem_inj_iff.mp heq
    omega

/-- Whatever the order of the names, those that read one solid are taken as they are declared, and the first entry that
makes it, unless it reads it as well, before all of them. -/
theorem solid_used_in_turn (hnames : names.Perm (Usage.ofEntries entries).names) :
    ∃ s, ((Usage.ofEntries entries).graph entries.length names).sort? = some s ∧ s.order.Nodup ∧
      ∀ id, (s.order.filter (readers entries id).contains).Pairwise (· < ·) ∧
        ∀ i, producer? entries id = some i → i ∉ readers entries id →
          ∀ j ∈ s.order, j ∈ readers entries id → i ∈ s.order ∧ s.order.idxOf i < s.order.idxOf j := by
  refine ⟨Schedule.ofEntries entries, ?_, ?_, fun id => ⟨readers_in_turn entries id, ?_⟩⟩
  · rw [Usage.graph_ofEntries, DependencyGraph.sort?_eq_ofEntries hnames]
  · exact (Schedule.nodup_places (.ofEntries entries)).of_append_left
  · intro i hmaker hreads j hj hreader
    have hne : i ≠ j := fun heq => hreads (heq ▸ hreader)
    exact idxOf_lt_of_precedes (Or.inl (refers_iff.mpr ⟨id, hmaker, hreader⟩)) hne hj

/-- A box that is extruded before it is declared and shelled behind, and two unions that need each other. -/
def reshapedBox : List Entry :=
  [⟨"b_extrude", 1, .extrude "b" .top 1⟩, ⟨"b", 2, .primitive (.box ⟨1, 1, 1⟩ ⟨0, 0, 0⟩)⟩,
    ⟨"b_shell", 3, .shell "b" 0.1 []⟩, ⟨"u", 4, .boolean .union "w" "b"⟩, ⟨"w", 5, .boolean .union "u" "b"⟩]

theorem reshapedBox_in_turn :
    ["u", "w", "b"].Perm (Usage.ofEntries reshapedBox).names ∧ readers reshapedBox "b" = [0, 2, 3, 4] ∧
      ∃ s, ((Usage.ofEntries reshapedBox).graph 5 ["u", "w", "b"]).sort? = some s ∧ s = ⟨[1, 0, 2], [3, 4]⟩ ∧
        (s.order.filter (readers reshapedBox "b").contains).Pairwise (· < ·) ∧
        ∀ j ∈ s.order, j ∈ readers reshapedBox "b" → s.order.idxOf 1 < s.order.idxOf j := by
  have hnames : ["u", "w", "b"].Perm (Usage.ofEntries reshapedBox).names := by decide
  obtain ⟨s, hsort, -, husers⟩ := solid_used_in_turn hnames
  obtain ⟨hreaders, hmaker⟩ := husers "b"
  have hs : s = ⟨[1, 0, 2], [3, 4]⟩ := Option.some.inj (hsort.symm.trans (by decide))
  exact ⟨hnames, by decide, s, hsort, hs, hreaders, fun j hj hread => (hmaker 1 (by decide) (by decide) j hj hread).2⟩

end Precedence

end SolidScript
