import Mathlib
import SolidScript.Model.Schedule

/-! # Schedules and cycles -/

namespace SolidScript

open Relation

/-- Nothing comes before itself, directly or through others. -/
def Acyclic (r : Nat → Nat → Prop) : Prop := ∀ i, ¬ TransGen r i i

theorem not_acyclic_of_forall_exists {r : Nat → Nat → Prop} {l : List Nat} (hne : l ≠ [])
    (h : ∀ i ∈ l, ∃ j ∈ l, r j i) : ¬ Acyclic r := by
  intro hacyclic
  let before (i j : {i // i ∈ l}) : Prop := TransGen r i j
  have htrans : IsTrans _ before := ⟨fun _ _ _ hij hjk => TransGen.trans hij hjk⟩
  have hirrefl : Std.Irrefl before := ⟨fun i hi => hacyclic i hi⟩
  have hwf : WellFounded before := Finite.wellFounded_of_trans_of_irrefl before
  obtain ⟨i, hi⟩ := List.exists_mem_of_ne_nil l hne
  obtain ⟨⟨m, hm⟩, -, hmin⟩ := hwf.has_min Set.univ ⟨⟨i, hi⟩, trivial⟩
  obtain ⟨j, hj, hjm⟩ := h m hm
  exact hmin ⟨j, hj⟩ trivial (TransGen.single hjm)

theorem lt_of_transGen {r : Nat → Nat → Prop} {f : Nat → Nat} (h : ∀ i j, r i j → f i < f j) {i j : Nat}
    (hij : TransGen r i j) : f i < f j := by
  induction hij with
  | single hab => exact h _ _ hab
  | tail _ hbc ih => exact Nat.lt_trans ih (h _ _ hbc)

theorem acyclic_of_lt {r : Nat → Nat → Prop} (f : Nat → Nat) (h : ∀ i j, r i j → f i < f j) : Acyclic r :=
  fun _ hi => Nat.lt_irrefl _ (lt_of_transGen h hi)

theorem rel_of_ascending {r : Nat → Nat → Prop} {l : List Nat} (hlt : l.Pairwise (· < ·)) (hr : l.Pairwise r)
    {i j : Nat} (hi : i ∈ l) (hj : j ∈ l) (hij : i < j) : r i j := by
  obtain ⟨a, ha, rfl⟩ := List.getElem_of_mem hi
  obtain ⟨b, hb, rfl⟩ := List.getElem_of_mem hj
  have hab : a < b := by
    by_contra hle
    rcases Nat.lt_or_eq_of_le (Nat.le_of_not_lt hle) with hba | rfl
    · have := List.pairwise_iff_getElem.mp hlt b a hb ha hba
      omega
    · omega
  exact List.pairwise_iff_getElem.mp hr a b ha hb hab

namespace Schedule

/-! ## Taking places in turn -/

/-- No place in `done`, which lists the last one first, waits for one taken after it. -/
structure Taken (parents : Nat → List Nat) (waiting done : List Nat) : Prop where
  inOrder : done.Pairwise fun j i => j ∉ parents i
  free : ∀ i ∈ done, ∀ j ∈ waiting, j ∉ parents i

variable {parents : Nat → List Nat}

theorem Taken.step {waiting done : List Nat} (h : Taken parents waiting done) {i : Nat} (hi : i ∈ waiting)
    (hready : (parents i).any waiting.contains = false) : Taken parents (waiting.erase i) (i :: done) where
  inOrder := List.pairwise_cons.mpr ⟨fun j hj => h.free j hj i hi, h.inOrder⟩
  free := by
    intro k hk j hj hparent
    have hjw : j ∈ waiting := List.mem_of_mem_erase hj
    rcases List.mem_cons.mp hk with rfl | hk
    · have hany : (parents k).any waiting.contains = true :=
        List.any_eq_true.mpr ⟨j, hparent, List.contains_iff_mem.mpr hjw⟩
      rw [hready] at hany
      cases hany
    · exact h.free k hk j hjw hparent

/-- What becomes of places that wait. -/
structure Sorts (parents : Nat → List Nat) (waiting done : List Nat) (s : Schedule) : Prop where
  all : (s.order ++ s.cyclic).Perm (done ++ waiting)
  taken : Taken parents s.cyclic s.order.reverse
  declared : s.cyclic.Sublist waiting
  stuck : ∀ i ∈ s.cyclic, ∃ j ∈ s.cyclic, j ∈ parents i

theorem sortFrom_sorts (fuel : Nat) {waiting done : List Nat} (h : Taken parents waiting done)
    (hfuel : waiting.length ≤ fuel) : Sorts parents waiting done (sortFrom parents fuel waiting done) := by
  induction fuel generalizing waiting done with
  | zero =>
    have hnil : waiting = [] := List.eq_nil_of_length_eq_zero (Nat.le_zero.mp hfuel)
    subst hnil
    exact
      { all := List.reverse_perm done |>.append_right _
        taken := by rw [sortFrom, List.reverse_reverse]; exact h
        declared := List.Sublist.refl _
        stuck := by intro i hi; cases hi }
  | succ fuel ih =>
    unfold sortFrom
    split
    · rename_i i hfind
      have hi : i ∈ waiting := List.mem_of_find?_eq_some hfind
      have hready : (parents i).any waiting.contains = false := by
        simpa using List.find?_some hfind
      have hlength : (waiting.erase i).length ≤ fuel := by
        rw [List.length_erase_of_mem hi]
        omega
      have hrec := ih (h.step hi hready) hlength
      refine ⟨hrec.all.trans ?_, hrec.taken, hrec.declared.trans (List.erase_sublist), hrec.stuck⟩
      have hcons : (i :: waiting.erase i).Perm waiting := (List.perm_cons_erase hi).symm
      exact List.perm_middle.symm.trans (hcons.append_left done)
    · rename_i hfind
      refine ⟨(List.reverse_perm done).append_right _, by rw [List.reverse_reverse]; exact h,
        List.Sublist.refl _, ?_⟩
      intro i hi
      have hwaits := List.find?_eq_none.mp hfind i hi
      simp only [Bool.not_eq_true', Bool.not_eq_false, List.any_eq_true, List.contains_iff_mem] at hwaits
      obtain ⟨j, hparent, hj⟩ := hwaits
      exact ⟨j, hj, hparent⟩

theorem ofPrecedence_sorts (p : Precedence) : Sorts p.parents (List.range p.count) [] (ofPrecedence p) :=
  sortFrom_sorts p.count ⟨List.Pairwise.nil, by simp⟩ (by simp)

def places (s : Schedule) : List Nat := s.order ++ s.cyclic

theorem places_perm (p : Precedence) : (ofPrecedence p).places.Perm (List.range p.count) :=
  (ofPrecedence_sorts p).all

theorem mem_places {p : Precedence} {i : Nat} : i ∈ (ofPrecedence p).places ↔ i < p.count := by
  rw [(places_perm p).mem_iff, List.mem_range]

theorem nodup_places (p : Precedence) : (ofPrecedence p).places.Nodup :=
  (places_perm p).nodup_iff.mpr List.nodup_range

end Schedule

namespace Precedence

/-! ## What comes before what -/

/-- One entry makes the solid that another one reads. The first to make a solid is the one that counts. -/
def Refers (entries : List Entry) (i j : Nat) : Prop :=
  ∃ e, entries[j]? = some e ∧ ∃ id ∈ e.sources, producer? entries id = some i

/-- Makers come before readers, and readers of one solid follow each other as declared. -/
def Precedes (entries : List Entry) (i j : Nat) : Prop :=
  Refers entries i j ∨ (i < j ∧ ∃ id, i ∈ readers entries id ∧ j ∈ readers entries id)

variable {entries : List Entry} {id : String}

theorem mem_readers {j : Nat} : j ∈ readers entries id ↔ ∃ e, entries[j]? = some e ∧ id ∈ e.sources := by
  unfold readers
  rw [List.mem_map]
  constructor
  · rintro ⟨⟨e, k⟩, hmem, rfl⟩
    obtain ⟨hzip, hsource⟩ := List.mem_filter.mp hmem
    exact ⟨e, List.mk_mem_zipIdx_iff_getElem?.mp hzip, List.contains_iff_mem.mp hsource⟩
  · rintro ⟨e, he, hid⟩
    exact ⟨(e, j), List.mem_filter.mpr ⟨List.mk_mem_zipIdx_iff_getElem?.mpr he, List.contains_iff_mem.mpr hid⟩, rfl⟩

theorem refers_iff {i j : Nat} :
    Refers entries i j ↔ ∃ id, producer? entries id = some i ∧ j ∈ readers entries id := by
  simp only [mem_readers]
  constructor
  · rintro ⟨e, he, id, hid, hproducer⟩
    exact ⟨id, hproducer, e, he, hid⟩
  · rintro ⟨id, hproducer, e, he, hid⟩
    exact ⟨e, he, id, hid, hproducer⟩

theorem readers_ascending : (readers entries id).Pairwise (· < ·) := by
  have hplaces : (entries.zipIdx.map Prod.snd).Pairwise (· < ·) := by
    rw [List.zipIdx_map_snd]
    exact List.pairwise_lt_range'
  exact hplaces.sublist (List.filter_sublist.map Prod.snd)

theorem chain_precedes : (chain entries id).Pairwise (Precedes entries) := by
  unfold chain
  have hreaders : (readers entries id).Pairwise (Precedes entries) :=
    readers_ascending.imp_of_mem fun hi hj hlt => Or.inr ⟨hlt, id, hi, hj⟩
  cases hproducer : producer? entries id with
  | none => exact hreaders
  | some i => exact List.pairwise_cons.mpr ⟨fun j hj => Or.inl (refers_iff.mpr ⟨id, hproducer, hj⟩), hreaders⟩

theorem isChain_iff_mem_zip {r : Nat → Nat → Prop} {l : List Nat} :
    l.IsChain r ↔ ∀ i j, (i, j) ∈ l.zip (l.drop 1) → r i j := by
  induction l with
  | nil => simp
  | cons a l ih =>
    cases l with
    | nil => simp
    | cons b l =>
      have hzip : (a :: b :: l).zip ((a :: b :: l).drop 1) = (a, b) :: (b :: l).zip ((b :: l).drop 1) := rfl
      rw [List.isChain_cons_cons, ih, hzip]
      simp only [List.mem_cons, Prod.mk.injEq]
      constructor
      · rintro ⟨hab, hrest⟩ i j (⟨rfl, rfl⟩ | hmem)
        · exact hab
        · exact hrest i j hmem
      · intro h
        exact ⟨h a b (Or.inl ⟨rfl, rfl⟩), fun i j hmem => h i j (Or.inr hmem)⟩

theorem mem_links {i j : Nat} :
    (i, j) ∈ links entries id ↔ (i, j) ∈ (chain entries id).zip ((chain entries id).drop 1) ∧ i ≠ j := by
  unfold links
  rw [List.mem_filter]
  simp

theorem mem_ofNames {names : List String} {i j : Nat} :
    (i, j) ∈ (ofNames entries names).pairs ↔ ∃ id ∈ names, (i, j) ∈ links entries id := by
  unfold ofNames
  rw [List.mem_eraseDups, List.mem_flatMap]

theorem mem_ofEntries {i j : Nat} :
    (i, j) ∈ (ofEntries entries).pairs ↔ ∃ id, (∃ k, k ∈ readers entries id) ∧ (i, j) ∈ links entries id := by
  unfold ofEntries
  simp only [mem_ofNames, List.mem_eraseDups, List.mem_flatMap]
  constructor
  · rintro ⟨id, ⟨e, he, hid⟩, hlink⟩
    obtain ⟨k, hk⟩ := List.mem_iff_getElem?.mp he
    exact ⟨id, ⟨k, mem_readers.mpr ⟨e, hk, hid⟩⟩, hlink⟩
  · rintro ⟨id, ⟨k, hk⟩, hlink⟩
    obtain ⟨e, he, hid⟩ := mem_readers.mp hk
    exact ⟨id, ⟨e, List.mem_of_getElem? he, hid⟩, hlink⟩

theorem precedes_of_mem_links {i j : Nat} (h : (i, j) ∈ links entries id) : Precedes entries i j ∧ i ≠ j := by
  obtain ⟨hzip, hne⟩ := mem_links.mp h
  exact ⟨isChain_iff_mem_zip.mp chain_precedes.isChain i j hzip, hne⟩

theorem precedes_of_mem_pairs {i j : Nat} (h : (i, j) ∈ (ofEntries entries).pairs) :
    Precedes entries i j ∧ i ≠ j := by
  obtain ⟨id, -, hlink⟩ := mem_ofEntries.mp h
  exact precedes_of_mem_links hlink

theorem chain_linked (hread : ∃ k, k ∈ readers entries id) :
    (chain entries id).Pairwise (ReflTransGen fun i j => (i, j) ∈ (ofEntries entries).pairs) := by
  refine List.isChain_iff_pairwise.mp (isChain_iff_mem_zip.mpr ?_)
  intro i j hzip
  by_cases hij : i = j
  · rw [hij]
  · exact ReflTransGen.single (mem_ofEntries.mpr ⟨id, hread, mem_links.mpr ⟨hzip, hij⟩⟩)

theorem linked_of_precedes {i j : Nat} (h : Precedes entries i j) (hne : i ≠ j) :
    TransGen (fun i j => (i, j) ∈ (ofEntries entries).pairs) i j := by
  have hlinked : ReflTransGen (fun i j => (i, j) ∈ (ofEntries entries).pairs) i j := by
    rcases h with hrefers | ⟨hlt, id, hi, hj⟩
    · obtain ⟨id, hproducer, hj⟩ := refers_iff.mp hrefers
      have hchain := chain_linked ⟨j, hj⟩
      unfold chain at hchain
      rw [hproducer] at hchain
      exact (List.pairwise_cons.mp hchain).1 j hj
    · have hchain := (List.pairwise_append.mp (chain_linked ⟨j, hj⟩)).2.1
      exact rel_of_ascending readers_ascending hchain hi hj hlt
  exact (reflTransGen_iff_eq_or_transGen.mp hlinked).resolve_left (Ne.symm hne)

theorem producer?_eq_some {i : Nat} (h : producer? entries id = some i) :
    ∃ e, entries[i]? = some e ∧ e.isGenerative = true ∧ e.id = id := by
  obtain ⟨hi, hmakes, -⟩ := List.findIdx?_eq_some_iff_getElem.mp h
  rw [Bool.and_eq_true, beq_iff_eq] at hmakes
  exact ⟨entries[i], List.getElem?_eq_getElem hi, hmakes.1, hmakes.2⟩

theorem lt_length_of_mem_readers {i : Nat} (h : i ∈ readers entries id) : i < entries.length := by
  obtain ⟨e, he, -⟩ := mem_readers.mp h
  exact (List.getElem?_eq_some_iff.mp he).1

theorem lt_length_of_precedes {i j : Nat} (h : Precedes entries i j) : i < entries.length ∧ j < entries.length := by
  rcases h with hrefers | ⟨-, id, hi, hj⟩
  · obtain ⟨id, hproducer, hj⟩ := refers_iff.mp hrefers
    obtain ⟨e, he, -⟩ := producer?_eq_some hproducer
    exact ⟨(List.getElem?_eq_some_iff.mp he).1, lt_length_of_mem_readers hj⟩
  · exact ⟨lt_length_of_mem_readers hi, lt_length_of_mem_readers hj⟩

/-- Each entry reads solids of lower rank only. -/
def ranked (entries : List Entry) (rank : Nat → Nat) : Bool :=
  entries.zipIdx.all fun (e, j) => e.sources.all fun id => (producer? entries id).all fun i => rank i < rank j

theorem lt_of_ranked (rank : Nat → Nat) (h : ranked entries rank = true) {i j : Nat}
    (hrefers : Refers entries i j) :
    rank i < rank j := by
  obtain ⟨e, he, id, hid, hi⟩ := hrefers
  have hentry := List.all_eq_true.mp h (e, j) (List.mk_mem_zipIdx_iff_getElem?.mpr he)
  have hsource := List.all_eq_true.mp hentry id hid
  rw [hi] at hsource
  exact of_decide_eq_true hsource

theorem acyclic_refers_of_ranked (rank : Nat → Nat) (h : ranked entries rank = true) :
    Acyclic (Refers entries) :=
  acyclic_of_lt rank fun _ _ => lt_of_ranked rank h

theorem ne_of_precedes (hrefs : Acyclic (Refers entries)) {i j : Nat} (h : Precedes entries i j) : i ≠ j := by
  rintro rfl
  rcases h with hrefers | ⟨hlt, -⟩
  · exact hrefs i (TransGen.single hrefers)
  · exact Nat.lt_irrefl i hlt

theorem mem_parents {p : Precedence} {i j : Nat} : j ∈ p.parents i ↔ (j, i) ∈ p.pairs := by
  unfold parents
  rw [List.mem_map]
  constructor
  · rintro ⟨⟨a, b⟩, hmem, rfl⟩
    obtain ⟨hpair, hb⟩ := List.mem_filter.mp hmem
    rw [← beq_iff_eq.mp hb]
    exact hpair
  · intro hpair
    exact ⟨(j, i), List.mem_filter.mpr ⟨hpair, beq_self_eq_true i⟩, rfl⟩

end Precedence

namespace Schedule

open Precedence

/-! ## Cycles -/

variable {entries : List Entry}

abbrev ofEntries (entries : List Entry) : Schedule := ofPrecedence (.ofEntries entries)

theorem idxOf_lt_of_mem_pairs (hcyclic : (ofEntries entries).cyclic = []) {i j : Nat}
    (h : (i, j) ∈ (Precedence.ofEntries entries).pairs) :
    (ofEntries entries).places.idxOf i < (ofEntries entries).places.idxOf j := by
  obtain ⟨hprecedes, hne⟩ := precedes_of_mem_pairs h
  obtain ⟨hi, hj⟩ := lt_length_of_precedes hprecedes
  have hiIn := List.idxOf_lt_length_iff.mpr (mem_places (p := .ofEntries entries).mpr hi)
  have hjIn := List.idxOf_lt_length_iff.mpr (mem_places (p := .ofEntries entries).mpr hj)
  have horder : (ofEntries entries).places.Pairwise fun a b => b ∉ (Precedence.ofEntries entries).parents a := by
    unfold places
    rw [hcyclic, List.append_nil]
    exact List.pairwise_reverse.mp (ofPrecedence_sorts (.ofEntries entries)).taken.inOrder
  by_contra hle
  rcases Nat.lt_or_eq_of_le (Nat.le_of_not_lt hle) with hlt | heq
  · have hnot := List.pairwise_iff_getElem.mp horder _ _ hjIn hiIn hlt
    rw [List.getElem_idxOf, List.getElem_idxOf] at hnot
    exact hnot (mem_parents.mpr h)
  · exact hne ((List.idxOf_inj (mem_places (p := .ofEntries entries).mpr hj)).mp heq).symm

theorem idxOf_lt_of_precedes (hrefs : Acyclic (Refers entries)) (hcyclic : (ofEntries entries).cyclic = [])
    {i j : Nat} (h : Precedes entries i j) :
    (ofEntries entries).places.idxOf i < (ofEntries entries).places.idxOf j := by
  have hlinked := linked_of_precedes h (ne_of_precedes hrefs h)
  exact lt_of_transGen (f := (ofEntries entries).places.idxOf) (fun _ _ => idxOf_lt_of_mem_pairs hcyclic) hlinked

theorem precedes_of_stuck {i : Nat} (hi : i ∈ (ofEntries entries).cyclic) :
    ∃ j ∈ (ofEntries entries).cyclic, Precedes entries j i ∧ j ≠ i := by
  obtain ⟨j, hj, hparent⟩ := (ofPrecedence_sorts (.ofEntries entries)).stuck i hi
  exact ⟨j, hj, precedes_of_mem_pairs (mem_parents.mp hparent)⟩

/-- Exactly the entries that come after themselves keep others from being put into an order. -/
theorem cyclic_eq_nil_iff (hrefs : Acyclic (Refers entries)) :
    (ofEntries entries).cyclic = [] ↔ Acyclic (Precedes entries) := by
  constructor
  · intro hcyclic
    exact acyclic_of_lt _ fun i j => idxOf_lt_of_precedes hrefs hcyclic
  · intro hacyclic
    by_contra hne
    refine not_acyclic_of_forall_exists hne (fun i hi => ?_) hacyclic
    obtain ⟨j, hj, hprecedes, -⟩ := precedes_of_stuck hi
    exact ⟨j, hj, hprecedes⟩

/-- Entries come after those that make what they read. -/
def ProducersFirst (entries : List Entry) (places : List Nat) : Prop :=
  places.Pairwise fun i j => ¬ Refers entries j i

theorem producersFirst_iff (hrefs : Acyclic (Refers entries)) :
    ProducersFirst entries (ofEntries entries).places ↔ (ofEntries entries).cyclic = [] := by
  constructor
  · intro hfirst
    by_contra hne
    have hdeclared : (ofEntries entries).cyclic.Pairwise (· < ·) :=
      List.pairwise_lt_range.sublist (ofPrecedence_sorts (.ofEntries entries)).declared
    have hcyclic : (ofEntries entries).cyclic.Pairwise fun i j => ¬ Refers entries j i :=
      (List.pairwise_append.mp hfirst).2.1
    -- Each place that is left over waits for one declared earlier, which is left over too.
    refine not_acyclic_of_forall_exists (r := (· < ·)) hne (fun i hi => ?_) (acyclic_of_lt id fun _ _ h => h)
    obtain ⟨j, hj, hprecedes, hji⟩ := precedes_of_stuck hi
    refine ⟨j, hj, ?_⟩
    rcases hprecedes with hrefers | ⟨hlt, -⟩
    · by_contra hle
      exact rel_of_ascending hdeclared hcyclic hi hj (by omega) hrefers
    · exact hlt
  · intro hcyclic
    refine List.pairwise_iff_getElem.mpr fun a b ha hb hab hrefers => ?_
    have hlt := idxOf_lt_of_precedes hrefs hcyclic (Or.inl hrefers)
    rw [(nodup_places _).idxOf_getElem, (nodup_places _).idxOf_getElem] at hlt
    omega

end Schedule

end SolidScript
