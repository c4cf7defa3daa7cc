import SolidScript.Proofs.Arguments
import SolidScript.Proofs.EntryNames

/-!
# Names that are made up

The number behind a stem is looked for behind the last one that was given to that stem. All numbers up to there are
taken, so that the name is the one that a search from the beginning finds.
-/

namespace SolidScript.Script

/-! ## Plain search -/

theorem exists_free (taken : List String) (stem : String) (first : Nat) :
    ∃ k, first ≤ k ∧ stem ++ toString k ∉ taken := by
  by_contra hall
  simp only [not_exists, not_and, not_not] at hall
  exact not_all_taken taken stem first fun k hk _ => hall k (Nat.le_of_lt hk)

/-- The least number from `first` on that makes a free name. -/
def plainNumber (taken : List String) (stem : String) (first : Nat) : Nat := Nat.find (exists_free taken stem first)

def plainName (taken : List String) (stem : String) (first : Nat) : String :=
  stem ++ toString (plainNumber taken stem first)

/-- The name of an entry that is not bound to one, looked for from the beginning. -/
def plainId (taken : List String) (callee : String) (o : Operation) : String :=
  if o.isGenerative then
    match o with
    | .primitive (.cylinder ..) => plainName taken "cyl" 1
    | _ => plainName taken callee 1
  else
    let base := o.sources.headD "" ++ "_" ++ callee
    if base ∈ taken then plainName taken (base ++ "_") 2 else base

theorem plainId_congr {taken other : List String} (hsame : ∀ id, id ∈ taken ↔ id ∈ other) (callee : String)
    (o : Operation) : plainId taken callee o = plainId other callee o := by
  have hnumber : plainNumber taken = plainNumber other := by
    funext stem first
    exact Nat.find_congr' (by simp [hsame])
  unfold plainId plainName
  simp only [hnumber, hsame]

namespace Progress

/-! ## The search from the last number on -/

/-- Counting on from `k`, however long that takes, `n` is the first number whose name is free. -/
inductive Search (p : Progress) (stem : String) : Nat → Nat → Prop
  | free {k : Nat} (free : p.contains (stem ++ toString (k + 1)) = false) : Search p stem k (k + 1)
  | taken {k n : Nat} (taken : p.contains (stem ++ toString (k + 1)) = true) (more : Search p stem (k + 1) n) :
    Search p stem k n

theorem freeNumber_spec (p : Progress) (stem : String) (tries k : Nat) :
    k < p.freeNumber stem tries k ∧
      ∀ i, k < i → i < p.freeNumber stem tries k → stem ++ toString i ∈ p.taken := by
  induction tries generalizing k with
  | zero =>
    simp only [freeNumber]
    exact ⟨by omega, fun i _ _ => by omega⟩
  | succ tries ih =>
    unfold freeNumber
    split
    · rename_i htaken
      obtain ⟨hlt, hbelow⟩ := ih (k + 1)
      refine ⟨by omega, fun i hi hi' => ?_⟩
      rcases Nat.lt_or_eq_of_le hi with hlater | rfl
      · exact hbelow i hlater hi'
      · exact (p.contains_iff _).mp htaken
    · exact ⟨by omega, fun i _ _ => by omega⟩

/-- What a search that starts behind `k` has to find. -/
structure Least (p : Progress) (stem : String) (k n : Nat) : Prop where
  behind : k < n
  free : stem ++ toString n ∉ p.taken
  below : ∀ i, k < i → i < n → stem ++ toString i ∈ p.taken

theorem Least.unique {p : Progress} {stem : String} {k m n : Nat} (h : p.Least stem k m) (h' : p.Least stem k n) :
    m = n := by
  rcases lt_trichotomy m n with hlt | heq | hlt
  · exact absurd (h'.below m h.behind hlt) h.free
  · exact heq
  · exact absurd (h.below n h'.behind hlt) h'.free

theorem least_freeNumber (p : Progress) (stem : String) (k : Nat) :
    p.Least stem k (p.freeNumber stem p.taken.length k) := by
  obtain ⟨hlt, hbelow⟩ := p.freeNumber_spec stem p.taken.length k
  refine ⟨hlt, fun hmem => ?_, hbelow⟩
  have hfree := p.freeNumber_free stem k
  rw [(p.contains_iff _).mpr hmem] at hfree
  cases hfree

theorem Search.least {p : Progress} {stem : String} {k n : Nat} (h : p.Search stem k n) : p.Least stem k n := by
  induction h with
  | free hfree =>
    refine ⟨by omega, fun hmem => ?_, fun i _ _ => by omega⟩
    rw [(p.contains_iff _).mpr hmem] at hfree
    cases hfree
  | @taken k n htaken _ ih =>
    refine ⟨by have := ih.behind; omega, ih.free, fun i hi hi' => ?_⟩
    rcases Nat.lt_or_eq_of_le hi with hlater | rfl
    · exact ih.below i hlater hi'
    · exact (p.contains_iff _).mp htaken

theorem Least.search {p : Progress} {stem : String} {k n : Nat} (h : p.Least stem k n) : p.Search stem k n := by
  obtain ⟨hlt, hfree, hbelow⟩ := h
  induction hd : n - k - 1 generalizing k with
  | zero =>
    obtain rfl : n = k + 1 := by omega
    exact .free (by simpa [contains] using hfree)
  | succ d ih =>
    have htaken := hbelow (k + 1) (by omega) (by omega)
    exact .taken ((p.contains_iff _).mpr htaken) (ih (by omega) (fun i hi => hbelow i (by omega)) (by omega))

theorem search_iff {p : Progress} {stem : String} {k n : Nat} :
    p.Search stem k n ↔ n = p.freeNumber stem p.taken.length k := by
  constructor
  · exact fun h => h.least.unique (p.least_freeNumber stem k)
  · rintro rfl
    exact (p.least_freeNumber stem k).search

/-- With all numbers up to `k` taken, the search from there on is the plain one. -/
theorem freeNumber_eq_plainNumber (p : Progress) {stem : String} {first k : Nat} (hfirst : first ≤ k + 1)
    (htaken : ∀ i, first ≤ i → i ≤ k → stem ++ toString i ∈ p.taken) :
    p.freeNumber stem p.taken.length k = plainNumber p.taken stem first := by
  obtain ⟨hlt, hfree, hbelow⟩ := p.least_freeNumber stem k
  generalize p.freeNumber stem p.taken.length k = n at hlt hbelow hfree
  apply Eq.symm
  apply (Nat.find_eq_iff (exists_free p.taken stem first)).mpr
  refine ⟨⟨by omega, hfree⟩, ?_⟩
  rintro i hi ⟨hge, hnot⟩
  by_cases hik : i ≤ k
  · exact hnot (htaken i hge hik)
  · exact hnot (hbelow i (by omega) hi)

/-! ## What is remembered -/

/-- Stems made from a source end in an underscore, and are counted from two on. -/
def firstNumber (stem : String) : Nat := if stem.toList.getLast? = some '_' then 2 else 1

theorem firstNumber_source (base : String) : firstNumber (base ++ "_") = 2 := by
  simp [firstNumber]

/-- All numbers up to the one that was given to a stem last are taken for that stem. -/
def Counted (p : Progress) : Prop :=
  ∀ stem last, p.numbers.lookup stem = some last →
    firstNumber stem ≤ last ∧ ∀ k, firstNumber stem ≤ k → k ≤ last → stem ++ toString k ∈ p.taken

theorem counted_start : start.Counted := by
  intro stem last h
  cases h

theorem Counted.more {p q : Progress} (h : p.Counted) (hnumbers : q.numbers = p.numbers)
    (htaken : p.taken ⊆ q.taken) : q.Counted := by
  intro stem last hlast
  rw [hnumbers] at hlast
  obtain ⟨hfirst, hall⟩ := h stem last hlast
  exact ⟨hfirst, fun k hk hk' => htaken (hall k hk hk')⟩

theorem Counted.numbered {p : Progress} (h : p.Counted) {stem : String} {first : Nat} (hfirst : firstNumber stem = first) :
    (p.numbered stem first).2 = plainName p.taken stem first ∧
      ((p.numbered stem first).1.take (p.numbered stem first).2).Counted := by
  subst hfirst
  have hpos : 1 ≤ firstNumber stem := by
    unfold firstNumber
    split <;> omega
  -- The last number that was given, or the one before the first.
  obtain ⟨last, hlast⟩ : ∃ last, (p.numbers.lookup stem).getD (firstNumber stem - 1) = last := ⟨_, rfl⟩
  have htaken : firstNumber stem ≤ last + 1 ∧ ∀ k, firstNumber stem ≤ k → k ≤ last → stem ++ toString k ∈ p.taken := by
    cases hlookup : p.numbers.lookup stem with
    | none =>
      rw [hlookup, Option.getD_none] at hlast
      exact ⟨by omega, fun k _ _ => by omega⟩
    | some given =>
      rw [hlookup, Option.getD_some] at hlast
      obtain ⟨hle, hall⟩ := h stem given hlookup
      exact ⟨by omega, fun k hk hk' => hall k hk (by omega)⟩
  have hnumber := p.freeNumber_eq_plainNumber htaken.1 htaken.2
  obtain ⟨hge, -⟩ := Nat.find_spec (exists_free p.taken stem (firstNumber stem))
  refine ⟨by unfold Progress.numbered plainName; dsimp only; rw [hlast, hnumber], ?_⟩
  intro other given hgiven
  unfold Progress.numbered Progress.take at hgiven ⊢
  dsimp only at hgiven ⊢
  rw [hlast, hnumber] at hgiven ⊢
  rw [List.lookup_cons] at hgiven
  split at hgiven
  · rename_i hsame
    obtain rfl := beq_iff_eq.mp hsame
    obtain rfl := Option.some.inj hgiven
    refine ⟨hge, fun k hk hk' => ?_⟩
    rcases Nat.lt_or_eq_of_le hk' with hlt | rfl
    · have hnot := Nat.find_min (exists_free p.taken other (firstNumber other)) hlt
      rw [not_and, not_not] at hnot
      exact List.mem_cons_of_mem _ (hnot hk)
    · exact List.mem_cons_self
  · obtain ⟨hle, hall⟩ := h other given hgiven
    exact ⟨hle, fun k hk hk' => List.mem_cons_of_mem _ (hall k hk hk')⟩

/-! ## Statements -/

theorem freshId_of_generative (p : Progress) (callee : String) {o : Operation} (h : o.isGenerative = true) :
    p.freshId callee o = p.numbered (stem callee o) 1 := by
  cases o <;> first | rfl | cases h

theorem freshId_of_source (p : Progress) (callee : String) {o : Operation} (h : o.isGenerative = false) :
    p.freshId callee o =
      let base := o.sources.headD "" ++ "_" ++ callee
      if p.contains base then p.numbered (base ++ "_") 2 else (p, base) := by
  cases o <;> first | rfl | cases h

theorem plainId_of_generative (taken : List String) (callee : String) {o : Operation} (h : o.isGenerative = true) :
    plainId taken callee o = plainName taken (stem callee o) 1 := by
  unfold plainId
  rw [if_pos h]
  split
  · rfl
  · rename_i hnot
    cases o with
    | primitive shape =>
      cases shape with
      | cylinder => exact absurd rfl (hnot _ _ _ _)
      | _ => rfl
    | _ => rfl

theorem Counted.freshId {p : Progress} (h : p.Counted) {callee : String} (hcallee : firstNumber callee = 1)
    (o : Operation) :
    (p.freshId callee o).2 = plainId p.taken callee o ∧ ((p.freshId callee o).1.take (p.freshId callee o).2).Counted := by
  cases hgen : o.isGenerative with
  | true =>
    have hstem : firstNumber (stem callee o) = 1 := by
      unfold stem
      split
      · decide
      · exact hcallee
    rw [p.freshId_of_generative callee hgen, plainId_of_generative p.taken callee hgen]
    exact h.numbered hstem
  | false =>
    rw [p.freshId_of_source callee hgen]
    unfold plainId
    simp only [hgen, Bool.false_eq_true, if_false]
    split
    · rename_i htaken
      rw [if_pos ((p.contains_iff _).mp htaken)]
      exact h.numbered (firstNumber_source _)
    · rename_i hfree
      rw [if_neg fun hmem => hfree ((p.contains_iff _).mpr hmem)]
      exact ⟨rfl, h.more rfl (List.subset_cons_self _ _)⟩

end Progress

theorem firstNumber_of_operation {config : Config} {a : Arguments} {o : Operation}
    (h : a.operation config = .ok o) : Progress.firstNumber a.statement = 1 := by
  unfold Arguments.operation at h
  split at h <;> first | (rename_i heq; rw [heq]; decide) | cases h

theorem firstNumber_of_accepted {config : Config} {line : List Char} {s : Statement} {o : Operation}
    (haccepted : accepted? config line = some (s, o)) : Progress.firstNumber s.callee = 1 := by
  obtain ⟨text, -, -, hrequest⟩ := accepted?_eq_some_iff.mp haccepted
  obtain ⟨a, ha, ho⟩ := bind_eq_ok_iff.mp hrequest
  rw [← (Arguments.reads_ofStatement ha).statement]
  exact firstNumber_of_operation ho

namespace Progress

theorem accept_unbound (p : Progress) (n : Nat) {s : Statement} (o : Operation) (hunbound : s.binding = none) :
    p.accept n s o = ((p.freshId s.callee o).1.take (p.freshId s.callee o).2).push ⟨(p.freshId s.callee o).2, n, o⟩ := by
  unfold accept
  rw [hunbound]

theorem Counted.accept {p : Progress} (h : p.Counted) (n : Nat) {s : Statement} (o : Operation)
    (hcallee : firstNumber s.callee = 1) : (p.accept n s o).Counted := by
  cases hbinding : s.binding with
  | some id =>
    unfold Progress.accept
    simp only [hbinding]
    split
    · exact h
    · exact h.more rfl (List.subset_cons_self _ _)
  | none =>
    rw [p.accept_unbound n o hbinding]
    exact (h.freshId hcallee o).2.more rfl (List.Subset.refl _)

theorem Counted.addLine {p : Progress} (h : p.Counted) (config : Config) (numbered : List Char × Nat) :
    (p.addLine config numbered).Counted := by
  unfold Progress.addLine
  split
  · rename_i s o haccepted
    exact h.accept numbered.2 o (firstNumber_of_accepted haccepted)
  · exact h

theorem counted_ofLines (config : Config) (lines : List (List Char × Nat)) : (ofLines config lines).Counted := by
  induction lines using List.reverseRecOn with
  | nil => exact counted_start
  | append_singleton lines numbered ih =>
    rw [ofLines_concat]
    exact ih.addLine config numbered

theorem entries_subset_addLine (config : Config) (p : Progress) (numbered : List Char × Nat) :
    p.entries ⊆ (p.addLine config numbered).entries := by
  unfold addLine
  split
  · rename_i s o _
    have htakenUp := p.takenUp_accept numbered.2 s o
    generalize p.accept numbered.2 s o = q at htakenUp
    cases htakenUp with
    | redeclared => exact List.Subset.refl _
    | added _ _ entries _ => rw [entries]; exact List.subset_append_left ..
  · exact List.Subset.refl _

theorem entries_subset_ofLines (config : Config) (before after : List (List Char × Nat)) :
    (ofLines config before).entries ⊆ (ofLines config (before ++ after)).entries := by
  induction after using List.reverseRecOn with
  | nil => simp
  | append_singleton after numbered ih =>
    rw [← List.append_assoc, ofLines_concat]
    exact List.Subset.trans ih (entries_subset_addLine config _ numbered)

end Progress

/-! ## Scripts -/

/-- An unbound statement gets the name that a search from the beginning finds among the names of the entries above.
The search that goes on from the last number ends, and the entry is one of the specification. -/
theorem unbound_entries_named_plainly [SyntaxReport] (config : Config) {script : String}
    {before after : List (List Char × Nat)} {line : List Char} {n : Nat} {s : Statement} {o : Operation}
    (hlines : numberedLines script = before ++ (line, n) :: after)
    (haccepted : accepted? config line = some (s, o)) (hunbound : s.binding = none) :
    let p := Progress.ofLines config before
    let e : Entry := ⟨plainId (p.entries.map Entry.id) s.callee o, n, o⟩
    (∀ stem k n, p.Search stem k n ↔ n = p.freeNumber stem p.taken.length k) ∧
      (p.accept n s o).entries = p.entries ++ [e] ∧ e ∈ (parse config script).1.byCategory := by
  intro p e
  have hnumbered : numberedLines script = before ++ [(line, n)] ++ after := by simp [hlines]
  have hnamed := Named.ofLines config before
    ((numberedLines_ascending script).sublist (by rw [hlines]; exact List.sublist_append_left ..))
  -- Just the entries above take names.
  have hids : ∀ id, id ∈ p.taken ↔ id ∈ p.entries.map Entry.id := by simpa using hnamed.taken_iff
  have hcallee := firstNumber_of_accepted haccepted
  have hid : (p.freshId s.callee o).2 = plainId (p.entries.map Entry.id) s.callee o :=
    ((Progress.counted_ofLines config before).freshId hcallee o).1.trans (plainId_congr hids ..)
  have hentries : (p.accept n s o).entries = p.entries ++ [e] := by
    rw [p.accept_unbound n o hunbound, hid]
    simp only [Progress.push, Progress.take, (p.freshId_free s.callee o).1, e]
  refine ⟨fun stem k n => Progress.search_iff, hentries, ?_⟩
  rw [parse_entries, Specification.mem_ofEntries, hnumbered]
  apply Progress.entries_subset_ofLines
  rw [Progress.ofLines_concat]
  simp [Progress.addLine, haccepted, hentries, p]

/-- The first line takes a name that the search would give. -/
def translations : String := "b_translate_2=union(b,c)\ntranslate(b,[0,0,0])\ntranslate(b,[0,0,0])\ntranslate(b,[0,0,0])"

theorem translations_named_plainly : ∃ o, ⟨"b_translate_4", 4, o⟩ ∈ (parse {} translations).1.byCategory := by
  let line := "translate(b,[0,0,0])".toList
  let before := [("b_translate_2=union(b,c)".toList, 1), (line, 2), (line, 3)]
  have hlines : numberedLines translations = before ++ (line, 4) :: [] := by decide +kernel
  have haccepted : (accepted? {} line).any fun (s, o) =>
      s.binding.isNone && s.callee == "translate" && !o.isGenerative && o.sources == ["b"] := by decide +kernel
  obtain ⟨⟨s, o⟩, haccepted, hrequest⟩ := (Option.any_eq_true _ _).mp haccepted
  simp only [Bool.and_eq_true, Option.isNone_iff_eq_none, beq_iff_eq, Bool.not_eq_true'] at hrequest
  obtain ⟨⟨⟨hunbound, hcallee⟩, hgenerative⟩, hsources⟩ := hrequest
  have hids : (Progress.ofLines {} before).entries.map Entry.id = ["b_translate_2", "b_translate", "b_translate_3"] := by
    decide +kernel
  have hnumber : plainNumber ["b_translate_2", "b_translate", "b_translate_3"] "b_translate_" 2 = 4 :=
    (Nat.find_eq_iff _).mpr (by decide +kernel)
  have hid : plainId ["b_translate_2", "b_translate", "b_translate_3"] "translate" o = "b_translate_4" := by
    simp only [plainId, plainName, hgenerative, hsources, List.headD_cons, Bool.false_eq_true, if_false]
    rw [if_pos (by decide), show "b" ++ "_" ++ "translate" ++ "_" = "b_translate_" from by decide, hnumber]
    decide
  obtain ⟨-, -, hmem⟩ := unbound_entries_named_plainly {} hlines haccepted hunbound
  rw [hids, hcallee, hid] at hmem
  exact ⟨o, hmem⟩

end SolidScript.Script
