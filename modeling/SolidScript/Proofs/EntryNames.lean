import SolidScript.Proofs.Rejection
import SolidScript.Proofs.Specification

/-!
# Names of entries

Names that are bound, names with a number and names made from a source share one space. Whatever a script does, no
two entries have one name, since a name is given away only if nobody has it, and the names that are given away are
those of the entries.
-/

namespace SolidScript.Script

/-! ## Free names -/

theorem append_toString_inj {stem : String} {m n : Nat} : stem ++ toString m = stem ++ toString n ↔ m = n := by
  rw [String.append_right_inj]
  exact Nat.repr_inj

/-- One more number was tried than names are taken, and different numbers make different names. -/
theorem not_all_taken (taken : List String) (stem : String) (k : Nat) :
    ¬ ∀ i, k < i → i ≤ k + taken.length + 1 → stem ++ toString i ∈ taken := by
  intro hall
  let names := (List.range' (k + 1) (taken.length + 1)).map fun i => stem ++ toString i
  have hdistinct : names.Nodup :=
    List.Nodup.map (fun _ _ h => append_toString_inj.mp h) (List.nodup_range' ..)
  have htaken : names ⊆ taken := by
    intro name hname
    obtain ⟨i, hi, rfl⟩ := List.mem_map.mp hname
    rw [List.mem_range'_1] at hi
    exact hall i (by omega) (by omega)
  have hlength := hdistinct.length_le_of_subset htaken
  simp only [names, List.length_map, List.length_range'] at hlength
  omega

namespace Progress

theorem contains_iff (p : Progress) (id : String) : p.contains id = true ↔ id ∈ p.taken := List.contains_iff_mem

theorem freeNumber_cases (p : Progress) (stem : String) (tries k : Nat) :
    p.contains (stem ++ toString (p.freeNumber stem tries k)) = false ∨
      ∀ i, k < i → i ≤ k + tries + 1 → stem ++ toString i ∈ p.taken := by
  induction tries generalizing k with
  | zero =>
    unfold freeNumber
    cases htaken : p.contains (stem ++ toString (k + 1)) with
    | false => exact Or.inl rfl
    | true =>
      refine Or.inr fun i hlow hhigh => ?_
      obtain rfl : i = k + 1 := by omega
      exact (p.contains_iff _).mp htaken
  | succ tries ih =>
    unfold freeNumber
    cases htaken : p.contains (stem ++ toString (k + 1)) with
    | false => exact Or.inl htaken
    | true =>
      refine (ih (k + 1)).imp_right fun hall i hlow hhigh => ?_
      rcases Nat.lt_or_eq_of_le hlow with hlater | rfl
      · exact hall i hlater (by omega)
      · exact (p.contains_iff _).mp htaken

theorem freeNumber_free (p : Progress) (stem : String) (k : Nat) :
    p.contains (stem ++ toString (p.freeNumber stem p.taken.length k)) = false :=
  (p.freeNumber_cases stem p.taken.length k).resolve_right (not_all_taken p.taken stem k)

theorem numbered_free (p : Progress) (stem : String) (first : Nat) :
    (p.numbered stem first).1.entries = p.entries ∧ (p.numbered stem first).1.taken = p.taken ∧
      (p.numbered stem first).2 ∉ p.taken :=
  ⟨rfl, rfl, fun hmem => Bool.false_ne_true ((p.freeNumber_free ..).symm.trans ((p.contains_iff _).mpr hmem))⟩

theorem freshId_free (p : Progress) (callee : String) (o : Operation) :
    (p.freshId callee o).1.entries = p.entries ∧ (p.freshId callee o).1.taken = p.taken ∧
      (p.freshId callee o).2 ∉ p.taken := by
  unfold freshId
  split
  · exact p.numbered_free callee 1
  · split
    · dsimp only
      split
      · exact p.numbered_free _ 2
      · rename_i hfree
        exact ⟨rfl, rfl, fun hmem => hfree ((p.contains_iff _).mpr hmem)⟩
    · exact p.numbered_free _ 1

/-! ## Statements that are accepted -/

inductive TakenUp (p : Progress) (n : Nat) (s : Statement) (o : Operation) : Progress → Prop
  | redeclared {id : String} (bound : s.binding = some id) (known : id ∈ p.taken) : TakenUp p n s o p
  | added {q : Progress} {id : String} (bound : ∀ b, s.binding = some b → b = id) (free : id ∉ p.taken)
      (entries : q.entries = p.entries ++ [⟨id, n, o⟩]) (taken : q.taken = id :: p.taken) : TakenUp p n s o q

theorem takenUp_accept (p : Progress) (n : Nat) (s : Statement) (o : Operation) : TakenUp p n s o (p.accept n s o) := by
  unfold accept
  split
  · rename_i id hbound
    split
    · rename_i hknown
      exact .redeclared hbound ((p.contains_iff id).mp hknown)
    · rename_i hnew
      exact .added (fun b hb => by rwa [hbound, Option.some_inj, eq_comm] at hb)
        (fun hmem => hnew ((p.contains_iff id).mpr hmem)) rfl rfl
  · rename_i hunbound
    obtain ⟨hentries, htaken, hfree⟩ := p.freshId_free s.callee o
    refine .added (fun b hb => absurd (hunbound.symm.trans hb) (by simp)) hfree ?_ ?_
    · simp only [push, take, hentries]
    · simp only [push, take, htaken]

end Progress

/-! ## Lines -/

def Statement.request (config : Config) (s : Statement) : Except ScriptError Operation :=
  Arguments.ofStatement s >>= Arguments.operation config

theorem Progress.addStatement_eq (config : Config) (p : Progress) (n : Nat) (s : Statement) :
    p.addStatement config n s = (s.request config).map (p.accept n s) := by
  unfold Progress.addStatement Statement.request
  cases Arguments.ofStatement s <;> rfl

def accepted? (config : Config) (line : List Char) : Option (Statement × Operation) := do
  let text ← statementText? line
  let s ← (Statement.read? text).join
  let o ← (s.request config).toOption
  return (s, o)

theorem accepted?_eq_some_iff {config : Config} {line : List Char} {s : Statement} {o : Operation} :
    accepted? config line = some (s, o) ↔
      ∃ text, statementText? line = some text ∧ Statement.read? text = some (some s) ∧ s.request config = .ok o := by
  have hok : ∀ {s : Statement}, (s.request config).toOption = some o ↔ s.request config = .ok o := by
    intro s
    cases s.request config <;> simp [Except.toOption]
  unfold accepted?
  simp only [Option.bind_eq_bind, Option.bind_eq_some_iff, Option.pure_def, Option.some_inj, Prod.mk.injEq,
    Option.join_eq_some_iff]
  constructor
  · rintro ⟨text, htext, s', hread, o', ho, rfl, rfl⟩
    exact ⟨text, htext, hread, hok.mp ho⟩
  · rintro ⟨text, htext, hread, ho⟩
    exact ⟨text, htext, s, hread, o, hok.mpr ho, rfl, rfl⟩

def Progress.addLine (config : Config) (p : Progress) (numbered : List Char × Nat) : Progress :=
  match accepted? config numbered.1 with
  | some (s, o) => p.accept numbered.2 s o
  | none => p

def Progress.ofLines (config : Config) (lines : List (List Char × Nat)) : Progress :=
  lines.foldl (addLine config) start

theorem Progress.ofLines_concat (config : Config) (lines : List (List Char × Nat)) (numbered : List Char × Nat) :
    ofLines config (lines ++ [numbered]) = (ofLines config lines).addLine config numbered :=
  List.foldl_concat ..

theorem readLine_progress [SyntaxReport] (config : Config) (state : Progress × Array Diagnostic)
    (numbered : List Char × Nat) : (readLine config state numbered).1 = state.1.addLine config numbered := by
  unfold readLine Progress.addLine accepted?
  cases statementText? numbered.1 with
  | none => rfl
  | some text =>
    unfold Progress.addText
    simp only [Option.bind_eq_bind, Option.bind_some]
    rcases Statement.read? text with - | - | s
    · rfl
    · rfl
    · simp only [Progress.addStatement_eq, Option.join_some, Option.bind_some]
      cases s.request config <;> rfl

theorem refusal?_of_accepted [SyntaxReport] {config : Config} {line : List Char} {request : Statement × Operation}
    (haccepted : accepted? config line = some request) : refusal? config line = none := by
  unfold refusal?
  unfold accepted? at haccepted
  cases htext : statementText? line with
  | none => rfl
  | some text =>
    unfold Progress.addText
    rw [htext] at haccepted
    simp only [Option.bind_eq_bind, Option.bind_some] at haccepted ⊢
    rcases hread : Statement.read? text with - | - | s
    · simp [hread] at haccepted
    · rfl
    · simp only [hread, Progress.addStatement_eq] at haccepted ⊢
      cases hrequest : s.request config with
      | error e => simp [hrequest, Except.toOption] at haccepted
      | ok o => rfl

/-! ## Entries and the lines they come from -/

/-- An entry does what its line asks for, and has the name that is bound there. -/
def Asked (config : Config) (lines : List (List Char × Nat)) (e : Entry) : Prop :=
  ∃ line s, (line, e.line) ∈ lines ∧ accepted? config line = some (s, e.operation) ∧ ∀ b, s.binding = some b → b = e.id

theorem Asked.mono {config : Config} {lines more : List (List Char × Nat)} {e : Entry} (h : Asked config lines e)
    (hsubset : lines ⊆ more) : Asked config more e := by
  obtain ⟨line, s, hmem, hrest⟩ := h
  exact ⟨line, s, hsubset hmem, hrest⟩

/-- What became of a statement that is accepted: an entry, or nothing where its name was taken by a line above. -/
inductive Answered (entries : List Entry) (n : Nat) (s : Statement) (o : Operation) : Prop
  | added (id : String) (mem : ⟨id, n, o⟩ ∈ entries) (bound : ∀ b, s.binding = some b → b = id)
  | redeclared (first : Entry) (mem : first ∈ entries) (bound : s.binding = some first.id) (above : first.line < n)
      (nothing : ∀ e ∈ entries, e.line ≠ n)

theorem Answered.append {entries more : List Entry} {n : Nat} {s : Statement} {o : Operation}
    (h : Answered entries n s o) (hmore : ∀ e ∈ more, e.line ≠ n) : Answered (entries ++ more) n s o := by
  cases h with
  | added id mem bound => exact .added id (List.mem_append_left _ mem) bound
  | redeclared first mem bound above nothing =>
    refine .redeclared first (List.mem_append_left _ mem) bound above fun e he => ?_
    exact (List.mem_append.mp he).elim (nothing e) (hmore e)

theorem Answered.of_mem_iff {entries other : List Entry} {n : Nat} {s : Statement} {o : Operation}
    (hsame : ∀ e, e ∈ entries ↔ e ∈ other) (h : Answered entries n s o) : Answered other n s o := by
  cases h with
  | added id mem bound => exact .added id ((hsame _).mp mem) bound
  | redeclared first mem bound above nothing =>
    exact .redeclared first ((hsame _).mp mem) bound above fun e he => nothing e ((hsame e).mpr he)

/-- What the entries and the names that are given away have to do with the lines read so far. -/
structure Named (config : Config) (lines : List (List Char × Nat)) (p : Progress) : Prop where
  taken_iff : ∀ id, id ∈ p.taken ↔ ∃ e ∈ p.entries, e.id = id
  distinct : (p.entries.map Entry.id).Nodup
  ascending : (p.entries.map Entry.line).Pairwise (· < ·)
  asked : ∀ e ∈ p.entries, Asked config lines e
  answered : ∀ line n s o, (line, n) ∈ lines → accepted? config line = some (s, o) → Answered p.entries n s o

namespace Named

variable {config : Config} {lines : List (List Char × Nat)} {p q : Progress} {line : List Char} {n : Nat}

theorem start (config : Config) : Named config [] Progress.start := by
  constructor <;> simp [Progress.start]

theorem line_lt (h : Named config lines p) (hlast : ∀ earlier ∈ lines, earlier.2 < n) {e : Entry} (he : e ∈ p.entries) :
    e.line < n := by
  obtain ⟨line, -, hmem, -⟩ := h.asked e he
  exact hlast _ hmem

theorem add_none (h : Named config lines p)
    (hanswer : ∀ s o, accepted? config line = some (s, o) → Answered p.entries n s o) :
    Named config (lines ++ [(line, n)]) p where
  taken_iff := h.taken_iff
  distinct := h.distinct
  ascending := h.ascending
  asked e he := (h.asked e he).mono (List.subset_append_left ..)
  answered line' m s o hmem haccepted := by
    rcases List.mem_append.mp hmem with hmem | hmem
    · exact h.answered line' m s o hmem haccepted
    · obtain ⟨rfl, rfl⟩ := Prod.mk.inj (List.mem_singleton.mp hmem)
      exact hanswer s o haccepted

theorem add_entry (h : Named config lines p) (hlast : ∀ earlier ∈ lines, earlier.2 < n) {s : Statement} {o : Operation}
    (haccepted : accepted? config line = some (s, o)) {id : String} (hbound : ∀ b, s.binding = some b → b = id)
    (hfree : id ∉ p.taken) (hentries : q.entries = p.entries ++ [⟨id, n, o⟩]) (htaken : q.taken = id :: p.taken) :
    Named config (lines ++ [(line, n)]) q where
  taken_iff id' := by
    rw [hentries, htaken, List.mem_cons, h.taken_iff]
    simp only [List.mem_append, List.mem_singleton, or_and_right, exists_or, exists_eq_left]
    rw [or_comm, eq_comm (a := id')]
  distinct := by
    have hnew : id ∉ p.entries.map Entry.id := fun hmem => hfree ((h.taken_iff id).mpr (List.mem_map.mp hmem))
    rw [hentries, List.map_append, List.map_singleton]
    exact List.nodup_append_comm.mp (List.nodup_cons.mpr ⟨hnew, h.distinct⟩)
  ascending := by
    rw [hentries, List.map_append, List.map_singleton, List.pairwise_append]
    refine ⟨h.ascending, List.pairwise_singleton .., fun m hm m' hm' => ?_⟩
    obtain ⟨e, he, rfl⟩ := List.mem_map.mp hm
    rw [List.mem_singleton.mp hm']
    exact h.line_lt hlast he
  asked e he := by
    rw [hentries, List.mem_append, List.mem_singleton] at he
    rcases he with he | rfl
    · exact (h.asked e he).mono (List.subset_append_left ..)
    · exact ⟨line, s, List.mem_append_right _ (List.mem_singleton_self _), haccepted, hbound⟩
  answered line' m s' o' hmem haccepted' := by
    rw [hentries]
    rcases List.mem_append.mp hmem with hmem | hmem
    · refine (h.answered line' m s' o' hmem haccepted').append fun e he => ?_
      rw [List.mem_singleton.mp he]
      exact (hlast _ hmem).ne'
    · obtain ⟨rfl, rfl⟩ := Prod.mk.inj (List.mem_singleton.mp hmem)
      obtain ⟨rfl, rfl⟩ := Prod.mk.inj (Option.some.inj (haccepted'.symm.trans haccepted))
      exact .added id (List.mem_append_right _ (List.mem_singleton_self _)) hbound

theorem addLine (h : Named config lines p) (hlast : ∀ earlier ∈ lines, earlier.2 < n) :
    Named config (lines ++ [(line, n)]) (p.addLine config (line, n)) := by
  unfold Progress.addLine
  cases haccepted : accepted? config line with
  | none => exact h.add_none fun s o hsome => absurd (haccepted.symm.trans hsome) (by simp)
  | some request =>
    obtain ⟨s, o⟩ := request
    have htakenUp := p.takenUp_accept n s o
    dsimp only
    generalize p.accept n s o = q at htakenUp
    cases htakenUp with
    | added bound free entries taken => exact h.add_entry hlast haccepted bound free entries taken
    | redeclared bound known =>
      -- A name is taken only by an entry, and all entries so far are from lines above.
      refine h.add_none fun s' o' hsome => ?_
      obtain ⟨rfl, rfl⟩ := Prod.mk.inj (Option.some.inj (haccepted.symm.trans hsome))
      obtain ⟨first, hfirst, rfl⟩ := (h.taken_iff _).mp known
      exact .redeclared first hfirst bound (h.line_lt hlast hfirst) fun e he => (h.line_lt hlast he).ne

theorem ofLines (config : Config) (lines : List (List Char × Nat))
    (hascending : lines.Pairwise fun a b => a.2 < b.2) : Named config lines (.ofLines config lines) := by
  -- From the end of the lines, since each adds to what those above it made.
  induction lines using List.reverseRecOn with
  | nil => exact .start config
  | append_singleton lines numbered ih =>
    obtain ⟨hbefore, -, hlast⟩ := List.pairwise_append.mp hascending
    rw [Progress.ofLines_concat]
    exact (ih hbefore).addLine fun earlier hearlier => hlast earlier hearlier numbered (List.mem_singleton_self _)

end Named

/-! ## Scripts -/

theorem parse_entries [SyntaxReport] (config : Config) (script : String) :
    (parse config script).1 = .ofEntries (Progress.ofLines config (numberedLines script)).entries := by
  have hprogress : ((numberedLines script).foldl (readLine config) (Progress.start, #[])).1 =
      .ofLines config (numberedLines script) :=
    (List.foldl_hom Prod.fst fun state numbered => (readLine_progress config state numbered).symm).symm
  rw [← hprogress]
  rfl

theorem numberedLines_ascending (script : String) : (numberedLines script).Pairwise fun a b => a.2 < b.2 := by
  have hnumbers : ((numberedLines script).map Prod.snd).Pairwise (· < ·) := by
    unfold numberedLines
    rw [List.zipIdx_map_snd]
    exact List.pairwise_lt_range' ..
  exact List.pairwise_map.mp hnumbers

theorem mem_numberedLines {script : String} {line : List Char} {n : Nat} :
    (line, n) ∈ numberedLines script ↔ 1 ≤ n ∧ (script.toList.splitOn '\n')[n - 1]? = some line :=
  List.mk_mem_zipIdx_iff_le_and_getElem?_sub

theorem not_reported [SyntaxReport] {config : Config} {script : String} {line : List Char} {n : Nat}
    {request : Statement × Operation} (hline : (line, n) ∈ numberedLines script)
    (haccepted : accepted? config line = some request) {d : Diagnostic} (hd : d ∈ (parse config script).2) : d.line ≠ some n := by
  rw [parse_rejected] at hd
  obtain ⟨⟨other, m⟩, hother, hrejected⟩ := List.mem_filterMap.mp hd
  obtain ⟨e, hrefusal, rfl⟩ := Option.map_eq_some_iff.mp hrejected
  rw [mem_numberedLines] at hline hother
  intro hsame
  obtain rfl : m = n := by
    have hpositive : m ≠ 0 := by omega
    simpa [rejection, Diagnostic.lineOf, hpositive] using hsame
  obtain rfl : line = other := Option.some.inj (hline.2.symm.trans hother.2)
  rw [refusal?_of_accepted haccepted] at hrefusal
  cases hrefusal

/-- No two entries of a script have one name or one line. In each list they stand by their lines. Each does what its
line asks for, and a line that is accepted gets its entry unless the name that it binds was taken above. -/
theorem script_entries_named [SyntaxReport] (config : Config) (script : String) :
    let spec := (parse config script).1
    let reports := (parse config script).2
    (spec.byCategory.map Entry.id).Nodup ∧ (spec.byCategory.map Entry.line).Nodup ∧
      (∀ c, ((spec.inCategory c).map Entry.line).Pairwise (· < ·)) ∧
      (∀ e ∈ spec.byCategory, Asked config (numberedLines script) e) ∧
      ∀ line n s o, (line, n) ∈ numberedLines script → accepted? config line = some (s, o) →
        Answered spec.byCategory n s o ∧ ∀ d ∈ reports, d.line ≠ some n := by
  have hnamed := Named.ofLines config _ (numberedLines_ascending script)
  have hentries := parse_entries config script
  generalize Progress.ofLines config (numberedLines script) = p at hnamed hentries
  have hperm := Specification.byCategory_ofEntries hnamed.distinct.of_map
  intro spec reports
  have hspec : spec = .ofEntries p.entries := hentries
  refine ⟨?_, ?_, ?_, ?_, ?_⟩
  · rw [hspec]
    exact (hperm.map Entry.id).nodup_iff.mpr hnamed.distinct
  · rw [hspec]
    exact (hperm.map Entry.line).nodup_iff.mpr (hnamed.ascending.imp Nat.ne_of_lt)
  · intro c
    rw [hspec]
    exact hnamed.ascending.sublist (List.filter_sublist.map Entry.line)
  · intro e he
    rw [hspec] at he
    exact hnamed.asked e (Specification.mem_ofEntries.mp he)
  · intro line n s o hline haccepted
    refine ⟨?_, fun d hd => not_reported hline haccepted hd⟩
    rw [hspec]
    exact (hnamed.answered line n s o hline haccepted).of_mem_iff fun e => Specification.mem_ofEntries.symm

/-- The second line is no statement, the third binds the name of the first again, and the number one is taken for the
last. -/
def unions : String := "union1=union(b,c)\n(\nunion1=union(c,b)\nunion(b,c)"

theorem unions_named :
    ((parse {} unions).1.byCategory.map Entry.id).Nodup ∧
      ∃ line s o, (line, 3) ∈ numberedLines unions ∧ accepted? {} line = some (s, o) ∧
        Answered (parse {} unions).1.byCategory 3 s o ∧ ∀ d ∈ (parse {} unions).2, d.line ≠ some 3 := by
  obtain ⟨hdistinct, -, -, -, hanswered⟩ := script_entries_named {} unions
  have hline : ("union1=union(c,b)".toList, 3) ∈ numberedLines unions := by decide +kernel
  have haccepted : (accepted? {} "union1=union(c,b)".toList).isSome := by decide +kernel
  obtain ⟨⟨s, o⟩, haccepted⟩ := Option.isSome_iff_exists.mp haccepted
  exact ⟨hdistinct, _, s, o, hline, haccepted, hanswered _ 3 s o hline haccepted⟩

example : (parse {} unions).1.byCategory.map (fun e => (e.id, e.line)) = [("union1", 1), ("union2", 4)] := by
  decide +kernel

end SolidScript.Script
