import SolidScript.Proofs.EntryNames

/-!
# Lines that add nothing

A line that is rejected, or that binds a name once more, takes no name and no number from the lines below. With blank
lines in the places of such lines a script means the same, and what was reported on them is gone.
-/

namespace SolidScript.Script

/-! ## Blank lines -/

def IsBlankLine (line : List Char) : Prop := '\n' ∉ line ∧ line.all isBlank

instance (line : List Char) : Decidable (IsBlankLine line) := inferInstanceAs (Decidable (_ ∧ _))

theorem statementText?_blank {line : List Char} (hblank : IsBlankLine line) : statementText? line = none := by
  have htrimmed : trim line = [] := by
    unfold trim trimStart
    rw [List.dropWhile_eq_nil_iff.mpr (List.all_eq_true.mp hblank.2)]
    rfl
  unfold statementText?
  rw [htrimmed]

theorem refusal?_blank [SyntaxReport] (config : Config) {line : List Char} (hblank : IsBlankLine line) :
    refusal? config line = none := by
  unfold refusal?
  rw [statementText?_blank hblank]
  rfl

theorem accepted?_blank (config : Config) {line : List Char} (hblank : IsBlankLine line) :
    accepted? config line = none := by
  unfold accepted?
  rw [statementText?_blank hblank]
  rfl

/-! ## Other texts in the places of lines -/

section Replaced

variable (put : Nat → Option (List Char))

def replaced (numbered : List Char × Nat) : List Char × Nat := ((put numbered.2).getD numbered.1, numbered.2)

def replaceLines (script : String) : String :=
  String.ofList (['\n'].intercalate ((numberedLines script).map fun numbered => (replaced put numbered).1))

theorem not_mem_of_mem_splitOn {c : Char} {text piece : List Char} (hpiece : piece ∈ text.splitOn c) : c ∉ piece := by
  induction text generalizing piece with
  | nil => simp_all
  | cons d text ih =>
    obtain ⟨first, rest, hsplit⟩ := List.exists_cons_of_ne_nil (List.splitOn_ne_nil c text)
    rw [List.splitOn_cons_eq_if_modifyHead, hsplit] at hpiece
    rw [hsplit] at ih
    split at hpiece
    · rcases List.mem_cons.mp hpiece with rfl | hmem
      · exact List.not_mem_nil
      · exact ih hmem
    · rename_i hne
      rcases List.mem_cons.mp hpiece with rfl | hmem
      · rw [List.mem_cons, not_or]
        exact ⟨fun heq => hne (beq_iff_eq.mpr heq.symm), ih List.mem_cons_self⟩
      · exact ih (List.mem_cons_of_mem _ hmem)

theorem zipIdx_map_fst_replaced (lines : List (List Char)) (k : Nat) :
    ((lines.zipIdx k).map fun numbered => (replaced put numbered).1).zipIdx k =
      (lines.zipIdx k).map (replaced put) := by
  induction lines generalizing k with
  | nil => rfl
  | cons line lines ih =>
    simp only [List.zipIdx_cons, List.map_cons, ih (k + 1)]
    rfl

theorem numberedLines_replaceLines {script : String}
    (hput : ∀ numbered ∈ numberedLines script, ∀ text ∈ put numbered.2, '\n' ∉ text) :
    numberedLines (replaceLines put script) = (numberedLines script).map (replaced put) := by
  have hpieces : ∀ piece ∈ (numberedLines script).map (fun numbered => (replaced put numbered).1), '\n' ∉ piece := by
    intro piece hpiece
    obtain ⟨numbered, hnumbered, rfl⟩ := List.mem_map.mp hpiece
    unfold replaced
    cases htext : put numbered.2 with
    | some text => exact hput numbered hnumbered text htext
    | none => exact not_mem_of_mem_splitOn (List.mem_of_getElem? (mem_numberedLines.mp hnumbered).2)
  have hsome : (numberedLines script).map (fun numbered => (replaced put numbered).1) ≠ [] := by
    simp [numberedLines, List.splitOn_ne_nil]
  unfold replaceLines
  rw [numberedLines, String.toList_ofList, List.splitOn_intercalate '\n' hpieces hsome]
  exact zipIdx_map_fst_replaced put _ 1

end Replaced

/-! ## Lines that add nothing -/

/-- A line of a script that is rejected, or that binds a name which an entry from above has. -/
def Idle [SyntaxReport] (config : Config) (script : String) (numbered : List Char × Nat) : Prop :=
  (refusal? config numbered.1).isSome ∨
    ∃ request ∈ accepted? config numbered.1, ∃ first ∈ (parse config script).1.byCategory,
      first.line < numbered.2 ∧ request.1.binding = some first.id

instance [SyntaxReport] (config : Config) (script : String) (numbered : List Char × Nat) :
    Decidable (Idle config script numbered) :=
  inferInstanceAs (Decidable (_ ∨ _))

namespace Progress

variable {config : Config} {p : Progress}

theorem addLine_of_none {numbered : List Char × Nat} (hnone : accepted? config numbered.1 = none) :
    p.addLine config numbered = p := by
  unfold addLine
  rw [hnone]

theorem accept_redeclared {n : Nat} {s : Statement} {o : Operation} {id : String} (hbound : s.binding = some id)
    (hknown : id ∈ p.taken) : p.accept n s o = p := by
  unfold accept
  simp only [hbound, (p.contains_iff id).mpr hknown, if_true]

theorem mem_addLine {numbered : List Char × Nat} {e : Entry} (he : e ∈ (p.addLine config numbered).entries) :
    e ∈ p.entries ∨ e.line = numbered.2 := by
  unfold addLine at he
  split at he
  · rename_i s o _
    have htakenUp := p.takenUp_accept numbered.2 s o
    generalize p.accept numbered.2 s o = q at he htakenUp
    cases htakenUp with
    | redeclared => exact .inl he
    | added _ _ entries _ =>
      rw [entries, List.mem_append, List.mem_singleton] at he
      exact he.imp_right fun heq => by rw [heq]
  · exact .inl he

theorem mem_foldl_addLine {lines : List (List Char × Nat)} {e : Entry}
    (he : e ∈ (lines.foldl (addLine config) p).entries) : e ∈ p.entries ∨ ∃ numbered ∈ lines, e.line = numbered.2 := by
  induction lines generalizing p with
  | nil => exact .inl he
  | cons numbered lines ih =>
    rcases ih he with hmem | ⟨later, hlater, hline⟩
    · exact (mem_addLine hmem).imp_right fun hline => ⟨numbered, List.mem_cons_self, hline⟩
    · exact .inr ⟨later, List.mem_cons_of_mem _ hlater, hline⟩

end Progress

section Script

variable {config : Config} {script : String} {before after : List (List Char × Nat)} {numbered : List Char × Nat}

theorem mem_taken_of_above [SyntaxReport] (hlines : numberedLines script = before ++ numbered :: after) {first : Entry}
    (hknown : first ∈ (parse config script).1.byCategory) (habove : first.line < numbered.2) :
    first.id ∈ (Progress.ofLines config before).taken := by
  have hascending := numberedLines_ascending script
  rw [hlines, List.pairwise_append] at hascending
  obtain ⟨hbefore, hafter, -⟩ := hascending
  rw [parse_entries, Specification.mem_ofEntries, hlines, Progress.ofLines, List.foldl_append] at hknown
  refine ((Named.ofLines config before hbefore).taken_iff _).mpr ⟨first, ?_, rfl⟩
  refine (Progress.mem_foldl_addLine hknown).resolve_right ?_
  rintro ⟨later, hlater, hline⟩
  rcases List.mem_cons.mp hlater with rfl | hlater
  · omega
  · have := (List.pairwise_cons.mp hafter).1 later hlater
    omega

theorem addLine_idle [SyntaxReport] (hlines : numberedLines script = before ++ numbered :: after)
    (hidle : Idle config script numbered) :
    (Progress.ofLines config before).addLine config numbered = .ofLines config before := by
  rcases hidle with hrefused | ⟨⟨s, o⟩, haccepted, first, hknown, habove, hbound⟩
  · refine Progress.addLine_of_none (Option.eq_none_iff_forall_ne_some.mpr fun request haccepted => ?_)
    rw [refusal?_of_accepted haccepted] at hrefused
    cases hrefused
  · unfold Progress.addLine
    rw [Option.mem_def.mp haccepted]
    exact Progress.accept_redeclared hbound (mem_taken_of_above hlines hknown habove)

variable {put : Nat → Option (List Char)}

theorem addLine_replaced [SyntaxReport]
    (hput : ∀ text ∈ put numbered.2, IsBlankLine text ∧ Idle config script numbered)
    (hlines : numberedLines script = before ++ numbered :: after) :
    (Progress.ofLines config before).addLine config (replaced put numbered) =
      (Progress.ofLines config before).addLine config numbered := by
  unfold replaced
  cases htext : put numbered.2 with
  | none => rfl
  | some text =>
    obtain ⟨hblank, hidle⟩ := hput text htext
    rw [addLine_idle hlines hidle]
    exact Progress.addLine_of_none (accepted?_blank config hblank)

theorem ofLines_replaced [SyntaxReport]
    (hput : ∀ numbered ∈ numberedLines script, ∀ text ∈ put numbered.2,
      IsBlankLine text ∧ Idle config script numbered)
    (hlines : numberedLines script = before ++ after) :
    Progress.ofLines config (before.map (replaced put)) = .ofLines config before := by
  -- From the end of the lines, since whether a line is idle is up to those above it.
  induction before using List.reverseRecOn generalizing after with
  | nil => rfl
  | append_singleton before numbered ih =>
    rw [List.append_assoc, List.singleton_append] at hlines
    have hmem : numbered ∈ numberedLines script := by simp [hlines]
    rw [List.map_append, List.map_singleton, Progress.ofLines_concat, Progress.ofLines_concat, ih hlines,
      addLine_replaced (hput numbered hmem) hlines]

theorem rejection?_replaced [SyntaxReport] {numbered : List Char × Nat} (hnumber : 1 ≤ numbered.2)
    (hput : ∀ text ∈ put numbered.2, IsBlankLine text) :
    rejection? config (replaced put numbered) =
      (rejection? config numbered).filter fun d => (d.line.bind put).isNone := by
  have hline : ∀ e, (rejection numbered.2 e).line.bind put = put numbered.2 := fun e => by
    simp [rejection, Diagnostic.lineOf, Nat.ne_of_gt hnumber]
  unfold rejection? replaced
  cases htext : put numbered.2 with
  | none =>
    rw [Option.getD_none]
    cases refusal? config numbered.1 with
    | none => rfl
    | some e => simp [Option.filter_some, hline, htext]
  | some text =>
    rw [Option.getD_some, refusal?_blank config (hput text htext)]
    cases refusal? config numbered.1 with
    | none => rfl
    | some e => simp [Option.filter_some, hline, htext]

end Script

/-- Why a line is rejected is up to its text alone. With blank lines in the places of any lines that add nothing, a
script has the same entries, and just the reports on these lines are gone. -/
theorem idle_lines_can_be_blank [SyntaxReport] (config : Config) (script : String) :
    (parse config script).2 =
        (numberedLines script).filterMap (fun (line, n) => (refusal? config line).map (rejection n)) ∧
      ∀ put : Nat → Option (List Char),
        (∀ numbered ∈ numberedLines script, ∀ text ∈ put numbered.2, IsBlankLine text ∧ Idle config script numbered) →
        parse config (replaceLines put script) =
          ((parse config script).1, (parse config script).2.filter fun d => (d.line.bind put).isNone) := by
  refine ⟨parse_rejected config script, fun put hput => ?_⟩
  have hlines := numberedLines_replaceLines put fun numbered hnumbered text htext =>
    (hput numbered hnumbered text htext).1.1
  apply Prod.ext
  · dsimp only
    rw [parse_entries, parse_entries, hlines]
    rw [ofLines_replaced hput (List.append_nil _).symm]
  · dsimp only
    rw [parse_rejected, parse_rejected, rejections, rejections, hlines, List.filterMap_map, List.filter_filterMap]
    refine List.filterMap_congr fun numbered hnumbered => ?_
    have hblank : ∀ text ∈ put numbered.2, IsBlankLine text := fun text htext =>
      (hput numbered hnumbered text htext).1
    exact rejection?_replaced (mem_numberedLines.mp hnumbered).1 hblank

def blanks : Nat → Option (List Char)
  | 2 => some [' ']
  | 3 => some []
  | _ => none

theorem unions_with_blanks :
    (∀ numbered ∈ numberedLines unions, ∀ text ∈ blanks numbered.2, IsBlankLine text ∧ Idle {} unions numbered) ∧
      parse {} (replaceLines blanks unions) =
        ((parse {} unions).1, (parse {} unions).2.filter fun d => (d.line.bind blanks).isNone) := by
  have hlines : numberedLines unions =
      [("union1=union(b,c)".toList, 1), ("(".toList, 2), ("union1=union(c,b)".toList, 3),
        ("union(b,c)".toList, 4)] := by
    decide +kernel
  have hidle : ∀ numbered ∈ numberedLines unions, ∀ text ∈ blanks numbered.2,
      IsBlankLine text ∧ Idle {} unions numbered := by
    intro numbered hnumbered text htext
    simp only [hlines, List.mem_cons, List.not_mem_nil, or_false] at hnumbered
    obtain rfl | rfl | rfl | rfl := hnumbered
    · cases htext
    · cases htext
      exact ⟨by decide, by decide +kernel⟩
    · cases htext
      exact ⟨by decide, by decide +kernel⟩
    · cases htext
  exact ⟨hidle, (idle_lines_can_be_blank {} unions).2 blanks hidle⟩

example : replaceLines blanks unions = "union1=union(b,c)\n \n\nunion(b,c)" := by decide +kernel

end SolidScript.Script
