import SolidScript.Proofs.Spacing
import SolidScript.Proofs.StatementWords

/-!
# Words and gaps read again

Blanks that are put into a gap make a gap again. A word is read again in front of any text that does not go on with it.
-/

namespace SolidScript.Script.Grammar

open Peg

variable {text rest behind : List Char} {p : Char → Bool} {c : Char}

/-! ## Behind gaps -/

/-- A character that is no part of a gap, and ends no comment. -/
def isInk (c : Char) : Bool := !(isGapBlank c || c == '/' || c == '\n')

theorem skipGap_ink (hc : isInk c = true) (rest : List Char) : skipGap false (c :: rest) = c :: rest := by
  have hparts : isGapBlank c = false ∧ c ≠ '/' := by
    unfold isInk at hc
    simp only [Bool.not_eq_true', Bool.or_eq_false_iff, beq_eq_false_iff_ne] at hc
    exact hc.1
  exact skipGap_of_no_blank hparts.1 fun _ hslash => absurd hslash hparts.2

def ahead (text : List Char) : Option Char := (skipGap false text).head?

@[simp] theorem ahead_skipGap (text : List Char) : ahead (skipGap false text) = ahead text := by
  unfold ahead
  rw [skipGap_skipGap]

theorem ahead_ink (hc : isInk c = true) (rest : List Char) : ahead (c :: rest) = some c := by
  unfold ahead
  rw [skipGap_ink hc]
  rfl

theorem ahead_congr (h : skipGap false rest = skipGap false text) : ahead rest = ahead text := by
  unfold ahead
  rw [h]

theorem head_any_eq_false (hink : ∀ c, p c = true → isInk c = true) (h : ∀ c, ahead text = some c → p c = false) :
    text.head?.any p = false := by
  cases text with
  | nil => rfl
  | cons c rest =>
    by_contra hc
    have hc : p c = true := by simpa using hc
    exact absurd (h c (ahead_ink (hink c hc) rest)) (by simp [hc])

/-- Skipping the text leads from one kind of place to another one: into a comment, within it or out of it. -/
def Passes (inComment : Bool) (gap : List Char) (after : Bool) : Prop :=
  ∀ behind, skipGap inComment (gap ++ behind) = skipGap after behind

namespace Passes

variable {m m' m'' : Bool} {gap gap' : List Char}

theorem nil : Passes m [] m := fun _ => rfl

theorem append (h : Passes m gap m') (h' : Passes m' gap' m'') : Passes m (gap ++ gap') m'' := by
  intro behind
  rw [List.append_assoc, h, h']

theorem of_append (h : Passes m gap m') (h' : Passes m (gap ++ gap') m'') : Passes m' gap' m'' := by
  intro behind
  rw [← h, ← List.append_assoc, h']

theorem ahead_append (h : Passes false gap false) (behind : List Char) : ahead (gap ++ behind) = ahead behind :=
  ahead_congr (h behind)

end Passes

def IsSpacing (blanks : List Char) : Prop := ∀ c ∈ blanks, c = ' ' ∨ c = '\t'

theorem passes_spacing {blanks : List Char} (h : IsSpacing blanks) (m : Bool) : Passes m blanks m := by
  induction blanks with
  | nil => exact .nil
  | cons c blanks ih =>
    obtain ⟨hc, hblanks⟩ := List.forall_mem_cons.mp h
    intro behind
    rw [← ih hblanks behind]
    rcases hc with rfl | rfl <;> cases m <;> simp [skipGap]

/-- What a gap takes off a text, and where it ends. A comment goes on up to the end of a line. -/
theorem exists_passes (m : Bool) (text : List Char) : ∃ gap after, text = gap ++ skipGap m text ∧
    Passes m gap after ∧ (after = true → ∀ c, (skipGap m text).head? = some c → isInk c = false) := by
  -- The cases are those of `skipGap`: in a comment, at a blank, where a comment starts and where the gap ends.
  fun_induction skipGap m text with
  | case1 m => exact ⟨[], m, rfl, .nil, by simp⟩
  | case2 rest => exact ⟨[], true, rfl, .nil, by rintro - _ ⟨⟩; rfl⟩
  | case3 c rest hfeed ih =>
    obtain ⟨gap, after, htext, hpasses, hafter⟩ := ih
    refine ⟨c :: gap, after, by rw [List.cons_append, ← htext], fun behind => ?_, hafter⟩
    rw [List.cons_append, ← hpasses behind, skipGap.eq_def]
    simp only [if_true, hfeed, if_false]
  | case4 m c rest hcomment hblank ih =>
    obtain ⟨gap, after, htext, hpasses, hafter⟩ := ih
    obtain rfl : m = false := by simpa using hcomment
    refine ⟨c :: gap, after, by rw [List.cons_append, ← htext], fun behind => ?_, hafter⟩
    rw [List.cons_append, ← hpasses behind]
    exact skipGap_blank (by simpa [isGapBlank] using hblank)
  | case5 m hcomment rest hblank ih =>
    obtain ⟨gap, after, htext, hpasses, hafter⟩ := ih
    obtain rfl : m = false := by simpa using hcomment
    exact ⟨'/' :: '/' :: gap, after, by rw [List.cons_append, List.cons_append, ← htext], hpasses, hafter⟩
  | case6 m c rest hcomment hblank hslashes =>
    obtain rfl : m = false := by simpa using hcomment
    exact ⟨[], false, rfl, .nil, by simp⟩

/-- Spaces and tabs are put somewhere into a gap. What is in front of them is a gap by itself, so that they part no
mark of a comment. -/
inductive Widens : List Char → List Char → Prop where
  | put {front blanks back} : Derives statementGrammar front .free .gap front (some ([], [])) → IsSpacing blanks →
      Widens (front ++ back) (front ++ (blanks ++ back))

theorem Widens.passes {gap wider : List Char} (h : Widens gap wider) {after : Bool} (hgap : Passes false gap after) :
    Passes false wider after := by
  cases h with
  | @put front blanks back hfront hblanks =>
    have hnothing : skipGap false front = [] := by
      have hresult := hfront.unique (derives_gap front front)
      simpa using hresult.symm
    obtain ⟨skipped, m, htext, hpasses, -⟩ := exists_passes false front
    rw [hnothing, List.append_nil] at htext
    subst htext
    exact hpasses.append ((passes_spacing hblanks m).append (hpasses.of_append hgap))

theorem Widens.isSpacing {wider : List Char} (h : Widens [] wider) : IsSpacing wider := by
  generalize hgap : ([] : List Char) = gap at h
  cases h with
  | put _ hblanks =>
    obtain ⟨rfl, rfl⟩ := List.append_eq_nil_iff.mp hgap.symm
    simpa using hblanks

theorem Widens.head {gap wider : List Char} (h : Widens gap wider) {c : Char} (hc : gap.head? = some c) :
    ∃ d, wider.head? = some d ∧ (d = c ∨ d = ' ' ∨ d = '\t') := by
  cases h with
  | @put front blanks back _ hblanks =>
    cases front with
    | cons d front => exact ⟨d, rfl, .inl (Option.some.inj hc)⟩
    | nil =>
      cases blanks with
      | cons d blanks => exact ⟨d, rfl, .inr (hblanks d List.mem_cons_self)⟩
      | nil => exact ⟨c, hc, .inl rfl⟩

/-! ## Words read again -/

theorem run_again (text behind : List Char) (hbehind : behind.head?.any p = false) :
    (text.takeWhile p ++ behind).takeWhile p = text.takeWhile p ∧
      (text.takeWhile p ++ behind).dropWhile p = behind := by
  have hfront : ∀ c ∈ text.takeWhile p, p c = true := fun c hc => List.mem_takeWhile_imp hc
  have hstop : behind.takeWhile p = [] ∧ behind.dropWhile p = behind := by
    cases behind with
    | nil => exact ⟨rfl, rfl⟩
    | cons c behind =>
      have hc : p c = false := by simpa using hbehind
      simp [hc]
  rw [List.takeWhile_append_of_pos hfront, List.dropWhile_append_of_pos hfront, hstop.1, hstop.2, List.append_nil]
  exact ⟨rfl, rfl⟩

theorem exactly_again (w : String) (behind : List Char) :
    Reader.exactly w (w.toList ++ behind) = some ((), behind) := by
  unfold Reader.exactly
  rw [if_pos (List.isPrefixOf_iff_prefix.mpr (List.prefix_append _ _)), ← String.length_toList, List.drop_left]

theorem someOf_again {found : List Char} (h : Reader.someOf p text = some (found, rest))
    (hbehind : behind.head?.any p = false) : Reader.someOf p (found ++ behind) = some (found, behind) := by
  simp only [Reader.someOf] at h ⊢
  split at h
  · cases h
  · rename_i hsome
    cases h
    have hrun := run_again text behind hbehind
    rw [hrun.1, hrun.2, if_neg hsome]

theorem someOf_head {found : List Char} (h : Reader.someOf p text = some (found, rest)) :
    ∃ c more, found = c :: more ∧ p c = true := by
  simp only [Reader.someOf] at h
  split at h
  · cases h
  · rename_i hsome
    cases h
    obtain ⟨c, more, hfound⟩ := List.exists_cons_of_ne_nil (mt List.isEmpty_iff.mpr hsome)
    exact ⟨c, more, hfound, List.mem_takeWhile_imp (by rw [hfound]; exact List.mem_cons_self)⟩

theorem name_again {n : String} (h : name text = some (n, rest)) (hbehind : behind.head?.any isNamePart = false) :
    name (n.toList ++ behind) = some (n, behind) := by
  unfold name at h
  split at h
  · split at h
    · rename_i c more hstart
      cases h
      have hrun := run_again more behind hbehind
      simp only [String.toList_ofList, List.cons_append, name, hstart, if_true, hrun.1, hrun.2]
    · contradiction
  · cases h

theorem name_head {n : String} (h : name text = some (n, rest)) :
    ∃ c more, n.toList = c :: more ∧ isNameStart c = true := by
  unfold name at h
  split at h
  · split at h
    · rename_i hstart
      cases h
      exact ⟨_, _, String.toList_ofList, hstart⟩
    · contradiction
  · cases h

theorem name_stops {n : String} (h : name text = some (n, rest)) : rest.head?.any isNamePart = false := by
  unfold name at h
  split at h
  · split at h
    · cases h
      rename_i rest _
      have hhead := List.head?_dropWhile_not isNamePart rest
      cases hrest : (rest.dropWhile isNamePart).head? with
      | none => rfl
      | some c => simpa [hrest] using hhead
    · contradiction
  · cases h

theorem word_eq_some_iff {w : String} (hword : name w.toList = some (w, [])) {u : Unit} :
    word w text = some (u, rest) ↔ name text = some (w, rest) := by
  rw [word_eq_bind]
  constructor
  · intro h
    obtain ⟨⟨_, t⟩, hread, hend⟩ := Option.bind_eq_some_iff.mp h
    unfold wordEnd at hend
    split at hend
    · cases hend
    · rename_i hstop
      cases hend
      rw [exactly_append hread]
      exact name_again hword (by simpa using hstop)
  · intro h
    have hstop := name_stops h
    rw [name_append h, exactly_again]
    simp only [Option.bind_eq_bind, Option.bind_some, wordEnd, hstop, Bool.false_eq_true, if_false]

theorem sign_again {s : List Char} (h : sign text = some (s, rest))
    (hbehind : behind.head?.any (fun c => c == '+' || c == '-') = false) : sign (s ++ behind) = some (s, behind) := by
  unfold sign at h
  split at h
  · cases h
    rfl
  · cases h
    rfl
  · cases h
    cases behind with
    | nil => rfl
    | cons c behind =>
      have hc : c ≠ '+' ∧ c ≠ '-' := by simpa using hbehind
      simp [sign, hc]

def isNumberPart (c : Char) : Bool := c.isDigit || (c == '.' || (c == 'e' || c == 'E'))

theorem mantissa_again {m : List Char} (h : mantissa text = some (m, rest))
    (hbehind : behind.head?.any (fun c => c.isDigit || c == '.') = false) :
    mantissa (m ++ behind) = some (m, behind) := by
  have hdigit : behind.head?.any Char.isDigit = false := by
    cases behind with
    | nil => rfl
    | cons c behind => simp_all
  unfold mantissa Reader.run at h ⊢
  simp only [Option.bind_eq_bind, Option.bind_some] at h ⊢
  split at h
  · rename_i places _
    split at h
    · cases h
    · rename_i hsome
      cases h
      have hwhole := run_again (p := Char.isDigit) text ('.' :: (places.takeWhile Char.isDigit ++ behind)) rfl
      have hplaces := run_again places behind hdigit
      rw [List.append_assoc, List.cons_append, hwhole.1, hwhole.2]
      simp only [hplaces.1, hplaces.2, hsome]
      rfl
  · split at h
    · cases h
    · rename_i hsome
      cases h
      have hwhole := run_again text behind hdigit
      rw [hwhole.1, hwhole.2]
      split
      · simp at hbehind
      · rw [if_neg hsome]
        rfl

theorem mantissa_head {m : List Char} (h : mantissa text = some (m, rest)) :
    ∃ c more, m = c :: more ∧ (c.isDigit || c == '.') = true := by
  have hm := mantissa_append h
  unfold mantissa Reader.run at h
  simp only [Option.bind_eq_bind, Option.bind_some] at h
  cases hwhole : text.takeWhile Char.isDigit with
  | nil =>
    simp only [hwhole] at h
    split at h
    · split at h
      · cases h
      · cases h
        exact ⟨_, _, rfl, rfl⟩
    · cases h
  | cons c more =>
    have hc : c.isDigit = true := List.mem_takeWhile_imp (by rw [hwhole]; exact List.mem_cons_self)
    simp only [hwhole] at h
    split at h
    all_goals
      cases h
      exact ⟨_, _, rfl, by simp [hc]⟩

theorem sign_ahead_of_digit {front : List Char} {c : Char} {more : List Char} (hfront : front = c :: more)
    (hc : (c.isDigit || c == '.') = true) (behind : List Char) :
    (front ++ behind).head?.any (fun c => c == '+' || c == '-') = false := by
  subst hfront
  have hplus : c ≠ '+' := by
    rintro rfl
    exact absurd hc (by decide)
  have hminus : c ≠ '-' := by
    rintro rfl
    exact absurd hc (by decide)
  simp [hplus, hminus]

theorem exponent_head {e : List Char} (h : exponent text = some (e, rest)) :
    ∃ c more, e = c :: more ∧ (c = 'e' ∨ c = 'E') := by
  unfold exponent at h
  split at h
  · split at h
    · rename_i hmark
      obtain ⟨_, -, h⟩ := Option.bind_eq_some_iff.mp h
      obtain ⟨_, -, h⟩ := Option.bind_eq_some_iff.mp h
      cases h
      exact ⟨_, _, rfl, hmark⟩
    · cases h
  · cases h

theorem exponent_again {e : List Char} (h : exponent text = some (e, rest))
    (hbehind : behind.head?.any Char.isDigit = false) : exponent (e ++ behind) = some (e, behind) := by
  unfold exponent at h
  split at h
  · rename_i c _
    split at h
    · rename_i hmark
      obtain ⟨⟨s, t⟩, hs, h⟩ := Option.bind_eq_some_iff.mp h
      obtain ⟨⟨digits, t'⟩, hdigits, h⟩ := Option.bind_eq_some_iff.mp h
      cases h
      obtain ⟨d, more, hhead, hd⟩ := someOf_head hdigits
      have hsign : sign (s ++ (digits ++ behind)) = some (s, digits ++ behind) :=
        sign_again hs (sign_ahead_of_digit hhead (by simp [hd]) behind)
      rw [List.cons_append, List.cons_append, List.append_assoc]
      unfold exponent
      simp only [hmark, if_true, hsign, Option.bind_eq_bind, Option.bind_some, someOf_again hdigits hbehind]
      rfl
    · cases h
  · cases h

theorem optional_exponent_again {e : Option (List Char)} (h : Reader.optional exponent text = some (e, rest))
    (hbehind : behind.head?.any isNumberPart = false) :
    Reader.optional exponent (e.getD [] ++ behind) = some (e, behind) ∧
      (e.getD [] ++ behind).head?.any (fun c => c.isDigit || c == '.') = false := by
  have hparts : behind.head?.any Char.isDigit = false ∧
      behind.head?.any (fun c => c.isDigit || c == '.') = false ∧ exponent behind = none := by
    cases behind with
    | nil => exact ⟨rfl, rfl, rfl⟩
    | cons c behind => simp_all [isNumberPart, exponent]
  unfold Reader.optional at h
  split at h
  · rename_i found t hread
    cases h
    obtain ⟨c, more, rfl, hc⟩ := exponent_head hread
    refine ⟨?_, ?_⟩
    · simp only [Option.getD_some, Reader.optional, exponent_again hread hparts.1]
    · rcases hc with rfl | rfl <;> rfl
  · cases h
    refine ⟨?_, hparts.2.1⟩
    simp only [Option.getD_none, List.nil_append, Reader.optional, hparts.2.2]

theorem number_again {n : String} (h : number text = some (n, rest)) (hbehind : behind.head?.any isNumberPart = false) :
    number (n.toList ++ behind) = some (n, behind) := by
  obtain ⟨⟨s, t⟩, hs, h⟩ := Option.bind_eq_some_iff.mp h
  obtain ⟨⟨m, t'⟩, hm, h⟩ := Option.bind_eq_some_iff.mp h
  obtain ⟨⟨e, t''⟩, he, h⟩ := Option.bind_eq_some_iff.mp h
  cases h
  obtain ⟨hexponent, hpoint⟩ := optional_exponent_again he hbehind
  obtain ⟨c, more, hhead, hc⟩ := mantissa_head hm
  have hmantissa := mantissa_again hm hpoint
  have hsign := sign_again hs (sign_ahead_of_digit hhead hc (e.getD [] ++ behind))
  rw [String.toList_ofList, List.append_assoc, List.append_assoc]
  simp only [number, hsign, hmantissa, hexponent, Option.bind_eq_bind, Option.bind_some]
  rfl

def isNumberStart (c : Char) : Bool := c.isDigit || (c == '.' || (c == '+' || c == '-'))

theorem number_head {n : String} (h : number text = some (n, rest)) :
    ∃ c more, n.toList = c :: more ∧ isNumberStart c = true := by
  obtain ⟨⟨s, t⟩, hs, h⟩ := Option.bind_eq_some_iff.mp h
  obtain ⟨⟨m, t'⟩, hm, h⟩ := Option.bind_eq_some_iff.mp h
  obtain ⟨⟨e, t''⟩, he, h⟩ := Option.bind_eq_some_iff.mp h
  cases h
  obtain ⟨c, more, rfl, hc⟩ := mantissa_head hm
  rw [String.toList_ofList]
  unfold sign at hs
  split at hs
  · cases hs
    exact ⟨_, _, rfl, rfl⟩
  · cases hs
    exact ⟨_, _, rfl, rfl⟩
  · cases hs
    refine ⟨_, _, rfl, ?_⟩
    unfold isNumberStart
    rw [← Bool.or_assoc, hc, Bool.true_or]

theorem integer_head {n : String} (h : integer text = some (n, rest)) :
    ∃ c more, n.toList = c :: more ∧ isNumberStart c = true := by
  unfold integer at h
  split at h
  rename_i s t hread
  obtain ⟨⟨digits, t'⟩, hdigits, h⟩ := Option.bind_eq_some_iff.mp h
  cases h
  obtain ⟨d, more, rfl, hd⟩ := someOf_head hdigits
  rw [String.toList_ofList]
  split at hread
  · cases hread
    exact ⟨_, _, rfl, rfl⟩
  · cases hread
    exact ⟨_, _, rfl, by simp [isNumberStart, hd]⟩

theorem integer_again {n : String} (h : integer text = some (n, rest))
    (hbehind : behind.head?.any Char.isDigit = false) : integer (n.toList ++ behind) = some (n, behind) := by
  unfold integer at h
  split at h
  rename_i s t hread
  obtain ⟨⟨digits, t'⟩, hdigits, h⟩ := Option.bind_eq_some_iff.mp h
  cases h
  have hagain := someOf_again hdigits hbehind
  obtain ⟨d, more, rfl, hd⟩ := someOf_head hdigits
  rw [String.toList_ofList, List.append_assoc]
  unfold integer
  split at hread
  · cases hread
    simp only [List.cons_append, List.nil_append, Option.bind_eq_bind]
    rw [← List.cons_append, hagain]
    rfl
  · cases hread
    -- A digit is no sign, so that none is read this time either.
    have hminus : d ≠ '-' := by
      rintro rfl
      exact absurd hd (by decide)
    simp only [List.nil_append, List.cons_append] at hagain ⊢
    split
    · simp_all
    · simp only [hagain]
      rfl

theorem quoted_append {content : String} (h : quoted text = some (content, rest)) :
    text = '"' :: (content.toList ++ '"' :: rest) := by
  unfold quoted at h
  split at h
  · rename_i inner
    split at h
    · rename_i c behind hclose
      cases h
      have hc : c = '"' := by simpa [hclose] using List.head?_dropWhile_not (· != '"') inner
      have hinner := List.takeWhile_append_dropWhile (p := (· != '"')) (l := inner)
      rw [hclose, hc] at hinner
      rw [String.toList_ofList, hinner]
    · cases h
  · cases h

theorem quoted_again {content : String} (h : quoted text = some (content, rest)) (behind : List Char) :
    quoted ('"' :: (content.toList ++ '"' :: behind)) = some (content, behind) := by
  unfold quoted at h
  split at h
  · rename_i inner
    split at h
    · cases h
      have hrun := run_again (p := (· != '"')) inner ('"' :: behind) rfl
      rw [String.toList_ofList]
      simp only [quoted, hrun.1, hrun.2]
    · cases h
  · cases h

end SolidScript.Script.Grammar
