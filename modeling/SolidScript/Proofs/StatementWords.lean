import SolidScript.Proofs.StatementGrammar

/-!
# The words of a statement

Within a word there are no gaps, and all that is left of a match is the text behind it. The readers of gaps, names and
numbers stop where the grammar does.
-/

namespace SolidScript.Script.Grammar

open Peg

variable {whole text rest : List Char} {e f : Expr Rule} {p q : Char → Bool} {β γ : Type}

/-! ## One character -/

def Each (whole : List Char) (e : Expr Rule) (isMember : Char → Bool) : Prop :=
  ∀ text, Derives statementGrammar whole .sealed e text (readOne isMember text)

theorem each_literal (c : Char) : Each whole (.literal [c]) (· == c) := by
  intro text
  have hread : readLiteral [c] text = readOne (ρ := Rule) (· == c) text := by
    cases text with
    | nil => rfl
    | cons a rest => simp [readLiteral, readOne, @eq_comm _ c a]
  rw [← hread]
  exact .literal

theorem Each.choice (he : Each whole e p) (hf : Each whole f q) : Each whole (e.choice f) fun c => p c || q c := by
  intro text
  have hor := (he text).or (hf text)
  cases text with
  | nil => exact hor
  | cons a rest =>
    unfold readOne at hor ⊢
    cases ha : p a <;> simpa [ha] using hor

theorem Each.gap_join (he : Each whole e p) : Each whole (Expr.gap.join e) p := by
  intro text
  have hjoin := (Derives.noGap (by decide)).join (he text)
  rwa [Outcome.after_nil] at hjoin

theorem Each.star (he : Each whole e p) :
    ∀ text, Derives statementGrammar whole .sealed e.star text (some ([], text.dropWhile p))
  | [] => .stop (he [])
  | a :: rest => by
    have hone := he (a :: rest)
    unfold readOne at hone
    rw [List.dropWhile_cons]
    cases ha : p a
    · exact .stop (by simpa [ha] using hone)
    · simp only [ha, if_true] at hone ⊢
      exact hone.again (he.star rest)

theorem Each.many (he : Each whole e p) (text : List Char) :
    Derives statementGrammar whole .sealed e.many text (some ([], text.dropWhile p)) := by
  cases text with
  | nil => exact .second (.joinNo (he [])) .empty
  | cons a rest =>
    have hone := he (a :: rest)
    unfold readOne at hone
    rw [List.dropWhile_cons]
    cases ha : p a
    · exact .second (.joinNo (by simpa [ha] using hone)) .empty
    · simp only [ha, if_true] at hone ⊢
      exact .first (hone.join (he.gap_join.star rest))

theorem each_unless (h : ∀ text, ∃ o, Derives statementGrammar whole .sealed e text o ∧ o.isSome = text.head?.any p) :
    Each whole (e.absent.seq .any) fun c => !p c := by
  intro text
  obtain ⟨o, he, ho⟩ := h text
  have habsent := he.absent
  rw [ho] at habsent
  cases text with
  | nil => exact habsent.seq_sealed .one
  | cons a rest =>
    simp only [List.head?_cons, Option.any_some] at habsent
    unfold readOne
    cases ha : p a
    · simp only [ha] at habsent ⊢
      exact habsent.seq_sealed .one
    · simp only [ha] at habsent ⊢
      exact .joinNo habsent

/-! ## Gaps -/

def isGapBlank (c : Char) : Bool := c == ' ' || (c == '\t' || c == '\r')

def isInLine (c : Char) : Bool := !(c == '\n' || c == '\r')

theorem each_blank : Each whole (.rule .blank) isGapBlank := fun text =>
  .rule_sealed (by decide) ((each_literal ' ').choice ((each_literal '\t').choice (each_literal '\r')) text)

theorem derives_lineEnd (whole text : List Char) : ∃ o,
    Derives statementGrammar whole .sealed (.rule .lineEnd) text o ∧
      o.isSome = text.head?.any fun c => c == '\n' || c == '\r' := by
  have hboth : Derives statementGrammar whole .sealed (.literal ['\r', '\n']) text _ := .literal
  refine ⟨_, .rule_sealed (by decide) ((each_literal '\n' text).or (hboth.or (each_literal '\r' text))), ?_⟩
  cases text with
  | nil => rfl
  | cons a rest =>
    by_cases hfeed : a = '\n'
    · simp [readOne, hfeed]
    · by_cases hreturn : a = '\r'
      · simp [readOne, hreturn]
      · simp [readOne, readLiteral, hfeed, hreturn, Ne.symm hreturn]

theorem each_inLine : Each whole ((Expr.rule .lineEnd).absent.seq .any) isInLine := each_unless (derives_lineEnd whole)

theorem derives_comment (text : List Char) : Derives statementGrammar whole .sealed (.rule .comment) text
    (match text with
    | '/' :: '/' :: rest => some ([], rest.dropWhile isInLine)
    | _ => none) := by
  refine .rule_sealed (by decide) ?_
  have hmark : Derives statementGrammar whole .sealed (.literal ['/', '/']) text (readLiteral ['/', '/'] text) :=
    .literal
  unfold readLiteral at hmark
  split
  · exact hmark.seq_sealed (each_inLine.many _)
  · rename_i hno
    rw [if_neg] at hmark
    · exact .joinNo hmark
    · intro hprefix
      obtain ⟨rest, rfl⟩ := List.isPrefixOf_iff_prefix.mp hprefix
      exact hno rest rfl

theorem skipGap_blank {a : Char} (ha : isGapBlank a = true) : skipGap false (a :: rest) = skipGap false rest := by
  have hblank : a = ' ' ∨ a = '\t' ∨ a = '\r' := by simpa [isGapBlank] using ha
  rw [skipGap.eq_def]
  simp only [Bool.false_eq_true, if_false, hblank, if_true]

theorem skipGap_of_no_blank {a : Char} (ha : isGapBlank a = false)
    (hcomment : ∀ behind, a = '/' → rest = '/' :: behind → False) : skipGap false (a :: rest) = a :: rest := by
  have hblank : ¬(a = ' ' ∨ a = '\t' ∨ a = '\r') := by simpa [isGapBlank] using ha
  rw [skipGap.eq_3 _ _ _ hcomment]
  simp only [Bool.false_eq_true, if_false, hblank]

theorem skipGap_blanks (text : List Char) : skipGap false (text.dropWhile isGapBlank) = skipGap false text := by
  induction text with
  | nil => rfl
  | cons a rest ih =>
    rw [List.dropWhile_cons]
    cases ha : isGapBlank a
    · rfl
    · simpa [skipGap_blank ha] using ih

theorem skipGap_inComment (text : List Char) : skipGap true text = skipGap false (text.dropWhile isInLine) := by
  induction text with
  | nil => rfl
  | cons a rest ih =>
    rw [skipGap.eq_def, List.dropWhile_cons]
    by_cases hfeed : a = '\n'
    · subst hfeed
      rfl
    · by_cases hreturn : a = '\r'
      · subst hreturn
        simp [isInLine, skipGap_blank, isGapBlank]
      · have hmode : (a != '\r') = true := by simpa using hreturn
        simpa [isInLine, hfeed, hreturn, hmode] using ih

theorem derives_comments (text : List Char) : Derives statementGrammar whole .sealed
    ((Expr.rule .comment).join (Expr.rule .blank).star).star (text.dropWhile isGapBlank)
    (some ([], skipGap false text)) := by
  rw [← skipGap_blanks]
  have hcomment : Derives statementGrammar whole .sealed (.rule .comment) (text.dropWhile isGapBlank) _ :=
    derives_comment _
  have hlength := (List.dropWhile_suffix isGapBlank (l := text)).length_le
  have hhead := List.head?_dropWhile_not isGapBlank text
  generalize text.dropWhile isGapBlank = start at hcomment hlength hhead
  split at hcomment
  · rename_i rest
    -- Behind a comment there is less text, in which the next one is looked for.
    have hrest : (rest.dropWhile isInLine).length < text.length := by
      have hend := (List.dropWhile_suffix isInLine (l := rest)).length_le
      simp only [List.length_cons] at hlength
      omega
    have hskip : skipGap false ('/' :: '/' :: rest) = skipGap false (rest.dropWhile isInLine) :=
      skipGap_inComment rest
    rw [hskip]
    exact (hcomment.join (each_blank.star _)).again (derives_comments (rest.dropWhile isInLine))
  · rename_i hno
    have hstop : skipGap false start = start := by
      cases start with
      | nil => rfl
      | cons a rest => exact skipGap_of_no_blank hhead fun behind ha hrest => hno behind (by rw [ha, hrest])
    rw [hstop]
    exact .stop (.joinNo hcomment)
termination_by text.length

theorem derives_gap (whole text : List Char) :
    Derives statementGrammar whole .free .gap text (some ([], skipGap false text)) :=
  .gap ((each_blank.star text).join (derives_comments text))

theorem length_skipGap_le (text : List Char) : (skipGap false text).length ≤ text.length :=
  (derives_gap text text).length_le

@[simp] theorem skipGap_skipGap (inComment : Bool) (text : List Char) :
    skipGap false (skipGap inComment text) = skipGap inComment text := by
  fun_induction skipGap inComment text with
  | case1 | case2 => rfl
  | case3 | case4 | case5 => assumption
  | case6 _ _ _ _ hblank hcomment =>
    exact skipGap_of_no_blank (by simpa [isGapBlank] using hblank) fun behind => hcomment behind

/-! ## Readers of words -/

/-- The expression leaves of a word what the reader leaves, and refuses it if the reader does. -/
def Spells (whole : List Char) (e : Expr Rule) (text : List Char) (o : Option (β × List Char)) : Prop :=
  Derives statementGrammar whole .sealed e text (o.map fun x => ([], x.2))

variable {o : Option (β × List Char)}

theorem Spells.congr (he : Spells whole e text o) {o' : Option (γ × List Char)}
    (h : o.map Prod.snd = o'.map Prod.snd) : Spells whole e text o' := by
  unfold Spells at he ⊢
  cases o <;> cases o' <;> simp_all

theorem Spells.seq {k : β × List Char → Option (γ × List Char)} (he : Spells whole e text o)
    (hf : ∀ b t, o = some (b, t) → Spells whole f t (k (b, t))) : Spells whole (e.seq f) text (o >>= k) := by
  cases o with
  | none => exact .joinNo he
  | some result =>
    have hseq := Derives.seq_sealed he (hf result.1 result.2 rfl)
    rwa [Outcome.after_nil] at hseq

theorem Spells.last {k : β × List Char → Option (γ × List Char)} (he : Spells whole e text o)
    (hk : ∀ b t, (k (b, t)).map Prod.snd = some t) : Spells whole e text (o >>= k) := by
  refine he.congr ?_
  cases o with
  | none => rfl
  | some result => exact (hk result.1 result.2).symm

theorem Spells.optional {r : Reader β} (he : Spells whole e text (r text)) :
    Spells whole e.option text (Reader.optional r text) := by
  unfold Spells Reader.optional at *
  cases hr : r text with
  | none =>
    rw [hr] at he
    exact .second he .empty
  | some result =>
    rw [hr] at he
    exact .first he

theorem Spells.or (he : Spells whole e text o) {o' : Option (β × List Char)} (hf : Spells whole f text o') :
    Spells whole (e.choice f) text (o.or o') := by
  have hor := Derives.or he hf
  cases o with
  | none => exact hor
  | some => exact hor

theorem Spells.seq_some {b : γ} (he : Spells whole e text (some (b, rest))) (hf : Spells whole f rest o) :
    Spells whole (e.seq f) text o := by
  have hseq := Derives.seq_sealed he hf
  rwa [Outcome.after_nil] at hseq

theorem Each.seq_some {a : Char} (he : Each whole e p) (ha : p a = true) (hf : Spells whole f rest o) :
    Spells whole (e.seq f) (a :: rest) o := by
  have hone := he (a :: rest)
  simp only [readOne, ha, if_true] at hone
  exact Spells.seq_some (b := a) hone hf

theorem Each.seq_none (he : Each whole e p) (h : ∀ a rest, text = a :: rest → p a = false) :
    Spells (β := β) whole (e.seq f) text none := by
  have hone := he text
  cases text with
  | nil => exact .joinNo hone
  | cons a rest =>
    simp only [readOne, h a rest rfl] at hone
    exact .joinNo hone

theorem Each.option_some {a : Char} (he : Each whole e p) (ha : p a = true) (b : β) :
    Spells whole e.option (a :: rest) (some (b, rest)) := by
  have hone := he (a :: rest)
  simp only [readOne, ha, if_true] at hone
  exact .first hone

theorem Each.option_none (he : Each whole e p) (h : ∀ a rest, text = a :: rest → p a = false) (b : β) :
    Spells whole e.option text (some (b, text)) := by
  have hone := he text
  cases text with
  | nil => exact .second hone .empty
  | cons a rest =>
    simp only [readOne, h a rest rfl] at hone
    exact .second hone .empty

theorem Each.spells_run (he : Each whole e p) (text : List Char) : Spells whole e.many text (Reader.run p text) :=
  he.many text

theorem Each.spells_someOf (he : Each whole e p) (text : List Char) :
    Spells whole e.many1 text (Reader.someOf p text) := by
  unfold Reader.someOf
  cases text with
  | nil => exact he.seq_none (by simp)
  | cons a rest =>
    rw [List.takeWhile_cons, List.dropWhile_cons]
    cases ha : p a
    · exact he.seq_none (by simp [ha])
    · exact he.seq_some ha (he.many rest)

/-! ## Names and numbers -/

theorem each_identChar : Each whole (.rule .identChar) isNamePart := fun text =>
  .rule_sealed (by decide) (Each.choice (fun _ => .one) (each_literal '_') text)

theorem spells_name (text : List Char) : Spells whole (Rule.body .ident) text (name text) := by
  have hstart : Each whole ((Expr.one Char.isAlpha).choice (.literal ['_'])) isNameStart :=
    Each.choice (fun _ => .one) (each_literal '_')
  unfold name
  cases text with
  | nil => exact hstart.seq_none (by simp)
  | cons a rest =>
    dsimp only
    split
    · exact hstart.seq_some ‹_› (each_identChar.many rest)
    · exact hstart.seq_none (by simp_all)

theorem spells_sign (text : List Char) :
    Spells whole ((Rule.lit "+").choice (Rule.lit "-")).option text (sign text) := by
  have hsign : Each whole ((Rule.lit "+").choice (Rule.lit "-")) fun c => c == '+' || c == '-' :=
    (each_literal '+').choice (each_literal '-')
  unfold sign
  split
  · exact hsign.option_some rfl _
  · exact hsign.option_some rfl _
  · exact hsign.option_none (by rintro a rest rfl; simp_all) _

theorem each_digit : Each whole Rule.digit Char.isDigit := fun _ => .one

def pointed (r : Reader (List Char)) : Reader (List Char)
  | '.' :: rest => r rest
  | _ => none

theorem spells_pointed {r : Reader (List Char)} (hr : ∀ t, Spells whole e t (r t)) (text : List Char) :
    Spells whole ((Rule.lit ".").seq e) text (pointed r text) := by
  unfold pointed
  split
  · exact (each_literal '.').seq_some rfl (hr _)
  · rename_i hno
    refine (each_literal '.').seq_none fun a rest htext => ?_
    simp only [beq_eq_false_iff_ne]
    rintro rfl
    exact hno rest htext

theorem spells_mantissa (text : List Char) : Spells whole
    ((Rule.digit.many1.seq ((Rule.lit ".").seq Rule.digit.many).option).choice ((Rule.lit ".").seq Rule.digit.many1))
    text (mantissa text) := by
  have hplain : Spells whole (Rule.digit.many1.seq ((Rule.lit ".").seq Rule.digit.many).option) text
      (Reader.someOf Char.isDigit text >>= fun x =>
        Reader.optional (pointed (Reader.run Char.isDigit)) x.2 >>= fun y => some (x.1 ++ y.1.getD [], y.2)) :=
    (each_digit.spells_someOf text).seq fun _ t _ =>
      (spells_pointed each_digit.spells_run t).optional.last fun _ _ => rfl
  refine (hplain.or (spells_pointed each_digit.spells_someOf text)).congr ?_
  clear hplain
  unfold mantissa Reader.someOf Reader.run
  -- There are digits in front of the point, or only behind it.
  cases hwhole : text.takeWhile Char.isDigit with
  | nil =>
    have hrest : text.dropWhile Char.isDigit = text := by
      have happend := List.takeWhile_append_dropWhile (p := Char.isDigit) (l := text)
      rwa [hwhole] at happend
    simp only [hrest, pointed, Option.bind_eq_bind, Option.bind_some, Option.bind_none, List.isEmpty_nil, if_true,
      Option.none_or, Bool.true_and]
    by_cases hpoint : ∃ rest, text = '.' :: rest
    · obtain ⟨rest, rfl⟩ := hpoint
      by_cases hplaces : rest.takeWhile Char.isDigit = []
      all_goals simp [hplaces]
    · have hno : ∀ rest, text = '.' :: rest → False := fun rest h => hpoint ⟨rest, h⟩
      simp
  | cons a digits =>
    simp only [Option.bind_eq_bind, Option.bind_some, List.isEmpty_cons]
    generalize text.dropWhile Char.isDigit = behind
    unfold pointed Reader.optional
    by_cases hpoint : ∃ rest, behind = '.' :: rest
    · obtain ⟨rest, rfl⟩ := hpoint
      simp
    · have hno : ∀ rest, behind = '.' :: rest → False := fun rest h => hpoint ⟨rest, h⟩
      simp

theorem spells_exponent (text : List Char) : Spells whole
    ((Rule.caseless 'e').seq (((Rule.lit "+").choice (Rule.lit "-")).option.seq Rule.digit.many1)) text
    (exponent text) := by
  have hmark : Each whole (Rule.caseless 'e') fun c => c == 'e' || c == 'E' := fun _ => .one
  unfold exponent
  split
  · split
    · rename_i a rest ha
      exact hmark.seq_some (by simpa using ha) <| (spells_sign rest).seq fun _ t _ =>
        (each_digit.spells_someOf t).last fun _ _ => rfl
    · exact hmark.seq_none (by simp_all)
  · exact hmark.seq_none (by simp)

theorem spells_number (text : List Char) : Spells whole (Rule.body .number) text (number text) :=
  (spells_sign text).seq fun _ t _ => (spells_mantissa t).seq fun _ t _ =>
    (spells_exponent t).optional.last fun _ _ => rfl

theorem spells_integer (text : List Char) : Spells whole (Rule.body .integer) text (integer text) := by
  have hminus : Each whole (Rule.lit "-") (· == '-') := each_literal '-'
  unfold integer
  split
  rename_i s t hread
  have hsign : Spells whole (Rule.lit "-").option text (some (s, t)) := by
    split at hread
    · cases hread
      exact hminus.option_some rfl _
    · cases hread
      exact hminus.option_none (by rintro a rest rfl; simp_all) _
  exact hsign.seq_some ((each_digit.spells_someOf t).last fun _ _ => rfl)

/-! ## Words -/

theorem exactly_append {w : String} {u : Unit} (h : Reader.exactly w text = some (u, rest)) :
    text = w.toList ++ rest := by
  unfold Reader.exactly at h
  split at h
  · rename_i hprefix
    obtain ⟨behind, rfl⟩ := List.isPrefixOf_iff_prefix.mp hprefix
    rw [← String.length_toList, List.drop_left] at h
    cases h
    rfl
  · cases h

theorem derives_literal {c : Scope} (w : String) (text : List Char) : Derives statementGrammar whole c (Rule.lit w) text
    ((Reader.exactly w text).map fun x => ([], x.2)) := by
  have hread : readLiteral (ρ := Rule) w.toList text = (Reader.exactly w text).map fun x => ([], x.2) := by
    unfold readLiteral Reader.exactly
    split
    · rw [String.length_toList]
      rfl
    · rfl
  rw [← hread]
  exact .literal

def wordEnd : Reader Unit := fun text => if text.head?.any isNamePart then none else some ((), text)

theorem spells_wordEnd (text : List Char) : Spells whole (Expr.rule .identChar).absent text (wordEnd text) := by
  have hone : Derives statementGrammar whole .sealed (.rule .identChar) text _ := each_identChar text
  have habsent := hone.absent
  unfold wordEnd
  cases text with
  | nil => exact habsent
  | cons a rest =>
    rw [List.head?_cons, Option.any_some]
    unfold readOne at habsent
    cases ha : isNamePart a
    all_goals
      simp only [ha] at habsent
      exact habsent

theorem word_eq_bind (w : String) (text : List Char) :
    word w text = Reader.exactly w text >>= fun x => wordEnd x.2 := by
  unfold word wordEnd
  cases Reader.exactly w text with
  | none => rfl
  | some result =>
    obtain ⟨_, rest⟩ := result
    cases rest <;> rfl

theorem word_append {w : String} {u : Unit} (h : word w text = some (u, rest)) : text = w.toList ++ rest := by
  rw [word_eq_bind] at h
  obtain ⟨⟨_, t⟩, hread, hend⟩ := Option.bind_eq_some_iff.mp h
  unfold wordEnd at hend
  split at hend
  · cases hend
  · cases hend
    exact exactly_append hread

def oneOf (a b : String) : Reader String := ((word a).map fun _ => a).orElse ((word b).map fun _ => b)

theorem map_oneOf (k : String → β) (a b : String) :
    (oneOf a b).map k = ((word a).map fun _ => k a).orElse ((word b).map fun _ => k b) := by
  funext text
  unfold oneOf Reader.orElse Reader.map
  dsimp only
  cases word a text <;> cases word b text <;> rfl

theorem oneOf_append {a b w : String} (h : oneOf a b text = some (w, rest)) : text = w.toList ++ rest := by
  unfold oneOf Reader.orElse Reader.map at h
  cases ha : word a text with
  | some result =>
    rw [ha] at h
    cases h
    exact word_append ha
  | none =>
    rw [ha] at h
    obtain ⟨⟨_, t⟩, hb, heq⟩ := Option.map_eq_some_iff.mp h
    cases heq
    exact word_append hb

theorem spells_oneOf {a b : String} (hother : ∀ rest, Reader.exactly b (a.toList ++ rest) = none) (text : List Char) :
    Spells whole (((Rule.lit a).choice (Rule.lit b)).seq (Expr.rule .identChar).absent) text (oneOf a b text) := by
  have hchoice : Spells whole ((Rule.lit a).choice (Rule.lit b)) text
      ((Reader.exactly a text).or (Reader.exactly b text)) :=
    Spells.or (derives_literal a text) (derives_literal b text)
  refine (hchoice.seq (k := fun x => wordEnd x.2) fun _ t _ => spells_wordEnd t).congr ?_
  unfold oneOf Reader.orElse Reader.map
  simp only [word_eq_bind]
  cases ha : Reader.exactly a text with
  | none =>
    simp only [Option.none_or, Option.bind_eq_bind, Option.bind_none, Option.map_none, Option.map_map]
    rfl
  | some result =>
    -- A text that starts with the first word does not start with the second one.
    have hb : Reader.exactly b text = none := by
      rw [exactly_append ha]
      exact hother _
    simp only [hb, Option.bind_eq_bind, Option.bind_some, Option.bind_none, Option.some_or, Option.map_none]
    cases wordEnd result.2 <;> rfl

/-! ## What was read -/

theorem name_append {n : String} (h : name text = some (n, rest)) : text = n.toList ++ rest := by
  unfold name at h
  split at h
  · split at h
    · cases h
      simp
    · contradiction
  · cases h

theorem someOf_append {digits : List Char} (h : Reader.someOf p text = some (digits, rest)) :
    text = digits ++ rest := by
  simp only [Reader.someOf] at h
  split at h
  · cases h
  · cases h
    simp

theorem sign_append {s : List Char} (h : sign text = some (s, rest)) : text = s ++ rest := by
  unfold sign at h
  split at h
  all_goals
    cases h
    rfl

theorem mantissa_append {m : List Char} (h : mantissa text = some (m, rest)) : text = m ++ rest := by
  unfold mantissa Reader.run at h
  simp only [Option.bind_eq_bind, Option.bind_some] at h
  have hwhole := List.takeWhile_append_dropWhile (p := Char.isDigit) (l := text)
  split at h
  · rename_i behind hpoint
    split at h
    · cases h
    · cases h
      rw [hpoint] at hwhole
      simpa using hwhole.symm
  · split at h
    · cases h
    · cases h
      exact hwhole.symm

theorem exponent_append {m : List Char} (h : exponent text = some (m, rest)) : text = m ++ rest := by
  unfold exponent at h
  split at h
  · split at h
    · obtain ⟨⟨s, t⟩, hs, h⟩ := Option.bind_eq_some_iff.mp h
      obtain ⟨⟨digits, t'⟩, hdigits, h⟩ := Option.bind_eq_some_iff.mp h
      cases h
      rw [sign_append hs, someOf_append hdigits]
      simp
    · cases h
  · cases h

theorem number_append {n : String} (h : number text = some (n, rest)) : text = n.toList ++ rest := by
  obtain ⟨⟨s, t⟩, hs, h⟩ := Option.bind_eq_some_iff.mp h
  obtain ⟨⟨m, t'⟩, hm, h⟩ := Option.bind_eq_some_iff.mp h
  obtain ⟨⟨e, t''⟩, he, h⟩ := Option.bind_eq_some_iff.mp h
  cases h
  have hexponent : t' = e.getD [] ++ rest := by
    unfold Reader.optional at he
    split at he
    · rename_i hread
      cases he
      exact exponent_append hread
    · cases he
      rfl
  rw [sign_append hs, mantissa_append hm, hexponent]
  simp

theorem integer_append {n : String} (h : integer text = some (n, rest)) : text = n.toList ++ rest := by
  unfold integer at h
  split at h
  rename_i s t hread
  obtain ⟨⟨digits, t'⟩, hdigits, h⟩ := Option.bind_eq_some_iff.mp h
  cases h
  have hsign : text = s ++ t := by
    split at hread
    all_goals
      cases hread
      rfl
  rw [hsign, someOf_append hdigits]
  simp

end SolidScript.Script.Grammar
