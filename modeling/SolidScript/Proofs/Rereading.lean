import SolidScript.Proofs.SpacedWords
import SolidScript.Proofs.StatementSyntax

/-!
# Reading again

A reader takes what was matched with other gaps for what it was, if what comes behind it fits.
-/

namespace SolidScript.Script.Grammar

open Peg

variable {whole text rest behind spaced : List Char} {e f : Expr Rule} {found : List (Pair Rule)} {β γ : Type}
variable {P Q : List (Pair Rule) → β → Prop} {R : List (Pair Rule) → γ → Prop} {n : Nat}
variable {S S' : Char → Prop} {F F' : Option Char → Prop}

/-! ## Readers and matches with other gaps -/

theorem passes_gap {skipped : List (Pair Rule)}
    (h : Spaced statementGrammar Widens whole .gap text skipped rest spaced) : skipped = [] ∧ rest = skipGap false text ∧
      ∃ after, Passes false spaced after ∧ (after = true → ∀ c, rest.head? = some c → isInk c = false) := by
  cases h with
  | piece hpiece => exact hpiece.elim
  | gap hderives hwidens =>
    obtain ⟨rfl, rfl⟩ : skipped = [] ∧ rest = skipGap false text := by
      simpa using hderives.unique (derives_gap whole text)
    obtain ⟨gap, after, htext, hpasses, hafter⟩ := exists_passes false text
    rw [taken_of_append htext] at hwidens
    exact ⟨rfl, rfl, after, hwidens.passes hpasses, hafter⟩

theorem passes_gap_ink {skipped : List (Pair Rule)} {c : Char}
    (h : Spaced statementGrammar Widens whole .gap text skipped rest spaced) (hc : rest.head? = some c)
    (hink : isInk c = true) : Passes false spaced false := by
  obtain ⟨-, -, after, hpasses, hafter⟩ := passes_gap h
  cases after with
  | false => exact hpasses
  | true => exact absurd (hafter rfl c hc) (by simp [hink])

theorem head_gap {skipped : List (Pair Rule)} {c : Char}
    (h : Spaced statementGrammar Widens whole .gap text skipped rest spaced) (htext : text.head? = some c)
    (hrest : rest.head? ≠ some c) : ∃ d, spaced.head? = some d ∧ (d = c ∨ d = ' ' ∨ d = '\t') := by
  cases h with
  | piece hpiece => exact hpiece.elim
  | gap hderives hwidens =>
    obtain ⟨gap, hgap⟩ := hderives.suffix _ _ rfl
    rw [taken_of_append hgap.symm] at hwidens
    refine hwidens.head ?_
    cases gap with
    | nil => exact absurd htext (by rwa [← hgap])
    | cons d gap => rwa [← hgap] at htext

theorem next_of_passes {r : Reader β} {gap : List Char} {c : Char} (h : Passes false gap false) (hink : isInk c = true)
    (tail : List Char) : next r (gap ++ c :: tail) = r (c :: tail) := by
  unfold next
  rw [h, skipGap_ink hink]

theorem map_eq_bind (k : β → γ) (r : Reader β) (text : List Char) :
    r.map k text = r text >>= fun x => some (k x.1, x.2) := by
  unfold Reader.map
  cases r text <;> rfl

/-- What a match with other gaps means is read again, in front of whatever fits behind it. -/
def Rereads (whole : List Char) (n : Nat) (e : Expr Rule) (P : List (Pair Rule) → β → Prop) (r : Reader β)
    (S : Char → Prop) (F : Option Char → Prop) : Prop :=
  ∀ ⦃text found rest spaced⦄, Spaced statementGrammar Widens whole e text found rest spaced → spaced.length ≤ n →
    (∃ c, S c ∧ text.head? = some c ∧ spaced.head? = some c) ∧
    ∃ b, P found b ∧ (F (ahead rest) → ∀ behind, F (ahead behind) →
      ∃ left, r (spaced ++ behind) = some (b, left) ∧ skipGap false left = skipGap false behind)

namespace Rereads

theorem mono {r : Reader β} (h : Rereads whole n e P r S F) (hP : ∀ pairs b, P pairs b → Q pairs b)
    (hS : ∀ c, S c → S' c) (hF : ∀ o, F' o → F o) : Rereads whole n e Q r S' F' := by
  intro text found rest spaced hspaced hlength
  obtain ⟨⟨c, hc, hheads⟩, b, hb, hread⟩ := h hspaced hlength
  exact ⟨⟨c, hS c hc, hheads⟩, b, hP found b hb, fun hrest behind hbehind => hread (hF _ hrest) behind (hF _ hbehind)⟩

theorem imp {r : Reader β} (h : Rereads whole n e P r S F) (hP : ∀ pairs b, P pairs b → Q pairs b) :
    Rereads whole n e Q r S F :=
  h.mono hP (fun _ => id) fun _ => id

theorem fits {r : Reader β} (h : Rereads whole n e P r S F) (hF : ∀ o, F' o → F o) : Rereads whole n e P r S F' :=
  h.mono (fun _ _ => id) (fun _ => id) hF

theorem of_le {m : Nat} {r : Reader β} (h : Rereads whole m e P r S F) (hn : n ≤ m) : Rereads whole n e P r S F :=
  fun _ _ _ _ hspaced hlength => h hspaced (hlength.trans hn)

theorem map {r : Reader β} {t : Reader γ} (h : Rereads whole n e P r S F) (k : β → γ)
    (hR : ∀ pairs b, P pairs b → R pairs (k b)) (ht : ∀ text, t text = r text >>= fun x => some (k x.1, x.2)) :
    Rereads whole n e R t S F := by
  intro text found rest spaced hspaced hlength
  obtain ⟨hheads, b, hb, hread⟩ := h hspaced hlength
  refine ⟨hheads, k b, hR _ _ hb, fun hrest behind hbehind => ?_⟩
  obtain ⟨left, hleft, hgap⟩ := hread hrest behind hbehind
  exact ⟨left, by rw [ht, hleft]; rfl, hgap⟩

theorem seq {r : Reader β} {s : β → Reader γ} {t : Reader γ} (he : Rereads whole n e P r S F)
    (hf : ∀ b, Rereads whole n f (fun more c => ∀ pairs, P pairs b → R (pairs ++ more) c) (s b) S' F')
    (hstart : ∀ c, S' c → isInk c = true ∧ F (some c))
    (ht : ∀ text, t text = r text >>= fun x => next (s x.1) x.2) : Rereads whole n (e.seq f) R t S F' := by
  intro text found rest spaced hspaced hlength
  obtain ⟨before, mid, front, skipped, mid', between, more, back, hfirst, hgap, hsecond, rfl, rfl⟩ := hspaced.of_seq
  simp only [List.length_append] at hlength
  obtain ⟨⟨a, ha, htext, hfront⟩, b, hP, hread⟩ := he hfirst (by omega)
  obtain ⟨⟨c, hc, hmid, hback⟩, d, hR, hread'⟩ := hf b hsecond (by omega)
  obtain ⟨hink, hfits⟩ := hstart c hc
  have hpasses := passes_gap_ink hgap hmid hink
  obtain ⟨rfl, rfl, -⟩ := passes_gap hgap
  refine ⟨⟨a, ha, htext, by simp [hfront]⟩, d, hR _ hP, fun hrest behind hbehind => ?_⟩
  obtain ⟨left', hleft', hgap'⟩ := hread' hrest behind hbehind
  obtain ⟨back, rfl⟩ : ∃ tail, back = c :: tail := by
    cases back with
    | nil => cases hback
    | cons d tail => exact ⟨tail, by rw [Option.some.inj hback]⟩
  -- Behind the gap, what follows the first part starts as the second part does.
  have hahead : ahead (between ++ (c :: back ++ behind)) = some c :=
    (hpasses.ahead_append _).trans (ahead_ink hink _)
  obtain ⟨left, hleft, hskip⟩ := hread (by rw [ahead, hmid]; exact hfits) _ (by rw [hahead]; exact hfits)
  rw [hpasses, List.cons_append, skipGap_ink hink] at hskip
  refine ⟨left', ?_, hgap'⟩
  rw [ht, List.append_assoc, List.append_assoc, hleft]
  simp only [Option.bind_eq_bind, Option.bind_some, next, hskip]
  exact hleft'

theorem choice {r s : Reader β} (he : Rereads whole n e P r S F) (hf : Rereads whole n f P s S' F)
    (hno : ∀ ⦃text found rest spaced⦄, Derives statementGrammar whole .free e text none →
      Spaced statementGrammar Widens whole f text found rest spaced → spaced.length ≤ n → F (ahead rest) →
      ∀ ⦃behind b left⦄, F (ahead behind) → s (spaced ++ behind) = some (b, left) → F (ahead left) →
        r (spaced ++ behind) = none) :
    Rereads whole n (e.choice f) P (r.orElse s) (fun c => S c ∨ S' c) F := by
  intro text found rest spaced hspaced hlength
  rcases hspaced.of_choice with hfirst | ⟨hrefused, hsecond⟩
  · obtain ⟨⟨c, hc, hheads⟩, b, hb, hread⟩ := he hfirst hlength
    refine ⟨⟨c, .inl hc, hheads⟩, b, hb, fun hrest behind hbehind => ?_⟩
    obtain ⟨left, hleft, hgap⟩ := hread hrest behind hbehind
    exact ⟨left, by rw [Reader.orElse, hleft], hgap⟩
  · obtain ⟨⟨c, hc, hheads⟩, b, hb, hread⟩ := hf hsecond hlength
    refine ⟨⟨c, .inr hc, hheads⟩, b, hb, fun hrest behind hbehind => ?_⟩
    obtain ⟨left, hleft, hgap⟩ := hread hrest behind hbehind
    have hnone := hno hrefused hsecond hlength hrest hbehind hleft (by rwa [ahead_congr hgap])
    exact ⟨left, by rw [Reader.orElse, hnone]; exact hleft, hgap⟩

theorem choice_of_start {r s : Reader β} (he : Rereads whole n e P r S F) (hf : Rereads whole n f P s S' F)
    (hno : ∀ c tail, S' c → r (c :: tail) = none) :
    Rereads whole n (e.choice f) P (r.orElse s) (fun c => S c ∨ S' c) F := by
  refine he.choice hf fun text found rest spaced _ hsecond hlength _ behind _ _ _ _ _ => ?_
  obtain ⟨⟨c, hc, -, hspaced⟩, -⟩ := hf hsecond hlength
  cases spaced with
  | nil => cases hspaced
  | cons d tail =>
    obtain rfl := Option.some.inj hspaced
    exact hno _ _ hc

theorem rule {r : Rule} {t : Reader β}
    (h : Rereads whole n (statementGrammar.body r) (fun inner b => ∀ taken, P [.node r taken inner] b) t S F)
    (hkind : statementGrammar.kind r = .normal) : Rereads whole n (.rule r) P t S F := by
  intro text found rest spaced hspaced hlength
  obtain ⟨inner, rfl, hbody⟩ := hspaced.of_rule hkind
  obtain ⟨hheads, b, hb, hread⟩ := h hbody hlength
  exact ⟨hheads, b, hb _, hread⟩

theorem silent {r : Rule} {t : Reader β} (h : Rereads whole n (statementGrammar.body r) P t S F)
    (hkind : statementGrammar.kind r = .silent) : Rereads whole n (.rule r) P t S F :=
  fun _ _ _ _ hspaced => h (hspaced.of_silent hkind)

end Rereads

/-! ## Words -/

theorem rereads_literal (w : String) {c : Char} (hw : w.toList.head? = some c) : Rereads whole n (Rule.lit w)
    (fun pairs _ => pairs = []) (Reader.exactly w) (· = c) (fun _ => True) := by
  intro text found rest spaced hspaced _
  obtain ⟨rfl, rfl, rfl⟩ := hspaced.of_literal
  refine ⟨⟨c, rfl, ?_, hw⟩, (), rfl, fun _ behind _ => ⟨behind, exactly_again w behind, rfl⟩⟩
  rw [List.head?_append, hw]
  rfl

theorem spaced_word {r : Rule} {word : β → List Char} {read : Reader β}
    (h : Spaced statementGrammar Widens whole (.rule r) text found rest spaced)
    (hkind : statementGrammar.kind r = .atomic)
    (hspells : Spells whole (statementGrammar.body r) text (read text))
    (happend : ∀ b rest, read text = some (b, rest) → text = word b ++ rest) :
    ∃ b, read text = some (b, rest) ∧ spaced = word b ∧ IsWord r word found b := by
  obtain ⟨hderives, rfl⟩ := h.of_piece (Or.inl hkind)
  have hrule := Derives.rule_of_scope (c := .free) hspells (by rw [hkind]; rfl)
  have hfound := hderives.unique hrule
  cases hread : read text with
  | none =>
    rw [hread] at hfound
    cases hfound
  | some result =>
    obtain ⟨b, t⟩ := result
    rw [hread, hkind] at hfound
    simp only [Option.map_some, Option.some.injEq, Prod.mk.injEq] at hfound
    obtain ⟨rfl, rfl⟩ := hfound
    have htaken := taken_of_append (happend b rest hread)
    refine ⟨b, rfl, htaken, ?_⟩
    rw [htaken]
    rfl

theorem rereads_word {r : Rule} {word : β → List Char} {read : Reader β} (hkind : statementGrammar.kind r = .atomic)
    (hspells : ∀ text, Spells whole (statementGrammar.body r) text (read text))
    (happend : ∀ {text b rest}, read text = some (b, rest) → text = word b ++ rest)
    (hhead : ∀ {text b rest}, read text = some (b, rest) → ∃ c more, word b = c :: more ∧ S c)
    (hagain : ∀ {text b rest behind}, read text = some (b, rest) → F (ahead behind) →
      read (word b ++ behind) = some (b, behind)) : Rereads whole n (.rule r) (IsWord r word) read S F := by
  intro text found rest spaced hspaced _
  obtain ⟨b, hread, rfl, hword⟩ := spaced_word hspaced hkind (hspells text) fun _ _ => happend
  obtain ⟨c, more, hb, hc⟩ := hhead hread
  refine ⟨⟨c, hc, ?_, by rw [hb]; rfl⟩, b, hword, fun _ behind hbehind => ⟨behind, hagain hread hbehind, rfl⟩⟩
  rw [happend hread, hb]
  rfl

/-- The next character does not go on with a word. -/
def Stops (p : Char → Bool) (o : Option Char) : Prop := ∀ c, o = some c → p c = false

/-- What may stand behind a term. -/
def EndsTerm (o : Option Char) : Prop := o = some ',' ∨ o = some ')' ∨ o = some ']'

theorem stops_of_endsTerm {p : Char → Bool} (hp : p ',' = false ∧ p ')' = false ∧ p ']' = false) {o : Option Char}
    (h : EndsTerm o) : Stops p o := by
  intro c hc
  rcases h with h | h | h
  all_goals
    obtain rfl := Option.some.inj (hc.symm.trans h)
    simp only [hp]

theorem EndsTerm.exists_ink {o : Option Char} (h : EndsTerm o) : ∃ c, o = some c ∧ isInk c = true := by
  rcases h with rfl | rfl | rfl <;> exact ⟨_, rfl, rfl⟩

theorem EndsTerm.isInk {c : Char} (h : EndsTerm (some c)) : isInk c = true := by
  obtain ⟨_, ⟨⟩, hink⟩ := h.exists_ink
  exact hink

theorem EndsTerm.ne_point {o : Option Char} (h : EndsTerm o) : o ≠ some '.' := by
  rcases h with rfl | rfl | rfl <;> decide

theorem isInk_of {p : Char → Bool}
    (hp : p ' ' = false ∧ p '\t' = false ∧ p '\r' = false ∧ p '/' = false ∧ p '\n' = false) {c : Char}
    (hc : p c = true) : isInk c = true := by
  obtain ⟨hspace, htab, hreturn, hslash, hfeed⟩ := hp
  have hne {d : Char} (hd : p d = false) : c ≠ d := by
    rintro rfl
    exact absurd hc (by simp [hd])
  simp [isInk, isGapBlank, hne hspace, hne htab, hne hreturn, hne hslash, hne hfeed]

theorem isInk_of_isNamePart {c : Char} (hc : isNamePart c = true) : isInk c = true := isInk_of (by decide) hc

theorem isInk_of_isNameStart {c : Char} (hc : isNameStart c = true) : isInk c = true := isInk_of (by decide) hc

theorem isNamePart_of_isNameStart {c : Char} (hc : isNameStart c = true) : isNamePart c = true := by
  rcases Bool.or_eq_true_iff.mp hc with hletter | hunderscore
  · simp [isNamePart, Char.isAlphanum, hletter]
  · simp [isNamePart, hunderscore]

theorem Stops.name (h : Stops isNamePart (ahead text)) : text.head?.any isNamePart = false :=
  head_any_eq_false (fun _ => isInk_of_isNamePart) h

theorem rereads_name : Rereads whole n (.rule .ident) (IsWord .ident String.toList) name (isNameStart · = true)
    (Stops isNamePart) :=
  rereads_word rfl spells_name name_append name_head fun h hbehind => name_again h hbehind.name

theorem rereads_number : Rereads whole n (.rule .number) (IsWord .number String.toList) number
    (isNumberStart · = true) (Stops isNumberPart) :=
  rereads_word rfl spells_number number_append number_head fun h hbehind =>
    number_again h (head_any_eq_false (fun _ => isInk_of (by decide)) hbehind)

theorem rereads_integer : Rereads whole n (.rule .integer) (IsWord .integer String.toList) integer
    (isNumberStart · = true) (Stops Char.isDigit) :=
  rereads_word rfl spells_integer integer_append integer_head fun h hbehind =>
    integer_again h (head_any_eq_false (fun _ => isInk_of (by decide)) hbehind)

theorem oneOf_eq_some {a b w : String} (ha : name a.toList = some (a, [])) (hb : name b.toList = some (b, [])) :
    oneOf a b text = some (w, rest) ↔ (w = a ∨ w = b) ∧ name text = some (w, rest) := by
  unfold oneOf Reader.orElse Reader.map
  constructor
  · intro h
    cases hfirst : word a text with
    | some result =>
      rw [hfirst] at h
      cases h
      exact ⟨.inl rfl, (word_eq_some_iff ha).mp hfirst⟩
    | none =>
      rw [hfirst] at h
      obtain ⟨_, hsecond, heq⟩ := Option.map_eq_some_iff.mp h
      cases heq
      exact ⟨.inr rfl, (word_eq_some_iff hb).mp hsecond⟩
  · rintro ⟨hw, hname⟩
    cases hfirst : word a text with
    | some result =>
      cases hname.symm.trans ((word_eq_some_iff ha).mp hfirst)
      rfl
    | none =>
      -- The first word is not read, so that the name is the second one.
      rcases hw with rfl | rfl
      · exact nomatch hfirst.symm.trans ((word_eq_some_iff ha (u := ())).mpr hname)
      · rw [(word_eq_some_iff hb (u := ())).mpr hname]
        rfl

theorem rereads_boolean : Rereads whole n (.rule .boolean) IsTerm boolean (isNameStart · = true)
    (Stops isNamePart) := by
  have hword : Rereads whole n (.rule .boolean) (IsWord .boolean String.toList) (oneOf "true" "false")
      (isNameStart · = true) (Stops isNamePart) := by
    refine rereads_word rfl (spells_oneOf fun _ => rfl) oneOf_append (fun h => ?_) fun h hbehind => ?_
    · exact name_head ((oneOf_eq_some (by rfl) (by rfl)).mp h).2
    · obtain ⟨hw, hname⟩ := (oneOf_eq_some (by rfl) (by rfl)).mp h
      exact (oneOf_eq_some (by rfl) (by rfl)).mpr ⟨hw, name_again hname hbehind.name⟩
  refine hword.map (fun w => .boolean (w.toList = "true".toList)) ?_ (map_eq_bind _ _)
  rintro _ w rfl
  exact ⟨_, rfl, by simp [Meaning.term?]⟩

theorem rereads_string : Rereads whole n (.rule .string) IsTerm (quoted.map .text) (· = '"') (fun _ => True) := by
  intro text found rest spaced hspaced _
  obtain ⟨hderives, rfl⟩ := hspaced.of_piece (Or.inr rfl)
  have hbody : Derives statementGrammar whole .tight (statementGrammar.body .string) text _ := derives_quoted text
  have hfound := hderives.unique (hbody.rule_of_scope (c := .free) rfl)
  cases hread : quoted text with
  | none =>
    rw [hread] at hfound
    cases hfound
  | some result =>
    obtain ⟨content, t⟩ := result
    rw [hread] at hfound
    simp only [Option.map_some, Option.some.injEq, Prod.mk.injEq] at hfound
    obtain ⟨rfl, rfl⟩ := hfound
    have htext : text = '"' :: (content.toList ++ ['"']) ++ rest := by
      rw [quoted_append hread]
      simp
    rw [taken_of_append htext]
    refine ⟨⟨'"', rfl, by rw [htext]; rfl, rfl⟩, .text content, ⟨_, rfl, by simp [Meaning.term?]⟩, fun _ behind _ =>
      ⟨behind, ?_, rfl⟩⟩
    have hagain := quoted_again hread behind
    simp only [Reader.map, List.cons_append, List.append_assoc, List.nil_append, hagain]
    rfl

/-! ## Marks -/

theorem rereads_mark (c : Char) : Rereads whole n (Rule.lit (String.singleton c)) (fun pairs _ => pairs = [])
    (Reader.exactly (String.singleton c)) (· = c) (fun _ => True) :=
  rereads_literal (String.singleton c) (by simp)

theorem ahead_of_mark {c : Char} {u : Unit} (h : mark c text = some (u, rest)) : ahead text = some c := by
  have htext := exactly_append h
  rw [ahead, htext]
  simp

theorem mark_eq_none {c : Char} (h : ahead text ≠ some c) : mark c text = none := by
  cases hread : mark c text with
  | none => rfl
  | some result => exact absurd (ahead_of_mark hread) h

theorem mark_of_passes {gap : List Char} (h : Passes false gap false) {c : Char} (hink : isInk c = true)
    (behind : List Char) : mark c (gap ++ c :: behind) = some ((), behind) := by
  unfold mark
  rw [next_of_passes h hink, exactly_singleton]
  simp

theorem Rereads.led {w : String} {c : Char} {s : Reader β} (hf : Rereads whole n f P s S' F')
    (hw : w.toList.head? = some c) (hink : ∀ c, S' c → isInk c = true) :
    Rereads whole n ((Rule.lit w).seq f) P (fun text => Reader.exactly w text >>= fun x => next s x.2) (· = c) F' := by
  refine (rereads_literal w hw).seq (s := fun _ => s) (fun _ => hf.imp ?_) (fun c hc => ⟨hink c hc, trivial⟩)
    fun _ => rfl
  rintro more b hP _ rfl
  exact hP

theorem Rereads.closed {c : Char} {r : Reader β} (he : Rereads whole n e P r S F) (hink : isInk c = true)
    (hfits : F (some c)) : Rereads whole n (e.seq (Rule.lit (String.singleton c))) P
      (fun text => r text >>= fun x => mark c x.2 >>= fun y => some (x.1, y.2)) S (fun _ => True) := by
  have hmark (b : β) : Rereads whole n (Rule.lit (String.singleton c)) (fun more d => ∀ pairs, P pairs b →
      P (pairs ++ more) d) (fun text => Reader.exactly (String.singleton c) text >>= fun y => some (b, y.2)) (· = c)
      (fun _ => True) := by
    refine (rereads_mark c).map (fun _ => b) ?_ fun _ => rfl
    rintro _ _ rfl pairs hP
    rwa [List.append_nil]
  refine he.seq hmark ?_ fun _ => rfl
  rintro _ rfl
  exact ⟨hink, hfits⟩

end SolidScript.Script.Grammar
