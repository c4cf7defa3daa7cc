import SolidScript.Proofs.StatementWords

/-!
# Statements by their grammar

Between the elements of a statement a reader skips a gap before it reads on. The grammar may have skipped it already, so
that the two leave the same text but for a gap. From the marks up to the whole line, each reader matches a rule.
-/

namespace SolidScript.Script.Grammar

open Peg

variable {whole text rest : List Char} {e f : Expr Rule} {β γ : Type} {P Q : List (Pair Rule) → β → Prop}
variable {R : List (Pair Rule) → γ → Prop} {o : Option (β × List Char)}

/-! ## Readers with gaps -/

/-- The expression matches if the reader takes something, and leaves the same text but for a gap. The pairs of a match
mean what was read. -/
def Matches (whole : List Char) (e : Expr Rule) (P : List (Pair Rule) → β → Prop) (text : List Char) :
    Option (β × List Char) → Prop
  | none => Derives statementGrammar whole .free e text none
  | some (b, rest) => ∃ pairs behind, Derives statementGrammar whole .free e text (some (pairs, behind)) ∧
    skipGap false behind = skipGap false rest ∧ P pairs b

theorem Matches.mono (he : Matches whole e P text o) (h : ∀ pairs b, P pairs b → Q pairs b) :
    Matches whole e Q text o := by
  cases o with
  | none => exact he
  | some result =>
    obtain ⟨pairs, behind, hderives, hgap, hP⟩ := he
    exact ⟨pairs, behind, hderives, hgap, h pairs _ hP⟩

theorem Matches.map {r : Reader β} {k : β → γ} (he : Matches whole e (fun pairs b => R pairs (k b)) text (r rest)) :
    Matches whole e R text (r.map k rest) := by
  unfold Reader.map
  cases hr : r rest with
  | none =>
    rw [hr] at he
    exact he
  | some result =>
    rw [hr] at he
    exact he

theorem Matches.last {k : β × List Char → Option (γ × List Char)} (he : Matches whole e P text o)
    (hk : ∀ b rest, ∃ c, k (b, rest) = some (c, rest) ∧ ∀ pairs, P pairs b → R pairs c) :
    Matches whole e R text (o >>= k) := by
  cases o with
  | none => exact he
  | some result =>
    obtain ⟨pairs, behind, hderives, hgap, hP⟩ := he
    obtain ⟨c, hc, hR⟩ := hk result.1 result.2
    simp only [Option.bind_eq_bind, Option.bind_some, hc]
    exact ⟨pairs, behind, hderives, hgap, hR pairs hP⟩

theorem Matches.seq {k : β × List Char → Option (γ × List Char)} (he : Matches whole e P text o)
    (hf : ∀ b rest, o = some (b, rest) → (skipGap false rest).length ≤ text.length →
      Matches whole f (fun more c => ∀ pairs, P pairs b → R (pairs ++ more) c) (skipGap false rest) (k (b, rest))) :
    Matches whole (e.seq f) R text (o >>= k) := by
  cases o with
  | none => exact .joinNo he
  | some result =>
    obtain ⟨b, rest⟩ := result
    obtain ⟨pairs, behind, hderives, hgap, hP⟩ := he
    -- The reader skips the gap where the grammar leaves it for what comes next.
    have hlength : (skipGap false rest).length ≤ text.length := by
      rw [← hgap]
      exact (length_skipGap_le behind).trans hderives.length_le
    have hrest := hf b rest rfl hlength
    have hskip := derives_gap whole behind
    rw [hgap] at hskip
    simp only [Option.bind_eq_bind, Option.bind_some]
    cases hk : k (b, rest) with
    | none =>
      rw [hk] at hrest
      exact hderives.join (hskip.join hrest)
    | some next =>
      rw [hk] at hrest
      obtain ⟨more, last, hnext, hlast, hR⟩ := hrest
      exact ⟨_, _, hderives.join (hskip.join hnext), hlast, hR pairs hP⟩

theorem Matches.orElse {r s : Reader β} (he : Matches whole e P text (r rest))
    (hf : r rest = none → Matches whole f P text (s rest)) :
    Matches whole (e.choice f) P text (r.orElse s rest) := by
  unfold Reader.orElse
  cases hr : r rest with
  | none =>
    rw [hr] at he
    have hsecond := hf hr
    cases hs : s rest with
    | none =>
      rw [hs] at hsecond
      exact .second he hsecond
    | some result =>
      rw [hs] at hsecond
      obtain ⟨pairs, behind, hderives, hgap, hP⟩ := hsecond
      exact ⟨pairs, behind, .second he hderives, hgap, hP⟩
  | some result =>
    rw [hr] at he
    obtain ⟨pairs, behind, hderives, hgap, hP⟩ := he
    exact ⟨pairs, behind, .first hderives, hgap, hP⟩

theorem orElse_assoc (r s t : Reader β) : (r.orElse s).orElse t = r.orElse (s.orElse t) := by
  funext text
  unfold Reader.orElse
  cases r text <;> rfl

def Optionally (P : List (Pair Rule) → β → Prop) (pairs : List (Pair Rule)) : Option β → Prop
  | none => pairs = []
  | some b => P pairs b

theorem Optionally.eq_nil {pairs : List (Pair Rule)} {b : Option β}
    (h : Optionally (fun pairs _ => pairs = []) pairs b) : pairs = [] := by
  cases b with
  | none => exact h
  | some => exact h

theorem Matches.optional {r : Reader β} (he : Matches whole e P text (r rest))
    (hgap : skipGap false text = skipGap false rest) :
    Matches whole e.option (Optionally P) text (Reader.optional r rest) := by
  unfold Reader.optional
  cases hr : r rest with
  | none =>
    rw [hr] at he
    exact ⟨[], _, .second he .empty, hgap, rfl⟩
  | some result =>
    rw [hr] at he
    obtain ⟨pairs, behind, hderives, hbehind, hP⟩ := he
    exact ⟨pairs, behind, .first hderives, hbehind, hP⟩

theorem matches_literal (w : String) (text : List Char) :
    Matches whole (Rule.lit w) (fun pairs _ => pairs = []) text (Reader.exactly w text) := by
  have hread : Derives statementGrammar whole .free (Rule.lit w) text _ := derives_literal w text
  cases hw : Reader.exactly w text with
  | none =>
    rw [hw] at hread
    exact hread
  | some result =>
    rw [hw] at hread
    exact ⟨_, _, hread, rfl, rfl⟩

theorem matches_mark (c : Char) (text : List Char) : Matches whole (Rule.lit (String.singleton c))
    (fun pairs _ => pairs = []) (skipGap false text) (mark c text) :=
  matches_literal (String.singleton c) (skipGap false text)

/-! ## Rules -/

theorem Matches.opened {r : Rule} (hscope : (statementGrammar.kind r).scope .free = .free)
    (h : Matches whole (statementGrammar.body r)
      (fun inner b => ∀ taken, P ((statementGrammar.kind r).pairs .free r taken inner) b) text o) :
    Matches whole (.rule r) P text o := by
  cases o with
  | none => exact Derives.rule_of_scope h hscope
  | some result =>
    obtain ⟨pairs, behind, hderives, hgap, hP⟩ := h
    exact ⟨_, _, hderives.rule_of_scope hscope, hgap, hP _⟩

theorem Matches.rule {r : Rule}
    (h : Matches whole (statementGrammar.body r) (fun inner b => ∀ taken, P [.node r taken inner] b) text o)
    (hkind : statementGrammar.kind r = .normal) : Matches whole (.rule r) P text o := by
  refine .opened (by rw [hkind]; rfl) ?_
  rw [hkind]
  exact h

theorem Matches.silent {r : Rule} (h : Matches whole (statementGrammar.body r) P text o)
    (hkind : statementGrammar.kind r = .silent) : Matches whole (.rule r) P text o := by
  refine .opened (by rw [hkind]; rfl) ?_
  rw [hkind]
  exact h.mono fun _ _ hP _ => hP

def IsWord (r : Rule) (word : β → List Char) (pairs : List (Pair Rule)) (b : β) : Prop :=
  pairs = [.node r (word b) []]

theorem Spells.rule {r : Rule} {word : β → List Char} (h : Spells whole (statementGrammar.body r) text o)
    (hkind : statementGrammar.kind r = .atomic) (hword : ∀ b rest, o = some (b, rest) → text = word b ++ rest) :
    Matches whole (.rule r) (IsWord r word) text o := by
  have hscope : (statementGrammar.kind r).scope .free = .sealed := by
    rw [hkind]
    rfl
  have hrule := Derives.rule_of_scope h hscope
  cases o with
  | none => exact hrule
  | some result =>
    refine ⟨_, _, hrule, rfl, ?_⟩
    rw [hkind, taken_of_append (hword result.1 result.2 rfl)]
    rfl

theorem matches_name (text : List Char) : Matches whole (.rule .ident) (IsWord .ident String.toList) text (name text) :=
  (spells_name text).rule rfl fun _ _ h => name_append h

theorem matches_number (text : List Char) :
    Matches whole (.rule .number) (IsWord .number String.toList) text (number text) :=
  (spells_number text).rule rfl fun _ _ h => number_append h

theorem matches_integer (text : List Char) :
    Matches whole (.rule .integer) (IsWord .integer String.toList) text (integer text) :=
  (spells_integer text).rule rfl fun _ _ h => integer_append h

/-! ## Quoted texts and words -/

theorem each_inText : Each whole ((Rule.lit "\"").absent.seq .any) (· != '"') := by
  refine each_unless fun text => ⟨_, each_literal '"' text, ?_⟩
  cases text with
  | nil => rfl
  | cons a rest => by_cases ha : a = '"' <;> simp [readOne, ha]

theorem derives_text (text : List Char) : Derives statementGrammar whole .tight (.rule .text) text
    (some ([.node .text (text.takeWhile (· != '"')) []], text.dropWhile (· != '"'))) := by
  have hmany : Derives statementGrammar whole .sealed (statementGrammar.body .text) text _ := each_inText.many text
  have hrule := hmany.rule_of_scope (c := .tight) rfl
  have htaken : taken text (text.dropWhile (· != '"')) = text.takeWhile (· != '"') :=
    taken_of_append List.takeWhile_append_dropWhile.symm
  rw [← htaken]
  exact hrule

theorem exactly_singleton (c : Char) (text : List Char) : Reader.exactly (String.singleton c) text =
    match text with
    | a :: rest => if a = c then some ((), rest) else none
    | [] => none := by
  unfold Reader.exactly
  cases text with
  | nil => simp
  | cons a rest => simp [@eq_comm _ c a]

theorem derives_quoted (text : List Char) : Derives statementGrammar whole .tight (Rule.body .string) text
    ((quoted text).map fun (content, rest) => ([.node .text content.toList []], rest)) := by
  have hquote (t : List Char) : Derives statementGrammar whole .tight (Rule.lit "\"") t _ :=
    derives_literal (String.singleton '"') t
  simp only [exactly_singleton] at hquote
  have hopen := hquote text
  unfold quoted
  split
  · rename_i rest
    have hclose := hquote (rest.dropWhile (· != '"'))
    have hhead := List.head?_dropWhile_not (· != '"') rest
    have htext : Derives statementGrammar whole .tight (.rule .text) rest _ := derives_text rest
    -- The string is closed, or the text ends before that.
    split
    · rename_i c behind hbehind
      rw [hbehind] at hclose hhead htext
      have hc : c = '"' := by simpa using hhead
      subst hc
      simp only [Option.map_some, String.toList_ofList]
      exact hopen.seq_of_ne_free (by decide) (htext.seq_of_ne_free (by decide) hclose)
    · rename_i hbehind
      rw [hbehind] at hclose htext
      exact hopen.seq_of_ne_free (by decide) (htext.seq_of_ne_free (by decide) hclose)
  · rename_i hno
    refine .joinNo ?_
    cases text with
    | nil => exact hopen
    | cons a rest =>
      have ha : a ≠ '"' := by
        rintro rfl
        exact hno rest rfl
      simpa [ha] using hopen

def Single (M : Pair Rule → β → Prop) (pairs : List (Pair Rule)) (b : β) : Prop := ∃ p, pairs = [p] ∧ M p b

def IsTerm : List (Pair Rule) → Term → Prop := Single fun p t => Meaning.term? p = some t

theorem matches_string (text : List Char) :
    Matches whole (.rule .string) IsTerm text (quoted.map .text text) := by
  have hbody : Derives statementGrammar whole .tight (statementGrammar.body .string) text _ := derives_quoted text
  have hrule := hbody.rule_of_scope (c := .free) rfl
  unfold Reader.map
  cases hread : quoted text with
  | none =>
    rw [hread] at hrule
    exact hrule
  | some result =>
    rw [hread] at hrule
    exact ⟨_, _, hrule, rfl, _, rfl, by simp [Meaning.term?]⟩

def boolean : Reader Term := (oneOf "true" "false").map fun w => .boolean (w.toList = "true".toList)

theorem matches_boolean (text : List Char) : Matches whole (.rule .boolean) IsTerm text (boolean text) := by
  have hword : Matches whole (.rule .boolean) (IsWord .boolean String.toList) text (oneOf "true" "false" text) :=
    (spells_oneOf (fun _ => rfl) text).rule rfl fun _ _ h => oneOf_append h
  refine Matches.map (hword.mono ?_)
  rintro _ w rfl
  exact ⟨_, rfl, by simp [Meaning.term?]⟩

theorem matches_keyword (text : List Char) : Matches whole (.rule .keyword) (IsWord .keyword String.toList) text
    (oneOf "let" "const" text) :=
  (spells_oneOf (fun _ => rfl) text).rule rfl fun _ _ h => oneOf_append h

/-! ## References -/

def IsSelector (pairs : List (Pair Rule)) (s : Selector) : Prop := Meaning.selector? pairs = some s

theorem matches_face (text : List Char) : Matches whole (.rule .face) IsSelector text (faceSelector text) := by
  refine Matches.rule ?_ rfl
  refine (matches_literal "face" text).seq fun _ t _ _ => (matches_mark '.' t).seq fun _ t _ _ =>
    (matches_name _).last fun n _ => ⟨_, rfl, ?_⟩
  rintro _ rfl _ rfl _ rfl taken
  simp [IsSelector, Meaning.selector?]

theorem matches_allEdges (text : List Char) : Matches whole (.rule .allEdges) IsSelector text
    (((Reader.exactly "edges").map fun _ => .allEdges).orElse starSelector text) := by
  refine Matches.rule (Matches.orElse (Matches.map ?_) fun _ => ?_) rfl
  · refine (matches_literal "edges" text).mono ?_
    rintro _ _ rfl taken
    rfl
  · refine (matches_literal "edge" text).seq fun _ t _ _ => (matches_mark '[' t).seq fun _ t _ _ =>
      (matches_mark '*' t).seq fun _ t _ _ => (matches_mark ']' t).last fun _ _ => ⟨_, rfl, ?_⟩
    rintro _ rfl _ rfl _ rfl _ rfl taken
    rfl

theorem matches_edge (text : List Char) : Matches whole (.rule .edge) IsSelector text (edgeSelector text) := by
  refine Matches.rule ?_ rfl
  refine (matches_literal "edge" text).seq fun _ t _ _ => (matches_mark '[' t).seq fun _ t _ _ =>
    (matches_integer _).seq fun _ t _ _ => (matches_mark ']' t).last fun _ _ => ⟨_, rfl, ?_⟩
  rintro _ rfl _ rfl _ rfl _ rfl taken
  simp [IsSelector, Meaning.selector?]

theorem matches_selector (text : List Char) :
    Matches whole (.rule .selector) IsSelector (skipGap false text) (selector text) := by
  refine Matches.silent ?_ rfl
  refine (matches_mark '.' text).seq fun _ t _ _ => ?_
  unfold next selected
  rw [← orElse_assoc _ starSelector]
  refine ((matches_face _).orElse fun _ => (matches_allEdges _).orElse fun _ => matches_edge _).mono ?_
  rintro _ _ hselector _ rfl
  exact hselector

theorem matches_reference (text : List Char) : Matches whole (.rule .reference) IsTerm text (reference text) := by
  refine Matches.rule ?_ rfl
  refine (matches_name text).seq fun n t _ _ =>
    ((matches_selector t).optional (skipGap_skipGap _ _)).last fun s _ => ⟨_, rfl, ?_⟩
  rintro pairs hpairs _ rfl taken
  refine ⟨_, rfl, ?_⟩
  cases s with
  | none =>
    cases hpairs
    simp [Meaning.term?, Meaning.selector?]
  | some s =>
    have hselector : Meaning.selector? pairs = some s := hpairs
    simp [Meaning.term?, hselector]

/-! ## Items -/

section

variable {M : Pair Rule → β → Prop} {item : Reader β} {n : Nat} {close : Char}

theorem mark_congr {c : Char} {behind : List Char} (h : skipGap false behind = skipGap false text) :
    mark c behind = mark c text := by
  unfold mark next
  rw [h]

def closing (close : Char) (bs : List β) : Reader (List β) := fun text => do
  let (_, rest) ← Reader.optional (mark ',') text
  let (_, rest) ← mark close rest
  return (bs, rest)

theorem closing_congr {behind : List Char} (h : skipGap false behind = skipGap false text) (bs : List β) :
    closing close bs behind = closing close bs text := by
  unfold closing Reader.optional
  rw [mark_congr h]
  cases mark ',' text with
  | none =>
    simp only [Option.bind_eq_bind, Option.bind_some]
    rw [mark_congr h]
  | some => rfl

def another (item : Reader β) : Reader β := fun text => mark ',' text >>= fun x => next item x.2

theorem moreItems_of_none {fuel : Nat} {found : Array β} (h : another item text = none) :
    moreItems item close (fuel + 1) found text = closing close found.toList text := by
  unfold another at h
  unfold moreItems closing Reader.optional Reader.map
  cases hcomma : mark ',' text with
  | none =>
    simp only [Option.bind_eq_bind, Option.bind_some]
    cases mark close text <;> rfl
  | some result =>
    rw [hcomma] at h
    have hnext : next item result.2 = none := h
    simp only [hnext, Option.bind_eq_bind, Option.bind_some]
    cases mark close result.2 <;> rfl

theorem moreItems_of_some {fuel : Nat} {found : Array β} {b : β} (h : another item text = some (b, rest)) :
    moreItems item close (fuel + 1) found text = moreItems item close fuel (found.push b) rest := by
  obtain ⟨⟨_, t⟩, hcomma, hnext⟩ := Option.bind_eq_some_iff.mp h
  have hnext : next item t = some (b, rest) := hnext
  rw [moreItems, hcomma]
  simp only [hnext]

theorem matches_another (hitem : ∀ t, t.length ≤ n → Matches whole e (Single M) t (item t))
    (hn : (skipGap false text).length ≤ n) :
    Matches whole ((Rule.lit ",").seq e) (Single M) (skipGap false text) (another item text) := by
  refine (matches_mark ',' text).seq fun _ _ _ hle => (hitem _ (hle.trans hn)).mono ?_
  rintro _ _ hM _ rfl
  exact hM

theorem skipGap_lt {b : β} (he : Consumes statementGrammar e) (h : Matches whole e P text (some (b, rest))) :
    (skipGap false rest).length < text.length := by
  obtain ⟨_, behind, hderives, hgap, -⟩ := h
  rw [← hgap]
  exact Nat.lt_of_le_of_lt (length_skipGap_le behind) (he.length_lt hderives _ _ rfl)

/-- The items behind the first one, up to a last comma. The repetition starts in front of a gap, and as a whole behind
it. -/
theorem moreItems_matches (hitem : ∀ t, t.length ≤ n → Matches whole e (Single M) t (item t)) {fuel : Nat}
    {behind : List Char} (hgap : skipGap false behind = skipGap false text) (hn : (skipGap false text).length ≤ n)
    (hfuel : (skipGap false text).length < fuel) (found : Array β) : ∃ bs last,
      Matches whole (Expr.gap.join ((Rule.lit ",").seq e)).star (List.Forall₂ M) behind (some (bs, last)) ∧
      Matches whole ((Rule.lit ",").seq e).many (List.Forall₂ M) (skipGap false text) (some (bs, last)) ∧
      moreItems item close fuel found text = closing close (found.toList ++ bs) last := by
  induction fuel generalizing found text behind with
  | zero => exact absurd hfuel (Nat.not_lt_zero _)
  | succ fuel ih =>
    have hskip := derives_gap whole behind
    rw [hgap] at hskip
    -- Where no other item follows, both repetitions stop, and a comma that may stand here is left for what comes next.
    have hround := matches_another hitem hn
    cases hread : another item text with
    | none =>
      rw [hread] at hround
      refine ⟨[], behind, ⟨[], behind, .stop (hskip.join hround), rfl, .nil⟩,
        ⟨[], _, .second (.joinNo hround) .empty, by simp [hgap], .nil⟩, ?_⟩
      rw [moreItems_of_none hread, List.append_nil, closing_congr hgap]
    | some result =>
      obtain ⟨b, t⟩ := result
      rw [hread] at hround
      have hlt := skipGap_lt (.left .literal) hround
      obtain ⟨_, after, hone, hafter, p, rfl, hM⟩ := hround
      obtain ⟨bs, last, ⟨more, fin, hstar, hfin, hmeans⟩, -, hmore⟩ :=
        ih hafter (hlt.le.trans hn) (by omega) (found.push b)
      refine ⟨b :: bs, last, ⟨_, _, (hskip.join hone).again hstar, hfin, .cons hM hmeans⟩,
        ⟨_, _, .first (hone.join hstar), hfin, .cons hM hmeans⟩, ?_⟩
      rw [moreItems_of_some hread, hmore]
      simp

theorem matches_commaSeparated {b : β} {bs : List β} {last : List Char}
    (hfirst : Matches whole e (Single M) text (some (b, rest)))
    (hmany : Matches whole ((Rule.lit ",").seq e).many (List.Forall₂ M) (skipGap false rest) (some (bs, last))) :
    Matches whole (Rule.commaSeparated e) (List.Forall₂ M) text
      (Reader.optional (mark ',') last >>= fun x => some (b :: bs, x.2)) := by
  refine hfirst.seq (k := fun _ => Reader.optional (mark ',') last >>= fun x => some (b :: bs, x.2)) ?_
  rintro _ _ ⟨⟩ -
  refine hmany.seq (k := fun _ => Reader.optional (mark ',') last >>= fun x => some (b :: bs, x.2)) ?_
  rintro _ _ ⟨⟩ -
  refine ((matches_mark ',' last).optional (skipGap_skipGap _ _)).last fun u _ => ⟨_, rfl, ?_⟩
  rintro ends hends more hmore _ ⟨p, rfl, hp⟩
  rw [hends.eq_nil, List.append_nil]
  exact .cons hp hmore

theorem matches_closed {r : Reader (List β)} (h : Matches whole e (List.Forall₂ M) (skipGap false text) (r text)) :
    Matches whole (e.option.seq (Rule.lit (String.singleton close))) (List.Forall₂ M) (skipGap false text)
      (Reader.optional r text >>= fun x => mark close x.2 >>= fun y => some (x.1.getD [], y.2)) := by
  refine (h.optional (skipGap_skipGap _ _)).seq fun bs t _ _ => (matches_mark close t).last fun _ _ => ⟨_, rfl, ?_⟩
  rintro _ rfl pairs hpairs
  rw [List.append_nil]
  cases bs with
  | none =>
    cases hpairs
    exact .nil
  | some => exact hpairs

theorem matches_items (hitem : ∀ t, t.length ≤ n → Matches whole e (Single M) t (item t))
    (he : Consumes statementGrammar e) {f : Expr Rule}
    (hf : ∀ {t o}, Matches whole (Rule.commaSeparated e) (List.Forall₂ M) t o →
      Matches whole f (List.Forall₂ M) t o)
    (hn : (skipGap false text).length ≤ n) :
    Matches whole (f.option.seq (Rule.lit (String.singleton close))) (List.Forall₂ M) (skipGap false text)
      (items item close text) := by
  have hfirst := hitem _ hn
  unfold items next
  cases hread : item (skipGap false text) with
  | none =>
    rw [hread] at hfirst
    have hnone : Matches whole (Rule.commaSeparated e) (List.Forall₂ M) (skipGap false text) none := .joinNo hfirst
    dsimp only [Reader.map]
    rw [Option.map_eq_bind]
    exact matches_closed (r := fun _ => none) (hf hnone)
  | some result =>
    obtain ⟨b, t⟩ := result
    rw [hread] at hfirst
    have hlt := skipGap_lt he hfirst
    have ⟨_, _, _, hafter, _⟩ := hfirst
    obtain ⟨bs, last, -, hmany, hmore⟩ := moreItems_matches hitem hafter (hlt.le.trans hn)
      (Nat.lt_of_lt_of_le hlt (length_skipGap_le text)) #[b]
    have hitems := matches_commaSeparated hfirst hmany
    -- A comma in front of the closing mark is allowed, but not needed.
    obtain ⟨⟨_, fin⟩, hfin⟩ : ∃ result, Reader.optional (mark ',') last = some result := by
      unfold Reader.optional
      cases mark ',' last <;> exact ⟨_, rfl⟩
    rw [hfin] at hitems
    dsimp only
    rw [hmore]
    unfold closing
    rw [hfin]
    exact matches_closed (r := fun _ => some (b :: bs, fin)) (hf hitems)

end

/-! ## Terms -/

theorem consumes_name : Consumes statementGrammar (.rule .ident) := .rule (.left (.choice .one .literal))

theorem consumes_digits : Consumes statementGrammar Rule.digit.many1 := .left .one

theorem consumes_value : Consumes statementGrammar (.rule .value) :=
  .rule (.choice (.rule (.right (.right (.left (.choice (.left consumes_digits) (.left .literal))))))
    (.choice (.rule (.left (.choice .literal .literal))) (.choice (.rule (.left .literal))
      (.choice (.rule (.left .literal)) (.rule (.left consumes_name))))))

def IsValue (p : Pair Rule) (t : Term) : Prop :=
  (∃ taken inner, p = .node .value taken inner) ∧ Meaning.term? p = some t

theorem terms?_of_forall {pairs : List (Pair Rule)} {ts : List Term} (h : List.Forall₂ IsValue pairs ts) :
    Meaning.terms? pairs = some ts := by
  induction h with
  | nil => simp [Meaning.terms?]
  | cons hp _ ih => simp [Meaning.terms?, hp.2, ih]

def listOf (item : Reader Term) : Reader Term := fun text => do
  let (_, rest) ← Reader.exactly "[" text
  (items item ']').map .list rest

theorem matches_list {item : Reader Term}
    (hitem : ∀ t, t.length < text.length → Matches whole (.rule .value) (Single IsValue) t (item t)) :
    Matches whole (.rule .list) IsTerm text (listOf item text) := by
  refine Matches.rule ?_ rfl
  refine (matches_literal "[" text).seq fun _ t hopen _ => ?_
  have hlength : text.length = t.length + 1 := by
    rw [exactly_append hopen]
    simp
  have hitems : Matches whole ((Rule.commaSeparated (.rule .value)).option.seq (Rule.lit "]")) (List.Forall₂ IsValue)
      (skipGap false t) (items item ']' t) :=
    matches_items (n := t.length) (fun t' ht' => hitem t' (by omega)) consumes_value id (length_skipGap_le t)
  refine Matches.map (hitems.mono ?_)
  rintro inner ts hmeans _ rfl taken
  exact ⟨_, rfl, by simp [Meaning.term?, terms?_of_forall hmeans]⟩

/-- Lists with terms nested in them up to a depth. -/
def nested : (depth : Nat) → Reader Term
  | 0 => fun _ => none
  | depth + 1 => listOf (term depth)

theorem reference_or_nested (depth : Nat) : reference.orElse (nested depth) = (nested depth).orElse reference := by
  funext text
  have hno : nested depth text = none ∨ reference text = none := by
    cases depth with
    | zero => exact .inl rfl
    | succ depth =>
      change listOf (term depth) text = none ∨ _
      unfold listOf reference
      cases hopen : Reader.exactly "[" text with
      | none => exact .inl rfl
      | some result =>
        rw [exactly_append hopen]
        exact .inr rfl
  unfold Reader.orElse
  cases hnested : nested depth text <;> cases hreference : reference text <;> simp_all

theorem term_eq (depth : Nat) : term depth = (number.map .number).orElse (boolean.orElse ((quoted.map .text).orElse
    ((nested depth).orElse reference))) := by
  have hboolean : boolean = ((word "true").map fun _ => .boolean true).orElse
      ((word "false").map fun _ => .boolean false) := by
    unfold boolean
    rw [map_oneOf]
    rfl
  rw [hboolean]
  cases depth with
  | zero =>
    simp only [orElse_assoc]
    rfl
  | succ depth =>
    rw [← reference_or_nested]
    simp only [term, scalar, orElse_assoc]
    rfl

theorem matches_value {depth : Nat} (hlist : Matches whole (.rule .list) IsTerm text (nested depth text)) :
    Matches whole (.rule .value) (Single IsValue) text (term depth text) := by
  have hnumber : Matches whole (.rule .number) IsTerm text (number.map .number text) := by
    refine Matches.map ((matches_number text).mono ?_)
    rintro _ n rfl
    exact ⟨_, rfl, by simp [Meaning.term?]⟩
  have hbody : Matches whole (Rule.body .value) IsTerm text (term depth text) := by
    rw [term_eq]
    exact hnumber.orElse fun _ => (matches_boolean text).orElse fun _ => (matches_string text).orElse fun _ =>
      hlist.orElse fun _ => matches_reference text
  refine Matches.rule (hbody.mono ?_) rfl
  rintro _ t ⟨p, rfl, hp⟩ taken
  exact ⟨_, rfl, ⟨_, _, rfl⟩, hp⟩

theorem matches_term {depth : Nat} (text : List Char) (hlength : text.length ≤ depth) :
    Matches whole (.rule .value) (Single IsValue) text (term depth text) := by
  induction depth generalizing text with
  | zero =>
    obtain rfl := List.eq_nil_of_length_eq_zero (Nat.le_zero.mp hlength)
    have hlist : Matches whole (.rule .list) IsTerm [] (listOf (fun _ => none) []) :=
      matches_list fun t ht => absurd ht (Nat.not_lt_zero _)
    exact matches_value hlist
  | succ depth ih => exact matches_value (matches_list fun t ht => ih t (by omega))

/-! ## Calls -/

def IsArgument (p : Pair Rule) (a : Argument) : Prop := Meaning.argument? p = some a

theorem consumes_argument : Consumes statementGrammar (.rule .arg) :=
  .rule (.choice (.rule (.left consumes_name)) consumes_value)

theorem matches_argument {depth : Nat} (text : List Char) (hlength : text.length ≤ depth) :
    Matches whole (.rule .arg) (Single IsArgument) text (argument depth text) := by
  refine Matches.rule (Matches.orElse (Matches.rule ?_ rfl) fun _ => Matches.map ?_) rfl
  · refine (matches_name text).seq fun n t _ ht => ((matches_mark ':' t).orElse fun _ => matches_mark '=' t).seq
      fun _ t' _ ht' => (matches_term _ (ht'.trans (ht.trans hlength))).last fun v _ => ⟨_, rfl, ?_⟩
    rintro _ ⟨p, rfl, -, hp⟩ _ rfl _ rfl taken taken'
    exact ⟨_, rfl, by simp [IsArgument, Meaning.argument?, hp]⟩
  · refine (matches_term text hlength).mono ?_
    rintro _ v ⟨_, rfl, ⟨taken, inner, rfl⟩, hp⟩ taken'
    exact ⟨_, rfl, by simp [IsArgument, Meaning.argument?, hp]⟩

def IsBinding (p : Pair Rule) (name : String) : Prop := Meaning.boundName? p = some name

theorem matches_bound (text : List Char) : Matches whole ((Expr.rule .ident).seq (Rule.lit "="))
    (IsWord .ident String.toList) text (bound text) := by
  refine (matches_name text).seq fun n t _ _ => (matches_mark '=' t).last fun _ _ => ⟨_, rfl, ?_⟩
  rintro _ rfl _ rfl
  rfl

theorem map_unit (r : Reader Unit) : r.map (fun _ => ()) = r := by
  funext text
  exact Option.map_id'

theorem matches_binding (text : List Char) : Matches whole (.rule .binding) (Single IsBinding) text (binding text) := by
  refine Matches.rule (Matches.orElse ?_ fun _ => ?_) rfl
  · have hkeyword : Matches whole (.rule .keyword) (fun pairs _ => ∃ taken, pairs = [.node .keyword taken []]) text
        (((word "let").orElse (word "const")) text) := by
      have hwords : (word "let").orElse (word "const") = (oneOf "let" "const").map fun _ => () := by
        rw [map_oneOf, map_unit, map_unit]
      rw [hwords]
      exact Matches.map ((matches_keyword text).mono fun _ w hw => ⟨w.toList, hw⟩)
    refine hkeyword.seq fun _ t _ _ => (matches_bound _).mono ?_
    rintro _ n rfl _ ⟨w, rfl⟩ taken
    exact ⟨_, rfl, by simp [IsBinding, Meaning.boundName?]⟩
  · refine (matches_bound text).mono ?_
    rintro _ n rfl taken
    exact ⟨_, rfl, by simp [IsBinding, Meaning.boundName?]⟩

def call (depth : Nat) : Reader (String × List Argument) := fun text => do
  let (callee, rest) ← name text
  let (_, rest) ← mark '(' rest
  let (arguments, rest) ← items (argument depth) ')' rest
  return ((callee, arguments), rest)

def IsCall (p : Pair Rule) (c : String × List Argument) : Prop := ∃ taken arguments,
  p = .node .call taken (.node .ident c.1.toList [] :: arguments) ∧ arguments.mapM Meaning.argument? = some c.2

theorem mapM_of_forall {pairs : List (Pair Rule)} {found : List Argument} (h : List.Forall₂ IsArgument pairs found) :
    pairs.mapM Meaning.argument? = some found := by
  induction h with
  | nil => rfl
  | cons hp _ ih => simp [List.mapM_cons, show Meaning.argument? _ = _ from hp, ih]

theorem matches_call {depth : Nat} (text : List Char) (hlength : text.length ≤ depth) :
    Matches whole (.rule .call) (Single IsCall) text (call depth text) := by
  refine Matches.rule ?_ rfl
  refine (matches_name text).seq fun callee t _ ht => (matches_mark '(' t).seq fun _ t' _ ht' =>
    (matches_items (n := depth) matches_argument consumes_argument (fun h => Matches.silent (r := Rule.args) h rfl)
      (ht'.trans (ht.trans hlength))).last fun as _ => ⟨_, rfl, ?_⟩
  rintro pairs hmeans _ rfl _ rfl taken
  exact ⟨_, rfl, _, _, rfl, mapM_of_forall hmeans⟩

theorem statement_eq (text : List Char) : statement text = (do
    let (b, rest) ← Reader.optional binding text
    let (c, rest) ← next (call text.length) rest
    return (⟨b, c.1, c.2⟩, rest)) := by
  unfold statement next call
  simp only [Option.bind_eq_bind, Option.bind_assoc]
  rfl

def IsStatement (p : Pair Rule) (s : Statement) : Prop := ∃ taken parts,
  p = .node .statement taken parts ∧ Meaning.statement? parts = some s

theorem matches_statement (text : List Char) :
    Matches whole (.rule .statement) (Single IsStatement) text (statement text) := by
  rw [statement_eq]
  refine Matches.rule ?_ rfl
  refine ((matches_binding text).optional rfl).seq fun b t _ ht => (matches_call _ ht).last fun c _ => ⟨_, rfl, ?_⟩
  rintro _ ⟨p, rfl, taken, arguments, rfl, harguments⟩ pairs hpairs taken'
  refine ⟨_, rfl, _, _, rfl, ?_⟩
  cases b with
  | none =>
    cases hpairs
    simp [Meaning.statement?, harguments]
  | some b =>
    obtain ⟨p, rfl, hp⟩ := hpairs
    have hname : Meaning.boundName? p = some b := hp
    simp [Meaning.statement?, harguments, hname]

/-! ## Lines -/

def ended : Reader Statement := fun text => do
  let (s, rest) ← statement text
  let (_, rest) ← Reader.optional (mark ';') rest
  return (s, rest)

def textEnd : Reader Unit := fun text => if text.isEmpty then some ((), text) else none

def line : Reader (Option Statement) := fun text => do
  let (s, rest) ← Reader.optional (next ended) text
  let (_, rest) ← next textEnd rest
  return (s, rest)

theorem read?_eq_line (text : List Char) : Statement.read? text = (line text).map Prod.fst := by
  simp only [Statement.read?, line, ended, textEnd, next, Reader.optional, Option.bind_eq_bind]
  cases statement (skipGap false text) with
  | none =>
    by_cases hempty : skipGap false text = []
    all_goals simp [hempty]
  | some result =>
    obtain ⟨s, rest⟩ := result
    simp only [Option.bind_some]
    cases mark ';' rest with
    | none =>
      by_cases hempty : skipGap false rest = []
      all_goals simp [hempty]
    | some result =>
      by_cases hempty : skipGap false result.2 = []
      all_goals simp [hempty]

theorem matches_textEnd (text : List Char) : Matches whole (.rule .textEnd)
    (Single fun p _ => ∃ taken, p = .node .textEnd taken []) text (textEnd text) := by
  have hany : Derives statementGrammar whole .free .any text _ := .one
  have habsent := hany.absent
  refine Matches.rule ?_ rfl
  unfold textEnd
  cases text with
  | nil => exact ⟨_, _, habsent, rfl, fun taken => ⟨_, rfl, _, rfl⟩⟩
  | cons a rest => exact habsent

theorem matches_ended (text : List Char) : Matches whole ((Expr.rule .statement).seq (Rule.lit ";").option)
    (Single IsStatement) text (ended text) := by
  refine (matches_statement text).seq fun s t _ _ => ((matches_mark ';' t).optional (skipGap_skipGap _ _)).last
    fun u _ => ⟨_, rfl, ?_⟩
  rintro ends hends pairs hpairs
  rw [hends.eq_nil, List.append_nil]
  exact hpairs

theorem matches_line (text : List Char) : Matches text (.rule .line)
    (fun pairs parsed => Meaning.line? pairs = some parsed) text (line text) := by
  have hderives : Derives statementGrammar text .free .start text _ := .start
  rw [if_pos rfl] at hderives
  have hstart : Matches text .start (fun pairs _ => pairs = []) text (some ((), text)) := ⟨_, _, hderives, rfl, rfl⟩
  refine Matches.rule ?_ rfl
  refine hstart.seq (k := fun x => line x.2) ?_
  rintro _ _ ⟨⟩ -
  have hended : Matches text ((Expr.rule .statement).seq (Rule.lit ";").option).option (Optionally (Single IsStatement))
      (skipGap false text) (Reader.optional (next ended) text) :=
    Matches.optional (r := next ended) (matches_ended _) (skipGap_skipGap _ _)
  refine hended.seq fun s t _ _ => (matches_textEnd _).last fun _ _ => ⟨_, rfl, ?_⟩
  rintro _ ⟨p, rfl, taken, rfl⟩ pairs hpairs _ rfl taken'
  cases s with
  | none =>
    cases hpairs
    rfl
  | some s =>
    obtain ⟨_, rfl, _, parts, rfl, hparts⟩ := hpairs
    simp [Meaning.line?, hparts]

/-- A line is read if and only if the grammar matches it, and what was read is what the pairs mean. -/
theorem lines_read_as_derived (text : List Char) :
    (Statement.read? text = none ↔ Derives statementGrammar text .free (.rule .line) text none) ∧
    ∀ parsed, Statement.read? text = some parsed ↔ ∃ pairs rest,
      Derives statementGrammar text .free (.rule .line) text (some (pairs, rest)) ∧
        Meaning.line? pairs = some parsed := by
  have hline := matches_line text
  rw [read?_eq_line]
  cases hread : line text with
  | none =>
    rw [hread] at hline
    refine ⟨⟨fun _ => hline, fun _ => rfl⟩, fun parsed => ⟨?_, ?_⟩⟩
    · exact fun h => nomatch h
    · rintro ⟨pairs, rest, hderives, -⟩
      cases hline.unique hderives
  | some result =>
    rw [hread] at hline
    obtain ⟨pairs, behind, hderives, -, hmeans⟩ := hline
    refine ⟨⟨?_, ?_⟩, fun parsed => ⟨?_, ?_⟩⟩
    · exact fun h => nomatch h
    · intro hnone
      cases hderives.unique hnone
    · rintro ⟨⟩
      exact ⟨pairs, behind, hderives, hmeans⟩
    · rintro ⟨pairs', rest, hderives', hmeans'⟩
      cases hderives.unique hderives'
      rw [Option.map_some, ← hmeans, hmeans']

end SolidScript.Script.Grammar
