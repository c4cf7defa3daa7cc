import SolidScript.Proofs.Rereading

/-!
# Terms with more blanks

A term is read again with blanks between its elements, in front of what may stand behind a term.
-/

namespace SolidScript.Script.Grammar

open Peg

variable {whole text rest behind spaced : List Char} {e f : Expr Rule} {found : List (Pair Rule)} {β : Type}
variable {P : List (Pair Rule) → β → Prop} {S : Char → Prop} {n : Nat}

/-! ## References -/

theorem rereads_face : Rereads whole n (.rule .face) IsSelector faceSelector (· = 'f') EndsTerm := by
  have hname : Rereads whole n (.rule .ident) (IsWord .ident String.toList) name (isNameStart · = true) EndsTerm :=
    rereads_name.fits fun _ => stops_of_endsTerm (by decide)
  have hpoint := hname.led (w := String.singleton '.') (c := '.') rfl fun _ => isInk_of_isNameStart
  have hface := hpoint.led (w := "face") (c := 'f') rfl fun _ hc => by rw [hc]; rfl
  refine Rereads.rule (hface.map Selector.face ?_ fun text => ?_) rfl
  · rintro _ face rfl taken
    simp [IsSelector, Meaning.selector?]
  · simp only [faceSelector, mark, next, Option.bind_eq_bind, Option.bind_assoc]
    rfl

theorem edges_refuses {u v : Unit} {t : List Char} (hedge : Reader.exactly "edge" text = some (u, t))
    (hmark : mark '[' t = some (v, rest)) : Reader.exactly "edges" text = none := by
  cases hedges : Reader.exactly "edges" text with
  | none => rfl
  | some result =>
    have htext := (exactly_append hedge).symm.trans (exactly_append hedges)
    have ht : t = 's' :: result.2 := List.append_cancel_left htext
    have hahead := ahead_of_mark hmark
    rw [ht, ahead_ink (by decide)] at hahead
    exact absurd hahead (by decide)

def IsAllEdges (pairs : List (Pair Rule)) (s : Selector) : Prop := pairs = [] ∧ s = .allEdges

theorem rereads_allEdges : Rereads whole n (.rule .allEdges) IsSelector
    (((Reader.exactly "edges").map fun _ => .allEdges).orElse starSelector) (· = 'e') EndsTerm := by
  have hword : Rereads whole n (Rule.lit "edges") IsAllEdges
      ((Reader.exactly "edges").map fun _ => Selector.allEdges) (· = 'e') (fun _ => True) := by
    exact (rereads_literal "edges" rfl).map (fun _ => .allEdges) (fun _ _ hnil => ⟨hnil, rfl⟩) (map_eq_bind _ _)
  have hmarks := (((@rereads_mark whole n '*').closed (c := ']') rfl trivial).led (w := String.singleton '[') (c := '[')
    rfl fun _ hc => by rw [hc]; rfl).led (w := "edge") (c := 'e') rfl fun _ hc => by rw [hc]; rfl
  have hstar : Rereads whole n ((Rule.lit "edge").seq ((Rule.lit "[").seq ((Rule.lit "*").seq (Rule.lit "]"))))
      IsAllEdges starSelector (· = 'e') (fun _ => True) := by
    refine hmarks.map (fun _ => .allEdges) (fun _ _ hnil => ⟨hnil, rfl⟩) fun text => ?_
    simp only [starSelector, mark, next, Option.bind_eq_bind, Option.bind_assoc]
    rfl
  refine Rereads.rule ((hword.choice hstar ?_).mono ?_ (fun _ => or_self_iff.mp) fun _ _ => trivial) rfl
  · intro _ _ _ _ _ _ _ _ behind _ _ _ hread _
    obtain ⟨_, hedge, hread⟩ := Option.bind_eq_some_iff.mp hread
    obtain ⟨_, hmark, -⟩ := Option.bind_eq_some_iff.mp hread
    rw [Reader.map, edges_refuses hedge hmark]
    rfl
  · rintro _ _ ⟨rfl, rfl⟩ taken
    rfl

theorem rereads_edge : Rereads whole n (.rule .edge) IsSelector edgeSelector (· = 'e') EndsTerm := by
  have hindex : Rereads whole n (.rule .integer) (IsWord .integer String.toList) integer (isNumberStart · = true)
      EndsTerm :=
    rereads_integer.fits fun _ => stops_of_endsTerm (by decide)
  have hedge := ((hindex.closed (c := ']') rfl (.inr (.inr rfl))).led (w := String.singleton '[') (c := '[') rfl
    fun _ => isInk_of (by decide)).led (w := "edge") (c := 'e') rfl fun _ hc => by rw [hc]; rfl
  refine Rereads.rule ((hedge.fits fun _ _ => trivial).map Selector.edge ?_ fun text => ?_) rfl
  · rintro _ index rfl taken
    simp [IsSelector, Meaning.selector?]
  · simp only [edgeSelector, mark, next, Option.bind_eq_bind, Option.bind_assoc]
    rfl

theorem edgeSelector_excludes {s : Selector} (h : edgeSelector text = some (s, rest)) :
    ((Reader.exactly "edges").map fun _ => .allEdges).orElse starSelector text = none := by
  obtain ⟨⟨_, t⟩, hedge, h⟩ := Option.bind_eq_some_iff.mp h
  obtain ⟨⟨_, t'⟩, hmark, h⟩ := Option.bind_eq_some_iff.mp h
  obtain ⟨⟨index, t''⟩, hindex, -⟩ := Option.bind_eq_some_iff.mp h
  have hstar : mark '*' t' = none := by
    obtain ⟨c, more, hhead, hc⟩ := integer_head hindex
    have htext : skipGap false t' = index.toList ++ t'' := integer_append hindex
    refine mark_eq_none ?_
    rw [ahead, htext, hhead]
    rintro ⟨⟩
    exact absurd hc (by decide)
  simp only [Reader.orElse, Reader.map, edges_refuses hedge hmark, Option.map_none, starSelector, hedge,
    Option.bind_eq_bind, Option.bind_some, hmark, hstar, Option.bind_none]

def part : Reader Selector := fun text => Reader.exactly (String.singleton '.') text >>= fun x => next selected x.2

theorem selector_eq : selector = next part := rfl

theorem rereads_selector : Rereads whole n (.rule .selector) IsSelector part (· = '.') EndsTerm := by
  have hedges := (@rereads_allEdges whole n).choice rereads_edge fun _ _ _ _ _ _ _ _ _ _ _ _ hread _ =>
    edgeSelector_excludes hread
  have hall := rereads_face.choice_of_start hedges fun c tail hc => by
    rcases hc with rfl | rfl <;> rfl
  rw [orElse_assoc] at hall
  exact Rereads.silent (hall.led (w := String.singleton '.') (c := '.') rfl fun c hc => by
    rcases hc with rfl | rfl | rfl <;> rfl) rfl

theorem spaced_reference (h : Spaced statementGrammar Widens whole (.rule .reference) text found rest spaced) :
    ∃ (id : String) (mid after : List Char) (s : Option Selector), name text = some (id, mid) ∧
      spaced = id.toList ++ after ∧ IsTerm found (.reference id (s.getD .whole)) ∧
      (EndsTerm (ahead rest) → ∀ behind, EndsTerm (ahead behind) →
        name (spaced ++ behind) = some (id, after ++ behind) ∧
        ∃ left, Reader.optional selector (after ++ behind) = some (s, left) ∧
          skipGap false left = skipGap false behind) := by
  obtain ⟨inner, rfl, hbody⟩ := h.of_rule rfl
  obtain ⟨before, mid, front, skipped, mid', between, more, back, hname, hgap, hpart, rfl, rfl⟩ := hbody.of_seq
  obtain ⟨id, hread, rfl, rfl⟩ := spaced_word hname rfl (spells_name text) fun _ _ => name_append
  rcases hpart.of_option with hsome | ⟨-, rfl, rfl, rfl⟩
  · obtain ⟨⟨c, rfl, hmid, hback⟩, s, hs, hreads⟩ := rereads_selector hsome le_rfl
    have hpasses := passes_gap_ink hgap hmid rfl
    obtain ⟨rfl, rfl, -⟩ := passes_gap hgap
    refine ⟨id, mid, between ++ back, some s, hread, rfl, ?_, fun hrest behind hbehind => ?_⟩
    · have hmeaning : Meaning.selector? more = some s := hs
      exact ⟨_, rfl, by simp [Meaning.term?, hmeaning]⟩
    · obtain ⟨left, hleft, hskip⟩ := hreads hrest behind hbehind
      obtain ⟨tail, rfl⟩ : ∃ tail, back = '.' :: tail := List.head?_eq_some_iff.mp hback
      have hahead : ahead (between ++ ('.' :: tail ++ behind)) = some '.' :=
        (hpasses.ahead_append _).trans (ahead_ink rfl _)
      rw [List.append_assoc, List.append_assoc]
      refine ⟨name_again hread (Stops.name ?_), left, ?_, hskip⟩
      · rw [hahead]
        rintro _ ⟨⟩
        rfl
      · rw [Reader.optional, selector_eq, List.cons_append, next_of_passes hpasses rfl, ← List.cons_append, hleft]
  -- Without a part, the gap behind the name is the one behind the term.
  · have hmid : ahead rest = rest.head? := by
      obtain ⟨-, rfl, -⟩ := passes_gap hgap
      exact ahead_skipGap mid
    refine ⟨id, mid, between ++ [], none, hread, rfl, ?_, fun hrest behind hbehind => ?_⟩
    · exact ⟨_, rfl, by simp [Meaning.term?, Meaning.selector?, (passes_gap hgap).1]⟩
    · obtain ⟨c, hc, hink⟩ := hrest.exists_ink
      have hpasses := passes_gap_ink hgap (hmid.symm.trans hc) hink
      have hahead : ahead (between ++ behind) = ahead behind := hpasses.ahead_append behind
      have hnone : selector (between ++ behind) = none := by
        have hmark : mark '.' (between ++ behind) = none := mark_eq_none (by rw [hahead]; exact hbehind.ne_point)
        unfold selector
        rw [hmark]
        rfl
      rw [List.append_nil, List.append_assoc, Reader.optional, hnone]
      refine ⟨name_again hread (Stops.name ?_), between ++ behind, rfl, hpasses behind⟩
      rw [hahead]
      exact stops_of_endsTerm (by decide) hbehind

theorem rereads_reference : Rereads whole n (.rule .reference) IsTerm reference (isNameStart · = true) EndsTerm := by
  intro text found rest spaced h _
  obtain ⟨id, mid, after, s, hread, rfl, hmeans, hagain⟩ := spaced_reference h
  obtain ⟨c, more, hid, hc⟩ := name_head hread
  refine ⟨⟨c, hc, by rw [name_append hread, hid]; rfl, by rw [hid]; rfl⟩, _, hmeans, fun hrest behind hbehind => ?_⟩
  obtain ⟨hname, left, hleft, hskip⟩ := hagain hrest behind hbehind
  refine ⟨left, ?_, hskip⟩
  simp only [reference, hname, hleft, Option.bind_eq_bind, Option.bind_some]
  rfl

/-! ## Terms -/

theorem ne_of_isNameStart {c d : Char} (hc : isNameStart c = true) (hd : isNameStart d = false) : c ≠ d := by
  rintro rfl
  exact absurd hc (by simp [hd])

theorem isNumberStart_of_isNameStart {c : Char} (hc : isNameStart c = true) : isNumberStart c = false := by
  have hdigit : c.isDigit = false := by
    rcases Bool.or_eq_true_iff.mp hc with hletter | hunderscore
    · grind [Char.isDigit, Char.isAlpha, Char.isUpper, Char.isLower]
    · rw [beq_iff_eq.mp hunderscore]
      rfl
  simp [isNumberStart, hdigit, ne_of_isNameStart hc (d := '.') rfl, ne_of_isNameStart hc (d := '+') rfl,
    ne_of_isNameStart hc (d := '-') rfl]

theorem name_refuses {c : Char} (hc : isNameStart c = false) (tail : List Char) : name (c :: tail) = none := by
  simp [name, hc]

theorem number_refuses {c : Char} (hc : isNumberStart c = false) (tail : List Char) : number (c :: tail) = none := by
  cases hread : number (c :: tail) with
  | none => rfl
  | some result =>
    obtain ⟨d, more, hhead, hd⟩ := number_head hread
    have htext := number_append hread
    rw [hhead] at htext
    obtain ⟨rfl, -⟩ := List.cons.inj htext
    exact absurd hd (by simp [hc])

theorem boolean_eq_some {t : Term} (h : boolean text = some (t, rest)) : ∃ w : String,
    (w = "true" ∨ w = "false") ∧ t = .boolean (w.toList = "true".toList) ∧ name text = some (w, rest) := by
  obtain ⟨⟨w, t'⟩, hword, heq⟩ := Option.map_eq_some_iff.mp h
  cases heq
  obtain ⟨hw, hname⟩ := (oneOf_eq_some (by rfl) (by rfl)).mp hword
  exact ⟨w, hw, rfl, hname⟩

theorem boolean_refuses {c : Char} (hc : isNameStart c = false) (tail : List Char) : boolean (c :: tail) = none := by
  cases hread : boolean (c :: tail) with
  | none => rfl
  | some result =>
    obtain ⟨w, -, -, hname⟩ := boolean_eq_some hread
    exact nomatch hname.symm.trans (name_refuses hc tail)

theorem quoted_refuses {c : Char} (hc : c ≠ '"') (tail : List Char) : quoted (c :: tail) = none := by
  cases hread : quoted (c :: tail) with
  | none => rfl
  | some result => exact absurd (List.cons.inj (quoted_append hread)).1 hc

theorem listOf_refuses {c : Char} (hc : c ≠ '[') (item : Reader Term) (tail : List Char) :
    listOf item (c :: tail) = none := by
  cases hread : listOf item (c :: tail) with
  | none => rfl
  | some result =>
    obtain ⟨_, hopen, -⟩ := Option.bind_eq_some_iff.mp hread
    exact absurd (List.cons.inj (exactly_append hopen)).1 hc

theorem nested_refuses {c : Char} (hc : c ≠ '[') (depth : Nat) (tail : List Char) :
    nested depth (c :: tail) = none := by
  cases depth with
  | zero => rfl
  | succ depth => exact listOf_refuses hc _ tail

def IsTermStart (c : Char) : Prop := isNumberStart c = true ∨ isNameStart c = true ∨ c = '"' ∨ c = '['

instance (c : Char) : Decidable (IsTermStart c) := inferInstanceAs (Decidable (_ ∨ _))

theorem boolean_refuses_reference (hno : Derives statementGrammar whole .free (.rule .boolean) text none)
    (h : Spaced statementGrammar Widens whole (.rule .reference) text found rest spaced) (hrest : EndsTerm (ahead rest))
    (hbehind : EndsTerm (ahead behind)) : boolean (spaced ++ behind) = none := by
  obtain ⟨id, mid, after, s, hread, rfl, -, hagain⟩ := spaced_reference h
  cases hboolean : boolean (id.toList ++ after ++ behind) with
  | none => rfl
  | some result =>
    obtain ⟨w, hw, -, hname⟩ := boolean_eq_some hboolean
    obtain ⟨rfl, -⟩ : id = w ∧ _ := by simpa using (hagain hrest behind hbehind).1.symm.trans hname
    have hword := (oneOf_eq_some (a := "true") (b := "false") (by rfl) (by rfl)).mpr ⟨hw, hread⟩
    have hmatches : Matches whole (.rule .boolean) IsTerm text (boolean text) := matches_boolean text
    unfold boolean Reader.map at hmatches
    rw [hword] at hmatches
    obtain ⟨_, _, hderives, -⟩ := hmatches
    exact nomatch hno.unique hderives

theorem boolean_refuses_others {depth : Nat}
    (hlist : Rereads whole n (.rule .list) IsTerm (nested depth) (· = '[') EndsTerm)
    (hno : Derives statementGrammar whole .free (.rule .boolean) text none)
    (h : Spaced statementGrammar Widens whole
      ((Expr.rule Rule.string).choice ((Expr.rule Rule.list).choice (.rule .reference))) text found rest spaced)
    (hlength : spaced.length ≤ n) (hrest : EndsTerm (ahead rest)) (hbehind : EndsTerm (ahead behind)) :
    boolean (spaced ++ behind) = none := by
  rcases h.of_choice with htext | ⟨-, h⟩
  · obtain ⟨⟨c, rfl, -, hhead⟩, -⟩ := rereads_string htext hlength
    obtain ⟨tail, rfl⟩ := List.head?_eq_some_iff.mp hhead
    exact boolean_refuses rfl _
  · rcases h.of_choice with hitems | ⟨-, hname⟩
    · obtain ⟨⟨c, rfl, -, hhead⟩, -⟩ := hlist hitems hlength
      obtain ⟨tail, rfl⟩ := List.head?_eq_some_iff.mp hhead
      exact boolean_refuses rfl _
    · exact boolean_refuses_reference hno hname hrest hbehind

theorem rereads_value {depth : Nat} (hlist : Rereads whole n (.rule .list) IsTerm (nested depth) (· = '[') EndsTerm) :
    Rereads whole n (.rule .value) (Single IsValue) (term depth) IsTermStart EndsTerm := by
  have hreference := hlist.choice_of_start rereads_reference fun c tail hc =>
    nested_refuses (ne_of_isNameStart hc rfl) depth tail
  have hstring := (rereads_string.fits fun _ _ => trivial).choice_of_start hreference fun c tail hc => by
      have hquote : c ≠ '"' := by
        rcases hc with rfl | hname
        · decide
        · exact ne_of_isNameStart hname rfl
      rw [Reader.map, quoted_refuses hquote]
      rfl
  have hboolean := (rereads_boolean.fits fun _ => stops_of_endsTerm (by decide)).choice hstring
    fun text found rest spaced hno hspaced hlength hrest behind _ _ hbehind _ _ =>
      boolean_refuses_others hlist hno hspaced hlength hrest hbehind
  have hnumber : Rereads whole n (.rule .number) IsTerm (number.map .number) (isNumberStart · = true) EndsTerm := by
    refine (rereads_number.fits fun _ => stops_of_endsTerm (by decide)).map Term.number ?_ (map_eq_bind _ _)
    rintro _ literal rfl
    exact ⟨_, rfl, by simp [Meaning.term?]⟩
  -- A number starts in another way than all other terms.
  have hbody := hnumber.choice_of_start hboolean fun c tail hc => by
    have hnumber : isNumberStart c = false := by
      rcases hc with hname | rfl | rfl | hname
      · exact isNumberStart_of_isNameStart hname
      · rfl
      · rfl
      · exact isNumberStart_of_isNameStart hname
    rw [Reader.map, number_refuses hnumber]
    rfl
  rw [← term_eq] at hbody
  refine Rereads.rule (hbody.mono ?_ ?_ fun _ => id) rfl
  · rintro _ t ⟨p, rfl, hp⟩ taken
    exact ⟨_, rfl, ⟨_, _, rfl⟩, hp⟩
  · rintro c (hc | hc | rfl | rfl | hc)
    · exact .inl hc
    · exact .inr (.inl hc)
    · exact .inr (.inr (.inl rfl))
    · exact .inr (.inr (.inr rfl))
    · exact .inr (.inl hc)

/-! ## Items -/

section Items

variable {M : Pair Rule → β → Prop} {item : Reader β} {close : Char}

theorem moreItems_congr (h : skipGap false rest = skipGap false text) (fuel : Nat) (acc : Array β) :
    moreItems item close fuel acc rest = moreItems item close fuel acc text := by
  cases fuel with
  | zero => rfl
  | succ fuel =>
    unfold moreItems Reader.map
    rw [mark_congr h, mark_congr h]

def behindComma (item : Reader β) : Reader β := fun text =>
  Reader.exactly (String.singleton ',') text >>= fun x => next item x.2

theorem another_eq (item : Reader β) : another item = next (behindComma item) := rfl

theorem rereads_behindComma (hitem : Rereads whole n e P item S EndsTerm) (hink : ∀ c, S c → isInk c = true) :
    Rereads whole n ((Rule.lit ",").seq e) P (behindComma item) (· = ',') EndsTerm :=
  hitem.led (w := String.singleton ',') rfl hink

theorem reread_moreItems (close : Char) (hitem : Rereads whole n e (Single M) item S EndsTerm)
    (hink : ∀ c, S c → isInk c = true)
    (h : Spaced statementGrammar Widens whole (Expr.gap.join ((Rule.lit ",").seq e)).star text found rest spaced)
    (hlength : spaced.length ≤ n) : ∃ bs, List.Forall₂ M found bs ∧ bs.length ≤ spaced.length ∧
      (EndsTerm (ahead rest) → EndsTerm (ahead text) ∧ ∀ behind, EndsTerm (ahead behind) →
        EndsTerm (ahead (spaced ++ behind)) ∧ ∀ (fuel : Nat) (acc : Array β),
          moreItems item close (fuel + bs.length) acc (spaced ++ behind) =
            moreItems item close fuel (acc ++ bs.toArray) behind) := by
  generalize hstar : (Expr.gap.join ((Rule.lit ",").seq e)).star = star at h
  induction h with
  | piece hpiece =>
    subst hstar
    exact hpiece.elim
  | gap | rule | join | first | second => cases hstar
  | stop =>
    exact ⟨[], .nil, Nat.zero_le _, fun hrest => ⟨hrest, fun behind hbehind => ⟨hbehind, fun fuel acc => by simp⟩⟩⟩
  | @again _ text _ mid _ rest _ spaced' hone _ _ ih =>
    cases hstar
    rw [List.length_append] at hlength
    obtain ⟨_, _, front, _, back, hgap, hanother, rfl, rfl⟩ := hone.of_join
    rw [List.length_append] at hlength
    obtain ⟨⟨c, rfl, hmid, hback⟩, b, ⟨p, rfl, hb⟩, hread⟩ := rereads_behindComma hitem hink hanother (by omega)
    obtain ⟨bs, hbs, hcount, hmore⟩ := ih (by omega) rfl
    obtain ⟨tail, rfl⟩ := List.head?_eq_some_iff.mp hback
    have hpasses := passes_gap_ink hgap hmid rfl
    obtain ⟨rfl, rfl, -⟩ := passes_gap hgap
    refine ⟨b :: bs, .cons hb hbs, by simp; omega, fun hrest => ⟨.inl hmid, fun behind hbehind => ?_⟩⟩
    obtain ⟨hmid, hmore⟩ := hmore hrest
    obtain ⟨hends, hmore⟩ := hmore behind hbehind
    obtain ⟨left, hleft, hskip⟩ := hread hmid _ hends
    have htext : front ++ ',' :: tail ++ spaced' ++ behind = front ++ ',' :: (tail ++ (spaced' ++ behind)) := by simp
    rw [htext]
    refine ⟨.inl ((hpasses.ahead_append _).trans (ahead_ink rfl _)), fun fuel acc => ?_⟩
    have hanother : another item (front ++ ',' :: (tail ++ (spaced' ++ behind))) = some (b, left) := by
      rw [another_eq, next_of_passes hpasses rfl]
      exact hleft
    rw [List.length_cons, ← Nat.add_assoc, moreItems_of_some hanother, moreItems_congr hskip, hmore]
    simp

theorem moreItems_closed (hclose : close ≠ ',') (hrefuses : ∀ tail, item (close :: tail) = none)
    (h : mark close rest = some ((), behind)) (fuel : Nat) (acc : Array β) :
    moreItems item close (fuel + 1) acc rest = some (acc.toList, behind) ∧
      moreItems item close (fuel + 1) acc (',' :: rest) = some (acc.toList, behind) := by
  have hahead := ahead_of_mark h
  have hcomma : mark ',' rest = none := mark_eq_none (by rw [hahead]; exact fun heq => hclose (Option.some.inj heq))
  have hmark : mark ',' (',' :: rest) = some ((), rest) := mark_of_passes .nil rfl rest
  constructor
  · rw [moreItems_of_none (by unfold another; rw [hcomma]; rfl)]
    simp only [closing, Reader.optional, hcomma, h, Option.bind_eq_bind, Option.bind_some]
    rfl
  · have hrest : next item rest = none := by
      obtain ⟨tail, htail⟩ := List.head?_eq_some_iff.mp hahead
      unfold next
      rw [htail, hrefuses]
    rw [moreItems_of_none (by unfold another; rw [hmark]; exact hrest)]
    simp only [closing, Reader.optional, hmark, h, Option.bind_eq_bind, Option.bind_some]
    rfl

theorem reread_closing (hclose : EndsTerm (some close) ∧ close ≠ ',') (hrefuses : ∀ tail, item (close :: tail) = none)
    {mid between : List Char} {skipped : List (Pair Rule)}
    (hgap : Spaced statementGrammar Widens whole .gap text skipped mid between)
    (h : Spaced statementGrammar Widens whole (Rule.lit ",").option mid found rest spaced)
    (hrest : ahead rest = some close) : found = [] ∧ EndsTerm (ahead text) ∧ ∀ z behind,
      mark close z = some ((), behind) → EndsTerm (ahead (between ++ (spaced ++ z))) ∧ ∀ (fuel : Nat) (acc : Array β),
        moreItems item close (fuel + 1) acc (between ++ (spaced ++ z)) = some (acc.toList, behind) := by
  obtain ⟨-, rfl, -⟩ := passes_gap hgap
  rcases h.of_option with hcomma | ⟨-, rfl, rfl, rfl⟩
  · obtain ⟨rfl, hmid, rfl⟩ := hcomma.of_literal
    have hhead : (skipGap false text).head? = some ',' := by
      rw [hmid]
      rfl
    have hpasses := passes_gap_ink hgap hhead rfl
    refine ⟨rfl, .inl hhead, fun z behind hz => ⟨.inl ((hpasses.ahead_append _).trans (ahead_ink rfl z)), ?_⟩⟩
    intro fuel acc
    rw [moreItems_congr (hpasses _)]
    exact (moreItems_closed hclose.2 hrefuses hz fuel acc).2
  · rw [ahead_skipGap] at hrest
    have hpasses := passes_gap_ink hgap hrest hclose.1.isInk
    refine ⟨rfl, by rw [hrest]; exact hclose.1, fun z behind hz => ⟨?_, fun fuel acc => ?_⟩⟩
    · rw [hpasses.ahead_append, List.nil_append, ahead_of_mark hz]
      exact hclose.1
    · rw [moreItems_congr (hpasses _)]
      exact (moreItems_closed hclose.2 hrefuses hz fuel acc).1

theorem reread_rest (hitem : Rereads whole n e (Single M) item S EndsTerm) (hink : ∀ c, S c → isInk c = true)
    (hclose : EndsTerm (some close) ∧ close ≠ ',') (hrefuses : ∀ tail, item (close :: tail) = none)
    {mid between : List Char} {skipped : List (Pair Rule)}
    (hgap : Spaced statementGrammar Widens whole .gap text skipped mid between)
    (h : Spaced statementGrammar Widens whole (((Rule.lit ",").seq e).many.seq (Rule.lit ",").option) mid found rest
      spaced) (hlength : (between ++ spaced).length ≤ n) (hrest : ahead rest = some close) :
    ∃ bs, List.Forall₂ M found bs ∧ bs.length ≤ (between ++ spaced).length ∧ EndsTerm (ahead text) ∧ ∀ z behind,
      mark close z = some ((), behind) → EndsTerm (ahead (between ++ (spaced ++ z))) ∧ ∀ (fuel : Nat) (acc : Array β),
        bs.length < fuel →
          moreItems item close fuel acc (between ++ (spaced ++ z)) = some (acc.toList ++ bs, behind) := by
  obtain ⟨before, mid', front, skipped', mid'', between', more, back, hmany, hgap', hcomma, rfl, rfl⟩ := h.of_seq
  obtain ⟨rfl, hmid', hclosed⟩ := reread_closing hclose hrefuses hgap' hcomma hrest
  obtain ⟨rfl, -, -⟩ := passes_gap hgap'
  rcases hmany.of_option with hsome | ⟨-, rfl, rfl, rfl⟩
  · -- The first repetition starts behind its gap. With the gap it is one more round of the others.
    obtain ⟨_, _, _, _, _, hone, hstar, rfl, rfl⟩ := hsome.of_join
    obtain ⟨bs, hbs, hcount, hmore⟩ := reread_moreItems close hitem hink ((hgap.join hone).again hstar) (by
      simp only [List.length_append] at hlength ⊢
      omega)
    obtain ⟨rfl, rfl, -⟩ := passes_gap hgap
    obtain ⟨hahead, hmore⟩ := hmore hmid'
    refine ⟨bs, by simpa using hbs, by simp only [List.length_append] at hcount ⊢; omega, hahead, fun z behind hz => ?_⟩
    obtain ⟨hends, hclosed⟩ := hclosed z behind hz
    obtain ⟨hends, hmore⟩ := hmore _ hends
    simp only [List.append_assoc] at hends hmore ⊢
    refine ⟨hends, fun fuel acc hfuel => ?_⟩
    obtain ⟨more, rfl⟩ := Nat.exists_eq_add_of_lt hfuel
    rw [show bs.length + more + 1 = more + 1 + bs.length by omega, hmore, hclosed]
    simp
  · obtain ⟨rfl, rfl, -⟩ := passes_gap hgap
    rw [ahead_skipGap] at hmid'
    obtain ⟨c, hc, hc'⟩ := hmid'.exists_ink
    have hpasses := passes_gap_ink hgap hc hc'
    refine ⟨[], .nil, Nat.zero_le _, hmid', fun z behind hz => ?_⟩
    obtain ⟨hends, hclosed⟩ := hclosed z behind hz
    rw [hpasses.ahead_append, List.nil_append, List.append_assoc]
    refine ⟨hends, fun fuel acc hfuel => ?_⟩
    obtain ⟨more, rfl⟩ := Nat.exists_eq_succ_of_ne_zero (Nat.ne_of_gt hfuel)
    rw [moreItems_congr (hpasses _), hclosed, List.append_nil]

theorem items_closed {gap : List Char} (h : Passes false gap false) (hclose : isInk close = true)
    (hrefuses : ∀ tail, item (close :: tail) = none) (behind : List Char) :
    items item close (gap ++ close :: behind) = some ([], behind) := by
  have hitem : next item (gap ++ close :: behind) = none := (next_of_passes h hclose behind).trans (hrefuses behind)
  rw [items, hitem]
  simp only [Reader.map, mark_of_passes h hclose behind]
  rfl

/-- Items up to their closing mark, or the mark alone, are read again behind a gap. -/
theorem reread_items (close : Char) (hitem : Rereads whole n e (Single M) item S EndsTerm)
    (hink : ∀ c, S c → isInk c = true) (hclose : EndsTerm (some close) ∧ close ≠ ',')
    (hrefuses : ∀ tail, item (close :: tail) = none)
    (hf : ∀ {text found rest spaced}, Spaced statementGrammar Widens whole f text found rest spaced →
      Spaced statementGrammar Widens whole (Rule.commaSeparated e) text found rest spaced)
    {mid between : List Char} {skipped : List (Pair Rule)}
    (hgap : Spaced statementGrammar Widens whole .gap text skipped mid between)
    (h : Spaced statementGrammar Widens whole (f.option.seq (Rule.lit (String.singleton close))) mid found rest spaced)
    (hlength : spaced.length ≤ n) : ∃ bs, List.Forall₂ M found bs ∧ ∀ behind,
      items item close (between ++ (spaced ++ behind)) = some (bs, behind) := by
  obtain ⟨before, mid', front, skipped', mid'', between', more, back, hoption, hgap', hmark, rfl, rfl⟩ := h.of_seq
  obtain ⟨rfl, hmid'', rfl⟩ := hmark.of_literal
  have hcloseInk := hclose.1.isInk
  have hhead : mid''.head? = some close := by
    rw [hmid'']
    simp
  have hpasses' := passes_gap_ink hgap' hhead hcloseInk
  obtain ⟨rfl, rfl, -⟩ := passes_gap hgap'
  have hz (behind : List Char) : mark close (between' ++ close :: behind) = some ((), behind) :=
    mark_of_passes hpasses' hcloseInk behind
  rcases hoption.of_option with hsome | ⟨-, rfl, rfl, rfl⟩
  · obtain ⟨_, mid₁, front₁, _, _, between₁, _, back₁, hfirst, hgap₁, hlater, rfl, rfl⟩ := (hf hsome).of_seq
    simp only [List.length_append] at hlength
    obtain ⟨bs, hbs, hcount, hends, hmore⟩ := reread_rest hitem hink hclose hrefuses hgap₁ hlater
      (by simp only [List.length_append]; omega) hhead
    obtain ⟨⟨c, hc, hmid, hfront⟩, b, ⟨p, rfl, hb⟩, hread⟩ := hitem hfirst (by omega)
    obtain ⟨rfl, -, -⟩ := passes_gap hgap₁
    refine ⟨b :: bs, by simpa using List.Forall₂.cons hb hbs, fun behind => ?_⟩
    obtain ⟨hnext, hmore⟩ := hmore _ behind (hz behind)
    obtain ⟨left, hleft, hskip⟩ := hread hends _ hnext
    obtain ⟨tail, rfl⟩ := List.head?_eq_some_iff.mp hfront
    have hpasses := passes_gap_ink hgap hmid (hink c hc)
    have htext : between ++ (c :: tail ++ (between₁ ++ back₁) ++ (between' ++ (String.singleton close).toList) ++
        behind) = between ++ c :: (tail ++ (between₁ ++ (back₁ ++ (between' ++ close :: behind)))) := by simp
    have hitem : next item (between ++ c :: (tail ++ (between₁ ++ (back₁ ++ (between' ++ close :: behind))))) =
        some (b, left) := (next_of_passes hpasses (hink c hc) _).trans hleft
    rw [htext, items, hitem]
    dsimp only
    rw [moreItems_congr hskip, hmore]
    · rfl
    · simp only [List.length_append, List.length_cons] at hcount ⊢
      omega
  -- Without items, both gaps meet in front of the mark.
  · have hpasses : Passes false between false := by
      refine passes_gap_ink hgap ?_ hcloseInk
      obtain ⟨-, rfl, -⟩ := passes_gap hgap
      rwa [skipGap_skipGap] at hhead
    refine ⟨[], .nil, fun behind => ?_⟩
    have htext : between ++ ([] ++ (between' ++ (String.singleton close).toList) ++ behind) =
        between ++ between' ++ close :: behind := by simp
    rw [htext]
    exact items_closed (hpasses.append hpasses') hcloseInk hrefuses behind

end Items

theorem isInk_of_isTermStart {c : Char} (hc : IsTermStart c) : isInk c = true := by
  rcases hc with hc | hc | rfl | rfl
  · exact isInk_of (by decide) hc
  · exact isInk_of_isNameStart hc
  · rfl
  · rfl

theorem term_refuses {c : Char} (hc : ¬IsTermStart c) (depth : Nat) (tail : List Char) :
    term depth (c :: tail) = none := by
  simp only [IsTermStart, not_or, Bool.not_eq_true] at hc
  obtain ⟨hnumber, hname, hquote, hopen⟩ := hc
  rw [term_eq]
  simp only [Reader.orElse, Reader.map, number_refuses hnumber, boolean_refuses hname, quoted_refuses hquote,
    nested_refuses hopen, Option.map_none, reference, name_refuses hname, Option.bind_eq_bind, Option.bind_none]

theorem spaced_list (h : Spaced statementGrammar Widens whole (.rule .list) text found rest spaced) :
    ∃ (mid mid' between back : List Char) (skipped more : List (Pair Rule)), text = '[' :: mid ∧
      Spaced statementGrammar Widens whole .gap mid skipped mid' between ∧
      Spaced statementGrammar Widens whole ((Rule.commaSeparated (.rule .value)).option.seq (Rule.lit "]")) mid' more
        rest back ∧ spaced = '[' :: (between ++ back) ∧ found = [.node .list (taken text rest) more] := by
  obtain ⟨inner, rfl, hbody⟩ := h.of_rule rfl
  obtain ⟨_, mid, _, skipped, mid', between, more, back, hopen, hgap, hitems, rfl, rfl⟩ := hbody.of_seq
  obtain ⟨rfl, rfl, rfl⟩ := hopen.of_literal
  obtain ⟨rfl, -, -⟩ := passes_gap hgap
  exact ⟨mid, mid', between, back, [], more, rfl, hgap, hitems, rfl, rfl⟩

theorem rereads_list {item : Reader Term}
    (hitem : Rereads whole n (.rule .value) (Single IsValue) item IsTermStart EndsTerm)
    (hrefuses : ∀ tail, item (']' :: tail) = none) :
    Rereads whole (n + 1) (.rule .list) IsTerm (listOf item) (· = '[') EndsTerm := by
  intro text found rest spaced h hlength
  obtain ⟨mid, mid', between, back, skipped, more, rfl, hgap, hitems, rfl, rfl⟩ := spaced_list h
  simp only [List.length_cons, List.length_append] at hlength
  obtain ⟨ts, hts, hread⟩ := reread_items ']' hitem (fun _ => isInk_of_isTermStart)
    ⟨.inr (.inr rfl), by decide⟩ hrefuses id hgap hitems (by omega)
  refine ⟨⟨'[', rfl, rfl, rfl⟩, .list ts, ⟨_, rfl, by simp [Meaning.term?, terms?_of_forall hts]⟩,
    fun _ behind _ => ⟨behind, ?_, rfl⟩⟩
  have hopen : Reader.exactly "[" ('[' :: (between ++ (back ++ behind))) = some ((), between ++ (back ++ behind)) :=
    exactly_again "[" _
  rw [List.cons_append, List.append_assoc, listOf, hopen]
  simp only [Option.bind_eq_bind, Option.bind_some, Reader.map, hread behind]
  rfl

theorem rereads_term (depth : Nat) :
    Rereads whole depth (.rule .value) (Single IsValue) (term depth) IsTermStart EndsTerm := by
  induction depth with
  | zero =>
    refine rereads_value fun text found rest spaced h hlength => ?_
    obtain ⟨_, _, _, _, _, _, -, -, -, rfl, -⟩ := spaced_list h
    exact absurd hlength (Nat.not_succ_le_zero _)
  | succ depth ih => exact rereads_value (rereads_list ih (term_refuses (by decide) depth))

end SolidScript.Script.Grammar
