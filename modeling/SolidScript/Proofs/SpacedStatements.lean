import SolidScript.Proofs.SpacedTerms
import SolidScript.Script.Parse

/-!
# Statements with more blanks

Blanks between the elements of a statement, and a comment behind it, change nothing of what is read.
-/

namespace SolidScript.Script.Grammar

open Peg

variable {whole text rest spaced : List Char} {found : List (Pair Rule)} {β : Type} {n : Nat}

/-! ## Calls -/

theorem term_of_name {depth : Nat} {t : Term} {id : String} {mid : List Char} (h : term depth text = some (t, rest))
    (hname : name text = some (id, mid)) : ahead mid = some '.' ∨ rest = mid := by
  obtain ⟨c, more, hid, hc⟩ := name_head hname
  have htext : text = c :: (more ++ mid) := by rw [name_append hname, hid, List.cons_append]
  rw [term_eq] at h
  simp only [Reader.orElse, Reader.map] at h
  rw [htext, number_refuses (isNumberStart_of_isNameStart hc), quoted_refuses (ne_of_isNameStart hc rfl),
    nested_refuses (ne_of_isNameStart hc rfl), ← htext] at h
  simp only [Option.map_none] at h
  -- A truth value is read as a name too.
  cases hboolean : boolean text with
  | some result =>
    rw [hboolean] at h
    cases h
    obtain ⟨w, -, -, hword⟩ := boolean_eq_some hboolean
    cases hword.symm.trans hname
    exact .inr rfl
  | none =>
    rw [hboolean] at h
    obtain ⟨_, hread, h⟩ := Option.bind_eq_some_iff.mp h
    cases hread.symm.trans hname
    obtain ⟨_, hselector, h⟩ := Option.bind_eq_some_iff.mp h
    cases h
    unfold Reader.optional at hselector
    split at hselector
    · rename_i hread
      obtain ⟨_, hmark, -⟩ := Option.bind_eq_some_iff.mp hread
      exact .inl (ahead_of_mark hmark)
    · cases hselector
      exact .inr rfl

theorem named_refuses_term {depth : Nat} {t : Term} (h : term depth text = some (t, rest))
    (hends : EndsTerm (ahead rest)) : named depth text = none := by
  cases hname : name text with
  | none =>
    unfold named
    rw [hname]
    rfl
  | some result =>
    obtain ⟨id, mid⟩ := result
    have hmarks : ahead mid ≠ some ':' ∧ ahead mid ≠ some '=' := by
      rcases term_of_name h hname with hpoint | rfl
      · rw [hpoint]
        decide
      · rcases hends with hend | hend | hend <;> rw [hend] <;> decide
    simp only [named, hname, Reader.orElse, mark_eq_none hmarks.1, mark_eq_none hmarks.2, Option.bind_eq_bind,
      Option.bind_some, Option.bind_none]

def IsNamed (inner : List (Pair Rule)) (a : Argument) : Prop :=
  ∀ taken taken', Meaning.argument? (.node .arg taken [.node .named taken' inner]) = some a

theorem rereads_named {depth : Nat} (hdepth : n ≤ depth) : Rereads whole n (.rule .named)
    (fun pairs a => ∀ taken, Meaning.argument? (.node .arg taken pairs) = some a) (named depth)
    (isNameStart · = true) EndsTerm := by
  have hmarks : Rereads whole n ((Rule.lit ":").choice (Rule.lit "=")) (fun pairs _ => pairs = [])
      ((Reader.exactly ":").orElse (Reader.exactly "=")) (fun c => c = ':' ∨ c = '=') (fun _ => True) :=
    (rereads_mark ':').choice_of_start (rereads_mark '=') fun c tail hc => by
      subst hc
      rfl
  have hvalue : Rereads whole n (((Rule.lit ":").choice (Rule.lit "=")).seq (.rule .value)) (Single IsValue)
      (fun text => ((Reader.exactly ":").orElse (Reader.exactly "=")) text >>= fun x => next (term depth) x.2)
      (fun c => c = ':' ∨ c = '=') EndsTerm := by
    refine hmarks.seq (s := fun _ => term depth) (fun _ => ((rereads_term depth).of_le hdepth).imp ?_)
      (fun c hc => ⟨isInk_of_isTermStart hc, trivial⟩) fun _ => rfl
    rintro more t hvalue _ rfl
    exact hvalue
  have hnamed (n' : String) : Rereads whole n (((Rule.lit ":").choice (Rule.lit "=")).seq (.rule .value))
      (fun more a => ∀ pairs, IsWord .ident String.toList pairs n' → IsNamed (pairs ++ more) a)
      (fun text => ((Reader.exactly ":").orElse (Reader.exactly "=")) text >>= fun x =>
        next (term depth) x.2 >>= fun y => some (⟨some n', y.1⟩, y.2)) (fun c => c = ':' ∨ c = '=') EndsTerm := by
    refine hvalue.map (⟨some n', ·⟩) ?_ fun text => ?_
    · rintro _ t ⟨p, rfl, -, hp⟩ _ rfl taken taken'
      simp [Meaning.argument?, hp]
    · simp only [Option.bind_eq_bind, Option.bind_assoc]
  refine Rereads.rule ((rereads_name.seq hnamed ?_ fun text => ?_).imp fun inner a ha taken taken' => ha taken' taken)
    rfl
  · rintro c (rfl | rfl)
    · exact ⟨rfl, by rintro _ ⟨⟩; rfl⟩
    · exact ⟨rfl, by rintro _ ⟨⟩; rfl⟩
  · rfl

theorem argument_refuses {c : Char} (hc : ¬IsTermStart c) (depth : Nat) (tail : List Char) :
    argument depth (c :: tail) = none := by
  have hname : isNameStart c = false := by
    simp only [IsTermStart, not_or, Bool.not_eq_true] at hc
    exact hc.2.1
  simp only [argument, Reader.orElse, named, name_refuses hname, Option.bind_eq_bind, Option.bind_none, Reader.map,
    term_refuses hc, Option.map_none]

theorem rereads_argument {depth : Nat} (hdepth : n ≤ depth) : Rereads whole n (.rule .arg) (Single IsArgument)
    (argument depth) IsTermStart EndsTerm := by
  have hvalue : Rereads whole n (.rule .value)
      (fun pairs a => ∀ taken, Meaning.argument? (.node .arg taken pairs) = some a) ((term depth).map fun t => ⟨none, t⟩) IsTermStart EndsTerm := by
    refine ((rereads_term depth).of_le hdepth).map (⟨none, ·⟩) ?_ (map_eq_bind _ _)
    rintro _ t ⟨_, rfl, ⟨taken, inner, rfl⟩, hp⟩ taken'
    simp [Meaning.argument?, hp]
  refine Rereads.rule (((rereads_named hdepth).choice hvalue ?_).mono ?_ ?_ fun _ => id) rfl
  · intro _ _ _ _ _ _ _ _ behind a left _ hread hends
    obtain ⟨⟨t, t'⟩, hterm, heq⟩ := Option.map_eq_some_iff.mp hread
    cases heq
    exact named_refuses_term hterm hends
  · exact fun pairs a ha taken => ⟨_, rfl, ha taken⟩
  · rintro c (hc | hc)
    · exact .inr (.inl hc)
    · exact hc

theorem rereads_call {depth : Nat} (hdepth : n ≤ depth) : Rereads whole n (.rule .call) (Single IsCall) (call depth)
    (isNameStart · = true) (fun _ => True) := by
  intro text found rest spaced h hlength
  obtain ⟨inner, rfl, hbody⟩ := h.of_rule rfl
  obtain ⟨_, mid, _, _, _, between, _, _, hname, hgap, hlater, rfl, rfl⟩ := hbody.of_seq
  obtain ⟨_, mid', _, _, _, between', more, back, hopen, hgap', hitems, rfl, rfl⟩ := hlater.of_seq
  obtain ⟨callee, hread, rfl, rfl⟩ := spaced_word hname rfl (spells_name text) fun _ _ => name_append
  obtain ⟨rfl, hmid, rfl⟩ := hopen.of_literal
  simp only [List.length_append] at hlength
  obtain ⟨arguments, harguments, hagain⟩ := reread_items ')' (rereads_argument hdepth)
    (fun _ => isInk_of_isTermStart) ⟨.inr (.inl rfl), by decide⟩ (argument_refuses (by decide) depth)
    (fun hargs => hargs.of_silent (r := Rule.args) rfl) hgap' hitems (by omega)
  have hpasses := passes_gap_ink (c := '(') hgap (by rw [hmid]; rfl) rfl
  obtain ⟨rfl, -, -⟩ := passes_gap hgap
  obtain ⟨rfl, -, -⟩ := passes_gap hgap'
  obtain ⟨c, tail, hcallee, hc⟩ := name_head hread
  refine ⟨⟨c, hc, by rw [name_append hread, hcallee]; rfl, by rw [hcallee]; rfl⟩, (callee, arguments),
    ⟨_, rfl, _, _, rfl, mapM_of_forall harguments⟩, fun _ behind _ => ⟨behind, ?_, rfl⟩⟩
  have htext : callee.toList ++ (between ++ ("(".toList ++ (between' ++ back))) ++ behind =
      callee.toList ++ (between ++ '(' :: (between' ++ (back ++ behind))) := by simp
  have hstops : Stops isNamePart (ahead (between ++ '(' :: (between' ++ (back ++ behind)))) := by
    rw [hpasses.ahead_append, ahead_ink rfl]
    rintro _ ⟨⟩
    rfl
  rw [htext]
  simp only [call, name_again hread hstops.name, mark_of_passes hpasses (c := '(') rfl, hagain behind,
    Option.bind_eq_bind, Option.bind_some]
  rfl

/-! ## Bindings -/

def keywordBound : Reader String := fun text => oneOf "let" "const" text >>= fun x => next bound x.2

theorem binding_eq : binding = keywordBound.orElse bound := by
  have hwords : (word "let").orElse (word "const") = (oneOf "let" "const").map fun _ => () := by
    rw [map_oneOf, map_unit, map_unit]
  funext text
  have hkeyword : (((word "let").orElse (word "const")) text >>= fun x => next bound x.2) = keywordBound text := by
    rw [hwords, Reader.map, keywordBound]
    cases oneOf "let" "const" text <;> rfl
  rw [Reader.orElse, ← hkeyword]
  rfl

theorem keywordBound_refuses {id : String} {mid : List Char} {c : Char} (hname : name text = some (id, mid))
    (hahead : ahead mid = some c) (hc : isNameStart c = false) : keywordBound text = none := by
  unfold keywordBound
  cases hread : oneOf "let" "const" text with
  | none => rfl
  | some result =>
    obtain ⟨w, mid'⟩ := result
    cases ((oneOf_eq_some (by rfl) (by rfl)).mp hread).2.symm.trans hname
    obtain ⟨tail, htail⟩ := List.head?_eq_some_iff.mp hahead
    simp only [Option.bind_eq_bind, Option.bind_some, next, bound, htail, name_refuses hc, Option.bind_none]

theorem binding_refuses_call {depth : Nat} {c : String × List Argument} (h : call depth text = some (c, rest)) :
    binding text = none := by
  obtain ⟨⟨callee, mid⟩, hname, h⟩ := Option.bind_eq_some_iff.mp h
  obtain ⟨_, hmark, -⟩ := Option.bind_eq_some_iff.mp h
  have hahead := ahead_of_mark hmark
  have hequals : mark '=' mid = none := mark_eq_none (by rw [hahead]; decide)
  simp only [binding_eq, Reader.orElse, keywordBound_refuses hname hahead rfl, bound, hname, hequals,
    Option.bind_eq_bind, Option.bind_some, Option.bind_none]

theorem rereads_bound : Rereads whole n ((Expr.rule .ident).seq (Rule.lit "=")) (IsWord .ident String.toList) bound
    (isNameStart · = true) (fun _ => True) :=
  rereads_name.closed (c := '=') rfl (by rintro _ ⟨⟩; rfl)

/-- Without a gap a name would go on with the letters behind it. So one begins there, whatever is put into it. -/
theorem gap_ends_name {id : String} {mid mid' between : List Char} {skipped : List (Pair Rule)} {c : Char}
    (hname : name text = some (id, mid)) (hgap : Spaced statementGrammar Widens whole .gap mid skipped mid' between)
    (hmid' : mid'.head? = some c) (hc : isNamePart c = true) :
    ∃ b more, between = b :: more ∧ isNamePart b = false := by
  have hstops := name_stops hname
  cases mid with
  | nil =>
    obtain ⟨-, rfl, -⟩ := passes_gap hgap
    cases hmid'
  | cons a mid =>
    have ha : isNamePart a = false := by simpa using hstops
    have hne : some c ≠ some a := by
      rintro ⟨⟩
      exact absurd hc (by simp [ha])
    obtain ⟨b, hb, hcases⟩ := head_gap hgap rfl (by rwa [hmid'])
    obtain ⟨more, rfl⟩ := List.head?_eq_some_iff.mp hb
    refine ⟨b, more, rfl, ?_⟩
    rcases hcases with rfl | rfl | rfl
    · exact ha
    · rfl
    · rfl

theorem rereads_keywordBound : Rereads whole n ((Expr.rule .keyword).seq ((Expr.rule .ident).seq (Rule.lit "=")))
    (fun pairs id => ∃ keyword, pairs = [.node .keyword keyword [], .node .ident id.toList []]) keywordBound
    (isNameStart · = true) (fun _ => True) := by
  intro text found rest spaced h hlength
  obtain ⟨_, mid, _, _, _, between, more, back, hkeyword, hgap, hbound, rfl, rfl⟩ := h.of_seq
  obtain ⟨w, hread, rfl, rfl⟩ := spaced_word hkeyword rfl (spells_oneOf (fun _ => rfl) text) fun _ _ => oneOf_append
  simp only [List.length_append] at hlength
  obtain ⟨⟨c, hc, hmid, hback⟩, id, rfl, hagain⟩ := rereads_bound (n := n) hbound (by omega)
  obtain ⟨tail, rfl⟩ := List.head?_eq_some_iff.mp hback
  have hpasses := passes_gap_ink hgap hmid (isInk_of_isNameStart hc)
  obtain ⟨hw, hname⟩ := (oneOf_eq_some (by rfl) (by rfl)).mp hread
  obtain ⟨d, more, hhead, hd⟩ := name_head hname
  obtain ⟨b, blanks, rfl, hb⟩ := gap_ends_name hname hgap hmid (isNamePart_of_isNameStart hc)
  refine ⟨⟨d, hd, by rw [name_append hname, hhead]; rfl, by rw [hhead]; rfl⟩, id, ⟨w.toList, ?_⟩,
    fun hrest behind hbehind => ?_⟩
  · obtain ⟨rfl, -, -⟩ := passes_gap hgap
    rfl
  · obtain ⟨left, hleft, hskip⟩ := hagain hrest behind hbehind
    refine ⟨left, ?_, hskip⟩
    have hbehind : (b :: blanks ++ (c :: tail ++ behind)).head?.any isNamePart = false := hb
    have hagain := (oneOf_eq_some (a := "let") (b := "const") (by rfl) (by rfl)).mpr ⟨hw, name_again hname hbehind⟩
    rw [List.append_assoc, List.append_assoc, keywordBound, hagain]
    exact (next_of_passes hpasses (isInk_of_isNameStart hc) _).trans hleft

def IsBindingOf (inner : List (Pair Rule)) (id : String) : Prop := ∀ taken, IsBinding (.node .binding taken inner) id

theorem rereads_binding : Rereads whole n (.rule .binding) (Single IsBinding) binding (isNameStart · = true)
    (fun _ => True) := by
  have hkeyword : Rereads whole n ((Expr.rule .keyword).seq ((Expr.rule .ident).seq (Rule.lit "="))) IsBindingOf
      keywordBound (isNameStart · = true) (fun _ => True) := by
    refine rereads_keywordBound.imp ?_
    rintro _ id ⟨keyword, rfl⟩ taken
    simp [IsBinding, Meaning.boundName?]
  have hbound : Rereads whole n ((Expr.rule .ident).seq (Rule.lit "=")) IsBindingOf bound (isNameStart · = true)
      (fun _ => True) := by
    refine rereads_bound.imp ?_
    rintro _ id rfl taken
    simp [IsBinding, Meaning.boundName?]
  rw [binding_eq]
  refine Rereads.rule ((hkeyword.choice hbound ?_).mono ?_ (fun _ => or_self_iff.mp) fun _ => id) rfl
  · intro _ _ _ _ _ _ _ _ behind _ _ _ hread _
    obtain ⟨_, hname, hread⟩ := Option.bind_eq_some_iff.mp hread
    obtain ⟨_, hmark, -⟩ := Option.bind_eq_some_iff.mp hread
    exact keywordBound_refuses hname (ahead_of_mark hmark) rfl
  · exact fun pairs id hid taken => ⟨_, rfl, hid taken⟩

/-! ## Statements -/

theorem isStatement_of {b : Option String} {c : String × List Argument} {pairs more : List (Pair Rule)}
    (hb : Optionally (Single IsBinding) pairs b) (hc : Single IsCall more c) (taken : List Char) :
    Single IsStatement [.node .statement taken (pairs ++ more)] ⟨b, c.1, c.2⟩ := by
  obtain ⟨_, rfl, taken', arguments, rfl, harguments⟩ := hc
  refine ⟨_, rfl, _, _, rfl, ?_⟩
  cases b with
  | none =>
    cases hb
    simp [Meaning.statement?, harguments]
  | some b =>
    obtain ⟨p, rfl, hp⟩ := hb
    have hname : Meaning.boundName? p = some b := hp
    simp [Meaning.statement?, harguments, hname]

theorem statement_of_parts {b : Option String} {c : String × List Argument} {mid left : List Char}
    (hb : Reader.optional binding text = some (b, mid)) (hc : next (call text.length) mid = some (c, left)) :
    statement text = some (⟨b, c.1, c.2⟩, left) := by
  simp only [statement_eq, hb, hc, Option.bind_eq_bind, Option.bind_some]
  rfl

theorem reread_call (h : Spaced statementGrammar Widens whole (.rule .call) text found rest spaced)
    (behind : List Char) {depth : Nat} (hdepth : (spaced ++ behind).length ≤ depth) : ∃ c left, Single IsCall found c ∧
      call depth (spaced ++ behind) = some (c, left) ∧ skipGap false left = skipGap false behind := by
  rw [List.length_append] at hdepth
  obtain ⟨-, c, hc, hread⟩ := rereads_call (Nat.le_of_add_right_le hdepth) h le_rfl
  obtain ⟨left, hleft, hskip⟩ := hread trivial behind trivial
  exact ⟨c, left, hc, hleft, hskip⟩

theorem reread_statement (h : Spaced statementGrammar Widens whole (.rule .statement) text found rest spaced) :
    (∃ c, ahead text = some c ∧ isInk c = true) ∧ ∀ behind, ∃ s left, Single IsStatement found s ∧
      next statement (spaced ++ behind) = some (s, left) ∧ skipGap false left = skipGap false behind := by
  obtain ⟨inner, rfl, hbody⟩ := h.of_rule rfl
  obtain ⟨before, mid, front, _, _, between, more, back, hoption, hgap, hcall, rfl, rfl⟩ := hbody.of_seq
  obtain ⟨⟨c, hc, hmid, hback⟩, -⟩ := rereads_call le_rfl hcall le_rfl
  obtain ⟨tail, rfl⟩ := List.head?_eq_some_iff.mp hback
  have hink := isInk_of_isNameStart hc
  have hpasses := passes_gap_ink hgap hmid hink
  obtain ⟨rfl, rfl, -⟩ := passes_gap hgap
  rcases hoption.of_option with hbinding | ⟨-, rfl, rfl, rfl⟩
  · obtain ⟨⟨d, hd, htext, hfront⟩, b, hb, hreadBinding⟩ := rereads_binding hbinding le_rfl
    obtain ⟨start, rfl⟩ := List.head?_eq_some_iff.mp hfront
    have hinkStart := isInk_of_isNameStart hd
    refine ⟨⟨d, ?_, hinkStart⟩, fun behind => ?_⟩
    · obtain ⟨later, rfl⟩ := List.head?_eq_some_iff.mp htext
      exact ahead_ink hinkStart later
    · obtain ⟨mid, hmid, hskip⟩ := hreadBinding trivial (between ++ (c :: tail ++ behind)) trivial
      have hstop : skipGap false (c :: tail ++ behind) = c :: tail ++ behind := skipGap_ink hink _
      rw [hpasses, hstop] at hskip
      have hdepth : (c :: tail ++ behind).length ≤ (d :: start ++ (between ++ (c :: tail ++ behind))).length := by
        simp only [List.length_append]
        omega
      obtain ⟨found', left, hfound, hleft, hrest⟩ := reread_call hcall behind hdepth
      refine ⟨⟨some b, found'.1, found'.2⟩, left, isStatement_of (b := some b) hb hfound _, ?_, hrest⟩
      have hstatement := statement_of_parts (b := some b) (by rw [Reader.optional, hmid]) (by rw [next, hskip, hleft])
      rw [List.append_assoc, List.append_assoc, List.cons_append, next, skipGap_ink hinkStart]
      exact hstatement
  -- What is read as a call is not read as a binding.
  · refine ⟨⟨c, hmid, hink⟩, fun behind => ?_⟩
    obtain ⟨found', left, hfound, hleft, hrest⟩ := reread_call hcall behind le_rfl
    refine ⟨⟨none, found'.1, found'.2⟩, left, isStatement_of (b := none) rfl hfound _, ?_, hrest⟩
    have hnext : next (call (c :: tail ++ behind).length) (c :: tail ++ behind) = some (found', left) := by
      rw [next, List.cons_append, skipGap_ink hink]
      exact hleft
    have hstatement := statement_of_parts (b := none) (by rw [Reader.optional, binding_refuses_call hleft]) hnext
    rw [List.nil_append, List.append_assoc]
    exact (next_of_passes hpasses hink _).trans hstatement

/-! ## Lines -/

theorem passes_no_gap {skipped : List (Pair Rule)}
    (h : Spaced statementGrammar Widens whole .gap [] skipped rest spaced) (m : Bool) : Passes m spaced m := by
  cases h with
  | piece hpiece => exact hpiece.elim
  | gap _ hwidens =>
    have hwidens : Widens [] spaced := by simpa [taken] using hwidens
    exact passes_spacing hwidens.isSpacing m

theorem of_textEnd (h : Spaced statementGrammar Widens whole (.rule .textEnd) text found rest spaced) :
    text = [] ∧ rest = [] ∧ spaced = [] ∧ ∃ taken, found = [.node .textEnd taken []] := by
  obtain ⟨inner, rfl, hbody⟩ := h.of_rule rfl
  obtain ⟨hderives, rfl⟩ := hbody.of_piece trivial
  have habsent := hderives.unique (Derives.absent .one)
  cases text with
  | cons c text => cases habsent
  | nil =>
    cases habsent
    exact ⟨rfl, rfl, rfl, _, rfl⟩

/-- A tail that is skipped in a comment and out of it. -/
def IsIdle (tail : List Char) : Prop := ∀ m, skipGap m tail = []

theorem of_start (h : Spaced statementGrammar Widens whole .start text found rest spaced) :
    found = [] ∧ rest = text ∧ spaced = [] := by
  obtain ⟨hderives, rfl⟩ := h.of_piece trivial
  have hstart := hderives.unique .start
  split at hstart
  · cases hstart
    exact ⟨rfl, rfl, taken_of_append rfl⟩
  · cases hstart

theorem read?_of_statement {s : Statement} {left : List Char} (h : next statement text = some (s, left))
    (hleft : skipGap false left = [] ∨ ∃ last, mark ';' left = some ((), last) ∧ skipGap false last = []) :
    Statement.read? text = some (some s) := by
  have hstatement : statement (skipGap false text) = some (s, left) := h
  simp only [Statement.read?, hstatement]
  rcases hleft with hleft | ⟨last, hmark, hlast⟩
  · have hmark : mark ';' left = none := mark_eq_none (by simp [ahead, hleft])
    simp [hmark, hleft]
  · simp [hmark, hlast]

theorem read?_of_gap (h : skipGap false text = []) : Statement.read? text = some none := by
  simp only [Statement.read?, h]
  rfl

theorem read?_of_passes {gap : List Char} (h : Passes false gap false) (text : List Char) :
    Statement.read? (gap ++ text) = Statement.read? text := by
  simp only [Statement.read?, h text]

theorem reread_ended {mid tail between : List Char} {skipped : List (Pair Rule)}
    (h : Spaced statementGrammar Widens whole ((Expr.rule .statement).seq (Rule.lit ";").option) text found mid spaced)
    (hgap : Spaced statementGrammar Widens whole .gap mid skipped [] between) (htail : IsIdle tail) :
    (∃ c, ahead text = some c ∧ isInk c = true) ∧ ∃ s, Single IsStatement found s ∧
      Statement.read? (spaced ++ (between ++ tail)) = some (some s) := by
  obtain ⟨_, mid', front, _, _, between', _, back, hstatement, hgap', hmark, rfl, rfl⟩ := h.of_seq
  obtain ⟨hink, hread⟩ := reread_statement hstatement
  obtain ⟨rfl, rfl, after', hpasses', -⟩ := passes_gap hgap'
  obtain ⟨-, hnothing, after, hpasses, -⟩ := passes_gap hgap
  obtain ⟨s, left, hs, hleft, hskip⟩ := hread (between' ++ (back ++ (between ++ tail)))
  have htext : front ++ (between' ++ back) ++ (between ++ tail) =
      front ++ (between' ++ (back ++ (between ++ tail))) := by simp
  rw [htext]
  rcases hmark.of_option with hsemicolon | ⟨-, rfl, rfl, rfl⟩
  · obtain ⟨rfl, hmid, rfl⟩ := hsemicolon.of_literal
    have hpasses' := passes_gap_ink (c := ';') hgap' (by rw [hmid]; rfl) rfl
    refine ⟨hink, s, by simpa using hs, read?_of_statement hleft (.inr ⟨between ++ tail, ?_, ?_⟩)⟩
    · rw [mark_congr hskip]
      exact mark_of_passes hpasses' rfl _
    · rw [hpasses, htail]
  · rw [skipGap_skipGap] at hnothing
    rw [← hnothing] at hgap
    refine ⟨hink, s, by simpa using hs, read?_of_statement hleft (.inl ?_)⟩
    rw [hskip, hpasses', List.nil_append, passes_no_gap hgap, htail]

theorem reread_line (h : Spaced statementGrammar Widens whole (.rule .line) text found rest spaced) {tail : List Char}
    (htail : IsIdle tail) : rest = [] ∧ ∃ parsed, Meaning.line? found = some parsed ∧
      Statement.read? (spaced ++ tail) = some parsed := by
  obtain ⟨inner, rfl, hbody⟩ := h.of_rule rfl
  obtain ⟨_, _, _, _, _, between, _, _, hstart, hgap, hlater, rfl, rfl⟩ := hbody.of_seq
  obtain ⟨rfl, rfl, rfl⟩ := of_start hstart
  obtain ⟨_, mid, front, _, _, between', _, _, hoption, hgap', hend, rfl, rfl⟩ := hlater.of_seq
  obtain ⟨rfl, rfl, rfl, taken', rfl⟩ := of_textEnd hend
  obtain ⟨rfl, hnothing, -⟩ := passes_gap hgap'
  refine ⟨rfl, ?_⟩
  have htext : [] ++ (between ++ (front ++ (between' ++ []))) ++ tail = between ++ (front ++ (between' ++ tail)) := by
    simp
  rw [htext]
  rcases hoption.of_option with hended | ⟨-, rfl, rfl, rfl⟩
  · obtain ⟨⟨c, hc, hink⟩, s, ⟨_, rfl, _, parts, rfl, hparts⟩, hread⟩ := reread_ended hended hgap' htail
    obtain ⟨rfl, rfl, -⟩ := passes_gap hgap
    rw [ahead_skipGap] at hc
    refine ⟨some s, by simp [Meaning.line?, hparts], ?_⟩
    rw [read?_of_passes (passes_gap_ink hgap hc hink), hread]
  · obtain ⟨rfl, rfl, after, hpasses, -⟩ := passes_gap hgap
    rw [skipGap_skipGap] at hnothing
    rw [← hnothing] at hgap'
    refine ⟨none, rfl, read?_of_gap ?_⟩
    rw [hpasses, List.nil_append, passes_no_gap hgap', htail]

theorem isIdle_nil : IsIdle [] := fun _ => rfl

theorem skipGap_note {note : List Char} (hnote : ∀ c ∈ note, c ≠ '\r' ∧ c ≠ '\n') : skipGap true note = [] := by
  induction note with
  | nil => rfl
  | cons c note ih =>
    obtain ⟨⟨hreturn, hfeed⟩, hnote⟩ := List.forall_mem_cons.mp hnote
    have hmode : (c != '\r') = true := by simpa using hreturn
    rw [skipGap.eq_def]
    simp only [if_true, hfeed, if_false, hmode, ih hnote]

theorem isIdle_comment {note : List Char} (hnote : ∀ c ∈ note, c ≠ '\r' ∧ c ≠ '\n') : IsIdle ('/' :: '/' :: note) := by
  intro m
  cases m with
  | false => exact skipGap_note hnote
  | true => exact skipGap_note (by simpa using hnote)

/-! ## Other layouts -/

/-- The text of a line is laid out in another way: spaces and tabs are put into gaps of the match, or a comment is put
behind it. -/
inductive Relaid (text : List Char) : List Char → Prop where
  | blanks {pairs rest spaced} : Spaced statementGrammar Widens text (.rule .line) text pairs rest spaced →
      Relaid text spaced
  | comment {note} : (∀ c ∈ note, c ≠ '\r' ∧ c ≠ '\n') → Relaid text (text ++ '/' :: '/' :: note)

theorem widens_refl (gap : List Char) : Widens gap gap := by
  have hwidens : Widens ([] ++ gap) ([] ++ ([] ++ gap)) := .put (derives_gap [] []) (List.forall_mem_nil _)
  exact hwidens

theorem spaced_of_word {r : Rule} {word : β → List Char} {o : Option (β × List Char)} {b : β}
    (hspells : Spells whole (statementGrammar.body r) text o) (hkind : statementGrammar.kind r = .atomic)
    (ho : o = some (b, rest)) (htext : text = word b ++ rest) :
    Spaced statementGrammar Widens whole (.rule r) text [.node r (word b) []] rest (word b) := by
  subst ho
  have hrule := Derives.rule_of_scope (c := .free) hspells (by rw [hkind]; rfl)
  rw [hkind] at hrule
  have hpiece : Spaced statementGrammar Widens whole (.rule r) text _ rest (taken text rest) :=
    .piece (Or.inl hkind) hrule
  rw [taken_of_append htext] at hpiece
  exact hpiece

theorem spaced_name {w : String} (h : name text = some (w, rest)) :
    Spaced statementGrammar Widens whole (.rule .ident) text [.node .ident w.toList []] rest w.toList :=
  spaced_of_word (spells_name text) rfl h (name_append h)

theorem spaced_oneOf {w : String} (h : oneOf "let" "const" text = some (w, rest)) :
    Spaced statementGrammar Widens whole (.rule .keyword) text [.node .keyword w.toList []] rest w.toList :=
  spaced_of_word (spells_oneOf (fun _ => rfl) text) rfl h (oneOf_append h)

theorem spaced_literal (w : String) (rest : List Char) :
    Spaced statementGrammar Widens whole (Rule.lit w) (w.toList ++ rest) [] rest w.toList := by
  have hliteral : Derives statementGrammar whole .free (Rule.lit w) (w.toList ++ rest) _ := .literal
  rw [readLiteral_eq_some.mpr ⟨rfl, rfl⟩] at hliteral
  have hpiece : Spaced statementGrammar Widens whole (Rule.lit w) (w.toList ++ rest) _ rest _ :=
    .piece trivial hliteral
  rwa [taken_of_append rfl] at hpiece

theorem spaced_gap (blanks gap : List Char) (hblanks : IsSpacing blanks)
    (hrest : skipGap false (gap ++ rest) = rest) :
    Spaced statementGrammar Widens whole .gap (gap ++ rest) [] rest (blanks ++ gap) := by
  have hderives := derives_gap whole (gap ++ rest)
  rw [hrest] at hderives
  have hwidens : Widens ([] ++ gap) ([] ++ (blanks ++ gap)) := .put (derives_gap [] []) hblanks
  refine .gap hderives ?_
  rw [taken_of_append rfl]
  exact hwidens

theorem args_refused (rest : List Char) : Derives statementGrammar whole .free (.rule .args) (')' :: rest) none := by
  have harg : Matches whole (.rule .arg) (Single IsArgument) (')' :: rest)
      (argument (rest.length + 2) (')' :: rest)) := matches_argument _ (by simp)
  rw [argument_refuses (by decide)] at harg
  have hargs : Derives statementGrammar whole .free (.rule .args) (')' :: rest) _ := .rule (.joinNo harg)
  exact hargs

theorem spaced_start : Spaced statementGrammar Widens text .start text [] text [] := by
  have hderives : Derives statementGrammar text .free .start text _ := .start
  rw [if_pos rfl] at hderives
  have hpiece : Spaced statementGrammar Widens text .start text [] text _ := .piece trivial hderives
  rwa [taken_of_append (List.nil_append text).symm] at hpiece

theorem spaced_textEnd : Spaced statementGrammar Widens whole (.rule .textEnd) [] [.node .textEnd [] []] [] [] := by
  have habsent : Derives statementGrammar whole .free (Expr.absent (.one fun _ => true)) [] _ := .absent .one
  have hbody : Spaced statementGrammar Widens whole (statementGrammar.body .textEnd) [] [] [] [] :=
    .piece trivial habsent
  exact .rule (.inl rfl) hbody

theorem relaid_statement {blanks blanks' : List Char} (hblanks : IsSpacing blanks) (hblanks' : IsSpacing blanks')
    (htext : skipGap false text = text)
    (h : Spaced statementGrammar Widens text (.rule .statement) text found [] spaced) :
    Relaid text (blanks ++ (spaced ++ blanks')) := by
  have hunmarked : Spaced statementGrammar Widens text (Rule.lit ";").option [] [] [] [] := .missing .literal
  have hended := h.seq (spaced_gap [] [] (List.forall_mem_nil _) rfl) hunmarked
  have hfront := @spaced_gap text text blanks [] hblanks htext
  rw [List.nil_append, List.append_nil] at hfront
  have hline := Spaced.rule (r := Rule.line) (.inl rfl) (spaced_start.seq hfront
    (Spaced.seq (.first hended) (spaced_gap blanks' [] hblanks' rfl) spaced_textEnd))
  simpa using Relaid.blanks hline

theorem derives_of_read {parsed : Option Statement} (h : Statement.read? text = some parsed) :
    ∃ pairs rest, Derives statementGrammar text .free (.rule .line) text (some (pairs, rest)) ∧
      Meaning.line? pairs = some parsed := by
  have hline := matches_line text
  rw [read?_eq_line] at h
  obtain ⟨result, hresult, rfl⟩ := Option.map_eq_some_iff.mp h
  rw [hresult] at hline
  obtain ⟨pairs, rest, hderives, -, hmeans⟩ := hline
  exact ⟨pairs, rest, hderives, hmeans⟩

/-- What is read of a line is read of its match with other gaps, and with nothing to read behind it. -/
theorem read?_spaced {pairs : List (Pair Rule)} {tail : List Char} {parsed : Option Statement}
    (hread : Statement.read? text = some parsed)
    (h : Spaced statementGrammar Widens text (.rule .line) text pairs rest spaced) (htail : IsIdle tail) :
    Statement.read? (spaced ++ tail) = some parsed := by
  obtain ⟨pairs', rest', hderives, hmeans⟩ := derives_of_read hread
  obtain ⟨-, parsed', hmeaning, hagain⟩ := reread_line h htail
  cases h.derives.unique hderives
  rw [hagain, ← hmeaning, hmeans]

/-- A line that is accepted says the same when it is laid out in another way. -/
theorem relaid_read [SyntaxReport] {text text' : List Char} {parsed : Option Statement}
    (hread : Statement.read? text = some parsed) (h : Relaid text text') : Statement.read? text' = some parsed ∧ ∀ (config : Config) (p : Progress) (line : Nat),
      p.addText config line text' = p.addText config line text := by
  have hagain : Statement.read? text' = some parsed := by
    cases h with
    | blanks hspaced =>
      have hagain := read?_spaced hread hspaced isIdle_nil
      rwa [List.append_nil] at hagain
    | comment hnote =>
      obtain ⟨pairs, rest, hderives, -⟩ := derives_of_read hread
      obtain ⟨spaced, hspaced, htext⟩ := Spaced.of_derives widens_refl hderives rfl _ _ rfl
      obtain ⟨rfl, -⟩ := reread_line hspaced isIdle_nil
      rw [List.append_nil] at htext
      subst htext
      exact read?_spaced hread hspaced (isIdle_comment hnote)
  refine ⟨hagain, fun config p line => ?_⟩
  unfold Progress.addText
  rw [hread, hagain]
  cases parsed <;> rfl

theorem spaced_let_box : ∃ found, Spaced statementGrammar Widens whole (.rule .statement)
    ['l', 'e', 't', ' ', 'b', '=', 'b', 'o', 'x', '(', ')'] found []
    ['l', 'e', 't', '\t', ' ', 'b', ' ', '=', 'b', 'o', 'x', '(', ' ', ')'] := by
  have hspace : IsSpacing [' '] := by simp [IsSpacing]
  have htab : IsSpacing ['\t'] := by simp [IsSpacing]
  have hnone : IsSpacing [] := List.forall_mem_nil _
  have hkeyword : Spaced statementGrammar Widens whole (.rule .keyword)
      ['l', 'e', 't', ' ', 'b', '=', 'b', 'o', 'x', '(', ')'] _ _ ['l', 'e', 't'] := spaced_oneOf (w := "let") rfl
  have hname : Spaced statementGrammar Widens whole (.rule .ident) ['b', '=', 'b', 'o', 'x', '(', ')'] _ _ ['b'] :=
    spaced_name (w := "b") rfl
  have hequals : Spaced statementGrammar Widens whole (Rule.lit "=") ['=', 'b', 'o', 'x', '(', ')'] _
      ['b', 'o', 'x', '(', ')'] ['='] := spaced_literal "=" _
  have hbinding := Spaced.rule (r := Rule.binding) (.inl rfl) (.first (hkeyword.seq
    (spaced_gap ['\t'] [' '] htab rfl) (hname.seq (spaced_gap [' '] [] hspace rfl) hequals)))
  have hcallee : Spaced statementGrammar Widens whole (.rule .ident) ['b', 'o', 'x', '(', ')'] _ _ ['b', 'o', 'x'] :=
    spaced_name (w := "box") rfl
  have hopen : Spaced statementGrammar Widens whole (Rule.lit "(") ['(', ')'] _ [')'] ['('] := spaced_literal "(" _
  have hclose : Spaced statementGrammar Widens whole (Rule.lit ")") [')'] _ [] [')'] := spaced_literal ")" _
  have hitems := Spaced.seq (.missing (args_refused [])) (spaced_gap [] [] hnone rfl) hclose
  have hcall := Spaced.rule (r := Rule.call) (.inl rfl) (hcallee.seq (spaced_gap [] [] hnone rfl)
    (hopen.seq (spaced_gap [' '] [] hspace rfl) hitems))
  exact ⟨_, Spaced.rule (r := Rule.statement) (.inl rfl) (Spaced.seq (.first hbinding)
    (spaced_gap [] [] hnone rfl) hcall)⟩

theorem let_box_relaid : Statement.read? "let b=box()".toList = some (some ⟨some "b", "box", []⟩) ∧
    Relaid "let b=box()".toList " let\t b =box( )\t".toList ∧
    Statement.read? " let\t b =box( )\t".toList = some (some ⟨some "b", "box", []⟩) ∧
    ∀ (config : Config) (p : Progress) (line : Nat),
      p.addText config line " let\t b =box( )\t".toList = p.addText config line "let b=box()".toList := by
  have hread : Statement.read? "let b=box()".toList = some (some ⟨some "b", "box", []⟩) := by cbv
  have hrelaid : Relaid "let b=box()".toList " let\t b =box( )\t".toList := by
    obtain ⟨found, hspaced⟩ := spaced_let_box
    have hspace : IsSpacing [' '] := by simp [IsSpacing]
    have htab : IsSpacing ['\t'] := by simp [IsSpacing]
    have hline := relaid_statement hspace htab rfl hspaced
    simpa using hline
  exact ⟨hread, hrelaid, relaid_read hread hrelaid⟩

end SolidScript.Script.Grammar
