import SolidScript.Proofs.Peg

/-!
# Other gaps in the same match

A match is a tree of pieces with gaps between them. Other texts in the places of the gaps give another text with the
same pieces in it.
-/

namespace SolidScript.Peg

variable {ρ : Type}

/-- What is matched without a gap in it. -/
def Expr.IsPiece (g : Grammar ρ) : Expr ρ → Prop
  | empty | start | one _ | literal _ | absent _ => True
  | rule r => g.kind r = .atomic ∨ g.kind r = .compound
  | gap | join _ _ | choice _ _ | star _ => False

/-- A match on a text, with its pairs and what is left, and the text of the match when each gap is replaced by a text
that may stand for it. -/
inductive Spaced (g : Grammar ρ) (mayReplace : List Char → List Char → Prop) (whole : List Char) :
    Expr ρ → List Char → List (Pair ρ) → List Char → List Char → Prop where
  | piece {e text found rest} : e.IsPiece g → Derives g whole .free e text (some (found, rest)) →
      Spaced g mayReplace whole e text found rest (taken text rest)
  | gap {text found rest spaced} : Derives g whole .free .gap text (some (found, rest)) →
      mayReplace (taken text rest) spaced → Spaced g mayReplace whole .gap text found rest spaced
  | rule {r text inner rest spaced} : g.kind r = .normal ∨ g.kind r = .silent →
      Spaced g mayReplace whole (g.body r) text inner rest spaced →
      Spaced g mayReplace whole (.rule r) text ((g.kind r).pairs .free r (taken text rest) inner) rest spaced
  | join {e f text found rest more last spaced spaced'} : Spaced g mayReplace whole e text found rest spaced →
      Spaced g mayReplace whole f rest more last spaced' →
      Spaced g mayReplace whole (.join e f) text (found ++ more) last (spaced ++ spaced')
  | first {e f text found rest spaced} : Spaced g mayReplace whole e text found rest spaced →
      Spaced g mayReplace whole (.choice e f) text found rest spaced
  | second {e f text found rest spaced} : Derives g whole .free e text none →
      Spaced g mayReplace whole f text found rest spaced →
      Spaced g mayReplace whole (.choice e f) text found rest spaced
  | stop {e text} : Derives g whole .free e text none → Spaced g mayReplace whole (.star e) text [] text []
  | again {e text found rest more last spaced spaced'} : Spaced g mayReplace whole e text found rest spaced →
      Spaced g mayReplace whole (.star e) rest more last spaced' →
      Spaced g mayReplace whole (.star e) text (found ++ more) last (spaced ++ spaced')

namespace Spaced

variable {g : Grammar ρ} {mayReplace : List Char → List Char → Prop} {whole text rest spaced : List Char}
variable {e f : Expr ρ} {found : List (Pair ρ)}

theorem derives (h : Spaced g mayReplace whole e text found rest spaced) :
    Derives g whole .free e text (some (found, rest)) := by
  induction h with
  | piece _ hderives | gap hderives => exact hderives
  | @rule r _ _ _ _ hkind _ ih =>
    refine ih.rule_of_scope ?_
    rcases hkind with hkind | hkind
    all_goals
      rw [hkind]
      rfl
  | join _ _ ihe ihf => exact ihe.join ihf
  | first _ ih => exact .first ih
  | second hno _ ih => exact .second hno ih
  | stop hno => exact .stop hno
  | again _ _ ihe ihs => exact ihe.again ihs

theorem taken_append (h : Derives g whole .free e text (some (found, rest))) : taken text rest ++ rest = text := by
  obtain ⟨front, hfront⟩ := h.suffix _ _ rfl
  rw [taken_of_append hfront.symm, hfront]

theorem exists_of_piece (h : Derives g whole .free e text (some (found, rest))) (he : e.IsPiece g) :
    ∃ spaced, Spaced g mayReplace whole e text found rest spaced ∧ text = spaced ++ rest :=
  ⟨_, .piece he h, (taken_append h).symm⟩

/-- With each gap in its own place the text stays as it is. -/
theorem of_derives (hrefl : ∀ gap, mayReplace gap gap) {c : Scope} {o : Outcome ρ} (h : Derives g whole c e text o)
    (hc : c = .free) : ∀ found rest, o = some (found, rest) → ∃ spaced,
      Spaced g mayReplace whole e text found rest spaced ∧ text = spaced ++ rest := by
  induction h with
  | noGap hno => exact absurd hc hno
  | empty | start | one | literal =>
    subst hc
    intro found rest ho
    refine exists_of_piece (ho ▸ ?_) trivial
    constructor
  | absent hinner =>
    subst hc
    intro found rest ho
    exact exists_of_piece (ho ▸ .absent hinner) trivial
  | gap hgap =>
    intro found rest ho
    subst ho
    have hderives : Derives g whole .free .gap _ (some (found, rest)) := .gap hgap
    exact ⟨_, .gap hderives (hrefl _), (taken_append hderives).symm⟩
  | @rule c r text o hbody ih =>
    subst hc
    intro found rest ho
    have hrule := Derives.rule hbody
    rw [ho] at hrule
    obtain ⟨⟨inner, rest'⟩, hinner, heq⟩ := Option.map_eq_some_iff.mp ho
    cases heq
    have hopen (hkind : g.kind r = .normal ∨ g.kind r = .silent) : ∃ spaced, Spaced g mayReplace whole (.rule r) text
        ((g.kind r).pairs .free r (taken text rest) inner) rest spaced ∧ text = spaced ++ rest := by
      have hscope : (g.kind r).scope .free = .free := by rcases hkind with hkind | hkind <;> rw [hkind] <;> rfl
      obtain ⟨spaced, hspaced, htext⟩ := ih hscope _ _ hinner
      exact ⟨spaced, .rule hkind hspaced, htext⟩
    -- Only normal and silent rules have gaps inside that may be wider.
    cases hkind : g.kind r with
    | normal => exact hkind ▸ hopen (.inl hkind)
    | silent => exact hkind ▸ hopen (.inr hkind)
    | atomic => exact hkind ▸ exists_of_piece hrule (.inl hkind)
    | compound => exact hkind ▸ exists_of_piece hrule (.inr hkind)
  | join _ _ ihe ihf =>
    intro found rest ho
    obtain ⟨⟨more, last⟩, hmore, heq⟩ := Option.map_eq_some_iff.mp ho
    cases heq
    obtain ⟨front, he, rfl⟩ := ihe hc _ _ rfl
    obtain ⟨back, hf, rfl⟩ := ihf hc _ _ hmore
    exact ⟨_, .join he hf, (List.append_assoc ..).symm⟩
  | joinNo => exact fun _ _ ho => nomatch ho
  | first _ ih =>
    intro found rest ho
    obtain ⟨spaced, he, htext⟩ := ih hc _ _ ho
    exact ⟨spaced, .first he, htext⟩
  | second hno _ _ ih =>
    subst hc
    intro found rest ho
    obtain ⟨spaced, hf, htext⟩ := ih rfl _ _ ho
    exact ⟨spaced, .second hno hf, htext⟩
  | stop hno =>
    subst hc
    rintro _ _ ⟨⟩
    exact ⟨[], .stop hno, rfl⟩
  | again _ _ ihe ihs =>
    intro found rest ho
    obtain ⟨⟨more, last⟩, hmore, heq⟩ := Option.map_eq_some_iff.mp ho
    cases heq
    obtain ⟨front, he, rfl⟩ := ihe hc _ _ rfl
    obtain ⟨back, hs, rfl⟩ := ihs hc _ _ hmore
    exact ⟨_, .again he hs, (List.append_assoc ..).symm⟩

theorem seq {mid mid' front between back : List Char} {before more : List (Pair ρ)}
    (he : Spaced g mayReplace whole e text before mid front)
    (hgap : Spaced g mayReplace whole .gap mid [] mid' between)
    (hf : Spaced g mayReplace whole f mid' more rest back) :
    Spaced g mayReplace whole (e.seq f) text (before ++ more) rest (front ++ (between ++ back)) :=
  he.join (hgap.join hf)

theorem missing (h : Derives g whole .free e text none) : Spaced g mayReplace whole e.option text [] text [] := by
  have hempty : Spaced g mayReplace whole .empty text [] text _ := .piece trivial .empty
  rw [taken_of_append (List.nil_append text).symm] at hempty
  exact .second h hempty

/-! ## Parts of a match -/

theorem of_piece (h : Spaced g mayReplace whole e text found rest spaced) (hpiece : e.IsPiece g) :
    Derives g whole .free e text (some (found, rest)) ∧ spaced = taken text rest := by
  cases h with
  | piece _ hderives => exact ⟨hderives, rfl⟩
  | rule hkind =>
    rcases hpiece with hpiece | hpiece <;> rcases hkind with hkind | hkind <;> exact nomatch hpiece.symm.trans hkind
  | gap | join | first | second | stop | again => exact hpiece.elim

theorem of_join (h : Spaced g mayReplace whole (.join e f) text found rest spaced) : ∃ before mid front more back,
    Spaced g mayReplace whole e text before mid front ∧ Spaced g mayReplace whole f mid more rest back ∧
      found = before ++ more ∧ spaced = front ++ back := by
  cases h with
  | piece hpiece => exact hpiece.elim
  | join he hf => exact ⟨_, _, _, _, _, he, hf, rfl, rfl⟩

theorem of_seq (h : Spaced g mayReplace whole (e.seq f) text found rest spaced) :
    ∃ before mid front skipped mid' between more back, Spaced g mayReplace whole e text before mid front ∧
      Spaced g mayReplace whole .gap mid skipped mid' between ∧ Spaced g mayReplace whole f mid' more rest back ∧
      found = before ++ (skipped ++ more) ∧ spaced = front ++ (between ++ back) := by
  obtain ⟨before, mid, front, _, _, he, hlater, rfl, rfl⟩ := h.of_join
  obtain ⟨skipped, mid', between, more, back, hgap, hf, rfl, rfl⟩ := hlater.of_join
  exact ⟨_, _, _, _, _, _, _, _, he, hgap, hf, rfl, rfl⟩

theorem of_choice (h : Spaced g mayReplace whole (.choice e f) text found rest spaced) :
    Spaced g mayReplace whole e text found rest spaced ∨
      Derives g whole .free e text none ∧ Spaced g mayReplace whole f text found rest spaced := by
  cases h with
  | piece hpiece => exact hpiece.elim
  | first he => exact .inl he
  | second hno hf => exact .inr ⟨hno, hf⟩

theorem of_empty (h : Spaced g mayReplace whole .empty text found rest spaced) :
    found = [] ∧ rest = text ∧ spaced = [] := by
  obtain ⟨hderives, rfl⟩ := h.of_piece trivial
  cases hderives
  exact ⟨rfl, rfl, taken_of_append rfl⟩

theorem of_option (h : Spaced g mayReplace whole e.option text found rest spaced) :
    Spaced g mayReplace whole e text found rest spaced ∨
      Derives g whole .free e text none ∧ found = [] ∧ rest = text ∧ spaced = [] :=
  h.of_choice.imp_right fun hsecond => ⟨hsecond.1, hsecond.2.of_empty⟩

theorem of_literal {word : List Char} (h : Spaced g mayReplace whole (.literal word) text found rest spaced) :
    found = [] ∧ text = word ++ rest ∧ spaced = word := by
  obtain ⟨hderives, rfl⟩ := h.of_piece trivial
  have hread := hderives.unique .literal
  obtain ⟨rfl, rfl⟩ := readLiteral_eq_some.mp hread.symm
  exact ⟨rfl, rfl, taken_of_append rfl⟩

theorem of_opened {r : ρ} (h : Spaced g mayReplace whole (.rule r) text found rest spaced)
    (hkind : g.kind r = .normal ∨ g.kind r = .silent) :
    ∃ inner, found = (g.kind r).pairs .free r (taken text rest) inner ∧
      Spaced g mayReplace whole (g.body r) text inner rest spaced := by
  cases h with
  | piece hpiece =>
    rcases hpiece with hpiece | hpiece <;> rcases hkind with hkind | hkind <;> exact nomatch hpiece.symm.trans hkind
  | rule _ hbody => exact ⟨_, rfl, hbody⟩

theorem of_rule {r : ρ} (h : Spaced g mayReplace whole (.rule r) text found rest spaced)
    (hkind : g.kind r = .normal) : ∃ inner, found = [.node r (taken text rest) inner] ∧
      Spaced g mayReplace whole (g.body r) text inner rest spaced := by
  obtain ⟨inner, hfound, hbody⟩ := h.of_opened (.inl hkind)
  rw [hkind] at hfound
  exact ⟨inner, hfound, hbody⟩

theorem of_silent {r : ρ} (h : Spaced g mayReplace whole (.rule r) text found rest spaced)
    (hkind : g.kind r = .silent) : Spaced g mayReplace whole (g.body r) text found rest spaced := by
  obtain ⟨inner, hfound, hbody⟩ := h.of_opened (.inr hkind)
  rw [hkind] at hfound
  exact hfound ▸ hbody

end Spaced

end SolidScript.Peg
