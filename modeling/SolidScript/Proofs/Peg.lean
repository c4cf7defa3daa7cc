import Mathlib

/-!
# Parsing expression grammars

An alternative that matched is not given up again, and a repetition takes as much as it can. Between the elements of a
rule there may be gaps, unless the rule is atomic or called from one that is.
-/

namespace SolidScript.Peg

/-- What rules leave of themselves and of the rules they call. -/
inductive Kind where
  /-- A pair, with the pairs of what it calls. -/
  | normal
  /-- The pairs of what it calls. -/
  | silent
  /-- A pair of one piece, without gaps. -/
  | atomic
  /-- A pair without gaps, with the pairs of what it calls. -/
  | compound
deriving DecidableEq

inductive Scope where
  /-- With gaps and pairs. -/
  | free
  /-- Without gaps. -/
  | tight
  /-- Without gaps and pairs. -/
  | sealed
deriving DecidableEq

inductive Expr (ρ : Type) where
  | empty
  /-- The start of the whole text. -/
  | start
  | one (isMember : Char → Bool)
  | literal (word : List Char)
  | rule (r : ρ)
  | gap
  /-- One right behind the other. -/
  | join (first second : Expr ρ)
  | choice (first second : Expr ρ)
  | star (e : Expr ρ)
  | absent (e : Expr ρ)

namespace Expr

variable {ρ : Type}

def any : Expr ρ := one fun _ => true

def seq (e f : Expr ρ) : Expr ρ := e.join (gap.join f)

def option (e : Expr ρ) : Expr ρ := e.choice empty

def many (e : Expr ρ) : Expr ρ := option (e.join (gap.join e).star)

def many1 (e : Expr ρ) : Expr ρ := e.seq e.many

end Expr

inductive Pair (ρ : Type) where
  | node (rule : ρ) (text : List Char) (inner : List (Pair ρ))

structure Grammar (ρ : Type) where
  kind : ρ → Kind
  body : ρ → Expr ρ
  /-- What is skipped between the elements of a rule. -/
  gap : Expr ρ

variable {ρ : Type}

namespace Kind

def scope : Kind → Scope → Scope
  | normal, c | silent, c => c
  | atomic, _ => .sealed
  | compound, _ => .tight

def pairs (k : Kind) (c : Scope) (r : ρ) (text : List Char) (inner : List (Pair ρ)) : List (Pair ρ) :=
  match k, c with
  | silent, _ | normal, .sealed | atomic, .sealed => inner
  | _, _ => [.node r text inner]

end Kind

/-- The pairs of a match and what is left behind it, or nothing if there is no match. -/
abbrev Outcome (ρ : Type) := Option (List (Pair ρ) × List Char)

def Outcome.after (found : List (Pair ρ)) (o : Outcome ρ) : Outcome ρ :=
  o.map fun (more, rest) => (found ++ more, rest)

theorem Outcome.after_nil (o : Outcome ρ) : o.after [] = o := by
  unfold after
  simp

def taken (text rest : List Char) : List Char := text.take (text.length - rest.length)

theorem taken_of_append {text front rest : List Char} (h : text = front ++ rest) : taken text rest = front := by
  unfold taken
  rw [h, List.length_append, Nat.add_sub_cancel, List.take_left]

def readOne (isMember : Char → Bool) : List Char → Outcome ρ
  | c :: rest => if isMember c then some ([], rest) else none
  | [] => none

def readLiteral (word text : List Char) : Outcome ρ :=
  if word.isPrefixOf text then some ([], text.drop word.length) else none

theorem readOne_eq_some {isMember : Char → Bool} {text rest : List Char} {found : List (Pair ρ)} :
    readOne isMember text = some (found, rest) ↔ found = [] ∧ ∃ a, isMember a = true ∧ text = a :: rest := by
  cases text with
  | nil => simp [readOne]
  | cons a tail =>
    unfold readOne
    by_cases ha : isMember a = true
    · simp only [ha, if_true, Option.some.injEq, Prod.mk.injEq, List.cons.injEq]
      constructor
      · rintro ⟨rfl, rfl⟩
        exact ⟨rfl, a, ha, rfl, rfl⟩
      · rintro ⟨rfl, _, -, -, rfl⟩
        exact ⟨rfl, rfl⟩
    · simp only [ha, Bool.false_eq_true, if_false, reduceCtorEq, List.cons.injEq, false_iff]
      rintro ⟨-, b, hb, rfl, -⟩
      exact ha hb

theorem readLiteral_eq_some {word text rest : List Char} {found : List (Pair ρ)} :
    readLiteral word text = some (found, rest) ↔ found = [] ∧ text = word ++ rest := by
  unfold readLiteral
  split
  · rename_i hprefix
    obtain ⟨tail, rfl⟩ := List.isPrefixOf_iff_prefix.mp hprefix
    simp only [List.drop_left, Option.some.injEq, Prod.mk.injEq, List.append_cancel_left_eq]
    exact and_congr_left' eq_comm
  · rename_i hprefix
    simp only [reduceCtorEq, false_iff]
    rintro ⟨-, rfl⟩
    exact hprefix (List.isPrefixOf_iff_prefix.mpr (List.prefix_append word rest))

/-- What an expression makes of a text, as a part of a whole text. -/
inductive Derives (g : Grammar ρ) (whole : List Char) : Scope → Expr ρ → List Char → Outcome ρ → Prop where
  | empty {c text} : Derives g whole c .empty text (some ([], text))
  | start {c text} : Derives g whole c .start text (if text = whole then some ([], text) else none)
  | one {c isMember text} : Derives g whole c (.one isMember) text (readOne isMember text)
  | literal {c word text} : Derives g whole c (.literal word) text (readLiteral word text)
  | rule {c r text o} : Derives g whole ((g.kind r).scope c) (g.body r) text o →
      Derives g whole c (.rule r) text (o.map fun (inner, rest) => ((g.kind r).pairs c r (taken text rest) inner, rest))
  | gap {text o} : Derives g whole .sealed g.gap text o → Derives g whole .free .gap text o
  | noGap {c text} : c ≠ .free → Derives g whole c .gap text (some ([], text))
  | join {c e f text found rest o} : Derives g whole c e text (some (found, rest)) → Derives g whole c f rest o →
      Derives g whole c (.join e f) text (o.after found)
  | joinNo {c e f text} : Derives g whole c e text none → Derives g whole c (.join e f) text none
  | first {c e f text result} : Derives g whole c e text (some result) →
      Derives g whole c (.choice e f) text (some result)
  | second {c e f text o} : Derives g whole c e text none → Derives g whole c f text o →
      Derives g whole c (.choice e f) text o
  | stop {c e text} : Derives g whole c e text none → Derives g whole c (.star e) text (some ([], text))
  | again {c e text found rest o} : Derives g whole c e text (some (found, rest)) →
      Derives g whole c (.star e) rest o → Derives g whole c (.star e) text (o.after found)
  | absent {c e text o} : Derives g whole c e text o →
      Derives g whole c (.absent e) text (if o.isSome then none else some ([], text))

namespace Derives

variable {g : Grammar ρ} {whole text rest : List Char} {c : Scope} {e f : Expr ρ} {o : Outcome ρ}

/-! ## Outcomes -/

/-- No text is matched in two ways, or matched and refused. -/
theorem unique (h : Derives g whole c e text o) {o' : Outcome ρ} (h' : Derives g whole c e text o') : o = o' := by
  -- A second match that starts in another way would need a part that is matched here to be refused, or the other way
  -- around.
  induction h generalizing o' with
  | empty | start | one | literal =>
    cases h'
    rfl
  | rule _ ih =>
    cases h' with
    | rule hbody => rw [ih hbody]
  | gap _ ih =>
    cases h' with
    | gap hgap => exact ih hgap
    | noGap hfree => exact absurd rfl hfree
  | noGap hfree =>
    cases h' with
    | gap => exact absurd rfl hfree
    | noGap => rfl
  | join _ _ ihe ihf =>
    cases h' with
    | join he hf =>
      cases ihe he
      rw [ihf hf]
    | joinNo he => cases ihe he
  | joinNo _ ih =>
    cases h' with
    | join he => cases ih he
    | joinNo => rfl
  | first _ ih =>
    cases h' with
    | first he => exact ih he
    | second he => cases ih he
  | second _ _ ihe ihf =>
    cases h' with
    | first he => cases ihe he
    | second _ hf => exact ihf hf
  | stop _ ih =>
    cases h' with
    | stop => rfl
    | again he => cases ih he
  | again _ _ ihe ihs =>
    cases h' with
    | stop he => cases ihe he
    | again he hs =>
      cases ihe he
      rw [ihs hs]
  | absent _ ih =>
    cases h' with
    | absent he => rw [ih he]

theorem suffix (h : Derives g whole c e text o) : ∀ found rest, o = some (found, rest) → rest <:+ text := by
  induction h with
  | empty | noGap =>
    rintro _ _ ⟨⟩
    exact List.suffix_rfl
  | start =>
    intro _ _ ho
    split at ho
    all_goals cases ho
    exact List.suffix_rfl
  | one =>
    intro _ _ ho
    obtain ⟨-, a, -, rfl⟩ := readOne_eq_some.mp ho
    exact List.suffix_cons a _
  | literal =>
    intro _ _ ho
    obtain ⟨-, rfl⟩ := readLiteral_eq_some.mp ho
    exact List.suffix_append _ _
  | rule _ ih =>
    intro _ _ ho
    obtain ⟨_, hinner, heq⟩ := Option.map_eq_some_iff.mp ho
    cases heq
    exact ih _ _ hinner
  | gap _ ih => exact ih
  | join _ _ ihe ihf | again _ _ ihe ihf =>
    intro _ _ ho
    obtain ⟨_, hmore, heq⟩ := Option.map_eq_some_iff.mp ho
    cases heq
    exact (ihf _ _ hmore).trans (ihe _ _ rfl)
  | joinNo => exact fun _ _ ho => nomatch ho
  | first _ ih => exact ih
  | second _ _ _ ih => exact ih
  | stop =>
    rintro _ _ ⟨⟩
    exact List.suffix_rfl
  | absent =>
    intro _ _ ho
    split at ho
    all_goals cases ho
    exact List.suffix_rfl

theorem length_le {found : List (Pair ρ)} (h : Derives g whole c e text (some (found, rest))) :
    rest.length ≤ text.length :=
  (h.suffix found rest rfl).length_le

theorem or (he : Derives g whole c e text o) {o' : Outcome ρ} (hf : Derives g whole c f text o') :
    Derives g whole c (.choice e f) text (o.or o') := by
  cases o with
  | none => exact .second he hf
  | some => exact .first he

theorem rule_of_scope {r : ρ} {c' : Scope} (h : Derives g whole c' (g.body r) text o)
    (hscope : (g.kind r).scope c = c') : Derives g whole c (.rule r) text
      (o.map fun (inner, rest) => ((g.kind r).pairs c r (taken text rest) inner, rest)) := by
  subst hscope
  exact .rule h

/-! ## Within words -/

theorem seq_of_ne_free {found : List (Pair ρ)} (he : Derives g whole c e text (some (found, rest))) (hc : c ≠ .free)
    (hf : Derives g whole c f rest o) : Derives g whole c (e.seq f) text (o.after found) := by
  have hjoin := he.join ((noGap hc).join hf)
  rwa [Outcome.after_nil] at hjoin

theorem seq_sealed {found : List (Pair ρ)} (he : Derives g whole .sealed e text (some (found, rest)))
    (hf : Derives g whole .sealed f rest o) : Derives g whole .sealed (e.seq f) text (o.after found) :=
  seq_of_ne_free he (by decide) hf

theorem rule_sealed {r : ρ} (hkind : g.kind r ≠ .compound) (h : Derives g whole .sealed (g.body r) text o) :
    Derives g whole .sealed (.rule r) text o := by
  have hscope : (g.kind r).scope .sealed = .sealed := by
    cases hr : g.kind r with
    | compound => exact absurd hr hkind
    | _ => rfl
  have hpairs : ∀ text inner, (g.kind r).pairs .sealed r text inner = inner := by
    cases hr : g.kind r with
    | compound => exact absurd hr hkind
    | _ => exact fun _ _ => rfl
  have hrule := h.rule_of_scope hscope
  simpa only [hpairs, Option.map_id'] using hrule

end Derives

/-! ## Matches that are not empty -/

/-- Each match takes a character at least. -/
inductive Consumes (g : Grammar ρ) : Expr ρ → Prop where
  | one {isMember} : Consumes g (.one isMember)
  | literal {first word} : Consumes g (.literal (first :: word))
  | rule {r} : Consumes g (g.body r) → Consumes g (.rule r)
  | left {e f} : Consumes g e → Consumes g (.join e f)
  | right {e f} : Consumes g f → Consumes g (.join e f)
  | choice {e f} : Consumes g e → Consumes g f → Consumes g (.choice e f)

theorem Consumes.length_lt {g : Grammar ρ} {whole text : List Char} {c : Scope} {e : Expr ρ} {o : Outcome ρ}
    (h : Consumes g e) (hmatch : Derives g whole c e text o) :
    ∀ found rest, o = some (found, rest) → rest.length < text.length := by
  induction h generalizing c text o with
  | one =>
    cases hmatch
    intro _ _ ho
    obtain ⟨-, a, -, rfl⟩ := readOne_eq_some.mp ho
    exact Nat.lt_succ_self _
  | literal =>
    cases hmatch
    intro _ _ ho
    obtain ⟨-, rfl⟩ := readLiteral_eq_some.mp ho
    simp
  | rule _ ih =>
    cases hmatch with
    | rule hbody =>
      intro _ _ ho
      obtain ⟨_, hinner, heq⟩ := Option.map_eq_some_iff.mp ho
      cases heq
      exact ih hbody _ _ hinner
  -- One of two parts that are joined consumes, and the other one never gives back anything.
  | left _ ih =>
    cases hmatch with
    | join he hf =>
      intro _ _ ho
      obtain ⟨_, hmore, heq⟩ := Option.map_eq_some_iff.mp ho
      cases heq
      exact Nat.lt_of_le_of_lt (hf.suffix _ _ hmore).length_le (ih he _ _ rfl)
    | joinNo => exact fun _ _ ho => nomatch ho
  | right _ ih =>
    cases hmatch with
    | join he hf =>
      intro _ _ ho
      obtain ⟨_, hmore, heq⟩ := Option.map_eq_some_iff.mp ho
      cases heq
      exact Nat.lt_of_lt_of_le (ih hf _ _ hmore) he.length_le
    | joinNo => exact fun _ _ ho => nomatch ho
  | choice _ _ ihe ihf =>
    cases hmatch with
    | first he => exact ihe he
    | second _ hf => exact ihf hf

end SolidScript.Peg
