import SolidScript.Script.Parse

/-!
# Lines that are rejected

A line is rejected for what stands in it, wherever it stands in a script.
-/

namespace SolidScript.Script

namespace Progress

def error? {β : Type} : Except ScriptError β → Option ScriptError
  | .ok _ => none
  | .error e => some e

theorem error?_bind_congr {β γ δ : Type} (x : Except ScriptError β) {f : β → Except ScriptError γ}
    {g : β → Except ScriptError δ} (h : ∀ b, error? (f b) = error? (g b)) : error? (x >>= f) = error? (x >>= g) := by
  cases x with
  | error e => rfl
  | ok b => exact h b

theorem error?_addStatement (config : Config) (p q : Progress) (m n : Nat) (s : Statement) :
    error? (p.addStatement config m s) = error? (q.addStatement config n s) := by
  unfold addStatement
  apply error?_bind_congr
  intro arguments
  apply error?_bind_congr
  intro o
  rfl

theorem error?_addText [SyntaxReport] (config : Config) (p q : Progress) (m n : Nat) (text : List Char) :
    error? (p.addText config m text) = error? (q.addText config n text) := by
  unfold addText
  split
  · rfl
  · rfl
  · exact error?_addStatement config p q m n _

end Progress

/-- Why a line is rejected, if it is, where it is a script of its own. -/
def refusal? [SyntaxReport] (config : Config) (line : List Char) : Option ScriptError :=
  statementText? line >>= fun text => Progress.error? (Progress.start.addText config 1 text)

def rejection? [SyntaxReport] (config : Config) (numbered : List Char × Nat) : Option Diagnostic :=
  (refusal? config numbered.1).map (rejection numbered.2)

def rejections [SyntaxReport] (config : Config) (script : String) : List Diagnostic :=
  (numberedLines script).filterMap (rejection? config)

def readLine [SyntaxReport] (config : Config) (state : Progress × Array Diagnostic) (numbered : List Char × Nat) :
    Progress × Array Diagnostic :=
  match statementText? numbered.1 with
  | none => state
  | some text =>
    match state.1.addText config numbered.2 text with
    | .ok p => (p, state.2)
    | .error e => (state.1, state.2.push (rejection numbered.2 e))

theorem readLine_rejected [SyntaxReport] (config : Config) (state : Progress × Array Diagnostic)
    (numbered : List Char × Nat) :
    (readLine config state numbered).2.toList = state.2.toList ++ (rejection? config numbered).toList := by
  unfold readLine rejection? refusal?
  cases statementText? numbered.1 with
  | none => simp
  | some text =>
    have herror := Progress.error?_addText config Progress.start state.1 1 numbered.2 text
    simp only [Option.bind_eq_bind, Option.bind_some, herror]
    cases state.1.addText config numbered.2 text <;> simp [Progress.error?]

theorem foldl_readLine_rejected [SyntaxReport] (config : Config) (lines : List (List Char × Nat))
    (state : Progress × Array Diagnostic) :
    (lines.foldl (readLine config) state).2.toList = state.2.toList ++ lines.filterMap (rejection? config) := by
  induction lines generalizing state with
  | nil => simp
  | cons numbered rest ih =>
    rw [List.foldl_cons, ih, readLine_rejected, List.append_assoc, List.filterMap_cons]
    cases rejection? config numbered <;> simp

theorem parse_rejected [SyntaxReport] (config : Config) (script : String) :
    (parse config script).2 = rejections config script :=
  foldl_readLine_rejected config (numberedLines script) (Progress.start, #[])

end SolidScript.Script
