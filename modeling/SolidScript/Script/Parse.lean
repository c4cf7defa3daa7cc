import SolidScript.Model.Diagnostic
import SolidScript.Script.Call
import SolidScript.Text.Reader

/-!
# Scripts

Each line is read by itself, so that a bad statement never harms its neighbours. An entry gets the
name it is bound to, or one made from what it is.
-/

namespace SolidScript.Script

/-- The statement of a line. Blank lines and comments hold none, but a comment that starts with an at
sign holds what follows the sign. -/
def statementText? (line : List Char) : Option (List Char) :=
  match trim line with
  | [] => none
  | '/' :: '/' :: comment =>
    match trimStart comment with
    | '@' :: text => if (trim text).isEmpty then none else some text
    | _ => none
  | text => some text

structure Progress where
  /-- In the order of their lines. -/
  entries : List Entry
  /-- Names that are given away. -/
  taken : List String
  /-- For each stem the last number that was put behind it. -/
  numbers : List (String × Nat)

namespace Progress

def start : Progress := ⟨[], [], []⟩

def contains (p : Progress) (id : String) : Bool := p.taken.contains id

/-- The first number from `k + 1` on that makes a free name. When as many numbers were tried as there
are names, the next one is free. -/
def freeNumber (p : Progress) (stem : String) : (tries : Nat) → Nat → Nat
  | 0, k => k + 1
  | tries + 1, k => if p.contains (stem ++ toString (k + 1)) then p.freeNumber stem tries (k + 1) else k + 1

/-- Puts the next number behind a stem. The first number is `first`. -/
def numbered (p : Progress) (stem : String) (first : Nat) : Progress × String :=
  let k := p.freeNumber stem p.taken.length ((p.numbers.lookup stem).getD (first - 1))
  ({ p with numbers := (stem, k) :: p.numbers }, stem ++ toString k)

/-- The stem for what makes a solid of its own. -/
def stem (statement : String) : Operation → String
  | .primitive (.cylinder ..) => "cyl"
  | _ => statement

/-- A name for an entry that is not bound to one: source and statement, or the statement and a number. -/
def freshId (p : Progress) (statement : String) (o : Operation) : Progress × String :=
  match o with
  | .boolean .. => p.numbered statement 1
  | _ =>
    match o.sources with
    | source :: _ =>
      let base := source ++ "_" ++ statement
      if p.contains base then p.numbered (base ++ "_") 2 else (p, base)
    | [] => p.numbered (stem statement o) 1

def take (p : Progress) (id : String) : Progress := { p with taken := id :: p.taken }

def push (p : Progress) (e : Entry) : Progress := { p with entries := p.entries ++ [e] }

/-- Adds what a statement asks for. A name that is already taken keeps its first meaning. -/
def accept (p : Progress) (line : Nat) (s : Statement) (o : Operation) : Progress :=
  match s.binding with
  | some id => if p.contains id then p else (p.take id).push ⟨id, line, o⟩
  | none =>
    let (p, id) := p.freshId s.callee o
    (p.take id).push ⟨id, line, o⟩

def addStatement (config : Config) (p : Progress) (line : Nat) (s : Statement) :
    Except ScriptError Progress := do
  let arguments ← Arguments.ofStatement s
  let o ← arguments.operation config
  return p.accept line s o

def addText [SyntaxReport] (config : Config) (p : Progress) (line : Nat) (text : List Char) : Except ScriptError Progress :=
  match Statement.read? text with
  | none => throw (.malformed (SyntaxReport.ofText text))
  | some none => pure p
  | some (some s) => p.addStatement config line s

end Progress

def rejection (line : Nat) (e : ScriptError) : Diagnostic :=
  ⟨.parseRejection, none, Diagnostic.lineOf line, e.message⟩

/-- The lines of a text, counted from one. -/
def numberedLines (text : String) : List (List Char × Nat) := (text.toList.splitOn '\n').zipIdx 1

/-- The entries of a script, and a diagnostic for each statement that was dropped. -/
def parse [SyntaxReport] (config : Config) (script : String) : Specification × List Diagnostic :=
  let (p, rejected) := (numberedLines script).foldl (fun (p, rejected) (line, n) =>
    match statementText? line with
    | none => (p, rejected)
    | some text =>
      match p.addText config n text with
      | .ok p => (p, rejected)
      | .error e => (p, rejected.push (rejection n e))) (Progress.start, (#[] : Array Diagnostic))
  (Specification.ofEntries p.entries, rejected.toList)

end SolidScript.Script
