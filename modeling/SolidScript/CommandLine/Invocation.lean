import SolidScript.Config.Basic

/-!
# Arguments of the command

Options come in any order, each of them once, and one argument may name the script. Behind `--` nothing
is an option.
-/

namespace SolidScript

structure Invocation where
  /-- Without a script file, or with `-`, the script comes from standard input. -/
  file : Option String
  graph : Bool
  summary : Bool
  pretty : Bool
  config : Option String
  order : Option EvaluationOrder
deriving DecidableEq, Repr

inductive Command where
  | run (i : Invocation)
  | help
  | version
deriving DecidableEq, Repr

namespace Invocation

def start : Invocation := ⟨none, false, false, false, none, none⟩

inductive Flag where
  | graph
  | summary
  | pretty
deriving DecidableEq, Repr

inductive Setting where
  | config
  | order
deriving DecidableEq, Repr

/-- What an argument starts. -/
inductive Token where
  | flag (f : Flag)
  /-- A value that stands in the same argument comes along. -/
  | setting (s : Setting) (value : Option String)
  | help
  | version
  /-- What follows is no option. -/
  | endOfOptions
  | file (name : String)
  | unknown
deriving DecidableEq, Repr

/-- The file that holds the script, if it is one. -/
def scriptFile (i : Invocation) : Option String := i.file.filter (· != "-")

/-! ## Tokens -/

def longName (name : List Char) (value : Option String) : Token :=
  match String.ofList name, value with
  | "graph", none => .flag .graph
  | "summary", none => .flag .summary
  | "pretty", none => .flag .pretty
  | "help", none => .help
  | "version", none => .version
  | "config", value => .setting .config value
  | "order", value => .setting .order value
  | _, _ => .unknown

/-- A short name, with the value behind it or behind an equals sign. -/
def shortName : List Char → Token
  | 'c' :: [] => .setting .config none
  | 'c' :: '=' :: value => .setting .config (some (String.ofList value))
  | 'c' :: value => .setting .config (some (String.ofList value))
  | 'h' :: _ => .help
  | 'V' :: _ => .version
  | _ => .unknown

def token (argument : String) : Token :=
  match argument.toList with
  | '-' :: '-' :: [] => .endOfOptions
  | '-' :: '-' :: long =>
    let name := long.takeWhile (· != '=')
    match long.drop name.length with
    | _ :: value => longName name (some (String.ofList value))
    | [] => longName name none
  | '-' :: c :: short => shortName (c :: short)
  | _ => .file argument

/-! ## Options -/

def setFlag (i : Invocation) : Flag → Option Invocation
  | .graph => if i.graph then none else some { i with graph := true }
  | .summary => if i.summary then none else some { i with summary := true }
  | .pretty => if i.pretty then none else some { i with pretty := true }

/-- A file has a name. -/
def setFile (i : Invocation) (name : String) : Option Invocation :=
  if name.isEmpty || i.file.isSome then none else some { i with file := some name }

def setValue (i : Invocation) (s : Setting) (value : String) : Option Invocation :=
  match s with
  | .config => if value.isEmpty || i.config.isSome then none else some { i with config := some value }
  | .order =>
    if i.order.isSome then none
    else (EvaluationOrder.ofName? value).map fun order => { i with order := some order }

/-- Arguments of which none is an option. -/
def readFiles (i : Invocation) (arguments : List String) : Option Command :=
  (arguments.foldlM setFile i).map .run

/-- Reads arguments from the first on. Asking for help ends it. -/
def read (i : Invocation) : List String → Option Command
  | [] => some (.run i)
  | argument :: rest =>
    match token argument with
    | .flag f => (i.setFlag f).bind (read · rest)
    | .setting s (some value) => (i.setValue s value).bind (read · rest)
    | .setting s none =>
      match rest with
      | value :: rest =>
        match token value with
        | .file value => (i.setValue s value).bind (read · rest)
        | _ => none
      | [] => none
    | .help => some .help
    | .version => some .version
    | .endOfOptions => readFiles i rest
    | .file name => (i.setFile name).bind (read · rest)
    | .unknown => none

end Invocation

/-- Graph and summary exclude each other. -/
def Command.isSound : Command → Bool
  | .run i => !(i.graph && i.summary)
  | _ => true

/-- Refuses arguments that make no sense. -/
def Command.ofArguments? (arguments : List String) : Option Command :=
  (Invocation.start.read arguments).filter Command.isSound

end SolidScript
