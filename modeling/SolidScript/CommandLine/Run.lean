import SolidScript.CommandLine.Invocation
import SolidScript.CommandLine.Summary
import SolidScript.Config.Load
import SolidScript.Json.Writer
import SolidScript.Kernel

/-!
# The command

Reads a configuration and a script and writes what the script makes. The command reaches files, standard
input and environment variables only through its surroundings.
-/

namespace SolidScript

inductive FileError where
  | absent
  | directory
  /-- A file stands where the path goes on. -/
  | notDirectory
  | nameTooLong
  /-- The bytes are no UTF-8 text. -/
  | notText
  | unreadable (reason : String)
deriving DecidableEq, Repr

def FileError.message : FileError → String
  | absent => "No such file or directory (os error 2)"
  | directory => "Is a directory (os error 21)"
  | notDirectory => "Not a directory (os error 20)"
  | nameTooLong => "File name too long (os error 36)"
  | notText => "stream did not contain valid UTF-8"
  | unreadable reason => reason

structure Surroundings (m : Type → Type) where
  fileText : String → m (Except FileError String)
  inputText : m (Except FileError String)
  getVariable : String → m (Option String)

structure Outcome where
  code : Nat
  output : List String
  errors : List String
  /-- Whether the time that was taken is to be shown. -/
  timed : Bool

namespace Outcome

def success (output : List String) : Outcome := ⟨0, output, [], false⟩

/-- The command could not do its work. -/
def failure (message : String) : Outcome := ⟨1, [], ["Error: " ++ message], false⟩

/-- The command was called in a way that makes no sense. -/
def misuse (message : String) : Outcome := ⟨2, [], [message], false⟩

end Outcome

namespace CommandLine

def commandName : String := "solidscript"

def versionText : String := commandName ++ " 0.1.0"

def usage : String :=
  "Usage: " ++ commandName ++ " [--graph | --summary] [--pretty] [--order ORDER] [--config FILE] [FILE]"

/-- Read in the working directory when no other file is named. -/
def standardConfigFile : String := "kcl.toml"

/-! ## Configuration -/

/-- What a configuration file holds. Only one that was asked for has to be there. -/
def configOfFile (asked : Option String) (content : Except FileError String) : Except ConfigError Config :=
  let path := asked.getD standardConfigFile
  match content, asked with
  | .ok text, _ => Config.ofText path text
  | .error .absent, none => pure {}
  | .error e, _ => throw (.unreadable path e.message)

/-- Variables override the file, and the command line overrides both. -/
def configOf (i : Invocation) (content : Except FileError String) (lookUp : String → Option String) :
    Except ConfigError Config := do
  match (← configOfFile i.config content).applyOverrides lookUp with
  | (_, some e) => throw e
  | (c, none) => return { c with order := i.order.getD c.order }

/-! ## Script -/

def sourceFailure (i : Invocation) (e : FileError) : String :=
  "Failed to read script " ++ i.scriptFile.getD "from stdin" ++ ": " ++ e.message

def writeJson (i : Invocation) (j : Json) : Outcome :=
  Outcome.success ((j.write (if i.pretty then Json.indented else Json.compact)).splitOn "\n")

/-- Answers with the result of a run, unless the whole graph or a summary is asked for. -/
def answer [Script.SyntaxReport] (i : Invocation) (config : Config) (source : Except FileError String) : Outcome :=
  match source with
  | .error e =>
    if i.graph || i.summary then Outcome.failure (sourceFailure i e)
    else writeJson i (RunResult.failure (sourceFailure i e)).toJson
  | .ok script =>
    let e := (Kernel.standard config).evaluateScript script
    if i.graph then writeJson i e.toJson
    else if i.summary then { Outcome.success (Summary.lines e) with timed := true }
    else writeJson i (RunResult.ofEvaluation e).toJson

/-! ## Effects -/

variable {m : Type → Type} [Monad m]

/-- The script is read once the configuration is known to be good. -/
def runInvocation [Script.SyntaxReport] (s : Surroundings m) (i : Invocation) : m Outcome := do
  let content ← s.fileText (i.config.getD standardConfigFile)
  let found ← Config.variableNames.filterMapM fun name => do
    return (← s.getVariable name).map fun value => (name, value)
  match configOf i content fun name => found.lookup name with
  | .error e => return Outcome.failure e.message
  | .ok config =>
    let source ← match i.scriptFile with
      | some path => s.fileText path
      | none => s.inputText
    return answer i config source

def run [Script.SyntaxReport] (s : Surroundings m) (arguments : List String) : m Outcome :=
  match Command.ofArguments? arguments with
  | some (.run i) => runInvocation s i
  | some .help => pure (Outcome.success [usage])
  | some .version => pure (Outcome.success [versionText])
  | none => pure (Outcome.misuse usage)

end CommandLine

end SolidScript
