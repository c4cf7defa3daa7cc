import SolidScript.Toml.Number

/-!
# Values

Lists may run over many lines. Tables in braces stand on one line.
-/

namespace SolidScript.Toml

/-- Items up to a closing bracket. A comma may stand behind the last one. The fuel bounds their number. -/
def arrayTail (item : Reader Toml) : (fuel : Nat) → Array Toml → Reader (List Toml)
  | 0, _, _ => none
  | fuel + 1, read, text =>
    match skipGap text with
    | ']' :: rest => some (read.toList, rest)
    | text => do
      let (t, rest) ← item text
      match skipGap rest with
      | ',' :: rest => arrayTail item fuel (read.push t) rest
      | ']' :: rest => return ((read.push t).toList, rest)
      | _ => none

def assignment (value : Reader Toml) : Reader (Path × Toml) := fun text => do
  let (p, rest) ← path text
  match skipSpace rest with
  | '=' :: rest =>
    let (t, rest) ← value (skipSpace rest)
    return ((p, t), rest)
  | _ => none

/-- Whether a value lies at one path, so that there is none at the other. -/
def conflict (p q : Path) : Bool := p.isPrefixOf q || q.isPrefixOf p

def clashes (fields : List (Path × Toml)) (p : Path) : Bool := fields.any fun f => conflict f.1 p

/-- Assignments on one line up to a closing brace. The fuel bounds their number. -/
def tableTail (value : Reader Toml) : (fuel : Nat) → List (Path × Toml) → Reader (List (Path × Toml))
  | 0, _, _ => none
  | fuel + 1, read, text => do
    let ((p, t), rest) ← assignment value (skipSpace text)
    if clashes read p then none
    match skipSpace rest with
    | ',' :: rest => tableTail value fuel (read ++ [(p, t)]) rest
    | '\x7d' :: rest => return (read ++ [(p, t)], rest)
    | _ => none

def inlineTable (value : Reader Toml) : Reader (List (Path × Toml)) := fun text =>
  match skipSpace text with
  | '\x7d' :: rest => some ([], rest)
  | rest => tableTail value text.length [] rest

/-- A value, with lists and tables nested up to a depth. -/
def value : (depth : Nat) → Reader Toml
  | depth, text =>
    match text, depth with
    | '[' :: rest, depth + 1 => ((arrayTail (value depth) rest.length #[]).map array) rest
    | '\x7b' :: rest, depth + 1 => ((inlineTable (value depth)).map table) rest
    | text, _ => (((string.map str).orElse dateOrTime).orElse number) text

end SolidScript.Toml
