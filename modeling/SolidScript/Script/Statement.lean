import SolidScript.Text.Reader

/-!
# Statements as written

A line holds one call, perhaps with a name for its result. Between two pieces of a statement there may
be gaps: spaces, tabs and comments.
-/

namespace SolidScript.Script

/-- The part of a solid that is meant, with an edge index as it is written. -/
inductive Selector where
  | whole
  | face (name : String)
  | edge (index : String)
  | allEdges
deriving DecidableEq, Repr

inductive Term where
  | number (literal : String)
  | boolean (value : Bool)
  | text (content : String)
  | list (items : List Term)
  | reference (name : String) (selector : Selector)
deriving Repr

structure Argument where
  name : Option String
  term : Term
deriving Repr

structure Statement where
  binding : Option String
  callee : String
  arguments : List Argument
deriving Repr

namespace Grammar

/-! ## Gaps and marks -/

/-- The text behind a gap. A comment ends at the end of its line or at a carriage return. -/
def skipGap (inComment : Bool) : List Char → List Char
  | [] => []
  | c :: rest =>
    if inComment then
      if c = '\n' then c :: rest else skipGap (c != '\r') rest
    else if c = ' ' ∨ c = '\t' ∨ c = '\r' then skipGap false rest
    else match c, rest with
      | '/', '/' :: rest => skipGap true rest
      | _, _ => c :: rest

/-- Reads behind a gap. -/
def next {β : Type} (r : Reader β) : Reader β := fun text => r (skipGap false text)

/-- One character behind a gap. -/
def mark (c : Char) : Reader Unit := next (Reader.exactly (String.singleton c))

def isNameStart (c : Char) : Bool := c.isAlpha || c == '_'

def isNamePart (c : Char) : Bool := c.isAlphanum || c == '_'

def name : Reader String
  | c :: rest =>
    if isNameStart c then some (String.ofList (c :: rest.takeWhile isNamePart), rest.dropWhile isNamePart)
    else none
  | [] => none

/-- A word that is not the start of a longer name. -/
def word (w : String) : Reader Unit := fun text =>
  match Reader.exactly w text with
  | some (_, c :: rest) => if isNamePart c then none else some ((), c :: rest)
  | result => result

/-! ## Numbers -/

def sign : Reader (List Char)
  | '+' :: rest => some (['+'], rest)
  | '-' :: rest => some (['-'], rest)
  | rest => some ([], rest)

/-- Digits with a point before, between or behind them, or with none. -/
def mantissa : Reader (List Char) := fun text => do
  let (whole, rest) ← Reader.run Char.isDigit text
  match rest with
  | '.' :: rest' =>
    let (places, rest') ← Reader.run Char.isDigit rest'
    if whole.isEmpty && places.isEmpty then none else return (whole ++ '.' :: places, rest')
  | _ => if whole.isEmpty then none else return (whole, rest)

def exponent : Reader (List Char)
  | c :: rest =>
    if c = 'e' ∨ c = 'E' then do
      let (s, rest) ← sign rest
      let (digits, rest) ← Reader.someOf Char.isDigit rest
      return (c :: s ++ digits, rest)
    else none
  | [] => none

def number : Reader String := fun text => do
  let (s, rest) ← sign text
  let (m, rest) ← mantissa rest
  let (e, rest) ← Reader.optional exponent rest
  return (String.ofList (s ++ m ++ e.getD []), rest)

def integer : Reader String := fun text => do
  let (s, rest) := match text with
    | '-' :: rest => (['-'], rest)
    | rest => ([], rest)
  let (digits, rest) ← Reader.someOf Char.isDigit rest
  return (String.ofList (s ++ digits), rest)

/-! ## References -/

def faceSelector : Reader Selector := fun text => do
  let (_, rest) ← Reader.exactly "face" text
  let (_, rest) ← mark '.' rest
  let (face, rest) ← next name rest
  return (.face face, rest)

def starSelector : Reader Selector := fun text => do
  let (_, rest) ← Reader.exactly "edge" text
  let (_, rest) ← mark '[' rest
  let (_, rest) ← mark '*' rest
  let (_, rest) ← mark ']' rest
  return (.allEdges, rest)

def edgeSelector : Reader Selector := fun text => do
  let (_, rest) ← Reader.exactly "edge" text
  let (_, rest) ← mark '[' rest
  let (index, rest) ← next integer rest
  let (_, rest) ← mark ']' rest
  return (.edge index, rest)

/-- What follows the point behind a name. -/
def selected : Reader Selector :=
  faceSelector.orElse
    (((Reader.exactly "edges").map fun _ => .allEdges).orElse (starSelector.orElse edgeSelector))

def selector : Reader Selector := fun text => do
  let (_, rest) ← mark '.' text
  next selected rest

def reference : Reader Term := fun text => do
  let (n, rest) ← name text
  let (s, rest) ← Reader.optional selector rest
  return (.reference n (s.getD .whole), rest)

/-! ## Terms -/

/-- Characters up to the next quote. -/
def quoted : Reader String
  | '"' :: rest =>
    match rest.dropWhile (· != '"') with
    | _ :: behind => some (String.ofList (rest.takeWhile (· != '"')), behind)
    | [] => none
  | _ => none

def scalar : Reader Term :=
  (number.map .number).orElse
    (((word "true").map fun _ => .boolean true).orElse
      (((word "false").map fun _ => .boolean false).orElse ((quoted.map .text).orElse reference)))

/-- More items behind the first ones, up to the closing mark. The fuel bounds their number. -/
def moreItems {β : Type} (item : Reader β) (close : Char) : (fuel : Nat) → Array β → Reader (List β)
  | 0, _, _ => none
  | fuel + 1, found, text =>
    match mark ',' text with
    | none => ((mark close).map fun _ => found.toList) text
    | some (_, rest) =>
      match next item rest with
      | some (b, rest) => moreItems item close fuel (found.push b) rest
      | none => ((mark close).map fun _ => found.toList) rest

/-- Items up to a closing mark. A comma may stand behind the last one. -/
def items {β : Type} (item : Reader β) (close : Char) : Reader (List β) := fun text =>
  match next item text with
  | some (b, rest) => moreItems item close text.length #[b] rest
  | none => ((mark close).map fun _ => []) text

/-- Terms with lists nested up to a depth. -/
def term : (depth : Nat) → Reader Term
  | 0 => scalar
  | depth + 1 => scalar.orElse fun text => do
    let (_, rest) ← Reader.exactly "[" text
    (items (term depth) ']').map .list rest

/-! ## Calls -/

def named (depth : Nat) : Reader Argument := fun text => do
  let (n, rest) ← name text
  let (_, rest) ← (mark ':').orElse (mark '=') rest
  let (t, rest) ← next (term depth) rest
  return (⟨some n, t⟩, rest)

def argument (depth : Nat) : Reader Argument := (named depth).orElse ((term depth).map fun t => ⟨none, t⟩)

/-- The name of a result, and the equals sign behind it. -/
def bound : Reader String := fun text => do
  let (n, rest) ← name text
  let (_, rest) ← mark '=' rest
  return (n, rest)

def binding : Reader String :=
  Reader.orElse
    (fun text => do
      let (_, rest) ← (word "let").orElse (word "const") text
      next bound rest)
    bound

def statement : Reader Statement := fun text => do
  let (b, rest) ← Reader.optional binding text
  let (callee, rest) ← next name rest
  let (_, rest) ← mark '(' rest
  let (arguments, rest) ← items (argument text.length) ')' rest
  return (⟨b, callee, arguments⟩, rest)

end Grammar

/-- Reads a whole line. It may hold nothing but a gap. -/
def Statement.read? (text : List Char) : Option (Option Statement) :=
  let start := Grammar.skipGap false text
  match Grammar.statement start with
  | some (s, rest) =>
    let rest := match Grammar.mark ';' rest with
      | some (_, rest) => rest
      | none => rest
    if (Grammar.skipGap false rest).isEmpty then some (some s) else none
  | none => if start.isEmpty then some none else none

end SolidScript.Script
