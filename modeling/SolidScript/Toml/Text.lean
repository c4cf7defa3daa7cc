import SolidScript.Number.Decimal
import SolidScript.Text.Reader
import SolidScript.Toml.Basic

/-!
# Gaps, strings and keys
-/

namespace SolidScript.Toml

/-! ## Gaps and lines -/

def isSpace (c : Char) : Bool := c == ' ' || c == '\t'

def skipSpace (text : List Char) : List Char := text.dropWhile isSpace

/-- Control characters but the tab do not stand in any text. -/
def isControl (c : Char) : Bool := (c.toNat < 0x20 && c != '\t') || c.toNat == 0x7F

/-- What is left behind a comment, if there is one. -/
def skipComment : List Char → List Char
  | '#' :: rest => rest.dropWhile fun c => !isControl c
  | rest => rest

/-- One line break, if there is one. -/
def lineBreak : Reader Unit
  | '\n' :: rest => some ((), rest)
  | '\r' :: '\n' :: rest => some ((), rest)
  | _ => none

/-- The end of a line or of the text, perhaps behind a comment. -/
def lineEnd : Reader Unit := fun text =>
  match skipComment (skipSpace text) with
  | [] => some ((), [])
  | rest => lineBreak rest

/-- Lines without content. The fuel bounds their number. -/
def skipLines : (fuel : Nat) → List Char → List Char
  | 0, text => text
  | fuel + 1, text =>
    let rest := skipComment (skipSpace text)
    match lineBreak rest with
    | some (_, rest) => skipLines fuel rest
    | none => rest

/-- Spaces, comments and line breaks. -/
def skipGap (text : List Char) : List Char := skipLines text.length text

/-- Blanks and line breaks. The fuel bounds the number of lines. -/
def skipBlankLines : (fuel : Nat) → List Char → List Char
  | 0, text => text
  | fuel + 1, text =>
    let rest := skipSpace text
    match lineBreak rest with
    | some (_, rest) => skipBlankLines fuel rest
    | none => rest

/-! ## Strings -/

def hexValue? (digits : List Char) : Option Nat :=
  digits.foldlM (fun n c =>
    if c.isDigit then some (16 * n + (c.toNat - '0'.toNat))
    else if 'a' ≤ c.toLower ∧ c.toLower ≤ 'f' then some (16 * n + (c.toLower.toNat - 'a'.toNat + 10))
    else none) 0

/-- A character by its number in `n` hexadecimal digits. -/
def codePoint (n : Nat) : Reader Char := fun text => do
  let digits := text.take n
  let k ← hexValue? digits
  if digits.length = n ∧ k.isValidChar then return (Char.ofNat k, text.drop n) else none

def escape : Reader Char
  | 'b' :: rest => some ('\x08', rest)
  | 't' :: rest => some ('\t', rest)
  | 'n' :: rest => some ('\n', rest)
  | 'f' :: rest => some ('\x0c', rest)
  | 'r' :: rest => some ('\r', rest)
  | '"' :: rest => some ('"', rest)
  | '\\' :: rest => some ('\\', rest)
  | 'u' :: rest => codePoint 4 rest
  | 'U' :: rest => codePoint 8 rest
  | _ => none

/-- Up to the closing quote, with escapes. The fuel bounds the number of characters. -/
def basicTail : (fuel : Nat) → Array Char → Reader String
  | fuel + 1, read, c :: rest =>
    if c = '"' then some (String.ofList read.toList, rest)
    else if c = '\\' then do
      let (e, rest) ← escape rest
      basicTail fuel (read.push e) rest
    else if isControl c then none
    else basicTail fuel (read.push c) rest
  | _, _, _ => none

def singleQuote : Char := '\x27'

/-- Up to the next single quote, as it stands. -/
def literalTail : Reader String := fun text =>
  let content := text.takeWhile fun c => c != singleQuote && !isControl c
  match text.drop content.length with
  | c :: rest => if c = singleQuote then some (String.ofList content, rest) else none
  | [] => none

/-- A string on one line. -/
def quoted : Reader String := fun text =>
  match text with
  | '"' :: rest => basicTail rest.length #[] rest
  | c :: rest => if c = singleQuote then literalTail rest else none
  | [] => none

/-! ## Strings over many lines -/

/-- The blanks behind a backslash at the end of a line, with the blanks that start the next lines. -/
def lineJoin : Reader Unit := fun text => do
  let (_, rest) ← lineBreak (skipSpace text)
  return ((), skipBlankLines rest.length rest)

/-- One character of a string that is closed by three marks. Three marks are no part of it, but one or
two marks are, also right before the closing ones. -/
def multiTail (mark : Char) (escapes : Bool) : (fuel : Nat) → Array Char → Reader String
  | fuel + 1, read, c :: rest =>
    if c = mark then
      let marks := (c :: rest).takeWhile (· == mark)
      if marks.length < 3 then
        multiTail mark escapes fuel (read ++ marks.toArray) (rest.drop (marks.length - 1))
      else
        let kept := min 2 (marks.length - 3)
        some (String.ofList (read.toList ++ marks.take kept), (c :: rest).drop (kept + 3))
    else if escapes && c = '\\' then
      match lineJoin rest with
      | some (_, rest) => multiTail mark escapes fuel read rest
      | none => do
        let (e, rest) ← escape rest
        multiTail mark escapes fuel (read.push e) rest
    else match lineBreak (c :: rest) with
      | some (_, rest) => multiTail mark escapes fuel (read.push '\n') rest
      | none => if isControl c then none else multiTail mark escapes fuel (read.push c) rest
  | _, _, _ => none

/-- A line break right behind the opening marks does not count. -/
def multiLine (mark : Char) (escapes : Bool) : Reader String := fun text => do
  let (_, rest) ← Reader.exactly (String.ofList [mark, mark, mark]) text
  let rest := match lineBreak rest with
    | some (_, rest) => rest
    | none => rest
  multiTail mark escapes (rest.length + 1) #[] rest

def string : Reader String := ((multiLine '"' true).orElse (multiLine singleQuote false)).orElse quoted

/-! ## Keys -/

def isBareKeyPart (c : Char) : Bool := c.isAlphanum || c == '_' || c == '-'

def key : Reader String := quoted.orElse ((Reader.someOf isBareKeyPart).map String.ofList)

/-- Keys with points between them. The fuel bounds their number. -/
def pathTail : (fuel : Nat) → Reader Path
  | 0, text => some ([], text)
  | fuel + 1, text =>
    match skipSpace text with
    | '.' :: rest => do
      let (k, rest) ← key (skipSpace rest)
      let (more, rest) ← pathTail fuel rest
      return (k :: more, rest)
    | _ => some ([], text)

/-- Tables, lists and keys with points nest less deeply than this. -/
def maxDepth : Nat := 80

def path : Reader Path := fun text => do
  let (k, rest) ← key text
  let (more, rest) ← pathTail rest.length rest
  if more.length + 1 < maxDepth then return (k :: more, rest) else none

end SolidScript.Toml
