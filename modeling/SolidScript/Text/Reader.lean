/-!
# Reading text piece by piece
-/

namespace SolidScript

/-! ## Blanks -/

/-- Whether a character has the Unicode property `White_Space`. -/
def isBlank (c : Char) : Bool :=
  let n := c.toNat
  (9 ≤ n && n ≤ 13) || n == 0x20 || n == 0x85 || n == 0xA0 || n == 0x1680 || (0x2000 ≤ n && n ≤ 0x200A) ||
    n == 0x2028 || n == 0x2029 || n == 0x202F || n == 0x205F || n == 0x3000

/-- Without blanks at the start. -/
def trimStart (text : List Char) : List Char := text.dropWhile isBlank

def trimEnd (text : List Char) : List Char := (text.reverse.dropWhile isBlank).reverse

def trim (text : List Char) : List Char := trimEnd (trimStart text)

/-! ## Readers -/

/-- Reads something at the start of a text, or refuses. What is left comes with it. -/
abbrev Reader (β : Type) := List Char → Option (β × List Char)

namespace Reader

variable {β γ : Type}

def map (f : β → γ) (r : Reader β) : Reader γ := fun text => (r text).map fun (b, rest) => (f b, rest)

/-- The first reader that does not refuse. -/
def orElse (r s : Reader β) : Reader β := fun text =>
  match r text with
  | some result => some result
  | none => s text

/-- Reads something or nothing. -/
def optional (r : Reader β) : Reader (Option β) := fun text =>
  match r text with
  | some (b, rest) => some (some b, rest)
  | none => some (none, text)

/-- A given text. -/
def exactly (word : String) : Reader Unit := fun text =>
  if word.toList.isPrefixOf text then some ((), text.drop word.length) else none

/-- As many characters of a class as there are. -/
def run (isMember : Char → Bool) : Reader (List Char) := fun text =>
  some (text.takeWhile isMember, text.dropWhile isMember)

/-- As many characters of a class as there are, and one at least. -/
def someOf (isMember : Char → Bool) : Reader (List Char) := fun text =>
  let found := text.takeWhile isMember
  if found.isEmpty then none else some (found, text.dropWhile isMember)

end Reader

end SolidScript
