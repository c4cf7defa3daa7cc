import SolidScript.Toml.Value

/-!
# Documents of keys and values

A document is a list of assignments, under headers that name tables. No key is given twice, what has a
value is no table, and a table has one place where it is opened.
-/

namespace SolidScript

/-- How a table came to be. -/
inductive TomlOrigin where
  /-- It has a header of its own. -/
  | opened
  /-- A header of a table within it passes through it. -/
  | passed
  /-- A key with points passes through it. -/
  | dotted
deriving DecidableEq, Repr

inductive TomlItem where
  | value (t : Toml)
  | table (origin : TomlOrigin) (fields : List (String × TomlItem))
  /-- A list of tables, each with a header of its own. -/
  | tables (items : List (List (String × TomlItem)))

namespace TomlItem

abbrev Fields := List (String × TomlItem)

/-- Whether it is a table or a list without content. -/
def isBare : TomlItem → Bool
  | value t => t.isBare
  | table _ fields => fields.isEmpty
  | tables _ => false

/-! ## Tables in tables -/

/-- Puts an item under a name that has one already. -/
def replace (fields : Fields) (name : String) (item : TomlItem) : Fields :=
  fields.map fun f => if f.1 == name then (name, item) else f

/-- Alters the table at a path, and makes those on the way that are missing. Of a list of tables the
last one is meant. A key with points does not lead into a table that has a header. -/
def within (isDotted : Bool) (alter : TomlOrigin → Fields → Option Fields) :
    Toml.Path → TomlOrigin → Fields → Option Fields
  | [], origin, fields => alter origin fields
  | name :: rest, _, fields =>
    match fields.lookup name with
    | none => do
      let origin : TomlOrigin := if isDotted then .dotted else .passed
      return fields ++ [(name, table origin (← within isDotted alter rest origin []))]
    | some (value _) => none
    | some (table origin inner) => do
      if isDotted && origin == .opened then none
      return replace fields name (table origin (← within isDotted alter rest origin inner))
    | some (tables items) => do
      let last ← items.getLast?
      return replace fields name (tables (items.dropLast ++ [← within isDotted alter rest .opened last]))

/-! ## Statements -/

/-- Gives a value to a name that has none. A key with points ends in a table that such keys have made. -/
def put (isDotted : Bool) (name : String) (t : Toml) (origin : TomlOrigin) (fields : Fields) : Option Fields :=
  if isDotted != (origin == .dotted) || (fields.lookup name).isSome then none
  else some (fields ++ [(name, value t)])

/-- Opens a table, unless it has a header or keys with points have made it. -/
def openTable (name : String) (fields : Fields) : Option Fields :=
  match fields.lookup name with
  | none => some (fields ++ [(name, table .opened [])])
  | some (table .passed inner) => some (replace fields name (table .opened inner))
  | some _ => none

/-- Puts one more table at the end of a list of tables. -/
def openNext (name : String) (fields : Fields) : Option Fields :=
  match fields.lookup name with
  | none => some (fields ++ [(name, tables [[]])])
  | some (tables items) => some (replace fields name (tables (items ++ [[]])))
  | some _ => none

end TomlItem

/-- The items outside of all tables. -/
structure TomlDocument where
  fields : TomlItem.Fields

namespace TomlDocument

open Toml

/-- A document, and the table that the next assignment goes to. -/
structure Progress where
  document : TomlDocument
  current : Path

namespace Progress

/-- Alters the table at a path that a header names. -/
def alter (p : Progress) (path : Path) (f : TomlOrigin → TomlItem.Fields → Option TomlItem.Fields) :
    Option TomlDocument :=
  (TomlItem.within false f path .opened p.document.fields).map fun fields => ⟨fields⟩

def assign (p : Progress) (key : Path) (t : Toml) : Option Progress := do
  let name ← key.getLast?
  let way := key.dropLast
  let put := TomlItem.put (!way.isEmpty) name t
  return ⟨← p.alter p.current (TomlItem.within true put way), p.current⟩

def header (p : Progress) (target : Path) : Option Progress := do
  let name ← target.getLast?
  return ⟨← p.alter target.dropLast fun _ => TomlItem.openTable name, target⟩

def listHeader (p : Progress) (target : Path) : Option Progress := do
  let name ← target.getLast?
  return ⟨← p.alter target.dropLast fun _ => TomlItem.openNext name, target⟩

end Progress

/-! ## Lines -/

/-- The line that starts the text. -/
def line (p : Progress) (text : List Char) : Option (Progress × List Char) := do
  match text with
  | '[' :: '[' :: rest =>
    let (target, rest) ← path (skipSpace rest)
    let (_, rest) ← Reader.exactly "]]" (skipSpace rest)
    let (_, rest) ← lineEnd rest
    return (← p.listHeader target, rest)
  | '[' :: rest =>
    let (target, rest) ← path (skipSpace rest)
    let (_, rest) ← Reader.exactly "]" (skipSpace rest)
    let (_, rest) ← lineEnd rest
    return (← p.header target, rest)
  | text =>
    let ((key, t), rest) ← assignment (value (maxDepth - 1)) text
    let (_, rest) ← lineEnd rest
    return (← p.assign key t, rest)

/-- Reads line after line. The fuel bounds their number. -/
def lines : (fuel : Nat) → Progress → List Char → Option TomlDocument
  | 0, _, _ => none
  | fuel + 1, p, text =>
    match skipGap text with
    | [] => some p.document
    | text => do
      let (p, rest) ← line p text
      lines fuel p rest

/-- A byte order mark may come first. -/
def read? (text : String) : Option TomlDocument :=
  let chars := match text.toList with
    | '\ufeff' :: rest => rest
    | chars => chars
  lines (chars.length + 1) ⟨⟨[]⟩, []⟩ chars

def get? (d : TomlDocument) (name : String) : Option TomlItem := d.fields.lookup name

end TomlDocument

end SolidScript
