/-!
# Keys and values

What a TOML text may hold. Dates and times are kept as they are written.
-/

namespace SolidScript

inductive Toml where
  | str (s : String)
  | integer (n : Int)
  | float (x : Float)
  | boolean (b : Bool)
  | date (text : String)
  | array (items : List Toml)
  /-- A table in braces. Its keys may be written with points. -/
  | table (fields : List (List String × Toml))

namespace Toml

/-- A key with the tables that it lies in. -/
abbrev Path := List String

/-- Whether it is a list or a table without content. -/
def isBare : Toml → Bool
  | array [] => true
  | table [] => true
  | _ => false

end Toml

end SolidScript
