import SolidScript.Json.Basic

/-!
# Reading records

A record is an object with named fields. Where a list may stand for it, the fields come in the order
of their names. Fields that nobody asks for are passed over.
-/

namespace SolidScript

structure Record where
  /-- Whether the fields came with their names. -/
  named : Bool
  fields : List (String × Json)

namespace Record

def ofObject? (j : Json) : Option Record := j.obj?.map (Record.mk true)

/-- An object, or a list with at most one item for each name. -/
def of? (names : List String) (j : Json) : Option Record :=
  match j with
  | .obj fields => some ⟨true, fields⟩
  | .arr items => if items.length ≤ names.length then some ⟨false, names.zip items⟩ else none
  | _ => none

variable {β : Type}

def get? (r : Record) (name : String) : Option Json := r.fields.lookup name

def need (r : Record) (name : String) (read : Json → Option β) : Option β := r.get? name >>= read

def getOr (r : Record) (name : String) (read : Json → Option β) (absent : β) : Option β :=
  match r.get? name with
  | some j => read j
  | none => some absent

/-- `null` reads as absent. -/
def nullable (read : Json → Option β) : Json → Option (Option β)
  | .null => some none
  | j => (read j).map some

/-- A field that may be missing or `null`. -/
def optional (r : Record) (name : String) (read : Json → Option β) : Option (Option β) :=
  r.getOr name (nullable read) none

end Record

namespace Json

variable {β : Type}

def listOf? (read : Json → Option β) (j : Json) : Option (List β) := j.arr? >>= (·.mapM read)

/-- Whole numbers of 32, of 64 and of signed 64 bits. -/
def nat32? : Json → Option Nat := natural? 32

def nat64? : Json → Option Nat := natural? 64

def int64? : Json → Option Int
  | int n => if fitsSigned 64 n then some n else none
  | _ => none

/-- A name, or an object with one field of that name that holds nothing. -/
def tag? : Json → Option String
  | str s => some s
  | obj [(name, null)] => some name
  | obj [(name, obj [])] => some name
  | _ => none

def oneOf? (ofName? : String → Option β) (j : Json) : Option β := tag? j >>= ofName?

end Json

end SolidScript
