import ButtonDialog.Json.Number
import ButtonDialog.NameTable

/-! JSON values.

    An object keeps its members in the order of the text, repeated names included. Who needs one
    value per name takes the `table` of the members: there a later member replaces an earlier one
    of the same name, and the names stand in order. -/

namespace ButtonDialog

/-- A JSON value. -/
inductive Json where
  | null
  | bool (b : Bool)
  | number (n : Json.Number)
  | text (s : String)
  | array (elements : List Json)
  | object (members : List (String × Json))

namespace Json

instance : Inhabited Json := ⟨null⟩

/-- The number of a 64-bit integer. -/
def int64 (n : Int64) : Json := .number (.ofInt64 n)

/-- The number of a count. -/
def count (n : Nat) : Json := .number (.integer n)

/-- A value that may be absent; `null` stands for the absent one. -/
def optional {α : Type} (f : α → Json) : Option α → Json
  | none => .null
  | some a => f a

def isNull : Json → Bool
  | .null => true
  | _ => false

def toBool? : Json → Option Bool
  | .bool b => some b
  | _ => none

def toInt64? : Json → Option Int64
  | .number n => n.toInt64?
  | _ => none

def toText? : Json → Option String
  | .text s => some s
  | _ => none

def toArray? : Json → Option (List Json)
  | .array elements => some elements
  | _ => none

/-- The members of an object, one value a name, in the order of the names. -/
def toTable? : Json → Option (NameTable Json)
  | .object members => some (.ofList members)
  | _ => none

/-- A value that may be `null`: absent then, else what `f` makes of it. -/
def nullable? {α : Type} (f : Json → Option α) (v : Json) : Option (Option α) :=
  if v.isNull then some none else (f v).map some

end Json

end ButtonDialog
