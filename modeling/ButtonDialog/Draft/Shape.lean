import ButtonDialog.Json.Basic
import ButtonDialog.Text.AsciiCase

/-! The shape that a JSON value must have at a place in a document.

    A place is the path that leads to it from the root. Fields are found by name up to letter
    case, the first in the order of names winning, and a field that is `null` counts as absent. -/

namespace ButtonDialog.Draft

/-- One step of a path. -/
inductive PathStep where
  | field (name : String)
  | index (n : Nat)
  deriving DecidableEq

/-- The steps from the root to a place. -/
abbrev Path := List PathStep

namespace Path

/-- A step in writing, after others. -/
def stepText : PathStep → String
  | .field name => "." ++ name
  | .index n => "[" ++ toString n ++ "]"

/-- Steps in writing, after others. -/
def tailText (steps : Path) : String := String.join (steps.map stepText)

/-- A path in writing. A field of the root stands after a dollar sign when it ends the path. -/
def render : Path → String
  | [] => "root"
  | [.field name] => "$." ++ name
  | .field name :: steps => name ++ tailText steps
  | steps => tailText steps

end Path

/-- What a value is expected to be. -/
inductive Shape where
  | object
  | integer
  | boolean
  | string
  | array
  | languageMap
  | choiceRow
  deriving DecidableEq

/-- A place where a value is not what it is expected to be. -/
structure ShapeError where
  path : Path
  expected : Shape
  deriving DecidableEq

/-- The text of a shape error. -/
def ShapeError.message (e : ShapeError) : String :=
  e.path.render ++
    match e.expected with
    | .object => " must be an object"
    | .integer => ": expected integer"
    | .boolean => ": expected boolean"
    | .string => ": expected string"
    | .array => ": expected array"
    | .languageMap => ": expected language map"
    | .choiceRow => ": expected array of options"

/-- A value that has been found, or the error of the place where it should be. -/
def expect {α : Type} (path : Path) (expected : Shape) : Option α → Except ShapeError α
  | some a => .ok a
  | none => .error ⟨path, expected⟩

/-- Reads every element of an array, the elements from number `n` on being left. -/
def eachFrom {α : Type} (path : Path) (f : Path → Json → Except ShapeError α) :
    Nat → List Json → Except ShapeError (List α)
  | _, [] => .ok []
  | n, v :: vs => do
    let a ← f (path ++ [.index n]) v
    let as ← eachFrom path f (n + 1) vs
    return a :: as

/-- Reads every element of an array. -/
def each {α : Type} (path : Path) (f : Path → Json → Except ShapeError α) (vs : List Json) :
    Except ShapeError (List α) :=
  eachFrom path f 0 vs

/-- An object at a place. -/
structure Record where
  path : Path
  members : NameTable Json

namespace Record

/-- The object at a place. -/
def ofJson (path : Path) (v : Json) : Except ShapeError Record := do
  return ⟨path, ← expect path .object v.toTable?⟩

/-- The place of a field. -/
def fieldPath (r : Record) (name : String) : Path := r.path ++ [.field name]

/-- The value of a field, unless it is absent or `null`. -/
def field? (r : Record) (name : String) : Option Json :=
  ((r.members.rows.find? fun m => Text.sameLetters m.1 name).map (·.2)).filter fun v => !v.isNull

/-- The value of a field in a shape, if the field is there. -/
def shaped {α : Type} (r : Record) (name : String) (shape : Shape) (f : Json → Option α) :
    Except ShapeError (Option α) :=
  match r.field? name with
  | none => .ok none
  | some v => (expect (r.fieldPath name) shape (f v)).map some

/-- An integer, if there is one. -/
def integer (r : Record) (name : String) : Except ShapeError (Option Int64) :=
  r.shaped name .integer Json.toInt64?

/-- A text, if there is one. -/
def string (r : Record) (name : String) : Except ShapeError (Option String) :=
  r.shaped name .string Json.toText?

/-- A flag, down unless it is there. -/
def flag (r : Record) (name : String) : Except ShapeError Bool := do
  return (← r.shaped name .boolean Json.toBool?).getD false

/-- The elements of an array read one by one, none unless the array is there. -/
def list {α : Type} (r : Record) (name : String) (f : Path → Json → Except ShapeError α) :
    Except ShapeError (List α) := do
  let vs := (← r.shaped name .array Json.toArray?).getD []
  each (r.fieldPath name) f vs

/-- The texts of a language map, in the order of the languages. -/
def texts (path : Path) : List (String × Json) → Except ShapeError (List (String × String))
  | [] => .ok []
  | (language, v) :: members => do
    let text ← expect (path ++ [.field language]) .string v.toText?
    let rest ← texts path members
    return (language, text) :: rest

/-- A language map, empty unless it is there. -/
def languageText (r : Record) (name : String) : Except ShapeError (NameTable String) := do
  match ← r.shaped name .languageMap Json.toTable? with
  | none => return .empty
  | some members => return .ofList (← texts (r.fieldPath name) members.rows)

end Record

end ButtonDialog.Draft
