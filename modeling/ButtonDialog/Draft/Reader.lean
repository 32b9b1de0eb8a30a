import ButtonDialog.Draft.Basic
import ButtonDialog.Draft.Shape
import ButtonDialog.Json.Lenient
import ButtonDialog.Json.Reader

/-! Reading a draft from a lenient text.

    The text is cleaned and read as JSON, and the value is read by the schema: every level is an
    object, unknown names are passed over, and what is absent or `null` has the value that says
    nothing. Within an object the nested arrays come first, then the fields in the order below. -/

namespace ButtonDialog.Draft

/-- Reads a choice. -/
def Choice.ofJson (path : Path) (v : Json) : Except ShapeError Choice := do
  let r ← Record.ofJson path v
  return {
    id := ← r.integer "id"
    button := ← r.integer "buttonId"
    next := ← r.integer "nextStageId" }

/-- Reads a row of choices. -/
def rowOfJson (path : Path) (v : Json) : Except ShapeError (List Choice) := do
  each path Choice.ofJson (← expect path .choiceRow v.toArray?)

/-- Reads a stage. -/
def Stage.ofJson (path : Path) (v : Json) : Except ShapeError Stage := do
  let r ← Record.ofJson path v
  let rows ← r.list "options" rowOfJson
  return {
    id := ← r.integer "id"
    title := ← r.string "title"
    previous := ← r.integer "previousStageId"
    removeToRoot := ← r.flag "removeToRootButton"
    removeToPrevious := ← r.flag "removeToPreviousButton"
    text := ← r.languageText "text"
    rows }

/-- Reads a procedure. -/
def Procedure.ofJson (path : Path) (v : Json) : Except ShapeError Procedure := do
  let r ← Record.ofJson path v
  let stages ← r.list "stages" Stage.ofJson
  return {
    id := ← r.integer "id"
    title := ← r.string "title"
    root := ← r.integer "rootStageId"
    addToRoot := ← r.flag "addToRootButton"
    addToPrevious := ← r.flag "addToPreviousButton"
    toRootButton := ← r.integer "toRootButtonId"
    toPreviousButton := ← r.integer "toPreviousButtonId"
    stages }

/-- Reads a button. -/
def Button.ofJson (path : Path) (v : Json) : Except ShapeError Button := do
  let r ← Record.ofJson path v
  return {
    id := ← r.integer "id"
    title := ← r.string "title"
    text := ← r.languageText "text" }

/-- Reads a language title. -/
def languageOfJson (path : Path) (v : Json) : Except ShapeError String :=
  expect path .string v.toText?

/-- Reads a document. -/
def ofJson (v : Json) : Except ShapeError Draft := do
  let r ← Record.ofJson [] v
  let languages ← r.list "supportedLanguages" languageOfJson
  let buttons ← r.list "buttons" Button.ofJson
  let procedures ← r.list "procedures" Procedure.ofJson
  return { languages, buttons, procedures }

/-- Why a text is not a draft. -/
inductive Error where
  | empty
  | notJson (e : Json.ReadError)
  | misshapen (e : ShapeError)
  deriving DecidableEq

/-- The text of a defect. -/
def defectMessage (e : Json.ReadError) : String :=
  (match e.defect with
    | .truncated => "the text ends too early"
    | .misplaced => "a character is out of place") ++ " at line " ++ toString e.line

/-- The text of an error. -/
def Error.message : Error → String
  | .empty => "procedure document is empty"
  | .notJson e => "JSON parse error: " ++ defectMessage e
  | .misshapen e => "invalid format: " ++ e.message

/-- Reads a draft from the strict text of a document. -/
def readClean (text : List Char) : Except Error Draft :=
  if text.all Text.isBlank then .error .empty
  else match Json.readChars text with
    | .error e => .error (.notJson e)
    | .ok .null => .error .empty
    | .ok v => (ofJson v).mapError .misshapen

/-- Reads a draft from a lenient text. -/
def read (text : String) : Except Error Draft := readClean (Json.Lenient.clean text.toList)

end ButtonDialog.Draft
