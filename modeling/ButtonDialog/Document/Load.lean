import ButtonDialog.Document.Validation
import ButtonDialog.Draft.Reader
import ButtonDialog.Files.Tree
import ButtonDialog.Log

/-! From texts and files to documents. -/

namespace ButtonDialog

/-- Why no document can be had. -/
inductive LoadError where
  | unreadable (path : String) (e : FileError)
  | malformed (e : Draft.Error)
  | invalid (v : Violation)

/-- The text of a load error. -/
def LoadError.message : LoadError → String
  | .unreadable path e => "failed to read " ++ path ++ ": " ++ e.text
  | .malformed e => "malformed procedure document: " ++ e.message
  | .invalid v => "invalid procedure config: " ++ v.message

namespace Document

/-- The document of a text. -/
def ofText (text : String) : Except LoadError Document := do
  let draft ← (Draft.read text).mapError .malformed
  draft.validate.mapError .invalid

/-- The document of what reading a file gave. -/
def ofFile (path : String) (contents : Except FileError String) : Except LoadError Document := do
  ofText (← contents.mapError (.unreadable path))

/-- The record of a document that has been read. -/
def loadRecord (d : Document) : LogRecord :=
  ⟨.debug, "procedure document validated",
    [("languages", toString d.languages.length), ("buttons", toString d.buttons.length),
      ("procedures", toString d.procedures.length)], []⟩

end Document

end ButtonDialog
