import ButtonDialog.NameTable

/-! Drafts: procedure documents as they are written, before anything in them is checked.

    A procedure is a set of stages, a stage is a message with rows of choices, and a choice shows
    the label of a button. Ids and references may be missing, repeated or dangling. -/

namespace ButtonDialog

/-- A text for every language, under the name of the language. -/
abbrev LanguageText := NameTable String

/-- A choice of a stage. -/
structure Draft.Choice where
  id : Option Int64
  button : Option Int64
  next : Option Int64
  deriving DecidableEq

/-- A stage of a procedure, its choices row by row. -/
structure Draft.Stage where
  id : Option Int64
  title : Option String
  previous : Option Int64
  removeToRoot : Bool
  removeToPrevious : Bool
  text : LanguageText
  rows : List (List Draft.Choice)
  deriving DecidableEq

/-- All choices of a stage, in row order. -/
def Draft.Stage.choices (s : Draft.Stage) : List Draft.Choice := s.rows.flatten

/-- A procedure. -/
structure Draft.Procedure where
  id : Option Int64
  title : Option String
  root : Option Int64
  addToRoot : Bool
  addToPrevious : Bool
  toRootButton : Option Int64
  toPreviousButton : Option Int64
  stages : List Draft.Stage
  deriving DecidableEq

/-- A button, whose label any number of choices may show. -/
structure Draft.Button where
  id : Option Int64
  title : Option String
  text : LanguageText
  deriving DecidableEq

/-- A whole document. -/
structure Draft where
  languages : List String
  buttons : List Draft.Button
  procedures : List Draft.Procedure
  deriving DecidableEq

end ButtonDialog
