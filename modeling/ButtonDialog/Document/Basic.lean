import ButtonDialog.Draft.Basic

/-! Procedure documents that have been checked, or built by hand.

    A document has the shape of a draft, but every id is there, every procedure has a root stage id
    and every choice a button id. A document that validation gives also has unique ids, references
    that lead somewhere, and texts in all its languages; one built by hand need not. -/

namespace ButtonDialog

/-- A choice of a stage. -/
structure Document.Choice where
  id : Int64
  button : Int64
  next : Option Int64
  deriving DecidableEq

/-- A stage of a procedure, its choices row by row. -/
structure Document.Stage where
  id : Int64
  title : Option String
  previous : Option Int64
  removeToRoot : Bool
  removeToPrevious : Bool
  text : LanguageText
  rows : List (List Document.Choice)
  deriving DecidableEq

/-- All choices of a stage, in row order. -/
def Document.Stage.choices (s : Document.Stage) : List Document.Choice := s.rows.flatten

/-- A procedure. -/
structure Document.Procedure where
  id : Int64
  title : Option String
  root : Int64
  addToRoot : Bool
  addToPrevious : Bool
  toRootButton : Option Int64
  toPreviousButton : Option Int64
  stages : List Document.Stage
  deriving DecidableEq

namespace Document.Procedure

/-- The button of the way back to the root, if that way is wanted. -/
def rootButton? (p : Document.Procedure) : Option Int64 :=
  p.toRootButton.filter fun _ => p.addToRoot

/-- The button of the way back to the previous stage, if that way is wanted. -/
def previousButton? (p : Document.Procedure) : Option Int64 :=
  p.toPreviousButton.filter fun _ => p.addToPrevious

/-- Whether a stage is the root. -/
def isRoot (p : Document.Procedure) (s : Document.Stage) : Bool := s.id == p.root

end Document.Procedure

/-- A button, whose label any number of choices may show. -/
structure Document.Button where
  id : Int64
  title : Option String
  text : LanguageText
  deriving DecidableEq

/-- A whole document. -/
structure Document where
  languages : List String
  buttons : List Document.Button
  procedures : List Document.Procedure
  deriving DecidableEq

end ButtonDialog
