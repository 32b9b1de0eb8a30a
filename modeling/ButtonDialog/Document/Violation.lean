import ButtonDialog.Text.Decimal

/-! What can be wrong with a draft. -/

namespace ButtonDialog

/-- The kinds of things that have ids. -/
inductive Entity where
  | procedure
  | stage
  | choice
  | button
  deriving DecidableEq

/-- The word for a kind. -/
def Entity.name : Entity → String
  | .procedure => "procedure"
  | .stage => "stage"
  | .choice => "option"
  | .button => "button"

/-- Where in a document something is: anywhere, in a procedure, or in a stage of a procedure. -/
inductive Scope where
  | document
  | procedure (procedure : Int64)
  | stage (procedure stage : Int64)
  deriving DecidableEq

/-- A scope in writing, after the thing that is in it. -/
def Scope.text : Scope → String
  | .document => ""
  | .procedure p => " in procedure " ++ decimal p
  | .stage p s => " in stage " ++ decimal s ++ ", procedure " ++ decimal p

/-- What is wrong with the title of a language. -/
inductive TitleDefect where
  | badCharacter
  | tooLong
  deriving DecidableEq

/-- The most characters that the title of a language may have. -/
def maxTitleLength : Nat := 10

/-- A defect of a title in writing. -/
def TitleDefect.text : TitleDefect → String
  | .badCharacter => "only English letters and numbers are allowed"
  | .tooLong => "exceeds the maximum length of " ++ toString maxTitleLength ++ " characters"

/-- The fields that name a stage. -/
inductive StageField where
  | root
  | previous
  | next
  deriving DecidableEq

/-- The name of a field. -/
def StageField.name : StageField → String
  | .root => "rootStageId"
  | .previous => "previousStageId"
  | .next => "nextStageId"

/-- The fields that name a button. -/
inductive ButtonField where
  | toRoot
  | toPrevious
  | label
  deriving DecidableEq

/-- The name of a field. -/
def ButtonField.name : ButtonField → String
  | .toRoot => "toRootButtonId"
  | .toPrevious => "toPreviousButtonId"
  | .label => "buttonId"

/-- A rule that a draft breaks, and where. -/
inductive Violation where
  | missingId (kind : Entity) (scope : Scope)
  | duplicateId (kind : Entity) (id : Int64) (scope : Scope)
  | invalidTitle (language : String) (defect : TitleDefect)
  | duplicateLanguage (language : String)
  | missingText (kind : Entity) (id : Int64) (scope : Scope) (language : String)
  | stageNotFound (field : StageField) (stage : Option Int64) (procedure : Int64)
  | buttonNotFound (field : ButtonField) (button : Int64) (scope : Scope)
  | missingRootButton (procedure : Int64)
  | missingPreviousButton (procedure : Int64)
  | noPreviousStage (procedure stage : Int64)
  | noButton (procedure stage choice : Int64)
  deriving DecidableEq

/-- The text of a violation. -/
def Violation.message : Violation → String
  | .missingId kind scope => "no ID specified for " ++ kind.name ++ scope.text
  | .duplicateId kind id scope =>
    "duplicate ID for " ++ kind.name ++ " detected: " ++ decimal id ++ scope.text
  | .invalidTitle language defect =>
    "invalid language title '" ++ language ++ "': " ++ defect.text
  | .duplicateLanguage language =>
    "duplicate language detected (case-insensitive): '" ++ language ++ "'"
  | .missingText kind id scope language =>
    kind.name ++ " " ++ decimal id ++ scope.text ++ " is missing text for language: " ++ language
  | .stageNotFound field stage procedure =>
    field.name ++ " " ++ (stage.map decimal).getD "<none>" ++ " does not exist in procedure " ++
      decimal procedure
  | .buttonNotFound field button scope =>
    field.name ++ " " ++ decimal button ++ " does not exist" ++ scope.text
  | .missingRootButton procedure =>
    "addToRootButton is true but toRootButtonId is not set in procedure " ++ decimal procedure
  | .missingPreviousButton procedure =>
    "addToPreviousButton is true but toPreviousButtonId is not set in procedure " ++
      decimal procedure
  | .noPreviousStage procedure stage =>
    "stage " ++ decimal stage ++ " in procedure " ++ decimal procedure ++
      " is not root and has no previousStageId"
  | .noButton procedure stage choice =>
    "option " ++ decimal choice ++ " in stage " ++ decimal stage ++ ", procedure " ++
      decimal procedure ++ " has no buttonId"

end ButtonDialog
