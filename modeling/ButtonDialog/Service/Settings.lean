import ButtonDialog.Files.Tree
import ButtonDialog.Router.Basic

/-! The settings of the service. -/

namespace ButtonDialog

/-- Which stage the start commands show, and the answer to anything that is no command. -/
structure StartSettings where
  procedure : String
  stage : String
  fallback : String
  deriving DecidableEq

/-- The settings where none are given. -/
def StartSettings.standard : StartSettings := ⟨"0", "0", "What?"⟩

/-- What a handler row does on a click. -/
inductive HandlerAction where
  /-- writes a record -/
  | log
  /-- sends a message -/
  | reply
  deriving DecidableEq

/-- The name of an action. -/
def HandlerAction.name : HandlerAction → String
  | .log => "log"
  | .reply => "reply"

/-- The action of a name. -/
def HandlerAction.ofName? (s : String) : Option HandlerAction :=
  [log, reply].find? fun a => a.name == s

/-- A row of the handler table: the choice it is for, and what a click on it does. -/
structure HandlerRow where
  procedure : String
  stage : String
  choice : String
  action : HandlerAction
  text : Option String
  stay : Bool
  deriving DecidableEq

/-- All settings. -/
structure Settings where
  procedures : Option String
  logLevel : String
  logPath : Option String
  start : StartSettings
  handlers : List HandlerRow
  deriving DecidableEq

/-- The settings where none are given. -/
def Settings.standard : Settings := ⟨none, "info", none, .standard, []⟩

/-- Why the service cannot start. -/
inductive ServiceError where
  | unreadable (path : String) (e : FileError)
  | badSettings
  | missingProcedures
  | replyWithoutText (procedure stage choice : String)
  | router (e : RouterError)
  | logging (reason : String)
  deriving DecidableEq

/-- The text of a service error. -/
def ServiceError.message : ServiceError → String
  | .unreadable path e => "failed to read " ++ path ++ ": " ++ e.text
  | .badSettings => "invalid host config: not the settings of this service"
  | .missingProcedures =>
    "no procedure document configured (set \x60procedures\x60 or pass --procedures)"
  | .replyWithoutText procedure stage choice =>
    "reply handler for option " ++ choice ++ " in stage " ++ stage ++ ", procedure " ++ procedure ++
      " has no text"
  | .router e => e.message
  | .logging reason => "logging setup failed: " ++ reason

namespace Settings

/-- The path of the document. -/
def procedures? (s : Settings) : Except ServiceError String :=
  match s.procedures with
  | some path => .ok path
  | none => .error .missingProcedures

/-- The settings with their paths taken from the directory of the file they were in. -/
def relativeTo (s : Settings) (path : String) : Settings :=
  let base := (PathText.parent? path).getD ""
  { s with
    procedures := s.procedures.map (PathText.join base)
    logPath := s.logPath.map (PathText.join base) }

end Settings

end ButtonDialog
