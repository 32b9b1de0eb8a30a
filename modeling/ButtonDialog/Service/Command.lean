import ButtonDialog.Router.Routing
import ButtonDialog.Service.Settings
import ButtonDialog.Text.AsciiCase
import ButtonDialog.Text.Blank

/-! Commands that users write.

    `/start` asks for the menu, which has one command per language, and `/start_` with a language,
    in any letter case, shows the start stage in that language. Blanks around a command do not
    count, and any other text gets the fallback answer. -/

namespace ButtonDialog

/-- What a text asks for. -/
inductive Command where
  | menu
  | start (language : String)
  | unknown
  deriving DecidableEq

namespace Command

/-- The command for the menu. -/
def startText : String := "/start"

/-- The text after a word, if it starts with that word. -/
def after? (word cs : List Char) : Option (List Char) :=
  if word.isPrefixOf cs then some (cs.drop word.length) else none

/-- The command for a language. -/
def textFor (language : String) : String := startText ++ "_" ++ language

/-- The command of a text. A language is found in the spelling of the list. -/
def parse (text : String) (languages : List String) : Command :=
  let cs := (Text.trim text).toList
  if cs = startText.toList then .menu
  else match after? (textFor "").toList cs with
    | none => .unknown
    | some requested =>
      match languages.find? fun l => Text.sameLetters l (String.ofList requested) with
      | none => .unknown
      | some language => .start language

/-- The menu: one command a line. -/
def menuText (languages : List String) : String :=
  String.intercalate "\n" ("Choose a language:" :: languages.map textFor)

end Command

namespace Router

variable {σ : Type}

/-- Sends a message, leaving only whether that failed. -/
def tell (r : Router σ) (chat : Int64) (content : Content) :
    Act σ (Except TransportError Unit) := do
  return (← r.transport.send chat content).map fun _ => ()

/-- Does what a command asks for. -/
def answer (r : Router σ) (start : StartSettings) (chat : Int64) :
    Command → Act σ (Except TransportError Unit)
  | .menu => r.tell chat (.plain (Command.menuText r.languages))
  | .unknown => r.tell chat (.plain start.fallback)
  | .start language =>
    match r.graph.render start.procedure start.stage language with
    | some stage => r.tell chat stage.content
    | none => do
      Act.log .warn "start stage not found"
        [("procedure", start.procedure), ("stage", start.stage), ("language", language)]
      return .ok ()

/-- Answers a text that a user wrote. -/
def onMessage (r : Router σ) (start : StartSettings) (chat : Int64) (text : String) :
    Act σ (Except TransportError Command) := do
  let command := Command.parse text r.languages
  return (← r.answer start chat command).map fun _ => command

end Router

end ButtonDialog
