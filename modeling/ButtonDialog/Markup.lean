/-! Messages as they are shown: text in one of three modes, and a grid of buttons below it. -/

namespace ButtonDialog

/-- How the text of a message is to be taken. -/
inductive TextMode where
  | plain
  | html
  | markdownV2
  deriving DecidableEq

namespace TextMode

/-- The name of a mode on the wire. -/
def name : TextMode → String
  | .plain => "plain"
  | .html => "html"
  | .markdownV2 => "markdown_v2"

/-- The label of a mode in the log. -/
def label : TextMode → String
  | .plain => "Plain"
  | .html => "Html"
  | .markdownV2 => "MarkdownV2"

/-- The mode of a name. -/
def ofName? (s : String) : Option TextMode :=
  [plain, html, markdownV2].find? fun m => m.name == s

@[simp] theorem ofName?_name (m : TextMode) : ofName? m.name = some m := by
  cases m <;> decide

end TextMode

/-- A button: the label shown and the payload that a click sends back. -/
structure Button where
  label : String
  payload : String
  deriving DecidableEq

/-- A grid of buttons, row by row. -/
structure Layout where
  rows : List (List Button)
  deriving DecidableEq

namespace Layout

/-- All buttons in row order. -/
def buttons (l : Layout) : List Button := l.rows.flatten

/-- The number of buttons. -/
def size (l : Layout) : Nat := l.buttons.length

/-- Whether there is no button; rows without buttons do not count. -/
def isEmpty (l : Layout) : Bool := l.size == 0

end Layout

/-- A message that is already shown in a chat. -/
structure MessageRef where
  chat : Int64
  message : Int64
  deriving DecidableEq

end ButtonDialog
