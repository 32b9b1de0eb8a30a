import ButtonDialog.Json.Printer
import ButtonDialog.Transport.Basic

/-! A transport that writes every call as a line of JSON.

    The line of a call gives its kind, the chat, the message, and the content. Messages that are
    sent are numbered from one, and a number is used up even when the line cannot be written. -/

namespace ButtonDialog

/-- A button in writing. -/
def Button.toJson (b : Button) : Json :=
  .object [("text", .text b.label), ("payload", .text b.payload)]

/-- A layout in writing. -/
def Layout.toJson (l : Layout) : Json :=
  .object [("rows", .array (l.rows.map fun row => .array (row.map Button.toJson)))]

/-- The lines written so far, the number of the next message, and why lines cannot be written. -/
structure Console where
  lines : List String
  next : Int64
  failure : Option String

namespace Console

/-- The console before its first line. -/
def fresh : Console := ⟨[], 1, none⟩

/-- The line of a call. -/
def line (kind : String) (m : MessageRef) (c : Content) : String :=
  (Json.object [("type", .text kind), ("chat_id", .int64 m.chat), ("message_id", .int64 m.message),
    ("text", .text c.text), ("mode", .text c.mode.name),
    ("layout", .optional Layout.toJson c.layout)]).render

/-- Writes a line. -/
def write (line : String) (c : Console) : Except TransportError Unit × Console :=
  match c.failure with
  | some reason => (.error (.io reason), c)
  | none => (.ok (), { c with lines := c.lines ++ [line] })

/-- The number of the next message, which is used up. -/
def number (c : Console) : Int64 × Console := (c.next, { c with next := c.next + 1 })

/-- The transport that writes lines. -/
def transport : Transport Console where
  send chat content := do
    let m : MessageRef := ⟨chat, ← Act.modifyWorld number⟩
    return (← Act.modifyWorld (write (line "send" m content))).map fun _ => m
  edit target content := Act.modifyWorld (write (line "edit" target content))

end Console

end ButtonDialog
