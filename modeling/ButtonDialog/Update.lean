import ButtonDialog.Json.Reader
import ButtonDialog.Json.Printer
import ButtonDialog.Markup

/-! What a chat service delivers: messages that users write and clicks on buttons.

    An update is written as a JSON object with its kind under `type` and its fields in a fixed
    order, absent values as `null`. It is read from such an object, in any order and with members of
    other names, as long as no name of a field is repeated; or from an array of the kind and the
    fields in order, where absent values at the end may be left out. -/

namespace ButtonDialog

/-- Something that happened in a chat. -/
inductive Update where
  /-- A user wrote a text. -/
  | message (chat : Int64) (text : String)
  /-- A user clicked a button of a message, if the service knows which, with this payload. -/
  | click (id : String) (chat : Int64) (shown : Option Int64) (data : Option String)
  deriving DecidableEq

namespace Update

/-- The payload of a click. -/
def payload? : Update → Option String
  | message .. => none
  | click _ _ _ data => data

/-- The message that was clicked on. -/
def target? : Update → Option MessageRef
  | message .. => none
  | click _ chat shown _ => shown.map (⟨chat, ·⟩)

/-- The chat it happened in. -/
def chat : Update → Int64
  | message chat _ => chat
  | click _ chat _ _ => chat

/-! ## Written form -/

/-- The kind of a message in writing. -/
def messageKind : String := "message"

/-- The kind of a click in writing. -/
def clickKind : String := "callback_query"

/-- The written form. -/
def toJson : Update → Json
  | message chat text =>
    .object [("type", .text messageKind), ("chat_id", .int64 chat), ("text", .text text)]
  | click id chat shown data =>
    .object [("type", .text clickKind), ("id", .text id), ("chat_id", .int64 chat),
      ("message_id", .optional .int64 shown), ("data", .optional .text data)]

/-- The line that carries an update. -/
def encode (u : Update) : String := u.toJson.render

/-! ## Reading -/

/-- The one value of a name: nothing if the name is absent, a failure if it is repeated. -/
def single? (members : List (String × Json)) (name : String) : Option (Option Json) :=
  match members.filter fun m => m.1 == name with
  | [] => some none
  | [m] => some (some m.2)
  | _ => none

/-- A value that must be there. -/
def required? {α : Type} (f : Json → Option α) (v : Option Json) : Option α := v.bind f

/-- A value that may be missing or `null`. -/
def maybe? {α : Type} (f : Json → Option α) : Option Json → Option (Option α)
  | none => some none
  | some v => v.nullable? f

/-- The names of the fields of a kind, in order. -/
def fieldNames? (kind : String) : Option (List String) :=
  if kind = messageKind then some ["chat_id", "text"]
  else if kind = clickKind then some ["id", "chat_id", "message_id", "data"]
  else none

/-- An update of a kind from the values of its fields, in order. -/
def ofFields? (kind : String) (values : List (Option Json)) : Option Update :=
  if kind = messageKind then
    match values with
    | [chat, text] =>
      return .message (← required? Json.toInt64? chat) (← required? Json.toText? text)
    | _ => none
  else
    match values with
    | [id, chat, shown, data] =>
      return .click (← required? Json.toText? id) (← required? Json.toInt64? chat)
        (← maybe? Json.toInt64? shown) (← maybe? Json.toText? data)
    | _ => none

/-- Reads an update from its members. -/
def ofMembers? (members : List (String × Json)) : Option Update := do
  let kind ← required? Json.toText? (← single? members "type")
  let names ← fieldNames? kind
  let values ← names.mapM (single? members)
  ofFields? kind values

/-- Reads an update from its kind and fields in order; those left out at the end are absent. -/
def ofElements? : List Json → Option Update
  | [] => none
  | first :: fields => do
    let kind ← first.toText?
    let names ← fieldNames? kind
    if names.length < fields.length then none
    else ofFields? kind (fields.map some ++ List.replicate (names.length - fields.length) none)

/-- Reads an update from a JSON value. -/
def ofJson? : Json → Option Update
  | .object members => ofMembers? members
  | .array elements => ofElements? elements
  | _ => none

/-- Reads an update from a line. -/
def decode? (line : String) : Option Update := (Json.read line).toOption.bind ofJson?

end Update

end ButtonDialog
