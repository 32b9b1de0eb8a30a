import ButtonDialog.Log
import ButtonDialog.Markup
import ButtonDialog.Text.Decimal

/-! Transports: what shows messages in chats.

    A transport sends a new message or edits one that is shown, in a world of its own that it may
    change. Either may fail. -/

namespace ButtonDialog

/-- Why a transport fails. -/
inductive TransportError where
  | messageNotFound (m : MessageRef)
  | rejected (reason : String)
  | io (reason : String)
  | encoding (reason : String)
  deriving DecidableEq

/-- The text of a transport error. -/
def TransportError.message : TransportError → String
  | .messageNotFound m =>
    "message not found: chat " ++ decimal m.chat ++ ", message " ++ decimal m.message
  | .rejected reason => "transport rejected request: " ++ reason
  | .io reason => "io error: " ++ reason
  | .encoding reason => "encode error: " ++ reason

/-- What a message shows. -/
structure Content where
  text : String
  mode : TextMode
  layout : Option Layout
  deriving DecidableEq

/-- A message of plain text without buttons. -/
def Content.plain (text : String) : Content := ⟨text, .plain, none⟩

/-- The number of buttons. -/
def Content.buttonCount (c : Content) : Nat := (c.layout.map Layout.size).getD 0

/-- A call of a transport. -/
inductive Call where
  | send (chat : Int64) (content : Content)
  | edit (target : MessageRef) (content : Content)
  deriving DecidableEq

/-- What shows messages, in worlds of type `σ`. -/
structure Transport (σ : Type) where
  send : Int64 → Content → Act σ (Except TransportError MessageRef)
  edit : MessageRef → Content → Act σ (Except TransportError Unit)

/-- The transport in a larger world. -/
def Transport.onPart {σ τ : Type} (get : τ → σ) (set : σ → τ → τ) (t : Transport σ) :
    Transport τ where
  send chat content := (t.send chat content).onPart get set
  edit target content := (t.edit target content).onPart get set

end ButtonDialog
