import ButtonDialog.Transport.Basic

/-! A transport that logs the calls of another one.

    A call is logged before it is made and after it has ended, in a span of its own. The call itself
    is the one of the other transport, with its result and its changes. -/

namespace ButtonDialog

/-- What is logged before a call. -/
def Content.logFields (c : Content) : List (String × String) :=
  [("text_len", toString c.text.utf8ByteSize), ("mode", c.mode.label),
    ("buttons", toString c.buttonCount)]

/-- The transport with its calls logged. -/
def Transport.logged {σ : Type} (t : Transport σ) : Transport σ where
  send chat content := Act.within ⟨"transport.send", [("chat_id", decimal chat)]⟩ do
    Act.log .debug "sending" content.logFields
    let result ← t.send chat content
    match result with
    | .ok sent => Act.log .info "message sent" [("message_id", decimal sent.message)]
    | .error e => Act.log .error "send failed" [("error", e.message)]
    return result
  edit target content := Act.within ⟨"transport.edit",
      [("chat_id", decimal target.chat), ("message_id", decimal target.message)]⟩ do
    Act.log .debug "editing" content.logFields
    let result ← t.edit target content
    match result with
    | .ok () => Act.log .info "message edited" []
    | .error e => Act.log .error "edit failed" [("error", e.message)]
    return result

end ButtonDialog
