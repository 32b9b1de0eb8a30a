import ButtonDialog.Router.Routing
import ButtonDialog.Service.Settings

/-! Handlers from the settings.

    Each row of the table becomes a handler on its choice, in order, so the last row of a choice is
    the one that counts. The first row that cannot be registered ends the work; the rows before it
    stay. -/

namespace ButtonDialog

/-- What a row does, once it is known to be complete. -/
structure RowAction where
  action : HandlerAction
  text : String
  stay : Bool

/-- What a row does; a reply needs a text. -/
def HandlerRow.complete (row : HandlerRow) : Except ServiceError RowAction :=
  match row.action, row.text with
  | .reply, none => .error (.replyWithoutText row.procedure row.stage row.choice)
  | action, text => .ok ⟨action, text.getD "", row.stay⟩

/-- The verdict of a row. -/
def RowAction.verdict (a : RowAction) : Verdict := if a.stay then .stay else .proceed

/-- The handler of a row. -/
def RowAction.handler {σ : Type} (a : RowAction) : Handler σ := fun transport u click =>
  match a.action with
  | .log => do
    Act.log .info "option clicked"
      [("chat_id", decimal u.chat), ("procedure", click.procedure), ("stage", click.stage),
        ("option", click.choice), ("language", click.language)]
    return .ok a.verdict
  | .reply => do
    match ← transport.send u.chat (.plain a.text) with
    | .error e => return .error (.transport e)
    | .ok _ => return .ok a.verdict

namespace Router

variable {σ : Type}

/-- The router with the handler of a row, and the record of that. -/
def registerRow (r : Router σ) (row : HandlerRow) : Except ServiceError (Router σ × LogRecord) := do
  let action ← row.complete
  (r.register row.procedure row.stage row.choice action.handler).mapError .router

/-- The router with the handlers of rows, as far as they can be registered, with the records of
that and the error that ended it. -/
def registerRows (r : Router σ) : List HandlerRow → Router σ × List LogRecord × Option ServiceError
  | [] => (r, [], none)
  | row :: rows =>
    match r.registerRow row with
    | .error e => (r, [], some e)
    | .ok (r, record) =>
      let (r, records, error) := r.registerRows rows
      (r, record :: records, error)

/-- The record of a table that has been applied. -/
def tableRecord (rows : List HandlerRow) : LogRecord :=
  ⟨.info, "option handlers registered", [("count", toString rows.length)], []⟩

/-- Applies a table: the result is the number of rows. -/
def applyTable (r : Router σ) (rows : List HandlerRow) :
    Router σ × List LogRecord × Except ServiceError Nat :=
  match r.registerRows rows with
  | (r, records, some e) => (r, records, .error e)
  | (r, records, none) =>
    (r, records ++ (if rows.isEmpty then [] else [tableRecord rows]), .ok rows.length)

end Router

end ButtonDialog
