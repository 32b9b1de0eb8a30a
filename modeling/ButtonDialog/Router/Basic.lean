import ButtonDialog.Graph.Basic
import ButtonDialog.Transport.Basic
import ButtonDialog.Update

/-! The router: a graph, the transport that shows its stages, and the handlers of its choices.

    A handler runs when its choice is clicked, before the message changes. It may use the
    transport, it may fail, and it may ask to stay on the stage that is shown. -/

namespace ButtonDialog

/-- Which choice was clicked, and in which language. -/
structure Click where
  language : String
  procedure : String
  stage : String
  choice : String
  deriving DecidableEq

/-- What a handler asks for: going on, or staying on the stage that is shown. -/
inductive Verdict where
  | proceed
  | stay
  deriving DecidableEq

/-- Why a handler fails: a transport did, or a reason of its own. -/
inductive HandlerError where
  | transport (e : TransportError)
  | other (reason : String)
  deriving DecidableEq

/-- The text of a handler error. -/
def HandlerError.message : HandlerError → String
  | .transport e => e.message
  | .other reason => reason

/-- What runs when a choice is clicked. -/
def Handler (σ : Type) : Type := Transport σ → Update → Click → Act σ (Except HandlerError Verdict)

/-- Why the router fails. -/
inductive RouterError where
  | choiceNotFound (procedure stage choice : String)
  | handler (e : HandlerError)
  | transport (e : TransportError)
  deriving DecidableEq

/-- The text of a router error. -/
def RouterError.message : RouterError → String
  | .choiceNotFound procedure stage choice =>
    "option not found: " ++ choice ++ " in stage " ++ stage ++ ", procedure " ++ procedure
  | .handler e => "handler error: " ++ e.message
  | .transport e => "transport error: " ++ e.message

/-- A graph, a transport, and the handlers of choices under the keys of the choices. -/
structure Router (σ : Type) where
  transport : Transport σ
  graph : Graph
  handlers : NameTable (Handler σ)

namespace Router

variable {σ : Type}

/-- A router without handlers. -/
def new (transport : Transport σ) (graph : Graph) : Router σ := ⟨transport, graph, .empty⟩

/-- The languages of the graph. -/
def languages (r : Router σ) : List String := r.graph.languages

/-- The record of a handler that has been registered. -/
def registerRecord (procedure stage choice : String) (replaced : Bool) : LogRecord :=
  ⟨.debug, "option handler registered",
    [("procedure", procedure), ("stage", stage), ("option", choice),
      ("replaced", toString replaced)], []⟩

/-- The router with a handler on a choice, in place of the one it had, and the record of that. -/
def register (r : Router σ) (procedure stage choice : String) (handler : Handler σ) :
    Except RouterError (Router σ × LogRecord) :=
  let key := Key.choice procedure stage choice
  match r.graph.choiceOfKey? key with
  | none => .error (.choiceNotFound procedure stage choice)
  | some _ =>
    .ok ({ r with handlers := r.handlers.insert key handler },
      registerRecord procedure stage choice (r.handlers.contains key))

end Router

end ButtonDialog
