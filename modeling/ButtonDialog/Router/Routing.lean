import ButtonDialog.Payload
import ButtonDialog.Router.Basic

/-! Routing of updates.

    A click is routed to the choice that its payload names; anything else is ignored. The handler of
    the choice runs first, if it has one. Then the message that was clicked on changes to the next
    stage, unless there is none, the handler asked to stay, the message is not known or the stage
    has no text in the language. Every way through leaves one record that tells which it was. -/

namespace ButtonDialog

/-- Why an update is ignored. -/
inductive IgnoreReason where
  | notAClick
  | malformedPayload
  | unsupportedLanguage
  | unknownChoice
  deriving DecidableEq

/-- The text of a reason. -/
def IgnoreReason.text : IgnoreReason → String
  | .notAClick => "not a button click"
  | .malformedPayload => "malformed payload"
  | .unsupportedLanguage => "unsupported language"
  | .unknownChoice => "unknown option"

/-- The label of a reason. -/
def IgnoreReason.label : IgnoreReason → String
  | .notAClick => "NotAClick"
  | .malformedPayload => "MalformedPayload"
  | .unsupportedLanguage => "UnsupportedLanguage"
  | .unknownChoice => "UnknownOption"

/-- What became of an update. -/
inductive Outcome where
  /-- No choice was clicked. -/
  | ignored (reason : IgnoreReason)
  /-- A choice was clicked and the message stays as it is. -/
  | handled (byHandler : Bool)
  /-- The message shows this stage now. -/
  | transitioned (procedure stage : String)
  deriving DecidableEq

/-- The label of an outcome. -/
def Outcome.label : Outcome → String
  | .ignored reason => "Ignored(" ++ reason.label ++ ")"
  | .handled byHandler => "Handled \x7b handler_invoked: " ++ toString byHandler ++ " \x7d"
  | .transitioned procedure stage =>
    "Transitioned \x7b procedure_id: \"" ++ procedure ++ "\", stage_id: \"" ++ stage ++ "\" \x7d"

/-- What a rendered stage shows. -/
def Rendered.content (r : Rendered) : Content := ⟨r.text, r.mode, r.layout⟩

namespace Router

variable {σ : Type}

/-- The choice that an update clicks and the language it is clicked in, or why there is none. -/
def resolve (r : Router σ) (u : Update) : Except IgnoreReason (Graph.Choice × String) :=
  match u.payload? with
  | none => .error .notAClick
  | some data =>
    match Payload.parse? data with
    | none => .error .malformedPayload
    | some payload =>
      if !r.graph.supports payload.language then .error .unsupportedLanguage
      else match r.graph.choiceOfKey? payload.choiceKey with
        | none => .error .unknownChoice
        | some choice => .ok (choice, payload.language)

/-- The click of a choice in a language. -/
def click (choice : Graph.Choice) (language : String) : Click :=
  ⟨language, choice.procedure, choice.stage, choice.id⟩

/-- Runs the handler of a choice, if it has one; a choice without a handler proceeds. -/
def runHandler (r : Router σ) (u : Update) (choice : Graph.Choice) (language : String) :
    Act σ (Except HandlerError Verdict) :=
  match r.handlers.get? choice.key with
  | none => return .ok .proceed
  | some handler => do
    match ← handler r.transport u (click choice language) with
    | .error e => return .error e
    | .ok verdict =>
      Act.log .debug "handler completed" [("stay", toString (verdict == .stay))]
      return .ok verdict

/-- Why a message stays as it is. -/
inductive Halt where
  | noNextStage
  | askedToStay
  | noMessage
  | nextNotFound (stage : String)

/-- Writes the record of a message that stays as it is. -/
def Halt.log : Halt → Act σ Unit
  | noNextStage => Act.log .debug "option has no next stage" []
  | askedToStay => Act.log .debug "handler asked to stay" []
  | noMessage => Act.log .debug "click has no message to edit" []
  | nextNotFound stage => Act.log .debug "next stage not found" [("next_stage", stage)]

/-- Where a click leads: the message to change, the id of the next stage, and that stage. -/
def destination (r : Router σ) (u : Update) (choice : Graph.Choice) (language : String)
    (verdict : Verdict) : Except Halt (MessageRef × String × Rendered) :=
  match choice.next with
  | none => .error .noNextStage
  | some next =>
    if verdict = .stay then .error .askedToStay
    else match u.target? with
      | none => .error .noMessage
      | some target =>
        match r.graph.render choice.procedure next language with
        | none => .error (.nextNotFound next)
        | some stage => .ok (target, next, stage)

/-- Routes a click of a choice. -/
def route (r : Router σ) (u : Update) (choice : Graph.Choice) (language : String) :
    Act σ (Except RouterError Outcome) := do
  match ← r.runHandler u choice language with
  | .error e => return .error (.handler e)
  | .ok verdict =>
    match r.destination u choice language verdict with
    | .error halt =>
      halt.log
      return .ok (.handled (r.handlers.contains choice.key))
    | .ok (target, next, stage) =>
      match ← r.transport.edit target stage.content with
      | .error e => return .error (.transport e)
      | .ok () =>
        Act.log .info "stage transitioned" [("next_stage", next)]
        return .ok (.transitioned choice.procedure next)

/-- The span that the routing of a click stands in. -/
def routeSpan (choice : Graph.Choice) (language : String) : Span :=
  ⟨"route", [("procedure", choice.procedure), ("stage", choice.stage), ("option", choice.id),
    ("language", language)]⟩

/-- Routes an update. -/
def onUpdate (r : Router σ) (u : Update) : Act σ (Except RouterError Outcome) :=
  match r.resolve u with
  | .error reason => do
    Act.log .debug "update ignored" [("reason", reason.text)]
    return .ok (.ignored reason)
  | .ok (choice, language) => (r.route u choice language).within (routeSpan choice language)

end Router

end ButtonDialog
