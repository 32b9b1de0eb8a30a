import ButtonDialog.Proofs.Routing.Displays
import ButtonDialog.Service.Serve
import ButtonDialog.Transport.Logged

/-! Which calls of the transport an action makes.

    A journal is a list of calls that can be seen in the world. What an action does is stated for
    all worlds that are ready: they stay ready, and the calls that it adds to the journal go with
    its result. Such statements are put together along the steps of an action, so that what an
    update does follows from what the transport and the handlers do. -/

namespace ButtonDialog

/-! ## What actions add to a journal -/

/-- What an action does where the world is ready: it leaves a world that is ready, and its result
goes with the calls that it adds to the journal. -/
def Act.Does {σ α : Type} (Ready : σ → Prop) (journal : σ → List Call) (a : Act σ α)
    (Result : α → List Call → Prop) : Prop :=
  ∀ world, Ready world → Ready (a.effect world).2 ∧ ∃ calls,
    Result (a.effect world).1 calls ∧ journal (a.effect world).2 = journal world ++ calls

namespace Act.Does

variable {σ α β : Type} {Ready : σ → Prop} {journal : σ → List Call} {a : Act σ α}
  {Result : α → List Call → Prop}

theorem of_pure {x : α} (h : Result x []) : (pure x : Act σ α).Does Ready journal Result :=
  fun _ hready => ⟨hready, [], h, (List.append_nil _).symm⟩

theorem of_log {level : Level} {message : String} {fields : List (String × String)}
    {Result : Unit → List Call → Prop} (h : Result () []) :
    (log level message fields).Does Ready journal Result :=
  fun _ hready => ⟨hready, [], h, (List.append_nil _).symm⟩

/-- A record adds no call. -/
theorem log_bind {level : Level} {message : String} {fields : List (String × String)}
    {f : Unit → Act σ α} (h : (f ()).Does Ready journal Result) :
    (log level message fields >>= f).Does Ready journal Result := h

theorem within (s : Span) (h : a.Does Ready journal Result) :
    (a.within s).Does Ready journal Result := h

theorem mono {Weaker : α → List Call → Prop} (h : a.Does Ready journal Result)
    (hweaker : ∀ x calls, Result x calls → Weaker x calls) : a.Does Ready journal Weaker := by
  intro world hready
  obtain ⟨hleft, calls, hresult, hjournal⟩ := h world hready
  exact ⟨hleft, calls, hweaker _ _ hresult, hjournal⟩

/-- The calls of one action stand before those of the next. -/
theorem bind {f : α → Act σ β} {Last : β → List Call → Prop} (h : a.Does Ready journal Result)
    (hnext : ∀ x calls, Result x calls →
      (f x).Does Ready journal fun y more => Last y (calls ++ more)) :
    (a >>= f).Does Ready journal Last := by
  intro world hready
  obtain ⟨hleft, calls, hresult, hjournal⟩ := h world hready
  obtain ⟨hafter, more, hlast, hmore⟩ := hnext _ _ hresult _ hleft
  refine ⟨hafter, calls ++ more, hlast, ?_⟩
  rw [Act.effect_bind, hmore, hjournal, List.append_assoc]

end Act.Does

/-! ## Transports -/

namespace Transport

variable {σ : Type}

/-- Every call is added to the journal, failed ones too. -/
structure Journals (t : Transport σ) (Ready : σ → Prop) (journal : σ → List Call) : Prop where
  send : ∀ chat content,
    (t.send chat content).Does Ready journal fun _ calls => calls = [.send chat content]
  edit : ∀ target content,
    (t.edit target content).Does Ready journal fun _ calls => calls = [.edit target content]

/-- No call fails, and every call leaves a world that is ready. -/
structure Accepts (t : Transport σ) (Ready : σ → Prop) : Prop where
  send : ∀ chat content world, Ready world →
    ∃ m left, (t.send chat content).effect world = (.ok m, left) ∧ Ready left
  edit : ∀ target content world, Ready world →
    ∃ left, (t.edit target content).effect world = (.ok (), left) ∧ Ready left

variable {t : Transport σ} {Ready : σ → Prop} {journal : σ → List Call}

/-- A journal that is kept in all worlds is kept in those that are ready. -/
theorem Accepts.journals (h : t.Accepts Ready) (hjournal : t.Journals (fun _ => True) journal) :
    t.Journals Ready journal where
  send chat content world hready := by
    obtain ⟨m, left, hsend, hleft⟩ := h.send chat content world hready
    exact ⟨by rwa [hsend], (hjournal.send chat content world trivial).2⟩
  edit target content world hready := by
    obtain ⟨left, hedit, hleft⟩ := h.edit target content world hready
    exact ⟨by rwa [hedit], (hjournal.edit target content world trivial).2⟩

/-- A call that is logged is the call itself, with its result and its changes. -/
theorem effect_send_logged (t : Transport σ) (chat : Int64) (content : Content) (world : σ) :
    (t.logged.send chat content).effect world = (t.send chat content).effect world := by
  simp only [logged, Act.effect_within, Act.effect_bind, Act.effect_log]
  rcases (t.send chat content).effect world with ⟨e | m, left⟩
  · rfl
  · rfl

theorem effect_edit_logged (t : Transport σ) (target : MessageRef) (content : Content)
    (world : σ) : (t.logged.edit target content).effect world =
      (t.edit target content).effect world := by
  simp only [logged, Act.effect_within, Act.effect_bind, Act.effect_log]
  rcases (t.edit target content).effect world with ⟨e | ⟨⟩, left⟩
  · rfl
  · rfl

/-- Calls that are logged are accepted like others. -/
theorem Accepts.logged (h : t.Accepts Ready) : t.logged.Accepts Ready where
  send chat content world hready := by
    rw [effect_send_logged]
    exact h.send chat content world hready
  edit target content world hready := by
    rw [effect_edit_logged]
    exact h.edit target content world hready

/-- The transport with a journal beside its world. -/
def journaled (t : Transport σ) : Transport (σ × List Call) where
  send chat content := do
    Act.modifyWorld fun noted => ((), noted.1, noted.2 ++ [.send chat content])
    (t.send chat content).onPart Prod.fst fun world noted => (world, noted.2)
  edit target content := do
    Act.modifyWorld fun noted => ((), noted.1, noted.2 ++ [.edit target content])
    (t.edit target content).onPart Prod.fst fun world noted => (world, noted.2)

theorem effect_send_journaled (t : Transport σ) (chat : Int64) (content : Content) (world : σ)
    (past : List Call) :
    (t.journaled.send chat content).effect (world, past) =
      (((t.send chat content).effect world).1, ((t.send chat content).effect world).2,
        past ++ [.send chat content]) := rfl

theorem effect_edit_journaled (t : Transport σ) (target : MessageRef) (content : Content)
    (world : σ) (past : List Call) :
    (t.journaled.edit target content).effect (world, past) =
      (((t.edit target content).effect world).1, ((t.edit target content).effect world).2,
        past ++ [.edit target content]) := rfl

/-- Any transport can be watched for its calls. -/
theorem journals_journaled (t : Transport σ) :
    t.journaled.Journals (fun _ => True) Prod.snd where
  send _ _ _ _ := ⟨trivial, _, rfl, rfl⟩
  edit _ _ _ _ := ⟨trivial, _, rfl, rfl⟩

theorem Accepts.journaled (h : t.Accepts Ready) :
    t.journaled.Accepts fun noted => Ready noted.1 where
  send chat content noted hready := by
    obtain ⟨m, left, hsend, hleft⟩ := h.send chat content noted.1 hready
    exact ⟨m, _, by rw [effect_send_journaled, hsend], hleft⟩
  edit target content noted hready := by
    obtain ⟨left, hedit, hleft⟩ := h.edit target content noted.1 hready
    exact ⟨_, by rw [effect_edit_journaled, hedit], hleft⟩

end Transport

/-- Lines can be written. -/
def Console.Writes (c : Console) : Prop := c.failure = none

theorem Console.accepts : transport.Accepts Writes where
  send chat content c hwrites := by
    obtain ⟨lines, next, failure⟩ := c
    obtain rfl : failure = none := hwrites
    exact ⟨_, _, rfl, rfl⟩
  edit target content c hwrites := by
    obtain ⟨lines, next, failure⟩ := c
    obtain rfl : failure = none := hwrites
    exact ⟨_, rfl, rfl⟩

namespace Recorder

/-- No call fails. -/
def Works (r : Recorder) : Prop := r.failure = none

theorem accepts : transport.Accepts Works where
  send chat content r hworks := by
    obtain ⟨past, accepted, failure⟩ := r
    obtain rfl : failure = none := hworks
    exact ⟨_, _, rfl, rfl⟩
  edit target content r hworks := by
    obtain ⟨past, accepted, failure⟩ := r
    obtain rfl : failure = none := hworks
    exact ⟨_, rfl, rfl⟩

/-- The recorder keeps a journal itself, whether its calls fail or not. -/
theorem journals : transport.Journals (fun _ => True) calls := by
  constructor
  · rintro chat content ⟨past, accepted, failure⟩ -
    cases failure <;> exact ⟨trivial, _, rfl, rfl⟩
  · rintro target content ⟨past, accepted, failure⟩ -
    cases failure <;> exact ⟨trivial, _, rfl, rfl⟩

end Recorder

/-! ## The router -/

namespace Router

variable {σ : Type} {r : Router σ} {Ready : σ → Prop} {journal : σ → List Call}

/-- The calls that answer a command: one message or, where the start stage is not found, none. -/
def answerCalls (r : Router σ) (start : StartSettings) (chat : Int64) : Command → List Call
  | .menu => [.send chat ⟨Command.menuText r.languages, .plain, none⟩]
  | .unknown => [.send chat ⟨start.fallback, .plain, none⟩]
  | .start language =>
    ((r.graph.render start.procedure start.stage language).map
      fun page => .send chat page.content).toList

theorem does_tell (h : r.transport.Journals Ready journal) (chat : Int64) (content : Content) :
    (r.tell chat content).Does Ready journal fun _ made => made = [.send chat content] := by
  refine (h.send chat content).bind fun result calls hcalls => ?_
  exact .of_pure (by rw [hcalls, List.append_nil])

theorem does_answer (h : r.transport.Journals Ready journal) (start : StartSettings)
    (chat : Int64) (command : Command) :
    (r.answer start chat command).Does Ready journal
      fun _ made => made = r.answerCalls start chat command := by
  cases command with
  | menu => exact does_tell h chat _
  | unknown => exact does_tell h chat _
  | start language =>
    simp only [answer, answerCalls]
    cases r.graph.render start.procedure start.stage language with
    | none => exact .log_bind (.of_pure rfl)
    | some page => exact does_tell h chat page.content

/-- A message is answered by the calls of its command. -/
theorem does_onMessage (h : r.transport.Journals Ready journal) (start : StartSettings)
    (chat : Int64) (text : String) :
    (r.onMessage start chat text).Does Ready journal
      fun _ made => made = r.answerCalls start chat (Command.parse text r.languages) := by
  refine (does_answer h start chat _).bind fun result calls hcalls => ?_
  exact .of_pure (by rw [hcalls, List.append_nil])

variable {u : Update} {c : Graph.Choice} {language : String}
  {Ran : Except HandlerError Verdict → List Call → Prop}

/-- The edit that follows what a handler has returned, if there is one. -/
def editCalls (r : Router σ) (u : Update) (c : Graph.Choice) (language : String) :
    Except HandlerError Verdict → List Call
  | .error _ => []
  | .ok verdict =>
    match r.destination u c language verdict with
    | .error _ => []
    | .ok (target, _, page) => [.edit target page.content]

theorem does_runHandler (hnone : r.handlers.get? c.key = none → Ran (.ok .proceed) [])
    (hsome : ∀ handler, r.handlers.get? c.key = some handler →
      (handler r.transport u (click c language)).Does Ready journal Ran) :
    (r.runHandler u c language).Does Ready journal Ran := by
  unfold runHandler
  cases hget : r.handlers.get? c.key with
  | none => exact .of_pure (hnone hget)
  | some handler =>
    refine (hsome handler hget).bind fun result calls hran => ?_
    cases result with
    | error e => exact .of_pure (by rwa [List.append_nil])
    | ok verdict => exact .log_bind (.of_pure (by rwa [List.append_nil]))

/-- A click makes the calls of its handler and then the edit. -/
theorem does_route (h : r.transport.Journals Ready journal)
    (hhandler : (r.runHandler u c language).Does Ready journal Ran) :
    (r.route u c language).Does Ready journal fun _ made =>
      ∃ result calls, Ran result calls ∧ made = calls ++ r.editCalls u c language result := by
  refine hhandler.bind fun result calls hran => ?_
  cases result with
  | error e => exact .of_pure ⟨.error e, calls, hran, rfl⟩
  | ok verdict =>
    simp only
    cases hdestination : r.destination u c language verdict with
    | error halt =>
      have hedit : r.editCalls u c language (.ok verdict) = [] := by
        simp only [editCalls, hdestination]
      have hmade : ∃ result made, Ran result made ∧
          calls ++ [] = made ++ r.editCalls u c language result :=
        ⟨.ok verdict, calls, hran, by rw [hedit]⟩
      cases halt <;> exact .log_bind (.of_pure hmade)
    | ok destination =>
      obtain ⟨target, next, page⟩ := destination
      have hedit : r.editCalls u c language (.ok verdict) = [.edit target page.content] := by
        simp only [editCalls, hdestination]
      refine (h.edit target page.content).bind fun edited more hmore => ?_
      have hmade : ∃ result made, Ran result made ∧
          calls ++ (more ++ []) = made ++ r.editCalls u c language result :=
        ⟨.ok verdict, calls, hran, by rw [hedit, hmore, List.append_nil]⟩
      cases edited with
      | error e => exact .of_pure hmade
      | ok _ => exact .log_bind (.of_pure hmade)

/-- An update that clicks no choice makes no call, and one that does makes those of the choice. -/
theorem does_onUpdate {Made : List Call → Prop}
    (hignored : ∀ reason, r.resolve u = .error reason → Made [])
    (hclicked : ∀ c language, r.resolve u = .ok (c, language) →
      (r.route u c language).Does Ready journal fun _ made => Made made) :
    (r.onUpdate u).Does Ready journal fun _ made => Made made := by
  unfold onUpdate
  cases hresolve : r.resolve u with
  | error reason => exact .log_bind (.of_pure (hignored reason hresolve))
  | ok clicked =>
    obtain ⟨c, language⟩ := clicked
    exact (hclicked c language hresolve).within _

end Router

/-! ## Handlers -/

section Handlers

variable {σ : Type} {t : Transport σ} {Ready : σ → Prop} {journal : σ → List Call}

/-- The calls of the handler of a row: a reply sends its text once, as plain text without
buttons. -/
def RowAction.calls (a : RowAction) (u : Update) : List Call :=
  match a.action with
  | .log => []
  | .reply => [.send u.chat ⟨a.text, .plain, none⟩]

theorem RowAction.does_handler (h : t.Journals Ready journal) (a : RowAction) (u : Update)
    (click : Click) :
    (a.handler t u click).Does Ready journal fun _ made => made = a.calls u := by
  unfold handler calls
  cases a.action with
  | log => exact .log_bind (.of_pure rfl)
  | reply =>
    refine (h.send u.chat ⟨a.text, .plain, none⟩).bind fun result calls hcalls => ?_
    cases result with
    | error e => exact .of_pure (by rw [hcalls]; rfl)
    | ok m => exact .of_pure (by rw [hcalls]; rfl)

/-- Where no message is refused, the handler of a row gives its verdict. -/
theorem RowAction.does_handler_ok (h : t.Journals Ready journal) (haccepts : t.Accepts Ready)
    (a : RowAction) (u : Update) (click : Click) :
    (a.handler t u click).Does Ready journal
      fun result made => result = .ok a.verdict ∧ made = a.calls u := by
  intro world hready
  obtain ⟨hleft, calls, hcalls, hjournal⟩ := a.does_handler h u click world hready
  refine ⟨hleft, calls, ⟨?_, hcalls⟩, hjournal⟩
  unfold handler
  cases a.action with
  | log => rfl
  | reply =>
    obtain ⟨m, left, hsend, -⟩ := haccepts.send u.chat (.plain a.text) world hready
    simp only [Act.effect_bind, hsend, Act.effect_pure]

/-- Every call that is made while an update is dealt with is added to the journal: those of the
transport, and what the handlers add. -/
structure Router.Journals (r : Router σ) (journal : σ → List Call) : Prop where
  transport : r.transport.Journals (fun _ => True) journal
  handlers : ∀ key handler, r.handlers.get? key = some handler → ∀ u click,
    (handler r.transport u click).Does (fun _ => True) journal fun _ _ => True

/-- Handlers from the settings make no calls but those of the transport. -/
theorem Router.FromRows.journals {r : Router σ} (h : r.FromRows)
    (hjournal : r.transport.Journals (fun _ => True) journal) : r.Journals journal := by
  refine ⟨hjournal, fun key handler hget u click => ?_⟩
  obtain ⟨a, rfl⟩ := h key handler hget
  exact (a.does_handler hjournal u click).mono fun _ _ _ => trivial

end Handlers

/-! ## The update loop -/

namespace Serve

variable {σ : Type} {r : Router σ} {start : StartSettings} {Ready : σ → Prop}
  {journal : σ → List Call} {Made : List Call → Prop}

/-- To deal with a message is to answer it, whatever comes of it. -/
theorem does_dispatch_message {chat : Int64} {text : String}
    (h : (r.onMessage start chat text).Does Ready journal fun _ made => Made made) :
    (dispatch r start (.message chat text)).Does Ready journal fun _ made => Made made := by
  refine h.bind fun result calls hcalls => ?_
  cases result with
  | ok _ => exact .of_pure (by rwa [List.append_nil])
  | error e => exact .of_log (by rwa [List.append_nil])

/-- To deal with a click is to route it, whatever comes of it. -/
theorem does_dispatch_click {id : String} {chat : Int64} {shown : Option Int64}
    {data : Option String}
    (h : (r.onUpdate (.click id chat shown data)).Does Ready journal fun _ made => Made made) :
    (dispatch r start (.click id chat shown data)).Does Ready journal fun _ made => Made made := by
  refine h.bind fun result calls hcalls => ?_
  cases result with
  | ok _ => exact .of_log (by rwa [List.append_nil])
  | error e => exact .of_log (by rwa [List.append_nil])

end Serve

end ButtonDialog
