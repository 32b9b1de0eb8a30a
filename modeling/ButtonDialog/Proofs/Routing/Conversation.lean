import ButtonDialog.Proofs.Commands
import ButtonDialog.Proofs.Routing.Displays
import ButtonDialog.Proofs.Routing.RoundTrip

/-! What a message shows while its buttons are clicked.

    The start message shows the start stage, and from then on the message shows a stage of the same
    procedure in the same language: a click on one of its buttons leaves it as it is, or moves it to
    the stage that the choice leads to. This holds over any number of clicks, in graphs with
    cycles too, and whatever calls fail. -/

namespace ButtonDialog

/-- The buttons of a message, in row order. -/
def Content.buttons (c : Content) : List Button :=
  (c.layout.map fun layout => layout.rows.flatten).getD []

/-- A click on a button of a message, and what came of it. -/
structure Turn where
  button : Button
  result : Except RouterError Outcome
  shown : Option Content

/-- Clicks on a message, one after another, each on a button that the message shows then. Between
two clicks the world of the transport may change, calls may begin to fail, for instance; what
messages show does not, and a message that is sent is a new one. -/
inductive Router.Conversation {σ : Type} (r : Router σ) (display : σ → Display) (m : MessageRef) :
    σ → List Turn → Prop
  | done {world : σ} : Conversation r display m world []
  | click {world drifted after : σ} {id : String} {content : Content} {button : Button}
      {result : Except RouterError Outcome} {turns : List Turn}
      (hdrift : display drifted = display world)
      (hfresh : r.transport.SendsFresh display drifted)
      (hshown : display drifted m = some content) (hbutton : button ∈ content.buttons)
      (hclick : (r.onUpdate (.click id m.chat (some m.message) (some button.payload))).effect
        drifted = (result, after))
      (hrest : Conversation r display m after turns) :
      Conversation r display m world (⟨button, result, display after m⟩ :: turns)

namespace Document

/-- The payload of a choice of a stage, by the id of the choice. -/
def Procedure.payload (p : Procedure) (s : Stage) (choice language : String) : String :=
  (Payload.mk (Key.choice (decimal p.id) (decimal s.id) choice) language).encode

/-- The stage that a button with this payload leads to. A choice leads to its next stage, and the
ways back lead to the previous stage and to the root. -/
inductive Leads (p : Procedure) (s : Stage) (language payload : String) (s' : Stage) : Prop
  | next {c : Choice} (hc : c ∈ s.choices)
      (hpayload : payload = p.payload s (decimal c.id) language) (hnext : c.next = some s'.id)
  | previous (hpayload : payload = p.payload s toPreviousId language)
      (hprevious : s.previous = some s'.id)
  | root (hpayload : payload = p.payload s toRootId language) (hroot : s'.id = p.root)

/-- A stage is shown, with its text and its buttons in a language. -/
def Procedure.IsShown (p : Procedure) (g : Graph) (s : Stage) (language : String)
    (shown : Option Content) : Prop :=
  ∃ page, g.render (decimal p.id) (decimal s.id) language = some page ∧
    shown = some ⟨page.text, page.mode, page.layout⟩

/-- A click on a stage that is shown. It stays, without moving or being ignored, or it moves to a
stage of the procedure to which the button leads. -/
inductive Procedure.Turned (p : Procedure) (g : Graph) (language : String) (s : Stage)
    (turn : Turn) : Stage → Prop
  | stays (hnotIgnored : ∀ reason, turn.result ≠ .ok (.ignored reason))
      (hnotMoved : ∀ procedure stage, turn.result ≠ .ok (.transitioned procedure stage))
      (hshown : p.IsShown g s language turn.shown) : Turned p g language s turn s
  | moves {s' : Stage} (hs' : s' ∈ p.stages)
      (hresult : turn.result = .ok (.transitioned (decimal p.id) (decimal s'.id)))
      (hleads : Leads p s language turn.button.payload s')
      (hshown : p.IsShown g s' language turn.shown) : Turned p g language s turn s'

/-- Turns from a stage on, each at the stage that the one before left. -/
inductive Procedure.Walk (p : Procedure) (g : Graph) (language : String) :
    Stage → List Turn → Prop
  | done {s : Stage} : Walk p g language s []
  | turn {s s' : Stage} {first : Turn} {rest : List Turn} (hfirst : p.Turned g language s first s')
      (hrest : Walk p g language s' rest) : Walk p g language s (first :: rest)

variable {d : Document} {p : Procedure} {s : Stage} {language : String}

/-! ## The buttons of a stage -/

/-- A button of a stage has the payload of one of its plans. -/
theorem exists_plan_of_button {page : Rendered} {button : ButtonDialog.Button}
    (hlayout : page.layout = (Graph.layoutsOf (d.compiledRows p s)).get? language)
    (hbutton : button ∈ page.content.buttons) :
    ∃ plan ∈ (p.plans s).flatten,
      button.payload = (Payload.mk (d.compiledChoice p s plan).key language).encode := by
  have hmem : button ∈ (Graph.layoutIn (d.compiledRows p s) language).buttons := by
    rw [Content.buttons, Rendered.content, hlayout, Graph.get?_layoutsOf] at hbutton
    split at hbutton
    · exact hbutton
    · exact absurd hbutton List.not_mem_nil
  obtain ⟨c, hc, hlabel⟩ := Graph.exists_choice_of_mem_layoutIn hmem
  rw [Graph.flatten_compiledRows] at hc
  obtain ⟨plan, hplan, rfl⟩ := List.mem_map.1 hc
  obtain ⟨label, -, rfl⟩ := Option.map_eq_some_iff.1 hlabel
  exact ⟨plan, hplan, rfl⟩

/-- Where a plan of a stage leads, there its button leads. -/
theorem leads_of_plan {plan : ChoicePlan} (hplan : plan ∈ (p.plans s).flatten) {payload : String}
    (hpayload : payload = (Payload.mk (d.compiledChoice p s plan).key language).encode)
    {s' : Stage} (hnext : plan.next = some s'.id) : Leads p s language payload s' := by
  rw [flatten_plans] at hplan
  rcases List.mem_append.1 hplan with hplan | hplan
  · obtain ⟨c, hc, rfl⟩ := List.mem_map.1 hplan
    exact .next hc hpayload hnext
  · rcases mem_waysBack hplan with ⟨b, -, rfl⟩ | ⟨b, -, rfl⟩
    · exact .previous hpayload hnext
    · exact .root hpayload (Option.some.inj hnext).symm

end Document

/-! ## One click -/

section Click

variable {σ : Type} {r : Router σ} {display : σ → Display} {m : MessageRef} {world after : σ}
  {content : Content} {result : Except RouterError Outcome}

/-- A click that is followed leaves the message as it is, or the message shows the page of the next
stage of the choice. -/
theorem Router.Follows.keeps_or_moves {u : Update} {s : Graph.Stage} {c : Graph.Choice}
    {language : String} (hfollows : r.Follows u s c language world) (hrows : r.FromRows)
    (hshows : r.transport.Shows display) (hfresh : r.transport.SendsFresh display world)
    (htarget : u.target? = some m) (hm : display world m = some content)
    (hclick : (r.onUpdate u).effect world = (result, after)) :
    ((∀ procedure stage, result ≠ .ok (.transitioned procedure stage)) ∧
        display after m = some content) ∨
      ∃ next page, c.next = some next ∧ r.graph.render s.procedure next language = some page ∧
        result = .ok (.transitioned s.procedure next) ∧ display after m = some page.content := by
  have hkept := hrows.display_handled hshows hfresh hm u (s.click c language)
  rcases hhandled : r.handled u (s.click c language) world with ⟨e | verdict, left⟩
  all_goals rw [hhandled] at hkept
  · rw [hfollows.fails e left hhandled] at hclick
    cases hclick
    exact .inl ⟨nofun, hkept⟩
  · by_cases hstays : Router.Stays u c verdict
    · rw [hfollows.stays verdict left hhandled hstays] at hclick
      cases hclick
      exact .inl ⟨nofun, hkept⟩
    · obtain ⟨next, target, hnext, rfl, hknown⟩ := Router.not_stays_iff.1 hstays
      rw [htarget] at hknown
      cases hknown
      obtain ⟨page, hpage, hmoves, hfails⟩ := hfollows.moves left next m hhandled hnext htarget
      rcases hedit : (r.transport.edit m page.content).effect left with ⟨e | ⟨⟩, edited⟩
      · rw [hfails e edited hedit] at hclick
        cases hclick
        refine .inl ⟨nofun, ?_⟩
        rw [hshows.editFails _ _ _ _ _ hedit]
        exact hkept
      · rw [hmoves edited hedit] at hclick
        cases hclick
        refine .inr ⟨next, page, hnext, hpage, rfl, ?_⟩
        rw [hshows.edit _ _ _ _ hedit]
        exact Display.set_self _ _ _

variable {d : Document} {p : Document.Procedure} {s : Document.Stage} {language : String}

/-- A click on a button of a stage that is shown stays on the stage, or moves to where the button
leads. -/
theorem Document.Valid.turned (h : d.Valid) (hg : d.graph.Indexed) (hgraph : r.graph = d.graph)
    (hrows : r.FromRows) (hshows : r.transport.Shows display)
    (hfresh : r.transport.SendsFresh display world) (hp : p ∈ d.procedures) (hs : s ∈ p.stages)
    (hl : language ∈ d.languages) (hstage : p.IsShown d.graph s language (display world m))
    (hcontent : display world m = some content) {button : ButtonDialog.Button}
    (hbutton : button ∈ content.buttons) {id : String}
    (hclick : (r.onUpdate (.click id m.chat (some m.message) (some button.payload))).effect world =
      (result, after)) :
    ∃ s' ∈ p.stages, p.Turned d.graph language s ⟨button, result, display after m⟩ s' := by
  obtain ⟨first, hmem, -⟩ := exists_compiledStage (mem_staged_iff.2 ⟨hp, hs⟩)
  obtain ⟨page, hpage, -, hlayout⟩ := h.exists_render hg hp hs hmem hl
  -- the content that the message shows is the page of the stage
  obtain ⟨shown, hrender, hshown⟩ := hstage
  rw [hpage] at hrender
  cases hrender
  rw [hshown] at hcontent
  cases hcontent
  obtain ⟨plan, hplan, hpayload⟩ := exists_plan_of_button hlayout hbutton
  have hfollows : r.Follows (.click id m.chat (some m.message) (some button.payload))
      (d.compiledStage p s first) (d.compiledChoice p s plan) language world := by
    have hr : r = Router.mk r.transport d.graph r.handlers := by rw [← hgraph]
    have hpayload? : (Update.click id m.chat (some m.message) (some button.payload)).payload? =
        some (Payload.mk (d.compiledChoice p s plan).key language).encode := congrArg some hpayload
    rw [hr]
    exact h.follows hg hp hs hplan hl hpayload? first world
  have hnotIgnored : ∀ reason, result ≠ .ok (.ignored reason) := by
    intro reason hresult
    exact hfollows.notIgnored reason (by rw [hclick, hresult])
  rcases hfollows.keeps_or_moves hrows hshows hfresh rfl hshown hclick with
    ⟨hnotMoved, hkept⟩ | ⟨next, nextPage, hnext, hnextPage, hresult, hmoved⟩
  · exact ⟨s, hs, .stays hnotIgnored hnotMoved ⟨page, hpage, hkept⟩⟩
  · obtain ⟨stage, hstage, rfl⟩ := Option.map_eq_some_iff.1 hnext
    obtain ⟨s', hs', rfl⟩ := h.exists_plan_next hp hs hplan hstage
    rw [hgraph] at hnextPage
    exact ⟨s', hs', .moves hs' hresult (leads_of_plan hplan hpayload hstage)
      ⟨nextPage, hnextPage, hmoved⟩⟩

/-! ## Any number of clicks -/

theorem Document.Procedure.Turned.isShown {g : Graph} {turn : Turn} {s' : Stage}
    (h : p.Turned g language s turn s') : p.IsShown g s' language turn.shown := by
  cases h with
  | stays _ _ hshown => exact hshown
  | moves _ _ _ hshown => exact hshown

/-- Any number of clicks walks from stage to stage. -/
theorem Document.Valid.walk (h : d.Valid) (hg : d.graph.Indexed) (hgraph : r.graph = d.graph)
    (hrows : r.FromRows) (hshows : r.transport.Shows display) (hp : p ∈ d.procedures)
    (hs : s ∈ p.stages) (hl : language ∈ d.languages)
    (hstage : p.IsShown d.graph s language (display world m)) {turns : List Turn}
    (hturns : r.Conversation display m world turns) : p.Walk d.graph language s turns := by
  induction hturns generalizing s with
  | done => exact .done
  | click hdrift hfresh hshown hbutton hclick _ ih =>
    rw [← hdrift] at hstage
    obtain ⟨s', hs', hturned⟩ := h.turned hg hgraph hrows hshows hfresh hp hs hl hstage hshown
      hbutton hclick
    exact .turn hturned (ih hs' hturned.isShown)

end Click

/-! ## Conversations -/

namespace Router

/-- A conversation keeps to its procedure and its language. The document of a text compiles, if the
digest tells its joined ids apart, and the command of a language asks for that language. When such a
command is answered, a message shows the start stage. Whatever buttons of the message are clicked
from then on, and whatever calls fail, it goes from stage to stage of the procedure, each time to a
stage that the button leads to. -/
theorem keeps_to_procedure {text : String} {d : Document} (hread : Document.ofText text = .ok d)
    (hapart : d.KeysApart) :
    ∃ g, Graph.compile d = .ok g ∧
      (∀ language ∈ g.languages,
        Command.parse (Command.textFor language) g.languages = .start language) ∧
      ∀ (σ : Type) (transport : Transport σ) (display : σ → Display), transport.Shows display →
        ∀ (rows : List HandlerRow) (start : StartSettings),
        (∃ stage ∈ g.stages, stage.procedure = start.procedure ∧ stage.id = start.stage) →
        ∀ language ∈ g.languages, ∀ chat message world after,
          ((ofRows transport g rows).onMessage start chat message).effect world =
            (.ok (.start language), after) →
          ∃ p ∈ d.procedures, ∃ s ∈ p.stages,
            decimal p.id = start.procedure ∧ decimal s.id = start.stage ∧
            ∃ content m, (transport.send chat content).effect world = (.ok m, after) ∧
              p.IsShown g s language (display after m) ∧
              ∀ turns, (ofRows transport g rows).Conversation display m after turns →
                p.Walk g language s turns := by
  have hvalid := Document.valid_of_ofText hread
  have hcompilable := hvalid.compilable hapart
  have hg := hcompilable.indexed
  refine ⟨d.graph, Graph.compile_eq_ok_iff.2 ⟨hcompilable, rfl⟩, fun language hl => ?_, ?_⟩
  · rw [Document.languages_graph] at hl ⊢
    exact Command.parse_textFor hvalid hl
  · rintro σ transport display hshows rows start ⟨stage, hmem, hprocedure, hid⟩ language hl chat
      message world after hstart
    rw [Document.languages_graph] at hl
    obtain ⟨p, s, first, hx, rfl, -⟩ := Document.exists_staged hmem
    obtain ⟨hp, hs⟩ := Document.mem_staged_iff.1 hx
    obtain ⟨page, hpage, -, -⟩ := hvalid.exists_render hg hp hs hmem hl
    have hstartPage :
        (ofRows transport d.graph rows).graph.render start.procedure start.stage language =
          some page := by
      rw [← hprocedure, ← hid, graph_ofRows]
      exact hpage
    obtain ⟨m, hsend⟩ := sent_of_start hstartPage hstart
    rw [transport_ofRows] at hsend
    have hshown : p.IsShown d.graph s language (display after m) := by
      rw [hshows.send _ _ _ _ _ hsend, Display.set_self]
      exact ⟨page, hpage, rfl⟩
    have hshowsRows : (ofRows transport d.graph rows).transport.Shows display := by
      rw [transport_ofRows]
      exact hshows
    exact ⟨p, hp, s, hs, hprocedure, hid, page.content, m, hsend, hshown, fun turns hturns =>
      hvalid.walk hg (graph_ofRows _ _ _) (fromRows_ofRows _ _ _) hshowsRows hp hs hl hshown
        hturns⟩

end Router

/-- A reply on the choice of the loop. -/
def Document.loopRows : List HandlerRow := [⟨"1", "1", "1", .reply, some "Again", false⟩]

/-- The loop is started where it is. -/
def Document.loopStart : StartSettings := ⟨"1", "1", "What?"⟩

/-- A router of the loop that notes what messages show. -/
def Router.loop : Router (Recorder × Display) :=
  .ofRows Recorder.transport.displayed Document.loop.graph Document.loopRows

theorem Router.keeps_to_loop :
    ∃ m after turn,
      (Router.loop.onMessage Document.loopStart 7 "/start_en").effect (.fresh, fun _ => none) =
        (.ok (.start "en"), after) ∧ Router.loop.Conversation Prod.snd m after [turn] ∧
      ∃ p ∈ Document.loop.procedures, ∃ s ∈ p.stages,
        p.Walk Document.loop.graph "en" s [turn] := by
  obtain ⟨g, hg, -, h⟩ := @Router.keeps_to_procedure Document.loopText Document.loop
    (Checks.toOption_eq_some_iff.1 (by decide +kernel)) (by decide +kernel)
  obtain ⟨-, rfl⟩ := Graph.compile_eq_ok_iff.1 hg
  have hstages : Document.loop.graph.stages.toList.map (fun s => (s.procedure, s.id)) =
      [("1", "1")] := by decide +kernel
  have hanswer : ((Router.loop.onMessage Document.loopStart 7 "/start_en").effect
      (.fresh, fun _ => none)).1.toOption = some (.start "en") := by decide +kernel
  have hroom : ((Router.loop.onMessage Document.loopStart 7 "/start_en").effect
      (.fresh, fun _ => none)).2.1.accepted ≠ Int64.maxValue := by decide +kernel
  rcases hstart : (Router.loop.onMessage Document.loopStart 7 "/start_en").effect
    (.fresh, fun _ => none) with ⟨result, after⟩
  rw [hstart] at hanswer hroom
  cases Checks.toOption_eq_some_iff.1 hanswer
  obtain ⟨stage, hstage, hids⟩ := List.mem_map.1 (hstages ▸ List.mem_singleton_self ("1", "1"))
  obtain ⟨p, hp, s, hs, hprocedure, hid, content, m, hsend, ⟨page, hpage, hshown⟩, hwalk⟩ :=
    h _ _ Prod.snd (Transport.shows_displayed _) Document.loopRows Document.loopStart
      ⟨stage, Array.mem_toList_iff.1 hstage, Prod.mk.inj hids⟩ "en" (by decide) 7 "/start_en" _ _
      hstart
  rw [hprocedure, hid] at hpage
  obtain ⟨button, hbutton⟩ : ∃ button, button ∈ page.content.buttons := by
    have hbuttons : (Document.loop.graph.render Document.loopStart.procedure
        Document.loopStart.stage "en").map (fun page => page.content.buttons.length) = some 1 := by
      decide +kernel
    rw [hpage, Option.map_some, Option.some.injEq] at hbuttons
    exact List.exists_mem_of_length_pos (by omega)
  have hfresh : Router.loop.transport.SendsFresh Prod.snd after := by
    have hbelow := Recorder.below_send (fun _ hne => absurd rfl hne) (by decide) hsend
    rw [Router.loop, Router.transport_ofRows]
    exact Recorder.sendsFresh hbelow hroom
  rcases hclick : (Router.loop.onUpdate (.click "id" m.chat (some m.message)
    (some button.payload))).effect after with ⟨outcome, left⟩
  have hturn : Router.loop.Conversation Prod.snd m after [⟨button, outcome, left.2 m⟩] :=
    .click rfl hfresh hshown hbutton hclick .done
  exact ⟨m, after, _, rfl, hturn, p, hp, s, hs, hwalk _ hturn⟩

end ButtonDialog
