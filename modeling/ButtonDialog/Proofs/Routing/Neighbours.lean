import Mathlib.Data.List.Nodup
import ButtonDialog.Proofs.Routing.Versions

/-! Procedures do not see each other.

    What a stage of a procedure shows, and what a click on one of its choices does, depend on the
    procedure and on the labels of the buttons that it refers to. The other procedures and buttons,
    the languages and the order of everything decide at which places of the graph things stand, and
    no place is shown. So a procedure may be moved from one document to another. -/

namespace ButtonDialog

namespace Router

variable {σ : Type} {r r' : Router σ} {u : Update} {c : Graph.Choice} {language : String}

/-- Two routers do the same with a click on a choice: the update clicks the choice in both, runs to
the same end in every world, with the same records, and the routers do the same on the way. -/
structure ActAlike (r r' : Router σ) (u : Update) (c : Graph.Choice) (language : String) :
    Prop where
  clicked : r.resolve u = .ok (c, language)
  clicked' : r'.resolve u = .ok (c, language)
  runs : r.onUpdate u = r'.onUpdate u
  deeds : ∀ world, r.deeds u world = r'.deeds u world

/-- Routing a click reads nothing of the graph but what the next stage shows, and no handler but
that of the choice. -/
theorem route_congr (htransport : r.transport = r'.transport)
    (hhandler : r.handlers.get? c.key = r'.handlers.get? c.key)
    (hnext : ∀ next, c.next = some next →
      (r.graph.render c.procedure next language).map Rendered.content =
        (r'.graph.render c.procedure next language).map Rendered.content) :
    r.route u c language = r'.route u c language := by
  have hrun : r.runHandler u c language = r'.runHandler u c language := by
    rw [runHandler, runHandler, hhandler, htransport]
  have hcontains : r.handlers.contains c.key = r'.handlers.contains c.key := by
    rw [NameTable.contains, NameTable.contains, hhandler]
  unfold route
  rw [hrun, hcontains, htransport]
  refine bind_congr fun result => ?_
  cases result with
  | error e => rfl
  | ok verdict =>
    simp only [destination]
    cases hc : c.next with
    | none => rfl
    | some next =>
      by_cases hstay : verdict = .stay
      · simp only [hstay, if_true]
      · cases u.target? with
        | none => simp only [hstay, if_false]
        | some target =>
          have hcontent := hnext next hc
          cases hpage : r.graph.render c.procedure next language with
          | none =>
            rw [hpage, Option.map_none, eq_comm, Option.map_eq_none_iff] at hcontent
            simp only [hstay, if_false, hpage, hcontent]
          | some page =>
            rw [hpage, Option.map_some, eq_comm, Option.map_eq_some_iff] at hcontent
            obtain ⟨page', hpage', hsame⟩ := hcontent
            simp only [hstay, if_false, hpage, hpage', hsame]

theorem onUpdate_of_resolve (h : r.resolve u = .ok (c, language)) :
    r.onUpdate u = (r.route u c language).within (routeSpan c language) := by
  rw [onUpdate, h]

/-- Routers with one transport do the same with a click that resolves to a choice in both, if the
choice has the same handler and its next stage shows the same. -/
theorem actAlike_of_resolve {t : Transport σ} {g g' : Graph}
    {handlers handlers' : NameTable (Handler σ)}
    (hclicked : (Router.mk t g handlers).resolve u = .ok (c, language))
    (hclicked' : (Router.mk t g' handlers').resolve u = .ok (c, language))
    (hhandler : handlers.get? c.key = handlers'.get? c.key)
    (hnext : ∀ next, c.next = some next →
      (g.render c.procedure next language).map Rendered.content =
        (g'.render c.procedure next language).map Rendered.content) :
    (Router.mk t g handlers).ActAlike (Router.mk t g' handlers') u c language := by
  have hroute : (Router.mk t g handlers).route u c language =
      (Router.mk t g' handlers').route u c language := route_congr rfl hhandler hnext
  have hruns : (Router.mk t g handlers).onUpdate u = (Router.mk t g' handlers').onUpdate u := by
    rw [onUpdate_of_resolve hclicked, onUpdate_of_resolve hclicked', hroute]
  -- a router that is watched is a router too, with handlers that are noted
  have hnoted : (Router.mk t g handlers).watched.handlers.get? c.key =
      (Router.mk t g' handlers').watched.handlers.get? c.key := by
    simp only [watched, NameTable.get?_map, hhandler]
    rfl
  have hwatchedRoute : (Router.mk t g handlers).watched.route u c language =
      (Router.mk t g' handlers').watched.route u c language := route_congr rfl hnoted hnext
  have hwatched : (Router.mk t g handlers).watched.onUpdate u =
      (Router.mk t g' handlers').watched.onUpdate u := by
    have hresolve : (Router.mk t g handlers).watched.resolve u = .ok (c, language) := hclicked
    have hresolve' : (Router.mk t g' handlers').watched.resolve u = .ok (c, language) := hclicked'
    rw [onUpdate_of_resolve hresolve, onUpdate_of_resolve hresolve', hwatchedRoute]
  exact ⟨hclicked, hclicked', hruns, fun world => by rw [Router.deeds, Router.deeds, hwatched]⟩

end Router

namespace Document

/-- A procedure refers to a button if a choice or a way back shows it. -/
def Procedure.RefersTo (p : Procedure) (button : Int64) : Prop :=
  p.toRootButton = some button ∨ p.toPreviousButton = some button ∨
    ∃ s ∈ p.stages, ∃ c ∈ s.choices, c.button = button

/-- Two documents have a procedure in common, and the labels of the buttons that it refers to. -/
structure Share (d d' : Document) (p : Procedure) : Prop where
  mem : p ∈ d.procedures
  mem' : p ∈ d'.procedures
  labels : ∀ b ∈ d.buttons, ∀ b' ∈ d'.buttons, b.id = b'.id → p.RefersTo b.id → b.text = b'.text

variable {d d' : Document} {p : Procedure} {s : Stage}

theorem refersTo_of_plan (hs : s ∈ p.stages) {plan : ChoicePlan}
    (hplan : plan ∈ (p.plans s).flatten) : p.RefersTo plan.button := by
  rw [flatten_plans] at hplan
  rcases List.mem_append.1 hplan with hplan | hplan
  · obtain ⟨c, hc, rfl⟩ := List.mem_map.1 hplan
    exact .inr (.inr ⟨s, hs, c, hc, rfl⟩)
  · rcases mem_waysBack hplan with ⟨button, hbutton, rfl⟩ | ⟨button, hbutton, rfl⟩
    · exact .inr (.inl hbutton)
    · exact .inl hbutton

theorem Valid.exists_label (h : d.Valid) (hp : p ∈ d.procedures) (hs : s ∈ p.stages)
    {plan : ChoicePlan} (hplan : plan ∈ (p.plans s).flatten) :
    ∃ b ∈ d.buttons, b.id = plan.button ∧ d.label plan.button = b.text := by
  obtain ⟨b, hb⟩ := Option.isSome_iff_exists.1 (h.isSome_plan_button hp hs hplan)
  have hid := List.find?_some hb
  refine ⟨b, List.mem_reverse.1 (List.mem_of_find?_eq_some hb), beq_iff_eq.1 hid, ?_⟩
  rw [label, hb]
  rfl

/-- A choice of a procedure that two valid documents share becomes the same in both. -/
theorem Share.compiledChoice_eq (hshare : d.Share d' p) (h : d.Valid) (h' : d'.Valid)
    (hs : s ∈ p.stages) {plan : ChoicePlan} (hplan : plan ∈ (p.plans s).flatten) :
    d.compiledChoice p s plan = d'.compiledChoice p s plan := by
  obtain ⟨b, hb, hid, hlabel⟩ := h.exists_label hshare.mem hs hplan
  obtain ⟨b', hb', hid', hlabel'⟩ := h'.exists_label hshare.mem' hs hplan
  have htext : b.text = b'.text :=
    hshare.labels b hb b' hb' (hid.trans hid'.symm) (hid ▸ refersTo_of_plan hs hplan)
  rw [compiledChoice, compiledChoice, hlabel, hlabel', htext]

theorem Share.compiledRows_eq (hshare : d.Share d' p) (h : d.Valid) (h' : d'.Valid)
    (hs : s ∈ p.stages) : d.compiledRows p s = d'.compiledRows p s :=
  List.map_congr_left fun plans hplans => List.map_congr_left fun _ hplan =>
    hshare.compiledChoice_eq h h' hs (List.mem_flatten.2 ⟨plans, hplans, hplan⟩)

/-- What a stage shows in a language, if it has a text in it: its text, and the layout of its
choices. -/
theorem content_render (hg : d.graph.Indexed) (hp : p ∈ d.procedures) (hs : s ∈ p.stages)
    (language : String) :
    (d.graph.render (decimal p.id) (decimal s.id) language).map Rendered.content =
      (s.text.get? language).map fun text =>
        ⟨text, .plain, (Graph.layoutsOf (d.compiledRows p s)).get? language⟩ := by
  obtain ⟨first, hstage, -⟩ := exists_compiledStage (mem_staged_iff.2 ⟨hp, hs⟩)
  have hfound : d.graph.stage? (decimal p.id) (decimal s.id) = some (d.compiledStage p s first) :=
    hg.stageOfKey?_eq_some_iff.2 ⟨hstage, rfl⟩
  simp only [Graph.render, hfound, Option.bind_eq_bind, Option.bind_some]
  cases htext : s.text.get? language with
  | none =>
    have hnone : (d.compiledStage p s first).text.get? language = none := htext
    rw [hnone]
    rfl
  | some text =>
    have hsome : (d.compiledStage p s first).text.get? language = some text := htext
    rw [hsome]
    rfl

/-- A stage of a procedure that two documents share shows the same in both, in every language. -/
theorem Share.content_render_eq (hshare : d.Share d' p) (h : d.Valid) (h' : d'.Valid)
    (hg : d.graph.Indexed) (hg' : d'.graph.Indexed) (hs : s ∈ p.stages) (language : String) :
    (d.graph.render (decimal p.id) (decimal s.id) language).map Rendered.content =
      (d'.graph.render (decimal p.id) (decimal s.id) language).map Rendered.content := by
  rw [content_render hg hshare.mem hs, content_render hg' hshare.mem' hs,
    hshare.compiledRows_eq h h' hs]

/-- A choice of the graph that names a procedure of the document is what a plan of it became. -/
theorem Valid.exists_plan_of_procedure (h : d.Valid) (hp : p ∈ d.procedures) {c : Graph.Choice}
    (hc : c ∈ d.graph.choices) (hprocedure : c.procedure = decimal p.id) :
    ∃ s ∈ p.stages, ∃ plan ∈ (p.plans s).flatten, c = d.compiledChoice p s plan := by
  obtain ⟨p', s, plan, hx, hplan, rfl⟩ := exists_plan_of_mem_choices hc
  obtain ⟨hp', hs⟩ := mem_staged_iff.1 hx
  obtain rfl : p' = p :=
    List.inj_on_of_nodup_map h.nodup_procedures hp' hp (decimal_injective hprocedure)
  exact ⟨s, hs, plan, hplan, rfl⟩

/-- A choice of a procedure that two documents share is in both graphs. -/
theorem Share.mem_choices (hshare : d.Share d' p) (h : d.Valid) (h' : d'.Valid) {c : Graph.Choice}
    (hc : c ∈ d.graph.choices) (hprocedure : c.procedure = decimal p.id) :
    c ∈ d'.graph.choices := by
  obtain ⟨s, hs, plan, hplan, rfl⟩ := h.exists_plan_of_procedure hshare.mem hc hprocedure
  rw [hshare.compiledChoice_eq h h' hs hplan]
  exact compiledChoice_mem_graph hshare.mem' hs hplan

theorem Share.symm (hshare : d.Share d' p) : d'.Share d p :=
  ⟨hshare.mem', hshare.mem, fun b hb b' hb' hid hrefers =>
    (hshare.labels b' hb' b hb hid.symm (hid ▸ hrefers)).symm⟩

end Document

/-- A procedure does not depend on the document that it stands in. If two documents that can be read
share it, and the digest tells the joined ids of each apart, then both have graphs in which the
stages of the procedure show the same in every language, and which have the same choices of the
procedure. Whatever the transport is, a click on one of these choices, in a language of both
documents, has the same effects, as long as the handlers of the procedure are the same. -/
theorem Document.procedures_stand_alone {text text' : String} {d d' : Document}
    (hread : Document.ofText text = .ok d) (hread' : Document.ofText text' = .ok d')
    (hapart : d.KeysApart) (hapart' : d'.KeysApart) {p : Document.Procedure}
    (hshare : d.Share d' p) :
    ∃ g g', Graph.compile d = .ok g ∧ Graph.compile d' = .ok g' ∧
      (∀ s ∈ p.stages, ∀ language,
        (g.render (decimal p.id) (decimal s.id) language).map
            (fun page => (page.text, page.mode, page.layout)) =
          (g'.render (decimal p.id) (decimal s.id) language).map
            (fun page => (page.text, page.mode, page.layout))) ∧
      (∀ c, c.procedure = decimal p.id → (c ∈ g.choices ↔ c ∈ g'.choices)) ∧
      ∀ (σ : Type) (transport : Transport σ) (handlers handlers' : NameTable (Handler σ)),
        (∀ c ∈ g.choices, c.procedure = decimal p.id →
          handlers.get? c.key = handlers'.get? c.key) →
        ∀ c ∈ g.choices, c.procedure = decimal p.id →
          ∀ language ∈ d.languages, language ∈ d'.languages →
            ∀ u : Update, u.payload? = some (Payload.mk c.key language).encode →
              (Router.mk transport g handlers).ActAlike (Router.mk transport g' handlers') u c
                language := by
  have h := Document.valid_of_ofText hread
  have h' := Document.valid_of_ofText hread'
  have hcompilable := h.compilable hapart
  have hcompilable' := h'.compilable hapart'
  have hg := hcompilable.indexed
  have hg' := hcompilable'.indexed
  have hcontent : ∀ s ∈ p.stages, ∀ language,
      (d.graph.render (decimal p.id) (decimal s.id) language).map Rendered.content =
        (d'.graph.render (decimal p.id) (decimal s.id) language).map Rendered.content :=
    fun s hs language => hshare.content_render_eq h h' hg hg' hs language
  refine ⟨d.graph, d'.graph, Graph.compile_eq_ok_iff.2 ⟨hcompilable, rfl⟩,
    Graph.compile_eq_ok_iff.2 ⟨hcompilable', rfl⟩, fun s hs language => ?_,
    fun c hprocedure => ?_, ?_⟩
  · have hparts := congrArg (Option.map fun shown => (shown.text, shown.mode, shown.layout))
      (hcontent s hs language)
    rwa [Option.map_map, Option.map_map] at hparts
  · exact ⟨fun hc => hshare.mem_choices h h' hc hprocedure,
      fun hc => hshare.symm.mem_choices h' h hc hprocedure⟩
  · intro σ transport handlers handlers' hsame c hc hprocedure language hl hl' u hu
    have hhandler := hsame c hc hprocedure
    obtain ⟨s, hs, plan, hplan, rfl⟩ := h.exists_plan_of_procedure hshare.mem hc hprocedure
    have hclicked' : (Router.mk transport d'.graph handlers').resolve u =
        .ok (d.compiledChoice p s plan, language) := by
      rw [hshare.compiledChoice_eq h h' hs hplan] at hu ⊢
      exact h'.resolve_payload hg' hshare.mem' hs hplan hl' hu
    refine Router.actAlike_of_resolve (h.resolve_payload hg hshare.mem hs hplan hl hu) hclicked'
      hhandler fun next hnext => ?_
    obtain ⟨id, hid, rfl⟩ := Option.map_eq_some_iff.1 hnext
    obtain ⟨s', hs', rfl⟩ := h.exists_plan_next hshare.mem hs hplan hid
    exact hcontent s' hs' language

/-- The document of one stage with another procedure and its button before it. The other procedure
has the same ids of stages and choices. -/
def Document.besideLoop : Document where
  languages := ["en"]
  buttons := [⟨2, none, .ofList [("en", "Stop")]⟩, ⟨1, none, .ofList [("en", "Go")]⟩]
  procedures := ⟨2, none, 1, false, false, none, none,
    [⟨1, none, none, false, false, .ofList [("en", "B")], [[⟨1, 2, none⟩]]⟩]⟩ :: loop.procedures

/-- The text of this document. -/
def Document.besideLoopText : String :=
  "\x7b\"supportedLanguages\":[\"en\"],
    \"buttons\":[\x7b\"id\":2,\"text\":\x7b\"en\":\"Stop\"\x7d\x7d,
    \x7b\"id\":1,\"text\":\x7b\"en\":\"Go\"\x7d\x7d],
    \"procedures\":[\x7b\"id\":2,\"rootStageId\":1,\"stages\":[\x7b\"id\":1,
    \"text\":\x7b\"en\":\"B\"\x7d,\"options\":[[\x7b\"id\":1,\"buttonId\":2\x7d]]\x7d]\x7d,
    \x7b\"id\":1,\"rootStageId\":1,\"stages\":[\x7b\"id\":1,\"text\":\x7b\"en\":\"A\"\x7d,
    \"options\":[[\x7b\"id\":1,\"buttonId\":1,\"nextStageId\":1\x7d]]\x7d]\x7d]\x7d"

theorem Document.ofText_ofList (cs : List Char) :
    ofText (String.ofList cs) =
      (Draft.readClean (Json.Lenient.clean cs)).mapError .malformed >>= fun draft =>
        draft.validate.mapError .invalid := by
  rw [ofText, Draft.read, String.toList_ofList]

-- the characters of a text are had faster from the literal than from its bytes
set_option maxRecDepth 10000 in
theorem Document.ofText_besideLoop : ofText besideLoopText = .ok besideLoop :=
  (ofText_ofList _).trans (Checks.toOption_eq_some_iff.1 (by decide +kernel))

theorem Document.loop_stands_alone :
    ∃ c, c.procedure = "1" ∧
      (∀ language, (Document.loop.graph.render "1" "1" language).map
          (fun page => (page.text, page.mode, page.layout)) =
        (Document.besideLoop.graph.render "1" "1" language).map
          (fun page => (page.text, page.mode, page.layout))) ∧
      (Router.mk Recorder.transport Document.loop.graph .empty).ActAlike
        (Router.mk Recorder.transport Document.besideLoop.graph .empty)
        (.click "id" 7 (some 9) (some (Payload.mk c.key "en").encode)) c "en" := by
  have hlabels : ∀ b ∈ Document.loop.buttons, ∀ b' ∈ Document.besideLoop.buttons,
      b.id = b'.id → b.text = b'.text := by decide
  obtain ⟨p, hp, hids⟩ : ∃ p ∈ Document.loop.procedures,
      decimal p.id = "1" ∧ ∃ s ∈ p.stages, decimal s.id = "1" := by decide +kernel
  obtain ⟨hid, s, hs, hstage⟩ := hids
  have hshare : Document.loop.Share Document.besideLoop p :=
    ⟨hp, List.mem_cons_of_mem _ hp, fun b hb b' hb' heq _ => hlabels b hb b' hb' heq⟩
  obtain ⟨g, g', hg, hg', hcontent, -, halike⟩ := Document.procedures_stand_alone
    Document.ofText_loop Document.ofText_besideLoop (by decide +kernel) (by decide +kernel) hshare
  obtain ⟨-, rfl⟩ := Graph.compile_eq_ok_iff.1 hg
  obtain ⟨-, rfl⟩ := Graph.compile_eq_ok_iff.1 hg'
  have hchoices : Document.loop.graph.choices.toList.map Graph.Choice.procedure = ["1"] := by
    decide +kernel
  obtain ⟨c, hc, hprocedure⟩ := List.mem_map.1 (hchoices ▸ List.mem_singleton_self "1")
  refine ⟨c, hprocedure, fun language => ?_, ?_⟩
  · have hsame := hcontent s hs language
    rwa [hid, hstage] at hsame
  · exact halike Recorder Recorder.transport .empty .empty (fun _ _ _ => rfl) c
      (Array.mem_toList_iff.1 hc) (hprocedure.trans hid.symm) "en" (by decide) (by decide) _ rfl

end ButtonDialog
