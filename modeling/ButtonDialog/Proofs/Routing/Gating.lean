import ButtonDialog.Proofs.Routing.Foreign

/-! The order of things when a choice is clicked.

    The handler runs first, if there is one, and then the message is edited, if an edit is due. That
    takes a verdict to proceed, a next stage, a message that is known and a page to show on it; the
    graph need not come from a valid document. Either of the two may fail, and what failed is what
    routing reports. -/

namespace ButtonDialog

namespace Router

variable {σ : Type}

/-- After this verdict the message is to show the page of the next stage. -/
structure Due (r : Router σ) (u : Update) (c : Graph.Choice) (language : String) (verdict : Verdict)
    (target : MessageRef) (next : String) (page : Rendered) : Prop where
  proceeds : verdict = .proceed
  leads : c.next = some next
  known : u.target? = some target
  renders : r.graph.render c.procedure next language = some page

/-- The order of things when an update clicks a choice. The handler under the ids of the choice runs
once, before anything else, and where there is none the click proceeds. If the handler fails, so
does routing, and there is no edit. If it does not and no edit is due, the click is handled. If an
edit is due, there is one, it is the last thing that the router does, and routing fails as the edit
does. The graph and the handlers are only read, and what else neither the handler nor an edit
changes stays as it was. -/
structure Gated (r : Router σ) (u : Update) (c : Graph.Choice) (language : String) (world : σ) :
    Prop where
  key : c.key = Key.choice c.procedure c.stage c.id
  fails : ∀ e left, r.handled u (click c language) world = (.error e, left) →
    (r.onUpdate u).effect world = (.error (.handler e), left) ∧
      r.deeds u world = r.handlerRun c language
  halts : ∀ verdict left, r.handled u (click c language) world = (.ok verdict, left) →
    (∀ target next page, ¬ r.Due u c language verdict target next page) →
      (r.onUpdate u).effect world = (.ok (.handled (r.handlers.contains c.key)), left) ∧
        r.deeds u world = r.handlerRun c language
  edits : ∀ verdict left target next page,
    r.handled u (click c language) world = (.ok verdict, left) →
    r.Due u c language verdict target next page →
      let shown : Content := ⟨page.text, page.mode, page.layout⟩
      r.deeds u world = r.handlerRun c language ++ [.call (.edit target shown)] ∧
      (∀ after, (r.transport.edit target shown).effect left = (.ok (), after) →
        (r.onUpdate u).effect world = (.ok (.transitioned c.procedure next), after)) ∧
      ∀ e after, (r.transport.edit target shown).effect left = (.error e, after) →
        (r.onUpdate u).effect world = (.error (.transport e), after)
  attempted : (∃ target content, .call (.edit target content) ∈ r.deeds u world) ↔
    ∃ verdict left target next page, r.handled u (click c language) world = (.ok verdict, left) ∧
      r.Due u c language verdict target next page
  kept : ∀ {α : Type} (view : σ → α),
    (∀ handler w, r.handlers.get? c.key = some handler →
      view ((handler r.transport u (click c language)).effect w).2 = view w) →
    (∀ target content w, view ((r.transport.edit target content).effect w).2 = view w) →
      view ((r.onUpdate u).effect world).2 = view world

variable {r : Router σ} {u : Update} {c : Graph.Choice} {language : String} {world left : σ}

/-- A click has a destination exactly if an edit is due. -/
theorem destination_eq_ok_iff {verdict : Verdict} {target : MessageRef} {next : String}
    {page : Rendered} :
    r.destination u c language verdict = .ok (target, next, page) ↔
      r.Due u c language verdict target next page := by
  refine ⟨fun h => ?_, ?_⟩
  · by_cases hstays : Stays u c verdict
    · obtain ⟨halt, hhalt, -⟩ := destination_of_stays r language hstays
      rw [hhalt] at h
      cases h
    · obtain ⟨id, m, hleads, rfl, hknown⟩ := not_stays_iff.1 hstays
      cases hrenders : r.graph.render c.procedure id language with
      | none => simp [destination, hleads, hknown, hrenders] at h
      | some shown =>
        rw [destination_of_render hleads hknown hrenders] at h
        cases h
        exact ⟨rfl, hleads, hknown, hrenders⟩
  · rintro ⟨rfl, hleads, hknown, hrenders⟩
    exact destination_of_render hleads hknown hrenders

theorem halt_of_not_due {verdict : Verdict}
    (hdue : ∀ target next page, ¬ r.Due u c language verdict target next page) :
    ∃ halt, r.destination u c language verdict = .error halt := by
  cases hdestination : r.destination u c language verdict with
  | error halt => exact ⟨halt, rfl⟩
  | ok destination => exact absurd (destination_eq_ok_iff.1 hdestination) (hdue _ _ _)

/-- A run of a handler is no edit. -/
theorem edit_not_mem_handlerRun (r : Router σ) (c : Graph.Choice) (language : String)
    (target : MessageRef) (content : Content) :
    .call (.edit target content) ∉ r.handlerRun c language := by
  simp [handlerRun]

/-! ## What routing does not change -/

section Views

variable {α : Type} {view : σ → α}

theorem view_runHandler
    (hhandler : ∀ handler w, r.handlers.get? c.key = some handler →
      view ((handler r.transport u (click c language)).effect w).2 = view w) (world : σ) :
    view ((r.runHandler u c language).effect world).2 = view world := by
  unfold runHandler
  split
  · rfl
  · rename_i handler hget
    have hkept := hhandler handler world hget
    simp only [Act.effect_bind]
    rcases hrun : (handler r.transport u (click c language)).effect world with ⟨e | verdict, left⟩
    · rwa [hrun] at hkept
    · rwa [hrun] at hkept

theorem view_onUpdate (hresolve : r.resolve u = .ok (c, language))
    (hhandler : ∀ handler w, r.handlers.get? c.key = some handler →
      view ((handler r.transport u (click c language)).effect w).2 = view w)
    (hedit : ∀ target content w, view ((r.transport.edit target content).effect w).2 = view w)
    (world : σ) : view ((r.onUpdate u).effect world).2 = view world := by
  have hleft := view_runHandler hhandler world
  rw [effect_onUpdate hresolve]
  rcases hrun : (r.runHandler u c language).effect world with ⟨e | verdict, left⟩
  · rw [effect_route_of_error hrun, ← hleft, hrun]
  · cases hdestination : r.destination u c language verdict with
    | error halt => rw [effect_route_of_halt hrun hdestination, ← hleft, hrun]
    | ok destination =>
      obtain ⟨target, next, page⟩ := destination
      have hafter := hedit target page.content left
      rw [effect_route_of_destination hrun hdestination, ← hleft, hrun, ← hafter]
      rcases (r.transport.edit target page.content).effect left with ⟨e | ⟨⟩, after⟩
      · rfl
      · rfl

end Views

/-! ## Gating -/

theorem gated_of_resolve (hresolve : r.resolve u = .ok (c, language))
    (hkey : c.key = Key.choice c.procedure c.stage c.id) (world : σ) :
    r.Gated u c language world := by
  have hrun : (r.runHandler u c language).effect world = r.handled u (click c language) world :=
    effect_runHandler_click hkey world
  refine ⟨hkey, fun e left hhandled => ?_, fun verdict left hhandled hdue => ?_,
    fun verdict left target next page hhandled hdue => ?_, ⟨?_, ?_⟩,
    fun view hhandler hedit => view_onUpdate hresolve hhandler hedit world⟩
  · have hhandler := hrun.trans hhandled
    rw [effect_onUpdate hresolve]
    exact ⟨effect_route_of_error hhandler, deeds_of_error hresolve hhandler⟩
  · have hhandler := hrun.trans hhandled
    obtain ⟨halt, hhalt⟩ := halt_of_not_due hdue
    rw [effect_onUpdate hresolve]
    exact ⟨effect_route_of_halt hhandler hhalt, deeds_of_halt hresolve hhandler hhalt⟩
  · have hhandler := hrun.trans hhandled
    have hdestination := destination_eq_ok_iff.2 hdue
    rw [effect_onUpdate hresolve, effect_route_of_destination hhandler hdestination,
      Rendered.content]
    refine ⟨deeds_of_destination hresolve hhandler hdestination, fun after hedit => ?_,
      fun e after hedit => ?_⟩
    · rw [hedit]
    · rw [hedit]
  · -- an edit is on the list only where the handler gave a verdict that makes it due
    rintro ⟨target, content, hmem⟩
    rcases hhandled : r.handled u (click c language) world with ⟨e | verdict, left⟩
    · rw [deeds_of_error hresolve (hrun.trans hhandled)] at hmem
      exact absurd hmem (edit_not_mem_handlerRun r c language target content)
    · cases hdestination : r.destination u c language verdict with
      | error halt =>
        rw [deeds_of_halt hresolve (hrun.trans hhandled) hdestination] at hmem
        exact absurd hmem (edit_not_mem_handlerRun r c language target content)
      | ok destination =>
        exact ⟨verdict, left, _, _, _, rfl, destination_eq_ok_iff.1 hdestination⟩
  · rintro ⟨verdict, left, target, next, page, hhandled, hdue⟩
    refine ⟨target, page.content, ?_⟩
    rw [deeds_of_destination hresolve (hrun.trans hhandled) (destination_eq_ok_iff.2 hdue)]
    exact List.mem_append_right _ (List.mem_singleton_self _)

/-- Whatever graph was compiled, whatever the handlers do and however the transport fails, a click
on a choice runs the handler of the choice first, then edits the message at most once, and does so
exactly if the edit is due. -/
theorem gates_every_click {d : Document} {g : Graph} (hcompile : Graph.compile d = .ok g)
    (transport : Transport σ) (handlers : NameTable (Handler σ)) (u : Update) (c : Graph.Choice)
    (language : String)
    (hresolve : (Router.mk transport g handlers).resolve u = .ok (c, language)) (world : σ) :
    (Router.mk transport g handlers).Gated u c language world := by
  obtain ⟨hcompilable, rfl⟩ := Graph.compile_eq_ok_iff.1 hcompile
  have hclicks := clicks_of_resolve (r := Router.mk transport d.graph handlers)
    hcompilable.indexed hresolve
  exact gated_of_resolve hresolve (Document.key_of_mem_choices hclicks.1) world

end Router

/-- The choice of the first of the two stages. -/
def Document.goChoice : Graph.Choice :=
  ⟨Key.choice "1" "1" "1", "1", "1", "1", .declared, .ofList [("en", "Go")], some "2"⟩

/-- A click on it. -/
def Document.goClick : Update :=
  .click "id" 7 (some 9) (some (Document.goChoice.key ++ "\nen"))

theorem Router.gates_go_click :
    Router.twoStages.Gated Document.goClick Document.goChoice "en" .fresh :=
  Router.gates_every_click Document.graph_twoStages _ _ _ _ _
    (Checks.toOption_eq_some_iff.1 (by decide +kernel)) _

end ButtonDialog
