import ButtonDialog.Router.Routing

/-! What a click does once its choice is known.

    The effect of an action is its result and the world it leaves, without its records. The effect
    of routing a click is that of the handler, run once, and then, if the click leads on and the
    message is known, that of one edit in the world that the handler left. -/

namespace ButtonDialog

namespace Act

variable {σ α β : Type}

/-- What an action leaves besides its records: its result and the world. -/
def effect (a : Act σ α) (world : σ) : α × σ := ((a.run world).result, (a.run world).world)

@[simp] theorem effect_pure (a : α) (world : σ) :
    (pure a : Act σ α).effect world = (a, world) := rfl

@[simp] theorem effect_bind (a : Act σ α) (f : α → Act σ β) (world : σ) :
    (a >>= f).effect world = (f (a.effect world).1).effect (a.effect world).2 := rfl

@[simp] theorem effect_log (level : Level) (message : String) (fields : List (String × String))
    (world : σ) : (log level message fields : Act σ Unit).effect world = ((), world) := rfl

@[simp] theorem effect_modifyWorld (f : σ → α × σ) (world : σ) :
    (modifyWorld f).effect world = f world := rfl

@[simp] theorem effect_within (s : Span) (a : Act σ α) (world : σ) :
    (a.within s).effect world = a.effect world := rfl

end Act

/-- The click of a choice in the grid of a stage. -/
def Graph.Stage.click (s : Graph.Stage) (c : Graph.Choice) (language : String) : Click :=
  ⟨language, s.procedure, s.id, c.id⟩

namespace Router

variable {σ : Type}

/-- What the handler that is registered for a click leaves when it runs once. Where there is none,
the click proceeds in the world as it is. -/
def handled (r : Router σ) (u : Update) (click : Click) (world : σ) :
    Except HandlerError Verdict × σ :=
  match r.handlers.get? (Key.choice click.procedure click.stage click.choice) with
  | none => (.ok .proceed, world)
  | some handler => (handler r.transport u click).effect world

/-- A click stays on the stage that is shown: the choice leads nowhere, the handler asks to stay, or
the message is not known. -/
def Stays (u : Update) (c : Graph.Choice) (verdict : Verdict) : Prop :=
  c.next = none ∨ verdict = .stay ∨ u.target? = none

/-- What it is for an update to click a choice in the grid of a stage. It is not ignored, and the
next stage, if the choice has one, is found. The handler runs once. If it fails, so does routing. If
it succeeds, the message changes to the next stage by one edit, unless the click stays. -/
structure Follows (r : Router σ) (u : Update) (s : Graph.Stage) (c : Graph.Choice)
    (language : String) (world : σ) : Prop where
  notIgnored : ∀ reason, ((r.onUpdate u).effect world).1 ≠ .ok (.ignored reason)
  nextFound : ∀ verdict next, r.destination u c language verdict ≠ .error (.nextNotFound next)
  fails : ∀ e left, r.handled u (s.click c language) world = (.error e, left) →
    (r.onUpdate u).effect world = (.error (.handler e), left)
  stays : ∀ verdict left, r.handled u (s.click c language) world = (.ok verdict, left) →
    Stays u c verdict → (r.onUpdate u).effect world =
      (.ok (.handled (r.handlers.contains (Key.choice s.procedure s.id c.id))), left)
  moves : ∀ left next target, r.handled u (s.click c language) world = (.ok .proceed, left) →
    c.next = some next → u.target? = some target →
    ∃ page, r.graph.render s.procedure next language = some page ∧
      let shown : Content := ⟨page.text, page.mode, page.layout⟩
      (∀ after, (r.transport.edit target shown).effect left = (.ok (), after) →
        (r.onUpdate u).effect world = (.ok (.transitioned s.procedure next), after)) ∧
      ∀ e after, (r.transport.edit target shown).effect left = (.error e, after) →
        (r.onUpdate u).effect world = (.error (.transport e), after)

variable {r : Router σ} {u : Update} {s : Graph.Stage} {c : Graph.Choice} {language : String}

@[simp] theorem effect_halt_log (halt : Halt) (world : σ) :
    (halt.log : Act σ Unit).effect world = ((), world) := by
  cases halt <;> rfl

/-- The handler that runs is the one that is registered under the ids of the choice. -/
theorem effect_runHandler_click (hkey : c.key = Key.choice c.procedure c.stage c.id) (world : σ) :
    (r.runHandler u c language).effect world = r.handled u (click c language) world := by
  have hlookup : r.handled u (click c language) world =
      match r.handlers.get? c.key with
      | none => (.ok .proceed, world)
      | some handler => (handler r.transport u (click c language)).effect world := by
    rw [hkey]
    rfl
  rw [hlookup, runHandler]
  cases r.handlers.get? c.key with
  | none => rfl
  | some handler =>
    simp only [Act.effect_bind]
    rcases (handler r.transport u (click c language)).effect world with ⟨e | verdict, left⟩
    · rfl
    · rfl

theorem effect_runHandler (hprocedure : c.procedure = s.procedure) (hstage : c.stage = s.id)
    (hkey : c.key = Key.choice s.procedure s.id c.id) (world : σ) :
    (r.runHandler u c language).effect world = r.handled u (s.click c language) world := by
  have hclick : click c language = s.click c language := by
    rw [click, Graph.Stage.click, hprocedure, hstage]
  rw [← hprocedure, ← hstage] at hkey
  rw [effect_runHandler_click hkey, hclick]

theorem effect_onUpdate (hresolve : r.resolve u = .ok (c, language)) (world : σ) :
    (r.onUpdate u).effect world = (r.route u c language).effect world := by
  rw [onUpdate, hresolve]
  exact Act.effect_within _ _ _

/-! ## Where a click leads -/

theorem not_stays_iff {verdict : Verdict} :
    ¬ Stays u c verdict ↔
      ∃ next target, c.next = some next ∧ verdict = .proceed ∧ u.target? = some target := by
  unfold Stays
  cases c.next <;> cases verdict <;> cases u.target? <;> simp

theorem destination_of_stays (r : Router σ) (language : String) {verdict : Verdict}
    (h : Stays u c verdict) :
    ∃ halt, r.destination u c language verdict = .error halt ∧ ∀ id, halt ≠ .nextNotFound id := by
  unfold destination
  cases hc : c.next with
  | none => exact ⟨.noNextStage, rfl, nofun⟩
  | some next =>
    cases verdict with
    | stay => exact ⟨.askedToStay, rfl, nofun⟩
    | proceed =>
      cases htarget : u.target? with
      | none => exact ⟨.noMessage, rfl, nofun⟩
      | some target => simp [Stays, hc, htarget] at h

theorem destination_of_render {next : String} {target : MessageRef} {page : Rendered}
    (hc : c.next = some next) (htarget : u.target? = some target)
    (hpage : r.graph.render c.procedure next language = some page) :
    r.destination u c language .proceed = .ok (target, next, page) := by
  simp [destination, hc, htarget, hpage]

/-! ## What routing leaves after the handler has run -/

theorem effect_route_of_error {e : HandlerError} {world left : σ}
    (hhandler : (r.runHandler u c language).effect world = (.error e, left)) :
    (r.route u c language).effect world = (.error (.handler e), left) := by
  rw [route, Act.effect_bind, hhandler]
  rfl

theorem effect_route_of_halt {verdict : Verdict} {halt : Halt} {world left : σ}
    (hhandler : (r.runHandler u c language).effect world = (.ok verdict, left))
    (hhalt : r.destination u c language verdict = .error halt) :
    (r.route u c language).effect world = (.ok (.handled (r.handlers.contains c.key)), left) := by
  rw [route, Act.effect_bind, hhandler]
  simp only [hhalt, Act.effect_bind, effect_halt_log, Act.effect_pure]

theorem effect_route_of_destination {verdict : Verdict} {target : MessageRef} {next : String}
    {page : Rendered} {world left : σ}
    (hhandler : (r.runHandler u c language).effect world = (.ok verdict, left))
    (hdestination : r.destination u c language verdict = .ok (target, next, page)) :
    (r.route u c language).effect world =
      match (r.transport.edit target page.content).effect left with
      | (.error e, after) => (.error (.transport e), after)
      | (.ok (), after) => (.ok (.transitioned c.procedure next), after) := by
  rw [route, Act.effect_bind, hhandler]
  simp only [hdestination, Act.effect_bind]
  rcases (r.transport.edit target page.content).effect left with ⟨e | ⟨⟩, after⟩
  · rfl
  · rfl

/-! ## Following a click -/

/-- A click that resolves is not ignored, whatever the handler and the transport do. -/
theorem effect_onUpdate_ne_ignored (hresolve : r.resolve u = .ok (c, language)) (world : σ)
    (reason : IgnoreReason) : ((r.onUpdate u).effect world).1 ≠ .ok (.ignored reason) := by
  rw [effect_onUpdate hresolve]
  rcases hhandler : (r.runHandler u c language).effect world with ⟨e | verdict, left⟩
  · rw [effect_route_of_error hhandler]
    exact nofun
  · cases hdestination : r.destination u c language verdict with
    | error halt =>
      rw [effect_route_of_halt hhandler hdestination]
      exact nofun
    | ok destination =>
      obtain ⟨target, next, page⟩ := destination
      rw [effect_route_of_destination hhandler hdestination]
      rcases (r.transport.edit target page.content).effect left with ⟨e | ⟨⟩, after⟩ <;> exact nofun

/-- A click on a choice of a stage is followed, if the next stage of the choice can be rendered. -/
theorem follows_of_resolve (hresolve : r.resolve u = .ok (c, language))
    (hprocedure : c.procedure = s.procedure) (hstage : c.stage = s.id)
    (hkey : c.key = Key.choice s.procedure s.id c.id)
    (hnext : ∀ next, c.next = some next →
      ∃ page, r.graph.render s.procedure next language = some page) (world : σ) :
    r.Follows u s c language world := by
  have hhandler :
      (r.runHandler u c language).effect world = r.handled u (s.click c language) world :=
    effect_runHandler hprocedure hstage hkey world
  refine ⟨effect_onUpdate_ne_ignored hresolve world, fun verdict id => ?_,
    fun e left hhandled => ?_, fun verdict left hhandled hstays => ?_,
    fun left next target hhandled hc htarget => ?_⟩
  · by_cases hstays : Stays u c verdict
    · obtain ⟨halt, hhalt, hne⟩ := destination_of_stays r language hstays
      rw [hhalt]
      exact fun heq => hne id (Except.error.inj heq)
    · obtain ⟨next, target, hc, rfl, htarget⟩ := not_stays_iff.1 hstays
      obtain ⟨page, hpage⟩ := hnext next hc
      rw [destination_of_render hc htarget (hprocedure ▸ hpage)]
      exact nofun
  · rw [effect_onUpdate hresolve]
    exact effect_route_of_error (hhandler.trans hhandled)
  · obtain ⟨halt, hhalt, -⟩ := destination_of_stays r language hstays
    rw [effect_onUpdate hresolve, effect_route_of_halt (hhandler.trans hhandled) hhalt, hkey]
  · obtain ⟨page, hpage⟩ := hnext next hc
    have hdestination := destination_of_render hc htarget (hprocedure ▸ hpage)
    have hroute := effect_route_of_destination (hhandler.trans hhandled) hdestination
    rw [effect_onUpdate hresolve, hroute, hprocedure, Rendered.content]
    refine ⟨page, hpage, fun after hedit => ?_, fun e after hedit => ?_⟩
    · rw [hedit]
    · rw [hedit]

end Router

end ButtonDialog
