import ButtonDialog.Proofs.Routing.Gating

/-! What the log tells of an update.

    Handlers and transports write to the log whatever they like. What the router writes by itself
    is what there is when they do the same and write nothing: the record of a handler that has
    completed, if one has, and then one record of how the routing ended. The two tell what became
    of the update. -/

namespace ButtonDialog

namespace Act

variable {σ α β : Type}

/-- The records that an action writes. -/
def written (a : Act σ α) (world : σ) : List LogRecord := (a.run world).records

@[simp] theorem written_pure (a : α) (world : σ) : (pure a : Act σ α).written world = [] := rfl

@[simp] theorem written_bind (a : Act σ α) (f : α → Act σ β) (world : σ) :
    (a >>= f).written world =
      a.written world ++ (f (a.effect world).1).written (a.effect world).2 := rfl

@[simp] theorem written_map (f : α → β) (a : Act σ α) (world : σ) :
    (f <$> a).written world = a.written world := by
  rw [← bind_pure_comp, written_bind, written_pure, List.append_nil]

@[simp] theorem written_log (level : Level) (message : String) (fields : List (String × String))
    (world : σ) :
    (log level message fields : Act σ Unit).written world = [⟨level, message, fields, []⟩] := rfl

@[simp] theorem written_within (s : Span) (a : Act σ α) (world : σ) :
    (a.within s).written world = (a.written world).map (LogRecord.within s) := rfl

/-- The action without its records. -/
def hushed (a : Act σ α) : Act σ α := fun world => { a.run world with records := [] }

@[simp] theorem effect_hushed (a : Act σ α) (world : σ) :
    a.hushed.effect world = a.effect world := rfl

@[simp] theorem written_hushed (a : Act σ α) (world : σ) : a.hushed.written world = [] := rfl

end Act

/-! ## Reading the log -/

/-- The messages of the records of how the routing of an update ended. -/
def endings : List String :=
  ["update ignored", "option has no next stage", "handler asked to stay",
    "click has no message to edit", "next stage not found", "stage transitioned"]

namespace LogRecord

/-- The record is of how the routing of an update ended. -/
def IsEnding (record : LogRecord) : Prop := record.message ∈ endings

/-- A named value of a record. -/
def field? (record : LogRecord) (name : String) : Option String := record.fields.lookup name

/-- A named value of the innermost span that a record is in. -/
def spanField? (record : LogRecord) (name : String) : Option String :=
  record.spans.getLast?.bind fun s => s.fields.lookup name

end LogRecord

/-- The reason that has a text. -/
def IgnoreReason.ofText? (text : String) : Option IgnoreReason :=
  [notAClick, malformedPayload, unsupportedLanguage, unknownChoice].find? (·.text = text)

theorem IgnoreReason.ofText?_text (reason : IgnoreReason) :
    IgnoreReason.ofText? reason.text = some reason := by
  cases reason <;> decide

/-- What became of an update, read from the record of how its routing ended and from whether the
log has a handler that completed. -/
def Outcome.told? (completed : Bool) (ending : LogRecord) : Option Outcome :=
  if ending.message = "update ignored" then do
    return ignored (← IgnoreReason.ofText? (← ending.field? "reason"))
  else if ending.message = "stage transitioned" then do
    return transitioned (← ending.spanField? "procedure") (← ending.field? "next_stage")
  else if ending.message ∈ endings then some (handled completed)
  else none

namespace Router

variable {σ : Type}

/-- The handler without its records. -/
def hushedHandler (r : Router σ) (handler : Handler σ) : Handler σ :=
  fun _ u click => (handler r.transport u click).hushed

/-- The router with handlers and a transport that do the same and write nothing. -/
def hushed (r : Router σ) : Router σ where
  transport := {
    send chat content := (r.transport.send chat content).hushed
    edit target content := (r.transport.edit target content).hushed }
  graph := r.graph
  handlers := r.handlers.map r.hushedHandler

/-- What the router writes by itself on an update. -/
def own (r : Router σ) (u : Update) (world : σ) : List LogRecord :=
  (r.hushed.onUpdate u).written world

/-- The records are those of the handler that runs on an update, or none. -/
def ByHandler (r : Router σ) (u : Update) (world : σ) (records : List LogRecord) : Prop :=
  records = [] ∨ ∃ handler c language, .run handler (click c language) ∈ r.deeds u world ∧
    records = ((handler r.transport u (click c language)).within
      ⟨"route", [("procedure", c.procedure), ("stage", c.stage), ("option", c.id),
        ("language", language)]⟩).written world

/-- The records are those of the edit that is called on an update, or none. -/
def ByEdit (r : Router σ) (u : Update) (world : σ) (records : List LogRecord) : Prop :=
  records = [] ∨ ∃ target content c language left, r.resolve u = .ok (c, language) ∧
    .call (.edit target content) ∈ r.deeds u world ∧
    records = ((r.transport.edit target content).within
      ⟨"route", [("procedure", c.procedure), ("stage", c.stage), ("option", c.id),
        ("language", language)]⟩).written left

/-- What the router writes by itself on an update are these records, some of them before the edit
and some after. Nothing else is in the log but what the handler and the edit write. -/
structure Writes (r : Router σ) (u : Update) (world : σ) (first last : List LogRecord) :
    Prop where
  own : r.own u world = first ++ last
  whole : ∃ before between, r.ByHandler u world before ∧ r.ByEdit u world between ∧
    (r.onUpdate u).written world = before ++ first ++ between ++ last

/-- What it is for the log to tell of an update. Writing or not changes nothing else. If routing
succeeds, what the router writes is the record of a handler that completed, exactly if a handler
ran, and then one record of how the routing ended. They tell the outcome. If routing fails, no
record of the router tells how it ended. The record of an update that was ignored is in no span, and
the others are in the span of the choice that was clicked and the language. -/
structure Tells (r : Router σ) (u : Update) (world : σ) : Prop where
  same : (r.hushed.onUpdate u).effect world = (r.onUpdate u).effect world
  ends : ∀ outcome, ((r.onUpdate u).effect world).1 = .ok outcome →
    ∃ (completed : Option LogRecord) (ending : LogRecord),
      r.Writes u world completed.toList [ending] ∧
      (completed.isSome ↔ ∃ handler click, .run handler click ∈ r.deeds u world) ∧
      (∀ record ∈ completed, record.message = "handler completed") ∧
      ending.IsEnding ∧
      Outcome.told? completed.isSome ending = some outcome
  fails : ∀ e, ((r.onUpdate u).effect world).1 = .error e →
    ∃ first last, r.Writes u world first last ∧ ∀ record ∈ first ++ last, ¬ record.IsEnding
  outside : ∀ record ∈ r.own u world, record.message = "update ignored" → record.spans = []
  inside : ∀ record ∈ r.own u world, record.message ≠ "update ignored" →
    ∃ c language, r.resolve u = .ok (c, language) ∧ r.graph.Clicks u c language ∧
      record.spans = [⟨"route", [("procedure", c.procedure), ("stage", c.stage),
        ("option", c.id), ("language", language)]⟩]

variable {r : Router σ} {u : Update} {c : Graph.Choice} {language : String} {world left : σ}

/-! ## The records of a run -/

/-- What the handler of a choice writes, if it has one. -/
def heard (r : Router σ) (u : Update) (c : Graph.Choice) (language : String) (world : σ) :
    List LogRecord :=
  match r.handlers.get? c.key with
  | none => []
  | some handler => (handler r.transport u (click c language)).written world

/-- The record of the handler of a choice that has completed, if it has one. -/
def completion (r : Router σ) (c : Graph.Choice) (verdict : Verdict) : Option LogRecord :=
  (r.handlers.get? c.key).map fun _ =>
    ⟨.debug, "handler completed", [("stay", toString (verdict == .stay))], []⟩

/-- The record of a message that stays as it is. -/
def Halt.record : Halt → LogRecord
  | noNextStage => ⟨.debug, "option has no next stage", [], []⟩
  | askedToStay => ⟨.debug, "handler asked to stay", [], []⟩
  | noMessage => ⟨.debug, "click has no message to edit", [], []⟩
  | nextNotFound stage => ⟨.debug, "next stage not found", [("next_stage", stage)], []⟩

/-- The record of a message that shows its next stage. -/
def movement (next : String) : LogRecord :=
  ⟨.info, "stage transitioned", [("next_stage", next)], []⟩

@[simp] theorem written_halt_log (halt : Halt) (world : σ) :
    (halt.log : Act σ Unit).written world = [halt.record] := by
  cases halt <;> rfl

theorem written_runHandler_of_error {e : HandlerError}
    (hhandler : (r.runHandler u c language).effect world = (.error e, left)) :
    (r.runHandler u c language).written world = r.heard u c language world := by
  unfold runHandler at hhandler ⊢
  unfold heard
  cases hget : r.handlers.get? c.key with
  | none => rfl
  | some handler =>
    simp only [hget, Act.effect_bind] at hhandler
    simp only [Act.written_bind]
    rcases hrun : (handler r.transport u (click c language)).effect world with ⟨e' | verdict, after⟩
    · simp
    · rw [hrun] at hhandler
      cases hhandler

theorem written_runHandler_of_ok {verdict : Verdict}
    (hhandler : (r.runHandler u c language).effect world = (.ok verdict, left)) :
    (r.runHandler u c language).written world =
      r.heard u c language world ++ (r.completion c verdict).toList := by
  unfold runHandler at hhandler ⊢
  unfold heard completion
  cases hget : r.handlers.get? c.key with
  | none => rfl
  | some handler =>
    simp only [hget, Act.effect_bind] at hhandler
    simp only [Act.written_bind]
    rcases hrun : (handler r.transport u (click c language)).effect world with ⟨e | verdict', after⟩
    · rw [hrun] at hhandler
      cases hhandler
    · rw [hrun] at hhandler
      cases hhandler
      simp

theorem written_route_of_error {e : HandlerError}
    (hhandler : (r.runHandler u c language).effect world = (.error e, left)) :
    (r.route u c language).written world = r.heard u c language world := by
  rw [route, Act.written_bind, hhandler, written_runHandler_of_error hhandler]
  exact List.append_nil _

theorem written_route_of_halt {verdict : Verdict} {halt : Halt}
    (hhandler : (r.runHandler u c language).effect world = (.ok verdict, left))
    (hhalt : r.destination u c language verdict = .error halt) :
    (r.route u c language).written world =
      r.heard u c language world ++ (r.completion c verdict).toList ++ [halt.record] := by
  rw [route, Act.written_bind, hhandler, written_runHandler_of_ok hhandler]
  simp only [hhalt, Act.written_bind, written_halt_log, Act.written_pure, List.append_nil]

theorem written_route_of_destination {verdict : Verdict} {target : MessageRef} {next : String}
    {page : Rendered} (hhandler : (r.runHandler u c language).effect world = (.ok verdict, left))
    (hdestination : r.destination u c language verdict = .ok (target, next, page)) :
    (r.route u c language).written world =
      r.heard u c language world ++ (r.completion c verdict).toList ++
        (r.transport.edit target page.content).written left ++
        match ((r.transport.edit target page.content).effect left).1 with
        | .error _ => []
        | .ok () => [movement next] := by
  rw [route, Act.written_bind, hhandler, written_runHandler_of_ok hhandler]
  simp only [hdestination, Act.written_bind]
  rcases (r.transport.edit target page.content).effect left with ⟨e | ⟨⟩, after⟩
  · simp
  · simp [movement]

theorem written_onUpdate (hresolve : r.resolve u = .ok (c, language)) (world : σ) :
    (r.onUpdate u).written world =
      ((r.route u c language).written world).map (LogRecord.within (routeSpan c language)) := by
  rw [onUpdate, hresolve]
  rfl

theorem written_onUpdate_of_ignored {reason : IgnoreReason} (h : r.resolve u = .error reason)
    (world : σ) :
    (r.onUpdate u).written world = [⟨.debug, "update ignored", [("reason", reason.text)], []⟩] := by
  rw [onUpdate, h]
  rfl

/-! ## The router without the records of others -/

theorem get?_hushed (key : String) :
    r.hushed.handlers.get? key = (r.handlers.get? key).map r.hushedHandler :=
  NameTable.get?_map _ _ _

@[simp] theorem heard_hushed (r : Router σ) (u : Update) (c : Graph.Choice) (language : String)
    (world : σ) : r.hushed.heard u c language world = [] := by
  unfold heard
  rw [get?_hushed]
  cases r.handlers.get? c.key <;> rfl

@[simp] theorem completion_hushed (verdict : Verdict) :
    r.hushed.completion c verdict = r.completion c verdict := by
  rw [completion, completion, get?_hushed, Option.map_map]
  rfl

theorem effect_runHandler_hushed (r : Router σ) (u : Update) (c : Graph.Choice)
    (language : String) (world : σ) :
    (r.hushed.runHandler u c language).effect world =
      (r.runHandler u c language).effect world := by
  rw [runHandler, runHandler, get?_hushed]
  cases r.handlers.get? c.key with
  | none => rfl
  | some handler =>
    simp only [Option.map_some, hushedHandler, Act.effect_bind, Act.effect_hushed]

/-- Writing nothing changes nothing. -/
theorem effect_onUpdate_hushed (r : Router σ) (u : Update) (world : σ) :
    (r.hushed.onUpdate u).effect world = (r.onUpdate u).effect world := by
  cases hresolve : r.resolve u with
  | error reason =>
    rw [effect_onUpdate_of_ignored hresolve,
      effect_onUpdate_of_ignored (r := r.hushed) hresolve]
  | ok clicked =>
    obtain ⟨c, language⟩ := clicked
    have hsame := r.effect_runHandler_hushed u c language world
    rw [effect_onUpdate hresolve, effect_onUpdate (r := r.hushed) hresolve]
    rcases hhandler : (r.runHandler u c language).effect world with ⟨e | verdict, left⟩
    · rw [effect_route_of_error hhandler, effect_route_of_error (hsame.trans hhandler)]
    · cases hdestination : r.destination u c language verdict with
      | error halt =>
        rw [effect_route_of_halt hhandler hdestination,
          effect_route_of_halt (r := r.hushed) (hsame.trans hhandler) hdestination,
          NameTable.contains, NameTable.contains, get?_hushed, Option.isSome_map]
      | ok destination =>
        obtain ⟨target, next, page⟩ := destination
        rw [effect_route_of_destination hhandler hdestination,
          effect_route_of_destination (r := r.hushed) (hsame.trans hhandler) hdestination]
        rfl

/-! ## The ways through the router -/

/-- A way through the router: the result, what the router writes before an edit, and what it writes
after. -/
inductive Course (r : Router σ) (u : Update) (world : σ) :
    Except RouterError Outcome → List LogRecord → List LogRecord → Prop
  | ignored {reason : IgnoreReason} : r.resolve u = .error reason →
    Course r u world (.ok (.ignored reason)) []
      [⟨.debug, "update ignored", [("reason", reason.text)], []⟩]
  | failed {c : Graph.Choice} {language : String} {e : HandlerError} {left : σ} :
    r.resolve u = .ok (c, language) →
    (r.runHandler u c language).effect world = (.error e, left) →
    Course r u world (.error (.handler e)) [] []
  | halted {c : Graph.Choice} {language : String} {verdict : Verdict} {left : σ} {halt : Halt} :
    r.resolve u = .ok (c, language) →
    (r.runHandler u c language).effect world = (.ok verdict, left) →
    r.destination u c language verdict = .error halt →
    Course r u world (.ok (.handled (r.handlers.contains c.key)))
      ((r.completion c verdict).map (LogRecord.within (routeSpan c language))).toList
      [halt.record.within (routeSpan c language)]
  | stuck {c : Graph.Choice} {language : String} {verdict : Verdict} {left after : σ}
    {target : MessageRef} {next : String} {page : Rendered} {e : TransportError} :
    r.resolve u = .ok (c, language) →
    (r.runHandler u c language).effect world = (.ok verdict, left) →
    r.destination u c language verdict = .ok (target, next, page) →
    (r.transport.edit target page.content).effect left = (.error e, after) →
    Course r u world (.error (.transport e))
      ((r.completion c verdict).map (LogRecord.within (routeSpan c language))).toList []
  | moved {c : Graph.Choice} {language : String} {verdict : Verdict} {left after : σ}
    {target : MessageRef} {next : String} {page : Rendered} :
    r.resolve u = .ok (c, language) →
    (r.runHandler u c language).effect world = (.ok verdict, left) →
    r.destination u c language verdict = .ok (target, next, page) →
    (r.transport.edit target page.content).effect left = (.ok (), after) →
    Course r u world (.ok (.transitioned c.procedure next))
      ((r.completion c verdict).map (LogRecord.within (routeSpan c language))).toList
      [(movement next).within (routeSpan c language)]

theorem byHandler_heard (hresolve : r.resolve u = .ok (c, language)) (world : σ) :
    r.ByHandler u world
      ((r.heard u c language world).map (LogRecord.within (routeSpan c language))) := by
  obtain ⟨calls, hdeeds⟩ := exists_deeds_eq hresolve world
  rw [ByHandler, hdeeds, handlerRun, heard]
  cases r.handlers.get? c.key with
  | none => exact .inl rfl
  | some handler => exact .inr ⟨handler, c, language, by simp, rfl⟩

theorem byEdit_written (hresolve : r.resolve u = .ok (c, language)) {verdict : Verdict}
    {target : MessageRef} {next : String} {page : Rendered}
    (hhandler : (r.runHandler u c language).effect world = (.ok verdict, left))
    (hdestination : r.destination u c language verdict = .ok (target, next, page)) :
    r.ByEdit u world (((r.transport.edit target page.content).written left).map
      (LogRecord.within (routeSpan c language))) := by
  refine .inr ⟨target, page.content, c, language, left, hresolve, ?_, rfl⟩
  rw [deeds_of_destination hresolve hhandler hdestination]
  exact List.mem_append_right _ (List.mem_singleton_self _)

/-- Every update takes one of the ways, and what others write stands before and between what the
router writes. -/
theorem exists_course (r : Router σ) (u : Update) (world : σ) :
    ∃ first last, r.Course u world ((r.onUpdate u).effect world).1 first last ∧
      r.Writes u world first last := by
  cases hresolve : r.resolve u with
  | error reason =>
    refine ⟨[], _, ?_, ?_, [], [], .inl rfl, .inl rfl, written_onUpdate_of_ignored hresolve world⟩
    · rw [effect_onUpdate_of_ignored hresolve]
      exact .ignored hresolve
    · exact written_onUpdate_of_ignored (r := r.hushed) hresolve world
  | ok clicked =>
    obtain ⟨c, language⟩ := clicked
    have hsame := r.effect_runHandler_hushed u c language world
    have hheard := r.heard_hushed u c language world
    have hbefore := byHandler_heard hresolve world
    have hown := written_onUpdate (r := r.hushed) hresolve world
    have hwhole := written_onUpdate hresolve world
    rw [effect_onUpdate hresolve]
    rcases hhandler : (r.runHandler u c language).effect world with ⟨e | verdict, left⟩
    · rw [written_route_of_error (hsame.trans hhandler), hheard] at hown
      rw [written_route_of_error hhandler] at hwhole
      rw [effect_route_of_error hhandler]
      refine ⟨[], [], .failed hresolve hhandler, hown, _, [], hbefore, .inl rfl, ?_⟩
      simp [hwhole]
    · cases hdestination : r.destination u c language verdict with
      | error halt =>
        rw [written_route_of_halt (r := r.hushed) (hsame.trans hhandler) hdestination,
          hheard] at hown
        rw [written_route_of_halt hhandler hdestination] at hwhole
        rw [effect_route_of_halt hhandler hdestination]
        refine ⟨_, _, .halted hresolve hhandler hdestination, ?_, _, [], hbefore, .inl rfl, ?_⟩
        · simp [own, hown, Option.toList_map]
        · simp [hwhole, Option.toList_map]
      | ok destination =>
        obtain ⟨target, next, page⟩ := destination
        have hbetween := byEdit_written hresolve hhandler hdestination
        have hedit : (r.hushed.transport.edit target page.content).effect left =
            (r.transport.edit target page.content).effect left := rfl
        have hquiet : (r.hushed.transport.edit target page.content).written left = [] := rfl
        rw [written_route_of_destination (r := r.hushed) (hsame.trans hhandler) hdestination,
          hheard, hedit, hquiet] at hown
        rw [written_route_of_destination hhandler hdestination] at hwhole
        rw [effect_route_of_destination hhandler hdestination]
        rcases hafter : (r.transport.edit target page.content).effect left with ⟨e | ⟨⟩, after⟩
        · rw [hafter] at hown hwhole
          refine ⟨_, _, .stuck hresolve hhandler hdestination hafter, ?_, _, _, hbefore,
            hbetween, ?_⟩
          · simp [own, hown, Option.toList_map]
          · simp [hwhole, Option.toList_map]
        · rw [hafter] at hown hwhole
          refine ⟨_, _, .moved hresolve hhandler hdestination hafter, ?_, _, _, hbefore,
            hbetween, ?_⟩
          · simp [own, hown, Option.toList_map]
          · simp [hwhole, Option.toList_map]

/-! ## What the records tell -/

/-- A handler runs for a click exactly if the choice has one. -/
theorem run_mem_deeds_iff (hresolve : r.resolve u = .ok (c, language)) (world : σ) :
    (∃ handler click, .run handler click ∈ r.deeds u world) ↔
      (r.handlers.get? c.key).isSome := by
  obtain ⟨calls, hdeeds⟩ := exists_deeds_eq hresolve world
  rw [hdeeds, handlerRun]
  cases r.handlers.get? c.key with
  | none => simp
  | some handler => simp

/-- The record of a handler that has completed, in the span of its click. -/
theorem of_mem_completion {verdict : Verdict} {record : LogRecord}
    (h : record ∈ (r.completion c verdict).map (LogRecord.within (routeSpan c language))) :
    record.message = "handler completed" ∧ record.spans = [routeSpan c language] := by
  simp only [completion, Option.map_map, Option.mem_def, Option.map_eq_some_iff] at h
  obtain ⟨handler, -, rfl⟩ := h
  exact ⟨rfl, rfl⟩

theorem isSome_completion_iff (hresolve : r.resolve u = .ok (c, language)) (verdict : Verdict) :
    ((r.completion c verdict).map (LogRecord.within (routeSpan c language))).isSome ↔
      ∃ handler click, .run handler click ∈ r.deeds u world := by
  rw [run_mem_deeds_iff hresolve, completion, Option.isSome_map, Option.isSome_map]

/-- A run that succeeds ends with one record of how it did, which tells the outcome. -/
theorem Course.exists_ending {outcome : Outcome} {first last : List LogRecord}
    (h : r.Course u world (.ok outcome) first last) :
    ∃ completed ending, first = Option.toList completed ∧ last = [ending] ∧
      (completed.isSome ↔ ∃ handler click, .run handler click ∈ r.deeds u world) ∧
      (∀ record ∈ completed, record.message = "handler completed") ∧
      ending.IsEnding ∧ Outcome.told? completed.isSome ending = some outcome := by
  cases h with
  | @ignored reason hresolve =>
    refine ⟨none, _, rfl, rfl, ?_, nofun, List.mem_of_elem_eq_true rfl, ?_⟩
    · simp [deeds_of_ignored hresolve]
    · simp [Outcome.told?, LogRecord.field?, IgnoreReason.ofText?_text]
  | @halted c language verdict left halt hresolve _ _ =>
    refine ⟨_, _, rfl, rfl, isSome_completion_iff hresolve verdict,
      fun record hrecord => (of_mem_completion hrecord).1, ?_, ?_⟩
    · cases halt <;> exact List.mem_of_elem_eq_true rfl
    · rw [completion, Option.isSome_map, Option.isSome_map]
      cases halt <;> rfl
  | @moved c language verdict left after target next page hresolve _ _ _ =>
    exact ⟨_, _, rfl, rfl, isSome_completion_iff hresolve verdict,
      fun record hrecord => (of_mem_completion hrecord).1, List.mem_of_elem_eq_true rfl, rfl⟩

/-- A run that fails leaves no record of how it ended. -/
theorem Course.not_isEnding {e : RouterError} {first last : List LogRecord}
    (h : r.Course u world (.error e) first last) {record : LogRecord}
    (hrecord : record ∈ first ++ last) : ¬ record.IsEnding := by
  cases h with
  | failed => cases hrecord
  | stuck =>
    rw [List.append_nil, Option.mem_toList] at hrecord
    rw [LogRecord.IsEnding, (of_mem_completion hrecord).1]
    decide

/-- The record of an ignored update is in no span, and the others are in the span of the click. -/
theorem Course.spans_eq {result : Except RouterError Outcome} {first last : List LogRecord}
    (h : r.Course u world result first last) {record : LogRecord}
    (hrecord : record ∈ first ++ last) :
    record.message = "update ignored" ∧ record.spans = [] ∨
      record.message ≠ "update ignored" ∧
        ∃ c language, r.resolve u = .ok (c, language) ∧ record.spans = [routeSpan c language] := by
  have hcompleted : ∀ {c language verdict}, r.resolve u = .ok (c, language) →
      record ∈ (r.completion c verdict).map (LogRecord.within (routeSpan c language)) →
      record.message ≠ "update ignored" ∧
        ∃ c language, r.resolve u = .ok (c, language) ∧ record.spans = [routeSpan c language] := by
    intro c language verdict hresolve hmem
    obtain ⟨hmessage, hspans⟩ := of_mem_completion hmem
    refine ⟨?_, c, language, hresolve, hspans⟩
    rw [hmessage]
    decide
  cases h with
  | ignored =>
    obtain rfl := List.mem_singleton.1 hrecord
    exact .inl ⟨rfl, rfl⟩
  | failed => cases hrecord
  | @halted c language verdict left halt hresolve _ _ =>
    right
    rcases List.mem_append.1 hrecord with hfirst | hlast
    · exact hcompleted hresolve (Option.mem_toList.1 hfirst)
    · obtain rfl := List.mem_singleton.1 hlast
      refine ⟨?_, c, language, hresolve, ?_⟩
      · cases halt <;> simp [Halt.record, LogRecord.within]
      · cases halt <;> rfl
  | stuck hresolve _ _ _ =>
    rw [List.append_nil, Option.mem_toList] at hrecord
    exact .inr (hcompleted hresolve hrecord)
  | @moved c language verdict left after target next page hresolve _ _ _ =>
    right
    rcases List.mem_append.1 hrecord with hfirst | hlast
    · exact hcompleted hresolve (Option.mem_toList.1 hfirst)
    · obtain rfl := List.mem_singleton.1 hlast
      exact ⟨by simp [movement, LogRecord.within], c, language, hresolve, rfl⟩

/-- Whatever graph was compiled, and whatever the handlers and the transport do and write, the log
tells of every update. -/
theorem tells_every_outcome {d : Document} {g : Graph} (hcompile : Graph.compile d = .ok g)
    (transport : Transport σ) (handlers : NameTable (Handler σ)) (u : Update) (world : σ) :
    (Router.mk transport g handlers).Tells u world := by
  obtain ⟨hcompilable, rfl⟩ := Graph.compile_eq_ok_iff.1 hcompile
  have hindexed := hcompilable.indexed
  obtain ⟨first, last, hcourse, hwrites⟩ :=
    (Router.mk transport d.graph handlers).exists_course u world
  refine ⟨effect_onUpdate_hushed _ u world, fun outcome houtcome => ?_,
    fun e he => ⟨first, last, hwrites, fun record hrecord => ?_⟩,
    fun record hrecord hmessage => ?_, fun record hrecord hmessage => ?_⟩
  · rw [houtcome] at hcourse
    obtain ⟨completed, ending, rfl, rfl, hending⟩ := hcourse.exists_ending
    exact ⟨completed, ending, hwrites, hending⟩
  · rw [he] at hcourse
    exact hcourse.not_isEnding hrecord
  · rw [hwrites.own] at hrecord
    rcases hcourse.spans_eq hrecord with ⟨-, hspans⟩ | ⟨hother, -⟩
    · exact hspans
    · exact absurd hmessage hother
  · rw [hwrites.own] at hrecord
    rcases hcourse.spans_eq hrecord with ⟨hignored, -⟩ | ⟨-, c, language, hresolve, hspans⟩
    · exact absurd hignored hmessage
    · exact ⟨c, language, hresolve, clicks_of_resolve hindexed hresolve, hspans⟩

example : (Router.twoStages.own Document.goClick .fresh).map (·.message) =
    ["handler completed", "handler asked to stay"] := by decide +kernel

theorem tells_go_click : Router.twoStages.Tells Document.goClick .fresh :=
  tells_every_outcome Document.graph_twoStages _ _ _ _

end Router

end ButtonDialog
