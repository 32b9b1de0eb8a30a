import ButtonDialog.Proofs.Serving.Folding

/-! Routers that differ in their transports.

    Two actions match if, from worlds that go together, they give results that go together and leave
    worlds that go together again. Where the calls of two transports match, so does everything that
    routers with these transports do, as long as the routers have one graph and their handlers come
    from the same rows: of what a call returns, nothing is used but whether it has failed, and how.
    This is shown for the steps of an update, and from there for every list of updates. -/

namespace ButtonDialog

/-! ## Actions that match -/

/-- From worlds that go together, two actions give results that go together, and leave worlds that
go together. -/
def Act.Matches {σ τ α β : Type} (Together : σ → τ → Prop) (Same : α → β → Prop) (a : Act σ α)
    (b : Act τ β) : Prop :=
  ∀ world other, Together world other →
    Same (a.effect world).1 (b.effect other).1 ∧ Together (a.effect world).2 (b.effect other).2

namespace Act.Matches

variable {σ τ α β γ δ : Type} {Together : σ → τ → Prop} {Same : α → β → Prop}

theorem of_pure {x : α} {y : β} (h : Same x y) :
    (pure x : Act σ α).Matches Together Same (pure y : Act τ β) :=
  fun _ _ htogether => ⟨h, htogether⟩

/-- Equal results go together. -/
theorem rfl_pure (x : α) : (pure x : Act σ α).Matches Together Eq (pure x : Act τ α) :=
  of_pure rfl

/-- Records are not compared. -/
theorem log_bind {level level' : Level} {message message' : String}
    {fields fields' : List (String × String)} {f : Unit → Act σ α} {g : Unit → Act τ β}
    (h : (f ()).Matches Together Same (g ())) :
    (log level message fields >>= f).Matches Together Same
      (log level' message' fields' >>= g) := h

/-- Spans are not compared. -/
theorem within {a : Act σ α} {b : Act τ β} (h : a.Matches Together Same b) (s s' : Span) :
    (a.within s).Matches Together Same (b.within s') := h

theorem bind {a : Act σ α} {b : Act τ β} {f : α → Act σ γ} {g : β → Act τ δ}
    {Last : γ → δ → Prop} (h : a.Matches Together Same b)
    (hnext : ∀ x y, Same x y → (f x).Matches Together Last (g y)) :
    (a >>= f).Matches Together Last (b >>= g) := by
  intro world other htogether
  obtain ⟨hsame, hleft⟩ := h world other htogether
  exact hnext _ _ hsame _ _ hleft

/-- After equal results, actions match that match for every result. -/
theorem bind_eq {a : Act σ α} {b : Act τ α} {f : α → Act σ γ} {g : α → Act τ δ}
    {Last : γ → δ → Prop} (h : a.Matches Together Eq b)
    (hnext : ∀ x, (f x).Matches Together Last (g x)) :
    (a >>= f).Matches Together Last (b >>= g) := by
  refine h.bind ?_
  rintro x _ rfl
  exact hnext x

end Act.Matches

/-- The calls of two transports match, though the messages that they send may have other ids. -/
structure Transport.Matches {σ τ : Type} (t : Transport σ) (t' : Transport τ)
    (Together : σ → τ → Prop) : Prop where
  send : ∀ chat content, (t.send chat content).Matches Together
    (fun x y => x.map (fun _ => ()) = y.map fun _ => ()) (t'.send chat content)
  edit : ∀ target content, (t.edit target content).Matches Together Eq (t'.edit target content)

/-! ## Routers that are alike -/

namespace Router

variable {σ τ : Type}

/-- Two routers have one graph, and handlers on the same choices, which are those of the same rows.
-/
structure Alike (r : Router σ) (r' : Router τ) : Prop where
  graph : r.graph = r'.graph
  handlers : ∀ key, (r.handlers.get? key = none ∧ r'.handlers.get? key = none) ∨
    ∃ a : RowAction, r.handlers.get? key = some a.handler ∧ r'.handlers.get? key = some a.handler

theorem alike_new (t : Transport σ) (t' : Transport τ) (g : Graph) : (new t g).Alike (new t' g) :=
  ⟨rfl, fun _ => .inl ⟨rfl, rfl⟩⟩

variable {r : Router σ} {r' : Router τ}

theorem Alike.contains_eq (h : r.Alike r') (key : String) :
    r.handlers.contains key = r'.handlers.contains key := by
  rw [NameTable.contains, NameTable.contains]
  rcases h.handlers key with ⟨hnone, hnone'⟩ | ⟨a, hsome, hsome'⟩
  · rw [hnone, hnone']
    rfl
  · rw [hsome, hsome']
    rfl

/-- Alike routers register a row in the same way, with the same record, and stay alike, or refuse it
for the same reason. -/
theorem Alike.registerRow (h : r.Alike r') (row : HandlerRow) :
    (∃ e, r.registerRow row = .error e ∧ r'.registerRow row = .error e) ∨
      ∃ next next' record, r.registerRow row = .ok (next, record) ∧
        r'.registerRow row = .ok (next', record) ∧ next.Alike next' := by
  have hfound : ∀ key, r'.graph.choiceOfKey? key = r.graph.choiceOfKey? key := by
    intro key
    rw [h.graph]
  unfold Router.registerRow
  cases row.complete with
  | error e => exact .inl ⟨e, rfl, rfl⟩
  | ok a =>
    simp only [bind, Except.bind, register, hfound, ← h.contains_eq]
    cases r.graph.choiceOfKey? (Key.choice row.procedure row.stage row.choice) with
    | none => exact .inl ⟨_, rfl, rfl⟩
    | some c =>
      refine .inr ⟨_, _, _, rfl, rfl, h.graph, fun key => ?_⟩
      simp only [NameTable.get?_insert]
      split
      · exact .inr ⟨a, rfl, rfl⟩
      · exact h.handlers key

/-- So they do with a table. -/
theorem Alike.registerRows (h : r.Alike r') (rows : List HandlerRow) :
    (r.registerRows rows).1.Alike (r'.registerRows rows).1 ∧
      (r.registerRows rows).2 = (r'.registerRows rows).2 := by
  induction rows generalizing r r' with
  | nil => exact ⟨h, rfl⟩
  | cons row rows ih =>
    unfold Router.registerRows
    rcases h.registerRow row with ⟨e, hrow, hrow'⟩ | ⟨next, next', record, hrow, hrow', hnext⟩
    · rw [hrow, hrow']
      exact ⟨h, rfl⟩
    · obtain ⟨halike, hrest⟩ := ih hnext
      rw [hrow, hrow']
      exact ⟨halike, by simp only [hrest]⟩

theorem Alike.applyTable (h : r.Alike r') (rows : List HandlerRow) :
    (r.applyTable rows).1.Alike (r'.applyTable rows).1 ∧
      (r.applyTable rows).2 = (r'.applyTable rows).2 := by
  obtain ⟨halike, hrest⟩ := h.registerRows rows
  unfold Router.applyTable
  rcases hrows : r.registerRows rows with ⟨next, records, e⟩
  rcases hrows' : r'.registerRows rows with ⟨next', records', e'⟩
  rw [hrows, hrows'] at halike hrest
  cases hrest
  cases e with
  | none => exact ⟨halike, rfl⟩
  | some e => exact ⟨halike, rfl⟩

theorem alike_ofRows (t : Transport σ) (t' : Transport τ) (g : Graph) (rows : List HandlerRow) :
    (ofRows t g rows).Alike (ofRows t' g rows) :=
  ((alike_new t t' g).registerRows rows).1

end Router

/-! ## What alike routers do over matching transports -/

section Matching

variable {σ τ : Type} {Together : σ → τ → Prop}

/-- The handler of a row uses of a transport only whether its call has failed, and how. -/
theorem RowAction.matches_handler {t : Transport σ} {t' : Transport τ} (h : t.Matches t' Together)
    (a : RowAction) (u : Update) (click : Click) :
    (a.handler t u click).Matches Together Eq (a.handler t' u click) := by
  unfold RowAction.handler
  cases a.action with
  | log => exact .log_bind (.rfl_pure _)
  | reply =>
    refine (h.send u.chat (.plain a.text)).bind ?_
    rintro (e | m) (e' | m') hsame
    · cases hsame
      exact .rfl_pure _
    · cases hsame
    · cases hsame
    · exact .rfl_pure _

namespace Router

variable {r : Router σ} {r' : Router τ}

theorem matches_tell (h : r.transport.Matches r'.transport Together) (chat : Int64)
    (content : Content) : (r.tell chat content).Matches Together Eq (r'.tell chat content) :=
  (h.send chat content).bind fun _ _ hsame => .of_pure hsame

theorem matches_answer (h : r.transport.Matches r'.transport Together) (hr : r.Alike r')
    (start : StartSettings) (chat : Int64) (command : Command) :
    (r.answer start chat command).Matches Together Eq (r'.answer start chat command) := by
  cases command with
  | menu =>
    simp only [answer, languages, ← hr.graph]
    exact matches_tell h chat _
  | unknown => exact matches_tell h chat _
  | start language =>
    simp only [answer, ← hr.graph]
    cases r.graph.render start.procedure start.stage language with
    | none => exact .log_bind (.rfl_pure _)
    | some page => exact matches_tell h chat page.content

theorem matches_onMessage (h : r.transport.Matches r'.transport Together) (hr : r.Alike r')
    (start : StartSettings) (chat : Int64) (text : String) :
    (r.onMessage start chat text).Matches Together Eq (r'.onMessage start chat text) := by
  unfold onMessage
  simp only [languages, ← hr.graph]
  exact (matches_answer h hr start chat _).bind_eq fun _ => .rfl_pure _

theorem matches_runHandler (h : r.transport.Matches r'.transport Together) (hr : r.Alike r')
    (u : Update) (c : Graph.Choice) (language : String) :
    (r.runHandler u c language).Matches Together Eq (r'.runHandler u c language) := by
  unfold runHandler
  rcases hr.handlers c.key with ⟨hnone, hnone'⟩ | ⟨a, hsome, hsome'⟩
  · rw [hnone, hnone']
    exact .rfl_pure _
  · rw [hsome, hsome']
    refine (a.matches_handler h u (click c language)).bind_eq fun result => ?_
    cases result with
    | error e => exact .rfl_pure _
    | ok verdict => exact .log_bind (.rfl_pure _)

theorem matches_route (h : r.transport.Matches r'.transport Together) (hr : r.Alike r')
    (u : Update) (c : Graph.Choice) (language : String) :
    (r.route u c language).Matches Together Eq (r'.route u c language) := by
  have hdestination : ∀ verdict,
      r'.destination u c language verdict = r.destination u c language verdict := by
    intro verdict
    simp only [destination, hr.graph]
  refine (matches_runHandler h hr u c language).bind_eq fun result => ?_
  cases result with
  | error e => exact .rfl_pure _
  | ok verdict =>
    simp only [hdestination, ← hr.contains_eq]
    cases r.destination u c language verdict with
    | error halt => cases halt <;> exact .log_bind (.rfl_pure _)
    | ok destination =>
      obtain ⟨target, next, page⟩ := destination
      refine (h.edit target page.content).bind_eq fun edited => ?_
      cases edited with
      | error e => exact .rfl_pure _
      | ok _ => exact .log_bind (.rfl_pure _)

theorem matches_onUpdate (h : r.transport.Matches r'.transport Together) (hr : r.Alike r')
    (u : Update) : (r.onUpdate u).Matches Together Eq (r'.onUpdate u) := by
  have hresolve : r'.resolve u = r.resolve u := by simp only [resolve, hr.graph]
  unfold onUpdate
  rw [hresolve]
  cases r.resolve u with
  | error reason => exact .log_bind (.rfl_pure _)
  | ok clicked => exact (matches_route h hr u clicked.1 clicked.2).within _ _

end Router

end Matching

/-! ## Replies -/

/-- What becomes of an update: a message is answered and a click is routed, and either may fail. -/
inductive Reply where
  | answered (result : Except TransportError Command)
  | routed (result : Except RouterError Outcome)

namespace Router

variable {σ τ : Type} {Together : σ → τ → Prop}

/-- Deals with an update, and tells what becomes of it. -/
def reply (r : Router σ) (start : StartSettings) : Update → Act σ Reply
  | .message chat text => return .answered (← r.onMessage start chat text)
  | u@(.click ..) => return .routed (← r.onUpdate u)

/-- Deals with updates in order, and tells what becomes of each. -/
def replies (r : Router σ) (start : StartSettings) : List Update → Act σ (List Reply)
  | [] => return []
  | u :: us => do
    let first ← r.reply start u
    let rest ← r.replies start us
    return first :: rest

variable {r : Router σ} {r' : Router τ}

theorem matches_reply (h : r.transport.Matches r'.transport Together) (hr : r.Alike r')
    (start : StartSettings) (u : Update) :
    (r.reply start u).Matches Together Eq (r'.reply start u) := by
  cases u with
  | message chat text =>
    exact (matches_onMessage h hr start chat text).bind_eq fun _ => .rfl_pure _
  | click id chat shown data => exact (matches_onUpdate h hr _).bind_eq fun _ => .rfl_pure _

/-- Over transports that match, alike routers give the same replies. -/
theorem matches_replies (h : r.transport.Matches r'.transport Together) (hr : r.Alike r')
    (start : StartSettings) (us : List Update) :
    (r.replies start us).Matches Together Eq (r'.replies start us) := by
  induction us with
  | nil => exact .rfl_pure _
  | cons u us ih =>
    exact (matches_reply h hr start u).bind_eq fun first => ih.bind_eq fun rest => .rfl_pure _

end Router

/-- The loop deals with the updates in the same way, and keeps no replies. -/
theorem Serve.effect_dispatchAll_replies {σ : Type} (r : Router σ) (start : StartSettings)
    (us : List Update) (world : σ) :
    (dispatchAll r start us).effect world = ((), ((r.replies start us).effect world).2) := by
  have hone : ∀ u world, dealtWith r start world u = ((r.reply start u).effect world).2 := by
    intro u world
    cases u with
    | message chat text => rw [dealtWith, Router.reply, Act.effect_bind, Act.effect_pure]
    | click id chat shown data => rw [dealtWith, Router.reply, Act.effect_bind, Act.effect_pure]
  rw [effect_dispatchAll]
  induction us generalizing world with
  | nil => rfl
  | cons u us ih =>
    rw [List.foldl_cons, ih, hone]
    rfl

end ButtonDialog
