import ButtonDialog.Proofs.Routing.Gating
import ButtonDialog.Proofs.Serving.Folding
import ButtonDialog.Service.Program

/-! Chats do not see each other.

    What an update makes the transport do is settled by the update, the graph, the settings and the
    handlers of the table: nothing is kept from one update to the next. All of it goes to the chat
    of the update. So a chat gets the same calls, whatever else stands between its lines. -/

namespace ButtonDialog

/-- The chat that a call goes to. -/
def Call.chat : Call → Int64
  | .send chat _ => chat
  | .edit target _ => target.chat

/-- A call that answers an update goes to its chat, and edits no message but the one that was
clicked on. -/
structure Call.Answers (call : Call) (u : Update) : Prop where
  chat : call.chat = u.chat
  target : ∀ target content, call = .edit target content → u.target? = some target

namespace Call

variable {u : Update}

theorem answers_send {chat : Int64} (content : Content) (h : chat = u.chat) :
    (Call.send chat content).Answers u := ⟨h, nofun⟩

theorem answers_edit {target : MessageRef} (content : Content) (h : u.target? = some target) :
    (Call.edit target content).Answers u := by
  refine ⟨?_, fun other _ heq => ?_⟩
  · cases u with
    | message chat text => cases h
    | click id chat shown data =>
      obtain ⟨m, -, rfl⟩ := Option.map_eq_some_iff.1 h
      rfl
  · rw [← (Call.edit.inj heq).1]
    exact h

end Call

/-! ## What an update makes the transport do -/

theorem RowAction.answers_of_mem_calls {a : RowAction} {u : Update} {call : Call}
    (h : call ∈ a.calls u) : call.Answers u := by
  unfold calls at h
  cases haction : a.action with
  | log =>
    rw [haction] at h
    cases h
  | reply =>
    rw [haction] at h
    rw [List.mem_singleton.1 h]
    exact Call.answers_send _ rfl

namespace Router

variable {σ : Type} {r : Router σ} {Ready : σ → Prop} {journal : σ → List Call} {u : Update}
  {c : Graph.Choice} {language : String}

theorem answers_of_mem_answerCalls {start : StartSettings} {chat : Int64} {text : String}
    {command : Command} {call : Call} (h : call ∈ r.answerCalls start chat command) :
    call.Answers (.message chat text) := by
  cases command with
  | menu =>
    rw [List.mem_singleton.1 h]
    exact Call.answers_send _ rfl
  | unknown =>
    rw [List.mem_singleton.1 h]
    exact Call.answers_send _ rfl
  | start language =>
    obtain ⟨page, -, rfl⟩ := Option.map_eq_some_iff.1 (Option.mem_toList.1 h)
    exact Call.answers_send _ rfl

theorem answers_of_mem_editCalls {result : Except HandlerError Verdict} {call : Call}
    (h : call ∈ r.editCalls u c language result) : call.Answers u := by
  unfold editCalls at h
  cases result with
  | error e => cases h
  | ok verdict =>
    cases hdestination : r.destination u c language verdict with
    | error halt =>
      simp only [hdestination] at h
      cases h
    | ok destination =>
      obtain ⟨target, next, page⟩ := destination
      simp only [hdestination] at h
      rw [List.mem_singleton.1 h]
      exact Call.answers_edit _ (destination_eq_ok_iff.1 hdestination).known

/-- The handler of a choice gives one verdict and makes the same calls, whenever it runs. -/
theorem FromRows.exists_runHandler (h : r.FromRows) (hjournal : r.transport.Journals Ready journal)
    (haccepts : r.transport.Accepts Ready) (u : Update) (c : Graph.Choice) (language : String) :
    ∃ verdict calls, (∀ call ∈ calls, call.Answers u) ∧
      (r.runHandler u c language).Does Ready journal
        fun result made => result = .ok verdict ∧ made = calls := by
  cases hget : r.handlers.get? c.key with
  | none =>
    have hnone : ∀ call ∈ ([] : List Call), call.Answers u := nofun
    refine ⟨.proceed, [], hnone, does_runHandler (fun _ => ⟨rfl, rfl⟩) fun handler hhandler => ?_⟩
    rw [hget] at hhandler
    cases hhandler
  | some handler =>
    obtain ⟨a, rfl⟩ := h _ handler hget
    refine ⟨a.verdict, a.calls u, fun call => a.answers_of_mem_calls, does_runHandler ?_ ?_⟩
    · intro hhandler
      rw [hget] at hhandler
      cases hhandler
    · intro handler hhandler
      rw [hget] at hhandler
      cases hhandler
      exact a.does_handler_ok hjournal haccepts u _

/-- An update makes the same calls whenever it is dealt with, and they answer it. -/
theorem FromRows.exists_calls (h : r.FromRows) (hjournal : r.transport.Journals Ready journal)
    (haccepts : r.transport.Accepts Ready) (start : StartSettings) (u : Update) :
    ∃ calls, (∀ call ∈ calls, call.Answers u) ∧
      (Serve.dispatch r start u).Does Ready journal fun _ made => made = calls := by
  cases u with
  | message chat text =>
    refine ⟨r.answerCalls start chat (Command.parse text r.languages),
      fun call => answers_of_mem_answerCalls, Serve.does_dispatch_message ?_⟩
    exact does_onMessage hjournal start chat text
  | click id chat shown data =>
    cases hresolve : r.resolve (.click id chat shown data) with
    | error reason =>
      have hnone : ∀ call ∈ ([] : List Call), call.Answers (.click id chat shown data) := nofun
      refine ⟨[], hnone, Serve.does_dispatch_click (does_onUpdate (fun _ _ => rfl) ?_)⟩
      intro c language hclicked
      rw [hresolve] at hclicked
      cases hclicked
    | ok clicked =>
      obtain ⟨c, language⟩ := clicked
      obtain ⟨verdict, calls, hcalls, hhandler⟩ :=
        h.exists_runHandler hjournal haccepts (.click id chat shown data) c language
      refine ⟨calls ++ r.editCalls (.click id chat shown data) c language (.ok verdict), ?_,
        Serve.does_dispatch_click (does_onUpdate ?_ ?_)⟩
      · exact List.forall_mem_append.2 ⟨hcalls, fun call => answers_of_mem_editCalls⟩
      · intro reason hignored
        rw [hresolve] at hignored
        cases hignored
      · intro c' language' hclicked
        rw [hresolve] at hclicked
        cases hclicked
        refine (does_route hjournal hhandler).mono fun _ made hmade => ?_
        obtain ⟨_, _, ⟨rfl, rfl⟩, rfl⟩ := hmade
        rfl

end Router

/-! ## Serving -/

namespace Serve

variable {σ : Type} {r : Router σ} {start : StartSettings} {Ready : σ → Prop}
  {journal : σ → List Call} {callsOf : Update → List Call}

theorem does_dispatchAll
    (h : ∀ u, (dispatch r start u).Does Ready journal fun _ made => made = callsOf u)
    (us : List Update) :
    (dispatchAll r start us).Does Ready journal fun _ made => made = us.flatMap callsOf := by
  induction us with
  | nil => exact .of_pure rfl
  | cons u us ih =>
    refine (h u).bind fun _ calls hcalls => ?_
    refine ih.mono fun _ more hmore => ?_
    rw [hcalls, hmore, List.flatMap_cons]

/-- Serving a text makes the calls of its updates, one after the other, at every pace. -/
theorem exists_served
    (h : ∀ u, (dispatch r start u).Does Ready journal fun _ made => made = callsOf u)
    (text : String) {world : σ} (hready : Ready world) :
    ∃ stats after,
      (∀ pace, (serve r start (Key.bytes text) pace).effect world = (some stats, after)) ∧
      Ready after ∧ journal after = journal world ++ (updatesOf text).flatMap callsOf := by
  obtain ⟨hleft, calls, rfl, hjournal⟩ := does_dispatchAll h (updatesOf text) world hready
  rw [effect_dispatchAll] at hleft hjournal
  exact ⟨_, _, fun pace => effect_serve_text r start pace text world, hleft, hjournal⟩

/-! ## The lines of one chat -/

/-- The lines of a text that are updates of a chat, each with a line end. -/
def linesOf (chat : Int64) (text : String) : String :=
  String.join (((textLines text).filter fun line =>
    (Update.decode? line).any fun u => u.chat = chat).map (· ++ "\n"))

theorem notMem_of_mem_splitOn {α : Type} [BEq α] [LawfulBEq α] {sep : α} {xs piece : List α}
    (h : piece ∈ xs.splitOn sep) : sep ∉ piece := by
  induction xs generalizing piece with
  | nil =>
    rw [List.splitOn_nil, List.mem_singleton] at h
    rw [h]
    exact List.not_mem_nil
  | cons x xs ih =>
    rw [List.splitOn_cons_eq_if_modifyHead] at h
    split at h
    · rcases List.mem_cons.1 h with rfl | h
      · exact List.not_mem_nil
      · exact ih h
    · rename_i hne
      cases hpieces : xs.splitOn sep with
      | nil =>
        rw [hpieces] at h
        cases h
      | cons first pieces =>
        rw [hpieces, List.modifyHead_cons] at h
        rcases List.mem_cons.1 h with rfl | h
        · have hfirst : sep ∉ first := ih (hpieces ▸ List.mem_cons_self)
          exact List.not_mem_cons_of_ne_of_not_mem (fun heq => hne (beq_iff_eq.2 heq.symm)) hfirst
        · exact ih (hpieces ▸ List.mem_cons_of_mem _ h)

theorem lineEnd_notMem_of_mem_textLines {line text : String} (h : line ∈ textLines text) :
    '\n' ∉ line.toList := by
  obtain ⟨cs, hcs, rfl⟩ := List.mem_map.1 h
  rw [String.toList_ofList]
  exact notMem_of_mem_splitOn hcs

/-- The lines of a chat hold its updates and no others. -/
theorem updatesOf_linesOf (chat : Int64) (text : String) :
    updatesOf (linesOf chat text) = (updatesOf text).filter fun u => u.chat = chat := by
  have hlines : textLines (linesOf chat text) = ((textLines text).filter fun line =>
      (Update.decode? line).any fun u => u.chat = chat) ++ [""] :=
    textLines_join fun line hline => lineEnd_notMem_of_mem_textLines (List.mem_filter.1 hline).1
  have hnothing : [""].filterMap Update.decode? = [] := by decide
  rw [updatesOf, hlines, List.filterMap_append, hnothing, List.append_nil, List.filterMap_filter,
    updatesOf, List.filter_filterMap]
  refine List.filterMap_congr fun line _ => ?_
  cases Update.decode? line with
  | none => rfl
  | some u => rfl

/-- The calls that go to a chat are those of its updates. -/
theorem filter_flatMap_chat (h : ∀ u, ∀ call ∈ callsOf u, call.Answers u) (chat : Int64)
    (us : List Update) :
    (us.flatMap callsOf).filter (fun call => call.chat = chat) =
      (us.filter fun u => u.chat = chat).flatMap callsOf := by
  induction us with
  | nil => rfl
  | cons u us ih =>
    rw [List.flatMap_cons, List.filter_append, ih]
    by_cases hu : u.chat = chat
    · have hall : (callsOf u).filter (fun call => call.chat = chat) = callsOf u :=
        List.filter_eq_self.2 fun call hcall => decide_eq_true ((h u call hcall).chat.trans hu)
      rw [hall, List.filter_cons, if_pos (decide_eq_true hu), List.flatMap_cons]
    · have hnone : (callsOf u).filter (fun call => call.chat = chat) = [] :=
        List.filter_eq_nil_iff.2 fun call hcall =>
          mt of_decide_eq_true fun heq => hu ((h u call hcall).chat.symm.trans heq)
      rw [hnone, List.nil_append, List.filter_cons, if_neg (mt of_decide_eq_true hu)]

/-- What it is for chats to be served apart, in all worlds that are ready. An update makes the calls
that are listed for it, whatever the world, and these answer it; a text makes the calls of its
updates in order, at every pace. Of the calls that are made when a text is served, those that go to
a chat are the calls that are made when only the lines of this chat are served, in any other world
and at any other pace. -/
structure ServesApart (r : Router σ) (start : StartSettings) (Ready : σ → Prop)
    (journal : σ → List Call) (callsOf : Update → List Call) : Prop where
  answers : ∀ u, ∀ call ∈ callsOf u, call.Answers u
  dealt : ∀ u world, Ready world → Ready (dealtWith r start world u) ∧
    journal (dealtWith r start world u) = journal world ++ callsOf u
  served : ∀ text world, Ready world → ∃ stats after,
    (∀ pace, (serve r start (Key.bytes text) pace).effect world = (some stats, after)) ∧
      journal after = journal world ++ (updatesOf text).flatMap callsOf
  alone : ∀ chat text world other, Ready world → Ready other → ∃ calls mine,
    (∀ pace, journal ((serve r start (Key.bytes text) pace).effect world).2 =
      journal world ++ calls) ∧
    (∀ pace, journal ((serve r start (Key.bytes (linesOf chat text)) pace).effect other).2 =
      journal other ++ mine) ∧
    calls.filter (fun call => call.chat = chat) = mine

/-- Handlers from the settings let chats be served apart, where no call fails. -/
theorem exists_servesApart (h : r.FromRows) (hjournal : r.transport.Journals Ready journal)
    (haccepts : r.transport.Accepts Ready) (start : StartSettings) :
    ∃ callsOf, ServesApart r start Ready journal callsOf := by
  choose callsOf hanswers hcalls using h.exists_calls hjournal haccepts start
  refine ⟨callsOf, hanswers, fun u world hready => ?_, fun text world hready => ?_,
    fun chat text world other hready hother => ?_⟩
  · obtain ⟨hleft, calls, rfl, hmade⟩ := hcalls u world hready
    rw [effect_dispatch] at hleft hmade
    exact ⟨hleft, hmade⟩
  · obtain ⟨stats, after, hserved, -, hmade⟩ := exists_served hcalls text hready
    exact ⟨stats, after, hserved, hmade⟩
  · obtain ⟨_, _, hserved, -, hmade⟩ := exists_served hcalls text hready
    obtain ⟨_, _, hmine, -, hmade'⟩ := exists_served hcalls (linesOf chat text) hother
    refine ⟨(updatesOf text).flatMap callsOf, (updatesOf (linesOf chat text)).flatMap callsOf,
      fun pace => ?_, fun pace => ?_, ?_⟩
    · rw [hserved]
      exact hmade
    · rw [hmine]
      exact hmade'
    · rw [filter_flatMap_chat hanswers, updatesOf_linesOf]

/-- On the console, logged or not, and on a recorder that does not fail, chats are served apart,
whatever the graph, the start settings and the handlers of the settings are. -/
theorem serves_chats_apart (g : Graph) (rows : List HandlerRow) (start : StartSettings) :
    (∃ callsOf, ServesApart (.ofRows Console.transport.journaled g rows) start
      (fun noted => noted.1.Writes) Prod.snd callsOf) ∧
    (∃ callsOf, ServesApart (.ofRows Program.loopTransport.journaled g rows) start
      (fun noted => noted.1.Writes) Prod.snd callsOf) ∧
    ∃ callsOf, ServesApart (.ofRows Recorder.transport g rows) start Recorder.Works
      Recorder.calls callsOf := by
  have hrows : ∀ {τ : Type} {t : Transport τ} {Able : τ → Prop} {past : τ → List Call},
      t.Accepts Able → t.Journals (fun _ => True) past →
        ∃ callsOf, ServesApart (.ofRows t g rows) start Able past callsOf := by
    intro τ t Able past haccepts hjournals
    refine exists_servesApart (Router.fromRows_ofRows t g rows) ?_ ?_ start
    · rw [Router.transport_ofRows]
      exact haccepts.journals hjournals
    · rw [Router.transport_ofRows]
      exact haccepts
  exact ⟨hrows Console.accepts.journaled (Transport.journals_journaled _),
    hrows Console.accepts.logged.journaled (Transport.journals_journaled _),
    hrows Recorder.accepts Recorder.journals⟩

end Serve

end ButtonDialog
