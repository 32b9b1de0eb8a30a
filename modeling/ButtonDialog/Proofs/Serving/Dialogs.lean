import ButtonDialog.Proofs.Routing.Gating
import ButtonDialog.Proofs.Writing.Frames

/-! The transport does not sway the dialog.

    A router gives the same replies over every transport that accepts all calls, and makes the same
    calls in the same order; a console has a line for each of them that tells it. Logging the calls
    of a transport, one that fails or one that does not, changes nothing but the log. -/

namespace ButtonDialog

namespace Router

variable {σ τ : Type}

/-- Updates that are dealt with in order come to these replies and leave this world, with the loop
as without it. -/
structure RunsTo (r : Router σ) (start : StartSettings) (us : List Update) (world : σ)
    (replies : List Reply) (left : σ) : Prop where
  replies : (r.replies start us).effect world = (replies, left)
  loop : (Serve.dispatchAll r start us).effect world = ((), left)

theorem runsTo_of_replies {r : Router σ} {start : StartSettings} {us : List Update} {world : σ}
    {replies : List Reply} {left : σ}
    (h : (r.replies start us).effect world = (replies, left)) :
    r.RunsTo start us world replies left :=
  ⟨h, by rw [Serve.effect_dispatchAll_replies, h]⟩

/-- Over two transports that tally, the updates come to the same replies by the same calls. -/
theorem exists_runsTo_of_tallies {t : Transport σ} {t' : Transport τ} {after : List Call → σ}
    {after' : List Call → τ} (h : t.Tallies after) (h' : t'.Tallies after') (g : Graph)
    (rows : List HandlerRow) (start : StartSettings) (us : List Update) :
    ∃ replies calls, (ofRows t g rows).RunsTo start us (after []) replies (after calls) ∧
      (ofRows t' g rows).RunsTo start us (after' []) replies (after' calls) := by
  have htransports : (ofRows t g rows).transport.Matches (ofRows t' g rows).transport
      fun world other => ∃ calls, world = after calls ∧ other = after' calls := by
    rw [transport_ofRows, transport_ofRows]
    exact h.matches h'
  obtain ⟨hreplies, calls, hleft, hleft'⟩ := matches_replies htransports
    (alike_ofRows t t' g rows) start us (after []) (after' []) ⟨[], rfl, rfl⟩
  exact ⟨_, calls, runsTo_of_replies (Prod.ext rfl hleft),
    runsTo_of_replies (Prod.ext hreplies.symm hleft')⟩

/-- There are replies and calls that updates come to over every transport that tallies. -/
theorem exists_runsTo (g : Graph) (rows : List HandlerRow) (start : StartSettings)
    (us : List Update) :
    ∃ replies calls, ∀ (σ : Type) (t : Transport σ) (after : List Call → σ), t.Tallies after →
      (ofRows t g rows).RunsTo start us (after []) replies (after calls) := by
  -- the recorder without a past tells which calls these are
  have hfresh : Recorder.transport.Tallies Recorder.fresh.after := Recorder.tallies rfl
  let told := ((ofRows Recorder.transport g rows).replies start us).effect .fresh
  refine ⟨told.1, told.2.calls, fun σ t after h => ?_⟩
  obtain ⟨replies, calls, hrecorded, hruns⟩ := exists_runsTo_of_tallies hfresh h g rows start us
  have htold : told = (replies, Recorder.fresh.after calls) := hrecorded.replies
  have hcalls : (Recorder.fresh.after calls).calls = calls := Recorder.calls_after _ _
  rw [htold, hcalls]
  exact hruns

/-- Logging the calls of a transport, whether they fail or not, changes no reply and nothing of the
world. -/
theorem effect_replies_logged (t : Transport σ) (g : Graph) (rows : List HandlerRow)
    (start : StartSettings) (us : List Update) (world : σ) :
    ((ofRows t.logged g rows).replies start us).effect world =
      ((ofRows t g rows).replies start us).effect world := by
  have htransports :
      (ofRows t.logged g rows).transport.Matches (ofRows t g rows).transport Eq := by
    rw [transport_ofRows, transport_ofRows]
    exact t.matches_logged
  obtain ⟨hreplies, hleft⟩ := matches_replies htransports (alike_ofRows t.logged t g rows) start us
    world world rfl
  exact Prod.ext hreplies hleft

/-- Over a transport, bare or logged, updates come to these replies and leave this world. -/
structure RunsOver (t : Transport σ) (g : Graph) (rows : List HandlerRow) (start : StartSettings)
    (us : List Update) (world : σ) (replies : List Reply) (left : σ) : Prop where
  bare : (ofRows t g rows).RunsTo start us world replies left
  logged : (ofRows t.logged g rows).RunsTo start us world replies left

/-- Updates come to these replies, whichever transport shows the dialog. Where nothing is shown the
world stays as it is; a recorder that works has these calls in addition, and a console that can
write has a line for each of them, in order, which is read back as the kind of the call, the chat
and the message, and the text, the mode and the layout. -/
structure Unswayed (g : Graph) (rows : List HandlerRow) (start : StartSettings) (us : List Update)
    (replies : List Reply) (calls : List Call) : Prop where
  silent : ∀ (σ : Type) (world : σ), RunsOver silentTransport g rows start us world replies world
  recorded : ∀ r : Recorder, r.Works → ∃ left : Recorder,
    RunsOver Recorder.transport g rows start us r replies left ∧ left.Works ∧
      left.calls = r.calls ++ calls
  written : ∀ c : Console, c.Writes → ∃ (left : Console) (lines : List String),
    RunsOver Console.transport g rows start us c replies left ∧ left.Writes ∧
      left.lines = c.lines ++ lines ∧
      List.Forall₂ Console.Frame.ToldBy (Console.framesFrom c.next calls) lines

/-- A transport is not changed by logging its calls: a single call has the same result, the id of a
message that is sent included, and a run of updates comes to the same replies and leaves the same
world. The calls that reach the transport are the same too, as a journal of them tells. -/
structure LogsUnchanged {σ : Type} (t : Transport σ) (g : Graph) (rows : List HandlerRow)
    (start : StartSettings) (us : List Update) : Prop where
  send : ∀ chat content world,
    (t.logged.send chat content).effect world = (t.send chat content).effect world
  edit : ∀ target content world,
    (t.logged.edit target content).effect world = (t.edit target content).effect world
  runs : ∀ world replies left, (ofRows t.logged g rows).RunsTo start us world replies left ↔
    (ofRows t g rows).RunsTo start us world replies left
  calls : ∀ world past replies left calls,
    (ofRows t.journaled.logged g rows).RunsTo start us (world, past) replies (left, calls) ↔
      (ofRows t.journaled g rows).RunsTo start us (world, past) replies (left, calls)

theorem runsTo_logged_iff (t : Transport σ) (g : Graph) (rows : List HandlerRow)
    (start : StartSettings) (us : List Update) (world : σ) (replies : List Reply) (left : σ) :
    (ofRows t.logged g rows).RunsTo start us world replies left ↔
      (ofRows t g rows).RunsTo start us world replies left := by
  have hsame := effect_replies_logged t g rows start us world
  constructor
  · intro hruns
    exact runsTo_of_replies (hsame ▸ hruns.replies)
  · intro hruns
    exact runsTo_of_replies (hsame.trans hruns.replies)

/-- Whatever the graph, the handler rows, the start settings and the updates are, the replies are
the same over the transport that shows nothing, the recorder and the console, logged or not, and so
are the calls. Logging changes nothing about any other transport either. -/
theorem unswayed_by_transports (g : Graph) (rows : List HandlerRow) (start : StartSettings)
    (us : List Update) :
    (∃ replies calls, Unswayed g rows start us replies calls) ∧
      ∀ (σ : Type) (t : Transport σ), LogsUnchanged t g rows start us := by
  refine ⟨?_, fun σ t => ⟨t.effect_send_logged, t.effect_edit_logged,
    runsTo_logged_iff t g rows start us, fun world past replies left calls =>
      runsTo_logged_iff t.journaled g rows start us (world, past) replies (left, calls)⟩⟩
  obtain ⟨replies, calls, hruns⟩ := exists_runsTo g rows start us
  have hover : ∀ (σ : Type) (t : Transport σ) (after : List Call → σ), t.Tallies after →
      RunsOver t g rows start us (after []) replies (after calls) := by
    intro σ t after h
    have hbare := hruns σ t after h
    exact ⟨hbare, (runsTo_logged_iff t g rows start us _ _ _).2 hbare⟩
  refine ⟨replies, calls, ?_, ?_, ?_⟩
  · intro σ world
    exact hover σ silentTransport _ (tallies_silentTransport world)
  · intro r hworks
    exact ⟨r.after calls, hover Recorder _ _ (Recorder.tallies hworks),
      Recorder.works_after hworks calls, r.calls_after calls⟩
  · intro c hwrites
    exact ⟨c.after calls, _, hover Console _ _ (Console.tallies hwrites),
      Console.writes_after hwrites calls, c.lines_after calls, Console.toldBy_spelled _ _⟩

/-- A request for the menu and a click, where the click has a handler that sends a text. -/
def menuThenGo : List Update := [.message 7 "/start", Document.goClick]

/-- The handler of this click. -/
def goRows : List HandlerRow := [⟨"1", "1", "1", .reply, some "There we go", false⟩]

/-- The calls of these two updates. -/
def menuThenGoCalls : List Call :=
  [.send 7 ⟨"Choose a language:\n/start_en", .plain, none⟩,
    .send 7 ⟨"There we go", .plain, none⟩,
    .edit ⟨7, 9⟩ ⟨"There", .plain,
      some ⟨[[⟨"Back", "chnDs35r-OlkIkRyaCybDNf_PFDr_s3xURpXAAZtFOQ\nen"⟩]]⟩⟩]

theorem unswayed_menuThenGo :
    ∃ replies, replies.length = 2 ∧
      Unswayed Document.twoStages.graph goRows .standard menuThenGo replies menuThenGoCalls ∧
      ∃ (left : Console) (lines : List String),
        (Serve.dispatchAll (ofRows Console.transport Document.twoStages.graph goRows) .standard
          menuThenGo).effect .fresh = ((), left) ∧
        left.lines = lines ∧ lines.map Console.Frame.decode? = [
          some ⟨"send", ⟨7, 1⟩, ⟨"Choose a language:\n/start_en", .plain, none⟩⟩,
          some ⟨"send", ⟨7, 2⟩, ⟨"There we go", .plain, none⟩⟩,
          some ⟨"edit", ⟨7, 9⟩, ⟨"There", .plain,
            some ⟨[[⟨"Back", "chnDs35r-OlkIkRyaCybDNf_PFDr_s3xURpXAAZtFOQ\nen"⟩]]⟩⟩⟩] := by
  obtain ⟨replies, calls, h⟩ :=
    (unswayed_by_transports Document.twoStages.graph goRows .standard menuThenGo).1
  obtain ⟨recorder, hrecorded, -, hrecorder⟩ := h.recorded .fresh rfl
  obtain ⟨left, lines, hwritten, -, hlines, htold⟩ := h.written .fresh rfl
  have hmade : ((Serve.dispatchAll (ofRows Recorder.transport Document.twoStages.graph goRows)
      .standard menuThenGo).effect .fresh).2.calls = menuThenGoCalls := by decide +kernel
  have hlength : (((ofRows Recorder.transport Document.twoStages.graph goRows).replies .standard
      menuThenGo).effect .fresh).1.length = 2 := rfl
  rw [hrecorded.bare.loop] at hmade
  rw [hrecorded.bare.replies] at hlength
  have hcalls : calls = menuThenGoCalls := hrecorder.symm.trans hmade
  rw [hcalls] at h htold
  exact ⟨replies, hlength, h, left, lines, hwritten.bare.loop, hlines,
    Console.Frame.map_decode?_of_toldBy htold⟩

end Router

end ButtonDialog
