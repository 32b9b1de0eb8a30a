import ButtonDialog.Proofs.Routing.Foreign
import ButtonDialog.Proofs.Serving.Journals
import ButtonDialog.Proofs.Serving.Lines

/-! The update loop is a fold over its lines.

    A line is read without a look at the others, and an update is dealt with in the world that the
    updates before it left, whatever became of them. How far dealing with updates keeps pace with
    reading does not matter. So the lines of an input can be taken one after the other, and an input
    that is cut after a line end can be served in two parts. All this is for inputs in UTF-8: a line
    that is anything else ends the loop, and what comes after it plays no part. -/

namespace ButtonDialog

namespace Serve

variable {σ : Type} (r : Router σ) (start : StartSettings) (journal : σ → List Call)

/-- The world when an update has been dealt with: a message is answered and a click is routed,
whatever comes of it. -/
def dealtWith (world : σ) : Update → σ
  | .message chat text => ((r.onMessage start chat text).effect world).2
  | u@(.click ..) => ((r.onUpdate u).effect world).2

/-! ## What serving leaves -/

theorem effect_dispatch (u : Update) (world : σ) :
    (dispatch r start u).effect world = ((), dealtWith r start world u) := by
  cases u with
  | message chat text =>
    rw [dispatch, Act.effect_bind, dealtWith]
    rcases (r.onMessage start chat text).effect world with ⟨e | command, left⟩
    · rfl
    · rfl
  | click id chat shown data =>
    rw [dispatch, Act.effect_bind, dealtWith]
    rcases (r.onUpdate (.click id chat shown data)).effect world with ⟨e | outcome, left⟩
    · rfl
    · rfl

theorem effect_dispatchAll (us : List Update) (world : σ) :
    (dispatchAll r start us).effect world = ((), us.foldl (dealtWith r start) world) := by
  induction us generalizing world with
  | nil => rfl
  | cons u us ih => rw [dispatchAll, Act.effect_bind, effect_dispatch, ih, List.foldl_cons]

theorem effect_logLine (line : Line) (world : σ) :
    (logLine line : Act σ Unit).effect world = ((), world) := by
  cases line <;> rfl

/-- Of what waits after a line, some is dealt with and some is left, and that is all of it. -/
theorem take_append_drop_waiting (n : Nat) (waiting : List Update) (line : String)
    (texts : List String) :
    (waiting ++ (Update.decode? line).toList).take n ++
        ((waiting ++ (Update.decode? line).toList).drop n ++ texts.filterMap Update.decode?) =
      waiting ++ (line :: texts).filterMap Update.decode? := by
  rw [← List.append_assoc, List.take_append_drop, List.append_assoc, List.filterMap_cons]
  cases Update.decode? line <;> rfl

/-- Lines that are text are taken in by the fold of what waits and of their updates, at every
pace: what is dealt with after a line and what is left are one after the other what waited. -/
theorem effect_takeIn (pace : Pace) (texts : List String) (read : Nat) (waiting : List Update)
    (world : σ) :
    (takeIn r start pace read waiting (texts.map Key.bytes)).effect world =
      (some (texts.map Line.ofText),
        (waiting ++ texts.filterMap Update.decode?).foldl (dealtWith r start) world) := by
  induction texts generalizing read waiting world with
  | nil =>
    rw [List.filterMap_nil, List.append_nil, List.map_nil, takeIn]
    simp only [Act.effect_bind, effect_dispatchAll]
    rfl
  | cons line texts ih =>
    rw [List.map_cons, takeIn, textOfBytes?_bytes]
    simp only [Act.effect_bind, effect_logLine, effect_dispatchAll, update?_ofText, ih,
      ← List.foldl_append, take_append_drop_waiting]
    rfl

/-- A line that is not text ends the loop with nothing. Of the updates that waited and of those
before it, some first ones have been dealt with by then, and what comes after it plays no part. -/
theorem exists_effect_takeIn (pace : Pace) (front : List String) {foreign : List UInt8}
    (hforeign : textOfBytes? foreign = none) (read : Nat) (waiting : List Update) (world : σ) :
    ∃ us, us <+: waiting ++ front.filterMap Update.decode? ∧ ∀ rest,
      (takeIn r start pace read waiting (front.map Key.bytes ++ foreign :: rest)).effect world =
        (none, us.foldl (dealtWith r start) world) := by
  induction front generalizing read waiting world with
  | nil =>
    refine ⟨[], List.nil_prefix, fun rest => ?_⟩
    rw [List.map_nil, List.nil_append, takeIn, hforeign]
    rfl
  | cons line front ih =>
    obtain ⟨us, hus, hrest⟩ := ih (read + 1)
      ((waiting ++ (Update.decode? line).toList).drop (pace read))
      (((waiting ++ (Update.decode? line).toList).take (pace read)).foldl (dealtWith r start) world)
    refine ⟨(waiting ++ (Update.decode? line).toList).take (pace read) ++ us, ?_, fun rest => ?_⟩
    · rw [← take_append_drop_waiting (pace read)]
      exact (List.prefix_append_right_inj _).2 hus
    · rw [List.map_cons, List.cons_append, takeIn, textOfBytes?_bytes]
      simp only [Act.effect_bind, effect_logLine, effect_dispatchAll, update?_ofText, hrest,
        ← List.foldl_append]
      rfl

/-- Serving an input whose lines are texts folds its updates, at every pace. -/
theorem effect_serve {input : List UInt8} {texts : List String}
    (h : lines input = texts.map Key.bytes) (pace : Pace) (world : σ) :
    (serve r start input pace).effect world =
      (some (statsOf (texts.map Line.ofText)),
        (texts.filterMap Update.decode?).foldl (dealtWith r start) world) := by
  rw [serve, Act.effect_bind, h, effect_takeIn]
  rfl

/-- Where texts in UTF-8 stand between the line ends of an input, they have the updates and the
counts of its lines. What stands after the last line end may be no line, but it says nothing
then. -/
theorem exists_texts {input : List UInt8} {between : List String}
    (h : input.splitOn lineEnd = between.map Key.bytes) :
    ∃ texts : List String, lines input = texts.map Key.bytes ∧
      statsOf (texts.map Line.ofText) = statsOf (between.map Line.ofText) ∧
      texts.filterMap Update.decode? = between.filterMap Update.decode? := by
  obtain ⟨texts, blank, rfl, hblank, hlines⟩ := exists_lines_eq h
  refine ⟨texts, hlines, ?_⟩
  rcases hblank with rfl | rfl
  · rw [List.append_nil]
    exact ⟨rfl, rfl⟩
  · have hline : Line.ofText "" = .blank := by decide
    have hnothing : Update.decode? "" = none := by decide
    simp [statsOf, hline, hnothing, Line.update?]

theorem effect_serve_between {input : List UInt8} {between : List String}
    (h : input.splitOn lineEnd = between.map Key.bytes) (pace : Pace) (world : σ) :
    (serve r start input pace).effect world =
      (some (statsOf (between.map Line.ofText)),
        (between.filterMap Update.decode?).foldl (dealtWith r start) world) := by
  obtain ⟨texts, hlines, hstats, hupdates⟩ := exists_texts h
  rw [effect_serve r start hlines, hstats, hupdates]

/-- The updates of a text, in order. -/
def updatesOf (text : String) : List Update := (textLines text).filterMap Update.decode?

/-- A text is served by the fold of its updates. -/
theorem effect_serve_text (pace : Pace) (text : String) (world : σ) :
    (serve r start (Key.bytes text) pace).effect world =
      (some (statsOf ((textLines text).map Line.ofText)),
        (updatesOf text).foldl (dealtWith r start) world) :=
  effect_serve_between r start (splitOn_bytes text) pace world

theorem updates_statsOf (texts : List String) :
    (statsOf (texts.map Line.ofText)).updates =
      texts.countP fun line => (Update.decode? line).isSome := by
  rw [statsOf, List.length_filterMap_eq_countP, List.countP_map]
  refine List.countP_congr fun line _ => ?_
  rw [Function.comp_apply, update?_ofText]

theorem skipped_statsOf (texts : List String) :
    (statsOf (texts.map Line.ofText)).skipped =
      texts.countP fun line => (Update.decode? line).isNone && !Text.isBlankText line := by
  rw [statsOf, List.count, List.countP_map]
  refine List.countP_congr fun line _ => ?_
  rw [Function.comp_apply, beq_iff_eq, ofText_eq_malformed_iff, Bool.and_eq_true,
    Option.isNone_iff_eq_none, Bool.not_eq_true']

/-- Every line that is not blank is counted once. -/
theorem countP_not_isBlankText (texts : List String) :
    (texts.countP fun line => (Update.decode? line).isSome) +
        (texts.countP fun line => (Update.decode? line).isNone && !Text.isBlankText line) =
      texts.countP fun line => !Text.isBlankText line := by
  induction texts with
  | nil => rfl
  | cons line texts ih =>
    simp only [List.countP_cons]
    cases hline : Update.decode? line with
    | some u =>
      have hblank := Update.isBlankText_of_decode? hline
      simp only [Option.isSome_some, Option.isNone_some, hblank, Bool.false_and, Bool.not_false,
        if_true, Bool.false_eq_true, if_false]
      omega
    | none =>
      simp only [Option.isSome_none, Option.isNone_none, Bool.true_and, Bool.false_eq_true,
        if_false]
      omega

/-! ## Line by line -/

/-- What the lines of an input do one after the other, with the calls of each line. A line that is
no update does nothing. -/
inductive Takes : σ → List String → List (List Call) → σ → Prop where
  | done {world : σ} : Takes world [] [] world
  | other {world after : σ} {line : String} {texts : List String} {made : List (List Call)}
      (hline : Update.decode? line = none) (hrest : Takes world texts made after) :
      Takes world (line :: texts) ([] :: made) after
  | update {world after : σ} {line : String} {texts : List String} {made : List (List Call)}
      {u : Update} {calls : List Call} (hline : Update.decode? line = some u)
      (hcalls : journal (dealtWith r start world u) = journal world ++ calls)
      (hrest : Takes (dealtWith r start world u) texts made after) :
      Takes world (line :: texts) (calls :: made) after

variable {r journal}

/-- Whatever an update does, it adds calls to the journal and takes none away. -/
theorem exists_calls_dealtWith (hjournal : r.Journals journal) (u : Update) (world : σ) :
    ∃ calls, journal (dealtWith r start world u) = journal world ++ calls := by
  have hdispatch : (dispatch r start u).Does (fun _ => True) journal fun _ _ => True := by
    cases u with
    | message chat text =>
      have hanswer := Router.does_onMessage hjournal.transport start chat text
      exact does_dispatch_message (hanswer.mono fun _ _ _ => trivial)
    | click id chat shown data =>
      refine does_dispatch_click (Router.does_onUpdate (fun _ _ => trivial) fun c language _ => ?_)
      have hhandler : (r.runHandler (.click id chat shown data) c language).Does (fun _ => True)
          journal fun _ _ => True :=
        Router.does_runHandler (fun _ => trivial) fun handler hget => hjournal.handlers _ _ hget _ _
      exact (Router.does_route hjournal.transport hhandler).mono fun _ _ _ => trivial
  obtain ⟨-, calls, -, hcalls⟩ := hdispatch world trivial
  rw [effect_dispatch] at hcalls
  exact ⟨calls, hcalls⟩

/-- Lines are taken one after the other to where the fold over their updates leads. -/
theorem exists_takes (hjournal : r.Journals journal) (texts : List String) (world : σ) :
    ∃ made, Takes r start journal world texts made
        ((texts.filterMap Update.decode?).foldl (dealtWith r start) world) ∧
      journal ((texts.filterMap Update.decode?).foldl (dealtWith r start) world) =
        journal world ++ made.flatten := by
  induction texts generalizing world with
  | nil => exact ⟨[], .done, (List.append_nil _).symm⟩
  | cons line texts ih =>
    cases hline : Update.decode? line with
    | none =>
      obtain ⟨made, htakes, hmade⟩ := ih world
      rw [List.filterMap_cons_none hline]
      exact ⟨[] :: made, .other hline htakes, hmade⟩
    | some u =>
      obtain ⟨calls, hcalls⟩ := exists_calls_dealtWith start hjournal u world
      obtain ⟨made, htakes, hmade⟩ := ih (dealtWith r start world u)
      rw [List.filterMap_cons_some hline, List.foldl_cons]
      refine ⟨calls :: made, .update hline hcalls htakes, ?_⟩
      rw [hmade, hcalls, List.flatten_cons, List.append_assoc]

/-! ## Inputs that are cut -/

/-- The texts of an input that is cut after a line end are cut there. -/
theorem exists_texts_append {first rest : List UInt8} {texts : List String}
    (h : lines (first ++ lineEnd :: rest) = texts.map Key.bytes) :
    ∃ front back, texts = front ++ back ∧ lines (first ++ [lineEnd]) = front.map Key.bytes ∧
      lines rest = back.map Key.bytes := by
  rw [lines_append] at h
  obtain ⟨front, back, htexts, hfront, hback⟩ := List.map_eq_append_iff.1 h.symm
  exact ⟨front, back, htexts, hfront.symm, hback.symm⟩

variable (r journal)

/-- What it is to serve a text line by line, at every pace. The calls are those of its lines, one
after the other. Every line that is an update is counted once, and so is every other line that is
not blank; a carriage return at the end of a line does not matter. If the text is cut after a line
end, serving its two parts one after the other makes the same calls, ends in the same world and
counts the same lines. -/
structure ServesLines (text : String) (world : σ) (stats : Stats) (made : List (List Call))
    (after : σ) : Prop where
  served : ∀ pace, (serve r start (Key.bytes text) pace).effect world = (some stats, after)
  taken : Takes r start journal world (textLines text) made after
  calls : journal after = journal world ++ made.flatten
  updates : stats.updates = (textLines text).countP fun line => (Update.decode? line).isSome
  skipped : stats.skipped = (textLines text).countP fun line =>
    (Update.decode? line).isNone && !Text.isBlankText line
  total : stats.updates + stats.skipped = (textLines text).countP fun line =>
    !Text.isBlankText line
  returns : ∀ line, Update.decode? (line ++ "\r") = Update.decode? line ∧
    Text.isBlankText (line ++ "\r") = Text.isBlankText line
  parts : ∀ first rest, Key.bytes text = first ++ lineEnd :: rest →
    ∃ stats₁ stats₂ middle calls₁ calls₂,
      (∀ pace, (serve r start (first ++ [lineEnd]) pace).effect world = (some stats₁, middle)) ∧
      (∀ pace, (serve r start rest pace).effect middle = (some stats₂, after)) ∧
      journal middle = journal world ++ calls₁ ∧ journal after = journal middle ++ calls₂ ∧
      made.flatten = calls₁ ++ calls₂ ∧
      stats.updates = stats₁.updates + stats₂.updates ∧
      stats.skipped = stats₁.skipped + stats₂.skipped

variable {r journal}

/-- Every text is served line by line, whatever the transport does and whatever the handlers do
that add their calls to the journal. -/
theorem serves_line_by_line (hjournal : r.Journals journal) (start : StartSettings)
    (text : String) (world : σ) :
    ∃ stats made after, ServesLines r start journal text world stats made after := by
  obtain ⟨made, htakes, hmade⟩ := exists_takes start hjournal (textLines text) world
  rw [← updatesOf] at htakes hmade
  refine ⟨_, made, _, fun pace => effect_serve_text r start pace text world, htakes, hmade,
    updates_statsOf _, skipped_statsOf _, ?_, ?_, ?_⟩
  · rw [updates_statsOf, skipped_statsOf, countP_not_isBlankText]
  · exact fun line => ⟨Update.decode?_append_return line, isBlankText_append_return line⟩
  · intro first rest hcut
    obtain ⟨texts, htexts, hstats, hupdates⟩ := exists_texts (splitOn_bytes text)
    rw [hcut] at htexts
    obtain ⟨front, back, rfl, hfront, hback⟩ := exists_texts_append htexts
    have hafter : (updatesOf text).foldl (dealtWith r start) world =
        (back.filterMap Update.decode?).foldl (dealtWith r start)
          ((front.filterMap Update.decode?).foldl (dealtWith r start) world) := by
      rw [updatesOf, ← hupdates, List.filterMap_append, List.foldl_append]
    obtain ⟨made₁, -, hmade₁⟩ := exists_takes start hjournal front world
    obtain ⟨made₂, -, hmade₂⟩ := exists_takes start hjournal back
      ((front.filterMap Update.decode?).foldl (dealtWith r start) world)
    rw [hafter] at hmade ⊢
    have hall : journal world ++ made.flatten =
        journal world ++ (made₁.flatten ++ made₂.flatten) := by
      rw [← hmade, hmade₂, hmade₁, List.append_assoc]
    refine ⟨_, _, _, made₁.flatten, made₂.flatten,
      fun pace => effect_serve r start hfront pace world,
      fun pace => effect_serve r start hback pace _, hmade₁, hmade₂,
      List.append_cancel_left hall, ?_, ?_⟩
    · rw [← hstats]
      simp only [updates_statsOf, List.countP_append]
    · rw [← hstats]
      simp only [skipped_statsOf, List.countP_append]

/-- An input of all kinds of lines: messages, a click, one that is no update and one that is blank,
with and without carriage returns, the last one without a line end. -/
def mixedText : String :=
  "[\"message\",7,\"/start\"]\r\nnot an update\n \r\n[\"callback_query\",\"id\",7,9]\n" ++
    "[\"message\",8,\"/start_en\"]"

/-- A router with a handler from the settings. -/
def replying : Router Recorder :=
  .ofRows Recorder.transport Document.twoStages.graph
    [⟨"1", "1", "1", .reply, some "There we go", false⟩]

theorem serves_mixedText :
    replying.Journals Recorder.calls ∧ ∃ stats made after,
      ServesLines replying .standard Recorder.calls mixedText ⟨[], 0, some "offline"⟩ stats made
        after ∧ stats.updates = 3 ∧ stats.skipped = 1 := by
  have htransport : replying.transport.Journals (fun _ => True) Recorder.calls := by
    rw [replying, Router.transport_ofRows]
    exact Recorder.journals
  have hjournal : replying.Journals Recorder.calls :=
    (Router.fromRows_ofRows _ _ _).journals htransport
  obtain ⟨stats, made, after, h⟩ :=
    serves_line_by_line hjournal .standard mixedText ⟨[], 0, some "offline"⟩
  have hcounts : ((textLines mixedText).countP fun line => (Update.decode? line).isSome) = 3 ∧
      ((textLines mixedText).countP fun line =>
        (Update.decode? line).isNone && !Text.isBlankText line) = 1 := by decide +kernel
  exact ⟨hjournal, stats, made, after, h, h.updates.trans hcounts.1, h.skipped.trans hcounts.2⟩

/-! ## Inputs that are not text -/

/-- What becomes of an input, whatever its bytes are and at every pace. If what stands between its
line ends is text everywhere, every line that is an update is dealt with and counted, every other
line that is not blank is counted too, and the counts are given at the end. If a line is not text,
there are no counts, and nothing that is left depends on the lines after it: none of them is dealt
with. -/
theorem counts_only_text (r : Router σ) (start : StartSettings) (pace : Pace) (world : σ) :
    (∀ (input : List UInt8) (texts : List String), input.splitOn 10 = texts.map Key.bytes →
      ∃ stats, (serve r start input pace).effect world =
          (some stats, (texts.filterMap Update.decode?).foldl (dealtWith r start) world) ∧
        stats.updates = (texts.countP fun line => (Update.decode? line).isSome) ∧
        stats.skipped = texts.countP fun line =>
          (Update.decode? line).isNone && !Text.isBlankText line) ∧
    ∀ (front : List String) (foreign : List UInt8), (¬ ∃ text, foreign = Key.bytes text) →
      ∃ left, ∀ input rest, input.splitOn 10 = front.map Key.bytes ++ foreign :: rest →
        (serve r start input pace).effect world = (none, left) := by
  refine ⟨fun input texts htexts => ?_, fun front foreign hforeign => ?_⟩
  · exact ⟨_, effect_serve_between r start htexts pace world, updates_statsOf texts,
      skipped_statsOf texts⟩
  · have hnone : textOfBytes? foreign = none :=
      Option.eq_none_iff_forall_ne_some.2 fun text htext =>
        hforeign ⟨text, textOfBytes?_eq_some_iff.1 htext⟩
    obtain ⟨us, -, hends⟩ := exists_effect_takeIn r start pace front hnone 0 [] world
    refine ⟨us.foldl (dealtWith r start) world, fun input rest hinput => ?_⟩
    obtain ⟨rest', hlines⟩ := exists_lines_eq_of_foreign hnone hinput
    rw [serve, Act.effect_bind, hlines, hends]
    rfl

/-- One byte that is no text, on a line before an update. -/
def foreignInput : List UInt8 := 255 :: lineEnd :: Key.bytes (Update.message 7 "/start").encode

/-- The line that is not text takes the update after it along, at every pace. -/
theorem stops_at_foreign_line :
    foreignInput.splitOn 10 = [[255], Key.bytes (Update.message 7 "/start").encode] ∧
      Update.decode? (Update.message 7 "/start").encode = some (.message 7 "/start") ∧
      ∀ pace world,
        (serve Router.twoStages .standard foreignInput pace).effect world = (none, world) := by
  have hlines : lines foreignInput = [[255], Key.bytes (Update.message 7 "/start").encode] := by
    decide +kernel
  refine ⟨by decide +kernel, by decide +kernel, fun pace world => ?_⟩
  have hforeign : textOfBytes? [255] = none := by decide +kernel
  rw [serve, Act.effect_bind, hlines, takeIn, hforeign]
  rfl

end Serve

end ButtonDialog
