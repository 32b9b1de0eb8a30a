import ButtonDialog.Proofs.Routing.Gating
import ButtonDialog.Proofs.Routing.Registration
import ButtonDialog.Proofs.Serving.Journals

/-! Handler tables: from the rows to the clicks.

    A table without a bad row makes as many calls for handlers as it has rows, so each choice has
    the handler of the last row for it. The first bad row ends the work with its error, and the
    router is the one that the rows before it give. On a click the row has its say first, and what
    is left of the click is what it would be without a handler, unless the row asks to stay. -/

namespace ButtonDialog

/-! ## Rows -/

namespace HandlerRow

/-- The texts that a row gives as the ids of its choice. -/
def ids (row : HandlerRow) : List String := [row.procedure, row.stage, row.choice]

/-- What a row does, complete or not. -/
def does (row : HandlerRow) : RowAction := ⟨row.action, row.text.getD "", row.stay⟩

/-- The call for the handler of a row. -/
def registration {σ : Type} (row : HandlerRow) : Registration σ :=
  ⟨row.procedure, row.stage, row.choice, row.does.handler⟩

/-- A reply needs a text. -/
def Wordless (row : HandlerRow) : Prop := row.action = .reply ∧ row.text = none

instance (row : HandlerRow) : Decidable row.Wordless := inferInstanceAs (Decidable (_ ∧ _))

/-- What is wrong with a row, if anything: it is a reply without a text, or else it is for no choice
of the graph. -/
def error? (g : Graph) (row : HandlerRow) : Option ServiceError :=
  if row.Wordless then some (.replyWithoutText row.procedure row.stage row.choice)
  else if row.ids ∈ g.choiceIds then none
  else some (.router (.choiceNotFound row.procedure row.stage row.choice))

/-- The last of the rows for these ids. -/
def last? (rows : List HandlerRow) (ids : List String) : Option HandlerRow :=
  (rows.filter fun row => row.ids == ids).getLast?

theorem complete_of_wordless {row : HandlerRow} (h : row.Wordless) :
    row.complete = .error (.replyWithoutText row.procedure row.stage row.choice) := by
  obtain ⟨haction, htext⟩ := h
  rw [complete, haction, htext]

theorem complete_of_not_wordless {row : HandlerRow} (h : ¬ row.Wordless) :
    row.complete = .ok row.does := by
  obtain ⟨procedure, stage, choice, action, text, stay⟩ := row
  cases action with
  | log => rfl
  | reply =>
    cases text with
    | none => exact absurd ⟨rfl, rfl⟩ h
    | some text => rfl

variable {σ : Type}

theorem key_registration (row : HandlerRow) : (row.registration : Registration σ).key =
    Key.choice row.procedure row.stage row.choice := rfl

/-- The last call for ids is that of the last row for them. -/
theorem last?_registrations (rows : List HandlerRow) (ids : List String) :
    Registration.last? (rows.map (registration (σ := σ))) ids =
      (last? rows ids).map registration := by
  rw [Registration.last?, last?, List.filter_map, List.getLast?_map]
  rfl

theorem last?_eq_none_iff {rows : List HandlerRow} {ids : List String} :
    last? rows ids = none ↔ ∀ row ∈ rows, row.ids ≠ ids := by
  rw [last?, List.getLast?_eq_none_iff, List.filter_eq_nil_iff]
  simp

/-- The key of the row leads to a choice exactly if its ids are those of one. -/
def Told (g : Graph) (row : HandlerRow) : Prop :=
  (g.choiceOfKey? (Key.choice row.procedure row.stage row.choice)).isSome ↔ row.ids ∈ g.choiceIds

end HandlerRow

namespace Router

variable {σ : Type} {r : Router σ} {row : HandlerRow} {rows : List HandlerRow}

/-! ## Registering rows -/

theorem registerRow_of_error {e : ServiceError} (htold : row.Told r.graph)
    (h : row.error? r.graph = some e) : r.registerRow row = .error e := by
  unfold HandlerRow.error? at h
  split at h
  · rename_i hwordless
    rw [registerRow, HandlerRow.complete_of_wordless hwordless]
    exact congrArg Except.error (Option.some.inj h)
  · rename_i hcomplete
    split at h
    · cases h
    · rename_i hids
      cases h
      have hrefused : r.register row.procedure row.stage row.choice row.does.handler = .error _ :=
        @register_eq_error _ r row.registration (mt htold.1 hids)
      rw [registerRow, HandlerRow.complete_of_not_wordless hcomplete]
      exact congrArg (Except.mapError ServiceError.router) hrefused

theorem registerRow_of_sound (htold : row.Told r.graph) (h : row.error? r.graph = none) :
    ∃ record, r.registerRow row = .ok (r.attempt row.registration, record) := by
  unfold HandlerRow.error? at h
  split at h
  · cases h
  · rename_i hcomplete
    split at h
    · rename_i hids
      have hfound := htold.2 hids
      have haccepted := @register_eq_ok _ r row.registration hfound
      refine ⟨registerRecord row.procedure row.stage row.choice
        (r.handlers.contains (Key.choice row.procedure row.stage row.choice)), ?_⟩
      rw [registerRow, HandlerRow.complete_of_not_wordless hcomplete,
        @attempt_of_isSome _ r row.registration hfound]
      exact congrArg (Except.mapError ServiceError.router) haccepted
    · cases h

/-- Sound rows make their calls, and what follows goes on from there. -/
theorem registerRows_append (htold : ∀ row ∈ rows, row.Told r.graph)
    (hsound : ∀ row ∈ rows, row.error? r.graph = none) (after : List HandlerRow) :
    ∃ records, r.registerRows (rows ++ after) =
      let rest := (r.attempts (rows.map HandlerRow.registration)).registerRows after
      (rest.1, records ++ rest.2.1, rest.2.2) := by
  induction rows generalizing r with
  | nil => exact ⟨[], rfl⟩
  | cons row rows ih =>
    rw [List.forall_mem_cons] at htold hsound
    obtain ⟨record, hrow⟩ := registerRow_of_sound htold.1 hsound.1
    have hgraph : (r.attempt (row.registration : Registration σ)).graph = r.graph :=
      graph_attempt _ _
    obtain ⟨records, hrows⟩ := ih (r := r.attempt row.registration)
      (by rw [hgraph]; exact htold.2) (by rw [hgraph]; exact hsound.2)
    refine ⟨record :: records, ?_⟩
    rw [List.cons_append, registerRows, hrow]
    simp only [hrows]
    rfl

theorem applyTable_fst (r : Router σ) (rows : List HandlerRow) :
    (r.applyTable rows).1 = (r.registerRows rows).1 := by
  unfold applyTable
  rcases r.registerRows rows with ⟨registered, records, e | _⟩
  · rfl
  · rfl

theorem transport_applyTable (transport : Transport σ) (g : Graph) (rows : List HandlerRow) :
    ((new transport g).applyTable rows).1.transport = transport := by
  rw [applyTable_fst]
  exact transport_ofRows transport g rows

/-- A table of sound rows is applied as a whole. -/
theorem applyTable_of_sound (htold : ∀ row ∈ rows, row.Told r.graph)
    (hsound : ∀ row ∈ rows, row.error? r.graph = none) :
    (r.applyTable rows).1 = r.attempts (rows.map HandlerRow.registration) ∧
      (r.applyTable rows).2.2 = .ok rows.length := by
  obtain ⟨records, hrows⟩ := registerRows_append htold hsound []
  rw [List.append_nil] at hrows
  rw [applyTable, hrows]
  exact ⟨rfl, rfl⟩

/-- The first bad row ends the work, and the rows before it stay. -/
theorem applyTable_of_error {before after : List HandlerRow} {e : ServiceError}
    (htold : ∀ other ∈ before ++ row :: after, other.Told r.graph)
    (hsound : ∀ other ∈ before, other.error? r.graph = none) (h : row.error? r.graph = some e) :
    (r.applyTable (before ++ row :: after)).1 = (r.applyTable before).1 ∧
      (r.applyTable (before ++ row :: after)).2.2 = .error e := by
  have hbefore : ∀ other ∈ before, other.Told r.graph :=
    fun other hother => htold other (List.mem_append_left _ hother)
  have hrow : (r.attempts (before.map HandlerRow.registration)).registerRow row = .error e := by
    refine registerRow_of_error ?_ (by rwa [graph_attempts])
    rw [graph_attempts]
    exact htold row (List.mem_append_right _ List.mem_cons_self)
  obtain ⟨records, hrows⟩ := registerRows_append hbefore hsound (row :: after)
  rw [(applyTable_of_sound hbefore hsound).1, applyTable, hrows, registerRows, hrow]
  exact ⟨rfl, rfl⟩

end Router

/-! ## What a row says on a click -/

section Clicks

variable {σ : Type}

/-- What a row has to say on a click: a reply sends its text to the chat, as plain text without
buttons, and a log row sends nothing. -/
def RowAction.said (a : RowAction) (t : Transport σ) (u : Update) (world : σ) :
    Except TransportError Unit × σ :=
  match a.action with
  | .log => (.ok (), world)
  | .reply =>
    let sent := (t.send u.chat ⟨a.text, .plain, none⟩).effect world
    (sent.1.map fun _ => (), sent.2)

/-- The handler of a row says what the row has to say, and then gives its verdict. -/
theorem RowAction.effect_handler (a : RowAction) (t : Transport σ) (u : Update) (click : Click)
    (world : σ) :
    (a.handler t u click).effect world =
      (((a.said t u world).1.mapError .transport).map fun _ => a.verdict,
        (a.said t u world).2) := by
  unfold handler said
  cases a.action with
  | log => rfl
  | reply =>
    simp only [Act.effect_bind, Content.plain]
    rcases (t.send u.chat ⟨a.text, .plain, none⟩).effect world with ⟨e | m, left⟩ <;> rfl

/-- What a row says is in the journal. -/
theorem RowAction.journal_said {t : Transport σ} {Ready : σ → Prop} {journal : σ → List Call}
    (h : t.Journals Ready journal) (a : RowAction) (u : Update) {world : σ} (hready : Ready world) :
    Ready (a.said t u world).2 ∧ journal (a.said t u world).2 = journal world ++ a.calls u := by
  obtain ⟨hleft, calls, rfl, hjournal⟩ := a.does_handler h u ⟨"", "", "", ""⟩ world hready
  rw [a.effect_handler] at hleft hjournal
  exact ⟨hleft, hjournal⟩

namespace Router

/-- Every journal of the calls of the transport has these more once the update is dealt with. -/
def Makes (r : Router σ) (u : Update) (world : σ) (calls : List Call) : Prop :=
  ∀ (Ready : σ → Prop) (journal : σ → List Call), r.transport.Journals Ready journal →
    Ready world → journal ((r.onUpdate u).effect world).2 = journal world ++ calls

/-- A click is dealt with as a row says. First the row has its say, and nothing is called before. If
that fails, so does routing, and there is no edit. If it does not and the row asks to stay, or no
edit is due even so, the click is handled without an edit. Otherwise there is the edit that is due,
and routing ends as the edit does. -/
structure Heeds (r : Router σ) (a : RowAction) (u : Update) (c : Graph.Choice) (language : String)
    (world : σ) : Prop where
  fails : ∀ e left, a.said r.transport u world = (.error e, left) →
    (r.onUpdate u).effect world = (.error (.handler (.transport e)), left) ∧
      r.Makes u world (a.calls u)
  halts : ∀ left, a.said r.transport u world = (.ok (), left) →
    (a.stay = true ∨ ∀ target next page, ¬ r.Due u c language .proceed target next page) →
      (r.onUpdate u).effect world = (.ok (.handled true), left) ∧ r.Makes u world (a.calls u)
  moves : ∀ left target next page, a.said r.transport u world = (.ok (), left) →
    a.stay = false → r.Due u c language .proceed target next page →
      let shown : Content := ⟨page.text, page.mode, page.layout⟩
      (r.onUpdate u).effect world =
        (match (r.transport.edit target shown).effect left with
        | (.error e, after) => (.error (.transport e), after)
        | (.ok (), after) => (.ok (.transitioned c.procedure next), after)) ∧
      r.Makes u world (a.calls u ++ [.edit target shown])

variable {r : Router σ} {a : RowAction} {u : Update} {c : Graph.Choice} {language : String}
  {world : σ}

theorem due_verdict_iff {target : MessageRef} {next : String} {page : Rendered} :
    r.Due u c language a.verdict target next page ↔
      a.stay = false ∧ r.Due u c language .proceed target next page := by
  rw [RowAction.verdict]
  cases a.stay with
  | true => exact iff_of_false (fun h => nomatch h.proceeds) (fun h => nomatch h.1)
  | false => exact (and_iff_right rfl).symm

/-- Where the message stays as it is, the calls are those of the row. -/
theorem makes_said {result : Except RouterError Outcome}
    (h : (r.onUpdate u).effect world = (result, (a.said r.transport u world).2)) :
    r.Makes u world (a.calls u) := by
  intro Ready journal hjournal hready
  rw [h]
  exact (a.journal_said hjournal u hready).2

/-- A choice with the handler of a row heeds the row. -/
theorem heeds_of_get? (hresolve : r.resolve u = .ok (c, language))
    (hget : r.handlers.get? c.key = some a.handler) (world : σ) : r.Heeds a u c language world := by
  have hrun : (r.runHandler u c language).effect world =
      (((a.said r.transport u world).1.mapError .transport).map fun _ => a.verdict,
        (a.said r.transport u world).2) := by
    rw [← a.effect_handler r.transport u (click c language) world]
    simp only [runHandler, hget, Act.effect_bind]
    rcases (a.handler r.transport u (click c language)).effect world with ⟨e | verdict, left⟩
    · rfl
    · rfl
  refine ⟨fun e left hsaid => ?_, fun left hsaid hstays => ?_,
    fun left target next page hsaid hstay hdue => ?_⟩
  · rw [hsaid] at hrun
    have heffect := (effect_onUpdate hresolve world).trans (effect_route_of_error hrun)
    exact ⟨heffect, makes_said (by rw [heffect, hsaid])⟩
  · rw [hsaid] at hrun
    have hdue : ∀ target next page, ¬ r.Due u c language a.verdict target next page := by
      intro target next page hdue
      obtain ⟨hstay, hproceeds⟩ := due_verdict_iff.1 hdue
      rcases hstays with hstays | hnot
      · exact absurd hstays (by rw [hstay]; exact Bool.false_ne_true)
      · exact hnot target next page hproceeds
    obtain ⟨halt, hhalt⟩ := halt_of_not_due hdue
    have hcontains : r.handlers.contains c.key = true := by
      rw [NameTable.contains, hget, Option.isSome_some]
    have heffect := (effect_onUpdate hresolve world).trans (effect_route_of_halt hrun hhalt)
    rw [hcontains] at heffect
    exact ⟨heffect, makes_said (by rw [heffect, hsaid])⟩
  · have hdestination := destination_eq_ok_iff.2 (due_verdict_iff.2 ⟨hstay, hdue⟩)
    have hleft : left = (a.said r.transport u world).2 := by rw [hsaid]
    rw [hsaid] at hrun
    have heffect := (effect_onUpdate hresolve world).trans
      (effect_route_of_destination hrun hdestination)
    rw [Rendered.content] at heffect
    refine ⟨heffect, fun Ready journal hjournal hready => ?_⟩
    obtain ⟨hready', hmade⟩ := a.journal_said hjournal u hready
    rw [← hleft] at hready' hmade
    obtain ⟨-, calls, rfl, hedit⟩ :=
      hjournal.edit target ⟨page.text, page.mode, page.layout⟩ left hready'
    rw [heffect, ← List.append_assoc, ← hmade, ← hedit]
    rcases (r.transport.edit target ⟨page.text, page.mode, page.layout⟩).effect left with
      ⟨e | ⟨⟩, after⟩ <;> rfl

/-! ## What a table comes to -/

/-- The digest tells apart the joined ids of the choices and those that the rows give. -/
def ApartFromRows (g : Graph) (rows : List HandlerRow) : Prop :=
  Sha256.Apart ((g.choiceIds ++ rows.map HandlerRow.ids).map Key.joined)

instance (g : Graph) (rows : List HandlerRow) : Decidable (ApartFromRows g rows) :=
  inferInstanceAs (Decidable (Sha256.Apart _))

/-- What a table comes to, where there were no handlers. If no row is bad, the result is their
number, the choices that no row is for have no handler, and a click on any other heeds the last row
for it. The first row that is bad gives its error instead, and the router is the one that the table
of the rows before it gives. -/
structure Applies (transport : Transport σ) (g : Graph) (rows : List HandlerRow) : Prop where
  counts : (∀ row ∈ rows, row.error? g = none) →
    ((new transport g).applyTable rows).2.2 = .ok rows.length
  unnamed : (∀ row ∈ rows, row.error? g = none) → ∀ c ∈ g.choices,
    (∀ row ∈ rows, row.ids ≠ c.ids) →
      ((new transport g).applyTable rows).1.handlers.get? c.key = none
  heeds : (∀ row ∈ rows, row.error? g = none) → ∀ u c language,
    ((new transport g).applyTable rows).1.resolve u = .ok (c, language) →
      ∀ row, HandlerRow.last? rows c.ids = some row →
        ∀ world, ((new transport g).applyTable rows).1.Heeds row.does u c language world
  stops : ∀ before row after e, rows = before ++ row :: after →
    (∀ other ∈ before, other.error? g = none) → row.error? g = some e →
      ((new transport g).applyTable rows).2.2 = .error e ∧
        ((new transport g).applyTable rows).1 = ((new transport g).applyTable before).1

variable {d : Document} {rows : List HandlerRow}

theorem apartFrom_registrations (h : ApartFromRows d.graph rows) :
    d.graph.ApartFrom (rows.map (HandlerRow.registration (σ := σ))) := by
  rw [Graph.ApartFrom, List.map_map]
  exact h

theorem told_of_mem (hg : d.graph.Indexed) (hapart : ApartFromRows d.graph rows)
    {row : HandlerRow} (hrow : row ∈ rows) : row.Told d.graph := by
  have hcalls : d.graph.ApartFrom (rows.map (HandlerRow.registration (σ := Unit))) :=
    apartFrom_registrations hapart
  have htold := isSome_choiceOfKey?_iff hg hcalls (List.mem_map_of_mem hrow)
  rw [HandlerRow.key_registration] at htold
  exact htold

/-- A choice has the handler of the last call for its ids, and of no other. -/
theorem get?_attempts_choice {calls : List (Registration σ)} (hg : d.graph.Indexed)
    (hapart : d.graph.ApartFrom calls) (transport : Transport σ) {c : Graph.Choice}
    (hc : c ∈ d.graph.choices) :
    ((new transport d.graph).attempts calls).handlers.get? c.key =
      (Registration.last? calls c.ids).map Registration.handler := by
  have hrun := handlerRun_attempts hg hapart transport hc ""
  rw [handlerRun] at hrun
  cases hget : ((new transport d.graph).attempts calls).handlers.get? c.key <;>
    cases hlast : Registration.last? calls c.ids <;> simp_all

/-- From the rows of a table to what becomes of every click. -/
theorem applies_every_table {g : Graph} (hcompile : Graph.compile d = .ok g)
    (transport : Transport σ) (rows : List HandlerRow) (hapart : ApartFromRows g rows) :
    Applies transport g rows := by
  obtain ⟨hcompilable, rfl⟩ := Graph.compile_eq_ok_iff.1 hcompile
  have hg := hcompilable.indexed
  have htold : ∀ row ∈ rows, row.Told (new transport d.graph).graph :=
    fun row hrow => told_of_mem hg hapart hrow
  have hget : ∀ c ∈ d.graph.choices,
      ((new transport d.graph).attempts (rows.map HandlerRow.registration)).handlers.get? c.key =
        (HandlerRow.last? rows c.ids).map fun row => row.does.handler := by
    intro c hc
    rw [get?_attempts_choice hg (apartFrom_registrations hapart) transport hc,
      HandlerRow.last?_registrations, Option.map_map]
    rfl
  refine ⟨fun hsound => (applyTable_of_sound htold hsound).2, fun hsound c hc hunnamed => ?_,
    fun hsound u c language hresolve row hlast world => ?_, ?_⟩
  · rw [(applyTable_of_sound htold hsound).1, hget c hc, HandlerRow.last?_eq_none_iff.2 hunnamed]
    rfl
  · rw [(applyTable_of_sound htold hsound).1] at hresolve ⊢
    have hgraph : ((new transport d.graph).attempts (rows.map HandlerRow.registration)).graph =
        d.graph := graph_attempts _ _
    have hclicks := clicks_of_resolve (by rwa [hgraph]) hresolve
    rw [hgraph] at hclicks
    refine heeds_of_get? hresolve ?_ world
    rw [hget c hclicks.1, hlast]
    rfl
  · rintro before row after e rfl hsound herror
    exact (applyTable_of_error htold hsound herror).symm

/-- A choice with two rows and a way back with one. -/
def twoStagesRows : List HandlerRow :=
  [⟨"1", "1", "1", .log, none, false⟩, ⟨"1", "2", "ToPrevious", .reply, some "Back", false⟩,
    ⟨"1", "1", "1", .reply, some "Gone", true⟩]

/-- The rows are applied as a whole, and up to a reply without a text. A click on the choice with
two rows heeds the second: it sends the text and stays. -/
theorem applies_twoStagesRows :
    ((new Recorder.transport Document.twoStages.graph).applyTable twoStagesRows).2.2 = .ok 3 ∧
    ((((new Recorder.transport Document.twoStages.graph).applyTable twoStagesRows).1.onUpdate
      Document.goClick).effect .fresh) =
        (.ok (.handled true), ⟨[.send 7 ⟨"Gone", .plain, none⟩], 1, none⟩) ∧
    ((new Recorder.transport Document.twoStages.graph).applyTable
      (twoStagesRows ++ [⟨"1", "1", "one", .reply, none, false⟩])).2.2 =
        .error (.replyWithoutText "1" "1" "one") := by
  have hsound : ∀ row ∈ twoStagesRows, row.error? Document.twoStages.graph = none := by
    decide +kernel
  have happlies := applies_every_table Document.graph_twoStages Recorder.transport twoStagesRows
    (by decide +kernel)
  refine ⟨happlies.counts hsound, ?_, ?_⟩
  · have hresolve : ((new Recorder.transport Document.twoStages.graph).applyTable
        twoStagesRows).1.resolve Document.goClick = .ok (Document.goChoice, "en") :=
      Checks.toOption_eq_some_iff.1 (by decide +kernel)
    have hheeds := happlies.heeds hsound _ _ _ hresolve
      ⟨"1", "1", "1", .reply, some "Gone", true⟩ (by decide) .fresh
    refine (hheeds.halts _ ?_ (.inl rfl)).1
    rw [transport_applyTable]
    rfl
  · exact ((applies_every_table Document.graph_twoStages Recorder.transport _
      (by decide +kernel)).stops twoStagesRows _ [] _ rfl hsound (by decide +kernel)).1

end Router

end Clicks

end ButtonDialog
