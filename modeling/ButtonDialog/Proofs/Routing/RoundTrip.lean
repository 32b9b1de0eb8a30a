import ButtonDialog.Proofs.Compilation.Layouts
import ButtonDialog.Proofs.Compilation.Validated
import ButtonDialog.Proofs.Payloads
import ButtonDialog.Proofs.Routing.Clicks
import ButtonDialog.Transport.Recorder

/-! Every button leads back to its choice.

    The payload of a button names the choice that the button shows: keys are found in the tables of
    the graph, payloads are read as they were written, and the buttons of a layout stand in the
    order of the choices. The stage that a choice leads to is a stage of the same procedure, so it
    can be rendered. -/

namespace ButtonDialog

/-- The rows of choices of a stage that have any. -/
def Graph.grid (g : Graph) (s : Graph.Stage) : List (List Graph.Choice) :=
  Graph.shownRows (g.choiceRows s.rows)

/-- The rows of buttons that are shown; without a layout there are none. -/
def Rendered.buttonRows (page : Rendered) : List (List Button) :=
  (page.layout.map Layout.rows).getD []

namespace Document

variable {d : Document} {p : Procedure} {s : Stage}

/-- A button that is in use has a label in every language. -/
theorem Valid.contains_label_of_plan (h : d.Valid) (hp : p ∈ d.procedures) (hs : s ∈ p.stages)
    {plan : ChoicePlan} (hplan : plan ∈ (p.plans s).flatten) {language : String}
    (hl : language ∈ d.languages) : (d.label plan.button).contains language = true := by
  obtain ⟨b, hb⟩ := Option.isSome_iff_exists.1 (h.isSome_plan_button hp hs hplan)
  have hmem : b ∈ d.buttons := List.mem_reverse.1 (List.mem_of_find?_eq_some hb)
  rw [label, hb]
  exact h.contains_label hmem hl

theorem Valid.labelled_compiledRows (h : d.Valid) (hp : p ∈ d.procedures) (hs : s ∈ p.stages)
    {language : String} (hl : language ∈ d.languages) :
    Graph.Labelled (d.compiledRows p s) language := by
  intro row hrow c hc
  obtain ⟨plans, hplans, rfl⟩ := List.mem_map.1 hrow
  obtain ⟨plan, hplan, rfl⟩ := List.mem_map.1 hc
  exact h.contains_label_of_plan hp hs (List.mem_flatten.2 ⟨plans, hplans, hplan⟩) hl

/-- Every stage is shown in every language, with the layout of its choices. -/
theorem Valid.exists_render (h : d.Valid) (hg : d.graph.Indexed) (hp : p ∈ d.procedures)
    (hs : s ∈ p.stages) {first : Nat} (hstage : d.compiledStage p s first ∈ d.graph.stages)
    {language : String} (hl : language ∈ d.languages) :
    ∃ page, d.graph.render (decimal p.id) (decimal s.id) language = some page ∧
      page.stage = d.compiledStage p s first ∧
      page.layout = (Graph.layoutsOf (d.compiledRows p s)).get? language := by
  have hfound : d.graph.stage? (decimal p.id) (decimal s.id) = some (d.compiledStage p s first) :=
    hg.stageOfKey?_eq_some_iff.2 ⟨hstage, rfl⟩
  obtain ⟨text, htext⟩ := Option.isSome_iff_exists.1 (h.contains_text hp hs hl)
  have hrender : d.graph.render (decimal p.id) (decimal s.id) language =
      some ⟨d.compiledStage p s first, language, text, .plain,
        (Graph.layoutsOf (d.compiledRows p s)).get? language⟩ := by
    have htext' : (d.compiledStage p s first).text.get? language = some text := htext
    simp only [Graph.render, hfound, Option.bind_eq_bind, Option.bind_some, htext']
    rfl
  exact ⟨_, hrender, rfl, rfl⟩

/-- What stands in the grid of a stage is what a plan became. -/
theorem exists_plan_of_gridAt? {c : Graph.Choice} {i j : Nat}
    (hc : gridAt? (Graph.shownRows (d.compiledRows p s)) i j = some c) :
    ∃ plan ∈ (p.plans s).flatten, d.compiledChoice p s plan = c := by
  obtain ⟨row, hrow, hc⟩ := Option.bind_eq_some_iff.1 hc
  have hmem : row ∈ d.compiledRows p s := (List.mem_filter.1 (List.mem_of_getElem? hrow)).1
  obtain ⟨plans, hplans, rfl⟩ := List.mem_map.1 hmem
  obtain ⟨plan, hplan, rfl⟩ := List.mem_map.1 (List.mem_of_getElem? hc)
  exact ⟨plan, List.mem_flatten.2 ⟨plans, hplans, hplan⟩, rfl⟩

/-- The choice that a plan becomes is in the graph. -/
theorem compiledChoice_mem_graph (hp : p ∈ d.procedures) (hs : s ∈ p.stages) {plan : ChoicePlan}
    (hplan : plan ∈ (p.plans s).flatten) : d.compiledChoice p s plan ∈ d.graph.choices := by
  rw [← Array.mem_toList_iff, choices_graph, compiledChoices, List.mem_flatMap]
  refine ⟨(p, s), mem_staged_iff.2 ⟨hp, hs⟩, ?_⟩
  rw [Graph.flatten_compiledRows]
  exact List.mem_map_of_mem hplan

variable {σ : Type} {transport : Transport σ} {handlers : NameTable (Handler σ)}

/-- The payload of a choice in a language of the document is resolved to the choice. -/
theorem Valid.resolve_payload (h : d.Valid) (hg : d.graph.Indexed) (hp : p ∈ d.procedures)
    (hs : s ∈ p.stages) {plan : ChoicePlan} (hplan : plan ∈ (p.plans s).flatten)
    {language : String} (hl : language ∈ d.languages) {u : Update}
    (hu : u.payload? = some (Payload.mk (d.compiledChoice p s plan).key language).encode) :
    (Router.mk transport d.graph handlers).resolve u =
      .ok (d.compiledChoice p s plan, language) := by
  have hkey : (d.compiledChoice p s plan).key =
      Key.ofParts [decimal p.id, decimal s.id, plan.id] := by
    rw [compiledChoice, Key.choice]
  have hparse : Payload.parse? (Payload.mk (d.compiledChoice p s plan).key language).encode =
      some ⟨(d.compiledChoice p s plan).key, language⟩ := by
    rw [hkey]
    exact Payload.parse?_encode_ofParts (h.wellFormedTitle hl)
  have hsupports : d.graph.supports language = true := by
    rw [Graph.supports, languages_graph]
    exact List.contains_iff_mem.2 hl
  have hfound : d.graph.choiceOfKey? (d.compiledChoice p s plan).key =
      some (d.compiledChoice p s plan) :=
    hg.choiceOfKey?_eq_some_iff.2 ⟨compiledChoice_mem_graph hp hs hplan, rfl⟩
  simp only [Router.resolve, hu, hparse, hsupports, Bool.not_true, Bool.false_eq_true, if_false,
    hfound]

/-- A click on a choice of a valid document is followed. -/
theorem Valid.follows (h : d.Valid) (hg : d.graph.Indexed) (hp : p ∈ d.procedures)
    (hs : s ∈ p.stages) {plan : ChoicePlan} (hplan : plan ∈ (p.plans s).flatten)
    {language : String} (hl : language ∈ d.languages) {u : Update}
    (hu : u.payload? = some (Payload.mk (d.compiledChoice p s plan).key language).encode)
    (first : Nat) (world : σ) :
    (Router.mk transport d.graph handlers).Follows u (d.compiledStage p s first)
      (d.compiledChoice p s plan) language world := by
  have hkey : (d.compiledChoice p s plan).key = Key.choice (d.compiledStage p s first).procedure
      (d.compiledStage p s first).id (d.compiledChoice p s plan).id := by
    simp only [compiledChoice, compiledStage]
  refine Router.follows_of_resolve (h.resolve_payload hg hp hs hplan hl hu) rfl rfl hkey ?_ world
  intro next hnext
  obtain ⟨id, hid, rfl⟩ := Option.map_eq_some_iff.1 hnext
  obtain ⟨s', hs', rfl⟩ := h.exists_plan_next hp hs hplan hid
  obtain ⟨first', hstage, -⟩ := exists_compiledStage (mem_staged_iff.2 ⟨hp, hs'⟩)
  obtain ⟨page, hpage, -⟩ := h.exists_render hg hp hs' hstage hl
  exact ⟨page, hpage⟩

end Document

/-- Every button leads back to its choice. The document of a text compiles, if the digest tells its
joined ids apart, and in its graph every stage is shown in every language. Whatever the handlers
are, a click on any button of that page is followed as a click on the choice at the same place in
the grid of the stage. -/
theorem Router.follows_every_button {text : String} {d : Document}
    (hread : Document.ofText text = .ok d) (hapart : d.KeysApart) :
    ∃ g, Graph.compile d = .ok g ∧
      ∀ (σ : Type) (transport : Transport σ) (handlers : NameTable (Handler σ)),
        ∀ stage ∈ g.stages, ∀ language ∈ g.languages,
          ∃ page, g.render stage.procedure stage.id language = some page ∧ page.stage = stage ∧
            ∀ i j button, gridAt? page.buttonRows i j = some button →
              ∃ choice, gridAt? (g.grid stage) i j = some choice ∧
                ∀ id chat shown world, (Router.mk transport g handlers).Follows
                  (.click id chat shown (some button.payload)) stage choice language world := by
  have hvalid := Document.valid_of_ofText hread
  have hcompilable := hvalid.compilable hapart
  have hg := hcompilable.indexed
  refine ⟨d.graph, Graph.compile_eq_ok_iff.2 ⟨hcompilable, rfl⟩, ?_⟩
  intro σ transport handlers stage hstage language hl
  rw [Document.languages_graph] at hl
  obtain ⟨p, s, first, hx, rfl, hrows⟩ := Document.exists_staged hstage
  obtain ⟨hp, hs⟩ := Document.mem_staged_iff.1 hx
  obtain ⟨page, hpage, hpageStage, hlayout⟩ := hvalid.exists_render hg hp hs hstage hl
  refine ⟨page, hpage, hpageStage, fun i j button hbutton => ?_⟩
  -- without a layout there is no button
  have hshown : gridAt? (Graph.layoutIn (d.compiledRows p s) language).rows i j = some button := by
    rw [Rendered.buttonRows, hlayout, Graph.get?_layoutsOf] at hbutton
    split at hbutton
    · exact hbutton
    · exact absurd hbutton (by simp [gridAt?])
  obtain ⟨choice, hchoice, hlabel⟩ :=
    Graph.exists_choice_of_button (hvalid.labelled_compiledRows hp hs hl) hshown
  obtain ⟨plan, hplan, rfl⟩ := Document.exists_plan_of_gridAt? hchoice
  obtain ⟨label, -, rfl⟩ := Option.map_eq_some_iff.1 hlabel
  refine ⟨_, ?_, fun id chat shown world => hvalid.follows hg hp hs hplan hl rfl first world⟩
  rw [Graph.grid, hrows]
  exact hchoice

/-- A document of one stage, with one choice that leads to the stage again. -/
def Document.loop : Document where
  languages := ["en"]
  buttons := [⟨1, none, .ofList [("en", "Go")]⟩]
  procedures := [⟨1, none, 1, false, false, none, none,
    [⟨1, none, none, false, false, .ofList [("en", "A")], [[⟨1, 1, some 1⟩]]⟩]⟩]

/-- The text of this document. -/
def Document.loopText : String :=
  "\x7b\"supportedLanguages\":[\"en\"]," ++
  "\"buttons\":[\x7b\"id\":1,\"text\":\x7b\"en\":\"Go\"\x7d\x7d]," ++
  "\"procedures\":[\x7b\"id\":1,\"rootStageId\":1,\"stages\":[\x7b\"id\":1," ++
  "\"text\":\x7b\"en\":\"A\"\x7d," ++
  "\"options\":[[\x7b\"id\":1,\"buttonId\":1,\"nextStageId\":1\x7d]]\x7d]\x7d]\x7d"

theorem Router.follows_loop_button :
    ∃ page button choice, Document.loop.graph.render "1" "1" "en" = some page ∧
      page.buttonRows = [[button]] ∧ ∀ world : Recorder,
        (Router.mk Recorder.transport Document.loop.graph .empty).Follows
          (.click "id" 7 (some 9) (some button.payload)) page.stage choice "en" world := by
  obtain ⟨g, hg, h⟩ := @Router.follows_every_button Document.loopText Document.loop
    (Checks.toOption_eq_some_iff.1 (by decide +kernel)) (by decide +kernel)
  obtain ⟨-, rfl⟩ := Graph.compile_eq_ok_iff.1 hg
  have hstages : Document.loop.graph.stages.toList.map (fun s => (s.procedure, s.id)) =
      [("1", "1")] := by decide +kernel
  have hrows : (Document.loop.graph.render "1" "1" "en").map Rendered.buttonRows =
      some [[⟨"Go", "seduE-K1D99o4AgjK7V1NUNpU8YwllXP4wWH05bpLhU\nen"⟩]] := by decide +kernel
  obtain ⟨stage, hstage, hids⟩ := List.mem_map.1 (hstages ▸ List.mem_singleton_self ("1", "1"))
  obtain ⟨hprocedure, hid⟩ := Prod.mk.inj hids
  obtain ⟨page, hpage, hpageStage, hbuttons⟩ := h Recorder Recorder.transport .empty stage
    (Array.mem_toList_iff.1 hstage) "en" (by decide)
  rw [hprocedure, hid] at hpage
  rw [hpage, Option.map_some, Option.some.injEq] at hrows
  obtain ⟨choice, -, hfollows⟩ := hbuttons 0 0 _ (by rw [hrows]; rfl)
  exact ⟨page, _, choice, hpage, hrows, fun world => hpageStage ▸ hfollows "id" 7 (some 9) world⟩

end ButtonDialog
