import ButtonDialog.Proofs.Routing.Gating
import ButtonDialog.Proofs.Routing.Registration
import ButtonDialog.Proofs.Routing.RoundTrip

/-! Buttons that outlive their document.

    A message keeps its buttons when the document behind the router is replaced. What such a button
    carries is a key made of three ids and a language, and nothing about rows, labels or neighbours.
    So the new document finds the choice of the same ids, wherever it has it, or finds none. -/

namespace ButtonDialog

/-- The digest tells apart the joined ids of the choices of two graphs together. -/
def Graph.ApartTogether (g g' : Graph) : Prop :=
  Sha256.Apart ((g.choiceIds ++ g'.choiceIds).map Key.joined)

instance (g g' : Graph) : Decidable (g.ApartTogether g') :=
  inferInstanceAs (Decidable (Sha256.Apart _))

namespace Router

variable {σ : Type} {r : Router σ} {u : Update} {ids : List String} {language : String}

/-- What becomes of an update that carries the ids of a choice, of whatever document, and a
language. The choice of these ids is clicked, if the graph has it and the language. Otherwise the
update is ignored, for the language if that is missing, without a deed of the router. No choice of
other ids is ever clicked. -/
structure FindsByIds (r : Router σ) (u : Update) (ids : List String) (language : String)
    (world : σ) : Prop where
  found : language ∈ r.graph.languages → ∀ c ∈ r.graph.choices, c.ids = ids →
    r.resolve u = .ok (c, language) ∧ r.Gated u c language world
  unsupported : language ∉ r.graph.languages →
    (r.onUpdate u).effect world = (.ok (.ignored .unsupportedLanguage), world) ∧
      r.deeds u world = []
  unknown : language ∈ r.graph.languages → (∀ c ∈ r.graph.choices, c.ids ≠ ids) →
    (r.onUpdate u).effect world = (.ok (.ignored .unknownChoice), world) ∧ r.deeds u world = []
  noOther : ∀ c spelled, r.resolve u = .ok (c, spelled) → c.ids = ids ∧ spelled = language

/-! ## What a payload that can be read is resolved to -/

variable {raw : String} {p : Payload}

theorem resolve_of_unsupported (hraw : u.payload? = some raw) (hp : Payload.parse? raw = some p)
    (hlanguage : p.language ∉ r.graph.languages) : r.resolve u = .error .unsupportedLanguage :=
  resolve_of_grounds ⟨raw, p, hraw, Payload.parse?_eq_some_iff.1 hp, hlanguage⟩ (by decide)

theorem resolve_of_found (hraw : u.payload? = some raw) (hp : Payload.parse? raw = some p)
    (hlanguage : p.language ∈ r.graph.languages) {c : Graph.Choice}
    (hfound : r.graph.choiceOfKey? p.choiceKey = some c) : r.resolve u = .ok (c, p.language) := by
  simp only [resolve, hraw, hp, supports_iff.2 hlanguage, Bool.not_true, Bool.false_eq_true,
    if_false, hfound]

theorem resolve_of_missing (hraw : u.payload? = some raw) (hp : Payload.parse? raw = some p)
    (hlanguage : p.language ∈ r.graph.languages)
    (hmissing : r.graph.choiceOfKey? p.choiceKey = none) :
    r.resolve u = .error .unknownChoice := by
  simp only [resolve, hraw, hp, supports_iff.2 hlanguage, Bool.not_true, Bool.false_eq_true,
    if_false, hmissing]

/-- Where a key belongs to the choice of some ids and to no other, its payload finds by ids. -/
theorem findsByIds_of_parse (hg : r.graph.Indexed)
    (hmade : ∀ c ∈ r.graph.choices, c.key = Key.choice c.procedure c.stage c.id)
    (hraw : u.payload? = some raw) (hp : Payload.parse? raw = some p)
    (hkey : ∀ c ∈ r.graph.choices, c.key = p.choiceKey ↔ c.ids = ids) (world : σ) :
    r.FindsByIds u ids p.language world := by
  have hspec : ∀ c, r.graph.choiceOfKey? p.choiceKey = some c ↔ c ∈ r.graph.choices ∧ c.ids = ids :=
    fun c => hg.choiceOfKey?_eq_some_iff.trans (and_congr_right (hkey c))
  refine ⟨fun hlanguage c hc hids => ?_, fun hlanguage => ?_, fun hlanguage hnone => ?_,
    fun c spelled hresolve => ?_⟩
  · have hresolve := resolve_of_found hraw hp hlanguage ((hspec c).2 ⟨hc, hids⟩)
    exact ⟨hresolve, gated_of_resolve hresolve (hmade c hc) world⟩
  · have hresolve := resolve_of_unsupported hraw hp hlanguage
    exact ⟨effect_onUpdate_of_ignored hresolve world, deeds_of_ignored hresolve world⟩
  · have hmissing : r.graph.choiceOfKey? p.choiceKey = none := by
      refine Option.eq_none_iff_forall_ne_some.2 fun c hfound => ?_
      obtain ⟨hc, hids⟩ := (hspec c).1 hfound
      exact hnone c hc hids
    have hresolve := resolve_of_missing hraw hp hlanguage hmissing
    exact ⟨effect_onUpdate_of_ignored hresolve world, deeds_of_ignored hresolve world⟩
  · by_cases hlanguage : p.language ∈ r.graph.languages
    · cases hfound : r.graph.choiceOfKey? p.choiceKey with
      | none =>
        rw [resolve_of_missing hraw hp hlanguage hfound] at hresolve
        cases hresolve
      | some found =>
        rw [resolve_of_found hraw hp hlanguage hfound] at hresolve
        cases hresolve
        exact ⟨((hspec _).1 hfound).2, rfl⟩
    · rw [resolve_of_unsupported hraw hp hlanguage] at hresolve
      cases hresolve

end Router

namespace Document

variable {d d' : Document}

/-- In two documents together, choices have one key exactly if they have the same ids. -/
theorem key_eq_key_iff (hapart : d.graph.ApartTogether d'.graph) {c c' : Graph.Choice}
    (hc : c ∈ d.graph.choices) (hc' : c' ∈ d'.graph.choices) : c'.key = c.key ↔ c'.ids = c.ids := by
  have hids := ids_mem_choiceIds hc
  have hids' := ids_mem_choiceIds hc'
  have hfree : ∀ id ∈ c.ids, Key.BarFree id := barFree_choiceIds (choiceIds_graph d ▸ hids)
  have hfree' : ∀ id ∈ c'.ids, Key.BarFree id := barFree_choiceIds (choiceIds_graph d' ▸ hids')
  rw [key_eq_ofParts_ids hc, key_eq_ofParts_ids hc']
  refine ⟨fun h => ?_, fun h => congrArg Key.ofParts h⟩
  exact Key.ofParts_injective hapart (List.mem_append_right _ hids') (List.mem_append_left _ hids)
    (List.cons_ne_nil _ _) (List.cons_ne_nil _ _) hfree' hfree h

/-- A button in the layout of a stage in one of the languages is that of the choice that stands at
its place in the grid of the stage. -/
theorem Valid.exists_choice_of_layout (h : d.Valid) {stage : Graph.Stage}
    (hstage : stage ∈ d.graph.stages) {language : String} (hl : language ∈ d.languages)
    {layout : Layout} (hlayout : stage.layouts.get? language = some layout) {i j : Nat}
    {button : ButtonDialog.Button} (hbutton : gridAt? layout.rows i j = some button) :
    ∃ choice ∈ d.graph.choices, gridAt? (d.graph.grid stage) i j = some choice ∧
      choice.button? language = some button := by
  obtain ⟨p, s, first, hx, rfl, hrows⟩ := exists_staged hstage
  obtain ⟨hp, hs⟩ := mem_staged_iff.1 hx
  have hshown : gridAt? (Graph.layoutIn (d.compiledRows p s) language).rows i j = some button := by
    rw [compiledStage, Graph.get?_layoutsOf] at hlayout
    split at hlayout
    · rwa [Option.some.inj hlayout]
    · cases hlayout
  obtain ⟨choice, hchoice, hlabel⟩ :=
    Graph.exists_choice_of_button (h.labelled_compiledRows hp hs hl) hshown
  obtain ⟨plan, hplan, rfl⟩ := exists_plan_of_gridAt? hchoice
  refine ⟨_, compiledChoice_mem_graph hp hs hplan, ?_, hlabel⟩
  rw [Graph.grid, hrows]
  exact hchoice

/-- A stage is shown in every language, and a button of the page carries the key of the choice that
stands at its place in the grid of the stage. -/
theorem Valid.exists_page (h : d.Valid) (hg : d.graph.Indexed) {stage : Graph.Stage}
    (hstage : stage ∈ d.graph.stages) {language : String} (hl : language ∈ d.languages) :
    ∃ page, d.graph.render stage.procedure stage.id language = some page ∧ page.stage = stage ∧
      ∀ i j button, gridAt? page.buttonRows i j = some button →
        ∃ choice ∈ d.graph.choices, gridAt? (d.graph.grid stage) i j = some choice ∧
          button.payload = (Payload.mk choice.key language).encode := by
  obtain ⟨p, s, first, hx, rfl, -⟩ := exists_staged hstage
  obtain ⟨hp, hs⟩ := mem_staged_iff.1 hx
  obtain ⟨page, hpage, hpageStage, hlayout⟩ := h.exists_render hg hp hs hstage hl
  refine ⟨page, hpage, hpageStage, fun i j button hbutton => ?_⟩
  cases hshown : page.layout with
  | none =>
    rw [Rendered.buttonRows, hshown] at hbutton
    exact absurd hbutton (by simp [gridAt?])
  | some layout =>
    rw [Rendered.buttonRows, hshown] at hbutton
    obtain ⟨choice, hmem, hchoice, hlabel⟩ :=
      h.exists_choice_of_layout hstage hl (hlayout.symm.trans hshown) hbutton
    obtain ⟨label, -, rfl⟩ := Option.map_eq_some_iff.1 hlabel
    exact ⟨choice, hmem, hchoice, rfl⟩

end Document

/-- A button that a document showed, clicked when another document is behind the router, finds the
choice of the ids that it was made for, or none. Neither document need know of the other; the new
one may be validated or built by hand. -/
theorem Router.finds_stale_buttons {text : String} {d d' : Document} {g g' : Graph}
    (hread : Document.ofText text = .ok d) (hcompile : Graph.compile d = .ok g)
    (hcompile' : Graph.compile d' = .ok g') (hapart : g.ApartTogether g') :
    ∀ stage ∈ g.stages, ∀ language ∈ g.languages,
      ∃ page, g.render stage.procedure stage.id language = some page ∧ page.stage = stage ∧
        ∀ i j button, gridAt? page.buttonRows i j = some button →
          ∃ choice, gridAt? (g.grid stage) i j = some choice ∧
            ∀ (σ : Type) (transport : Transport σ) (handlers : NameTable (Handler σ)),
              ∀ id chat shown world, (Router.mk transport g' handlers).FindsByIds
                (.click id chat shown (some button.payload)) choice.ids language world := by
  obtain ⟨hcompilable, rfl⟩ := Graph.compile_eq_ok_iff.1 hcompile
  obtain ⟨hcompilable', rfl⟩ := Graph.compile_eq_ok_iff.1 hcompile'
  have hvalid := Document.valid_of_ofText hread
  intro stage hstage language hl
  rw [Document.languages_graph] at hl
  obtain ⟨page, hpage, hpageStage, hbuttons⟩ := hvalid.exists_page hcompilable.indexed hstage hl
  refine ⟨page, hpage, hpageStage, fun i j button hbutton => ?_⟩
  obtain ⟨choice, hmem, hchoice, hpayload⟩ := hbuttons i j button hbutton
  refine ⟨choice, hchoice, fun σ transport handlers id chat shown world => ?_⟩
  have hparse : Payload.parse? button.payload = some ⟨choice.key, language⟩ := by
    rw [hpayload, Document.key_eq_ofParts_ids hmem]
    exact Payload.parse?_encode_ofParts (hvalid.wellFormedTitle hl)
  exact findsByIds_of_parse (r := Router.mk transport d'.graph handlers) hcompilable'.indexed
    (fun c hc => Document.key_of_mem_choices hc) rfl hparse
    (fun c hc => Document.key_eq_key_iff hapart hmem hc) world

theorem gridAt?_map {α β : Type} (f : α → β) (rows : List (List α)) (i j : Nat) :
    gridAt? (rows.map (·.map f)) i j = (gridAt? rows i j).map f := by
  rw [gridAt?, gridAt?, List.getElem?_map]
  cases rows[i]? with
  | none => rfl
  | some row => exact List.getElem?_map

theorem Document.ofText_loop : Document.ofText Document.loopText = .ok Document.loop :=
  Checks.toOption_eq_some_iff.1 (by decide +kernel)

theorem Document.graph_loop : Graph.compile Document.loop = .ok Document.loop.graph :=
  Graph.compile_eq_ok_iff.2
    ⟨(Document.valid_of_ofText ofText_loop).compilable (by decide +kernel), rfl⟩

/-- The button of the one stage, when the document has come to have two. -/
theorem Router.finds_loop_button :
    ∃ page button, Document.loop.graph.render "1" "1" "en" = some page ∧
      page.buttonRows = [[button]] ∧ Router.twoStages.FindsByIds
        (.click "id" 7 (some 9) (some button.payload)) ["1", "1", "1"] "en" .fresh := by
  have hapart : Document.loop.graph.ApartTogether Document.twoStages.graph := by
    rw [Graph.ApartTogether, Document.choiceIds_graph, Document.choiceIds_graph]
    decide +kernel
  have hstages : Document.loop.graph.stages.toList.map (fun s =>
      ((s.procedure, s.id), (Document.loop.graph.grid s).map (·.map Graph.Choice.ids))) =
        [(("1", "1"), [[["1", "1", "1"]]])] := by decide +kernel
  have hrows : (Document.loop.graph.render "1" "1" "en").map Rendered.buttonRows =
      some [[⟨"Go", "seduE-K1D99o4AgjK7V1NUNpU8YwllXP4wWH05bpLhU\nen"⟩]] := by decide +kernel
  obtain ⟨stage, hstage, hview⟩ := List.mem_map.1 (hstages ▸ List.mem_singleton_self _)
  obtain ⟨hids, hgrid⟩ := Prod.mk.inj hview
  obtain ⟨hprocedure, hid⟩ := Prod.mk.inj hids
  obtain ⟨page, hpage, -, hbuttons⟩ := @Router.finds_stale_buttons Document.loopText Document.loop
    Document.twoStages Document.loop.graph Document.twoStages.graph Document.ofText_loop
    Document.graph_loop Document.graph_twoStages hapart stage (Array.mem_toList_iff.1 hstage) "en"
    (by decide)
  rw [hprocedure, hid] at hpage
  rw [hpage, Option.map_some, Option.some.injEq] at hrows
  obtain ⟨choice, hchoice, hfinds⟩ := hbuttons 0 0 _ (by rw [hrows]; rfl)
  have hchoiceIds : choice.ids = ["1", "1", "1"] := by
    have hplace := gridAt?_map Graph.Choice.ids (Document.loop.graph.grid stage) 0 0
    rw [hgrid, hchoice] at hplace
    exact (Option.some.inj hplace).symm
  exact ⟨page, _, hpage, hrows, hchoiceIds ▸ hfinds Recorder Recorder.transport _ "id" 7 (some 9) _⟩

end ButtonDialog
