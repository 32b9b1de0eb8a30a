import ButtonDialog.Proofs.Routing.Versions

/-! The languages of layouts.

    Every text of a document has all of its languages, and may have more. So the buttons of a stage
    are laid out in the languages of the document, and in any further language that one of its
    choices has a label in. A button of the first kind is resolved to its choice. One of the second
    kind would be ignored if it were ever clicked, and the router does nothing on it. -/

namespace ButtonDialog

/-- The choices of a stage, row after row. -/
def Graph.choicesOf (g : Graph) (s : Graph.Stage) : List Graph.Choice :=
  (g.choiceRows s.rows).flatten

/-- Why a button is ignored in a language that the graph does not have: where the language is not a
line of its own, the payload cannot be read. -/
def IgnoreReason.ofForeign (language : String) : IgnoreReason :=
  if language = "" ∨ '\n' ∈ language.toList then .malformedPayload else .unsupportedLanguage

/-- What becomes of a click on a button in a language. In a language of the graph it is resolved to
the choice of the button. In any other it is ignored, without a deed of the router. -/
structure Router.Serves {σ : Type} (r : Router σ) (u : Update) (c : Graph.Choice)
    (language : String) (world : σ) : Prop where
  supported : language ∈ r.graph.languages → r.resolve u = .ok (c, language) ∧
    ∀ reason, ((r.onUpdate u).effect world).1 ≠ .ok (.ignored reason)
  unsupported : language ∉ r.graph.languages →
    (r.onUpdate u).effect world = (.ok (.ignored (.ofForeign language)), world) ∧
      r.deeds u world = []

/-- The languages that a stage has layouts in. If it has choices, these are the languages of the
graph and all in which a choice has a label; so they are the languages of the graph alone if no
choice has a label in another. Every button is that of a choice, and the router serves it in the
languages of the graph and in no others. -/
structure Graph.LaidOut (g : Graph) (s : Graph.Stage) : Prop where
  languages : g.choicesOf s ≠ [] → ∀ language, language ∈ s.layouts.names ↔
    language ∈ g.languages ∨ ∃ c ∈ g.choicesOf s, language ∈ c.text.names
  exact : g.choicesOf s ≠ [] →
    ((∀ language, language ∈ s.layouts.names ↔ language ∈ g.languages) ↔
      ∀ c ∈ g.choicesOf s, ∀ language ∈ c.text.names, language ∈ g.languages)
  bare : g.choicesOf s = [] → s.layouts.names = []
  served : ∀ language layout, s.layouts.get? language = some layout → ∀ button ∈ layout.buttons,
    ∃ c ∈ g.choicesOf s, c.button? language = some button ∧
      ∀ (σ : Type) (transport : Transport σ) (handlers : NameTable (Handler σ)),
        ∀ id chat shown world, (Router.mk transport g handlers).Serves
          (.click id chat shown (some button.payload)) c language world

namespace Graph

/-- There are layouts in the languages that any choice has a label in. -/
theorem mem_names_layoutsOf {rows : List (List Choice)} {language : String} :
    language ∈ (layoutsOf rows).names ↔ ∃ c ∈ rows.flatten, language ∈ c.text.names := by
  simp only [NameTable.mem_names_iff]
  rw [NameTable.contains, get?_layoutsOf]
  by_cases h : ∃ c ∈ rows.flatten, c.text.contains language = true
  · rw [if_pos h]
    exact iff_of_true rfl h
  · rw [if_neg h]
    exact iff_of_false Bool.false_ne_true h

/-- The layout in a language holds the buttons of the choices in it. -/
theorem exists_choice_of_mem_layoutsOf {rows : List (List Choice)} {language : String}
    {layout : Layout} (hlayout : (layoutsOf rows).get? language = some layout) {button : Button}
    (hbutton : button ∈ layout.buttons) :
    ∃ c ∈ rows.flatten, c.button? language = some button := by
  rw [get?_layoutsOf] at hlayout
  split at hlayout
  · cases hlayout
    exact exists_choice_of_mem_layoutIn hbutton
  · cases hlayout

end Graph

namespace Router

variable {σ : Type} {r : Router σ} {u : Update} {c : Graph.Choice} {language : String}

/-- A button with the key of some ids, in a language that the graph does not have, is ignored. -/
theorem resolve_of_foreign {part : String} {parts : List String}
    (hraw : u.payload? = some (Key.ofParts (part :: parts) ++ "\n" ++ language))
    (hlanguage : language ∉ r.graph.languages) :
    r.resolve u = .error (.ofForeign language) := by
  unfold IgnoreReason.ofForeign
  split
  · rename_i hbroken
    have hnone : Payload.parse? (Key.ofParts (part :: parts) ++ "\n" ++ language) = none :=
      Payload.parse?_key_line_eq_none hbroken
    refine resolve_of_grounds ⟨_, hraw, fun p hlines => ?_⟩ (by decide)
    rw [Payload.parse?_eq_some_iff.2 hlines] at hnone
    cases hnone
  · rename_i hline
    obtain ⟨htext, hline⟩ := not_or.1 hline
    exact resolve_of_unsupported hraw (Payload.parse?_key_line htext hline) hlanguage

/-- What is resolved in the languages of the graph and ignored in the others is served. -/
theorem serves_of_resolve
    (hsupported : language ∈ r.graph.languages → r.resolve u = .ok (c, language))
    (hforeign : language ∉ r.graph.languages → r.resolve u = .error (.ofForeign language))
    (world : σ) : r.Serves u c language world := by
  refine ⟨fun hlanguage => ?_, fun hlanguage => ?_⟩
  · exact ⟨hsupported hlanguage, effect_onUpdate_ne_ignored (hsupported hlanguage) world⟩
  · exact ⟨effect_onUpdate_of_ignored (hforeign hlanguage) world,
      deeds_of_ignored (hforeign hlanguage) world⟩

end Router

namespace Document

variable {d : Document} {p : Procedure} {s : Stage}

/-- What stands in the rows of a stage is what a plan became. -/
theorem exists_plan_of_mem_compiledRows {c : Graph.Choice}
    (hc : c ∈ (d.compiledRows p s).flatten) :
    ∃ plan ∈ (p.plans s).flatten, d.compiledChoice p s plan = c := by
  rw [Graph.flatten_compiledRows] at hc
  exact List.mem_map.1 hc

/-- Every choice of a stage has labels in all languages of the document. -/
theorem Valid.mem_names_of_choice (h : d.Valid) (hp : p ∈ d.procedures) (hs : s ∈ p.stages)
    {c : Graph.Choice} (hc : c ∈ (d.compiledRows p s).flatten) {language : String}
    (hl : language ∈ d.languages) : language ∈ c.text.names := by
  obtain ⟨row, hrow, hc⟩ := List.mem_flatten.1 hc
  exact NameTable.mem_names_iff.2 (h.labelled_compiledRows hp hs hl row hrow c hc)

end Document

/-- The stages of the graph of a text have layouts in the languages of the document, and in further
languages where their choices have labels in further languages, which the router does not serve. -/
theorem Graph.lays_out_every_stage {text : String} {d : Document} {g : Graph}
    (hread : Document.ofText text = .ok d) (hcompile : Graph.compile d = .ok g) :
    ∀ stage ∈ g.stages, g.LaidOut stage := by
  obtain ⟨hcompilable, rfl⟩ := Graph.compile_eq_ok_iff.1 hcompile
  have hvalid := Document.valid_of_ofText hread
  intro stage hstage
  obtain ⟨p, s, first, hx, rfl, hrows⟩ := Document.exists_staged hstage
  obtain ⟨hp, hs⟩ := Document.mem_staged_iff.1 hx
  have hchoices : d.graph.choicesOf (d.compiledStage p s first) = (d.compiledRows p s).flatten :=
    congrArg List.flatten hrows
  have hlayouts : (d.compiledStage p s first).layouts = Graph.layoutsOf (d.compiledRows p s) := rfl
  have hlabelled : (d.compiledRows p s).flatten ≠ [] → ∀ language ∈ d.graph.languages,
      ∃ c ∈ (d.compiledRows p s).flatten, language ∈ c.text.names := by
    intro hsome language hl
    obtain ⟨c, hc⟩ := List.exists_mem_of_ne_nil _ hsome
    rw [Document.languages_graph] at hl
    exact ⟨c, hc, hvalid.mem_names_of_choice hp hs hc hl⟩
  refine ⟨fun hsome language => ?_, fun hsome => ?_, fun hnone => ?_,
    fun language layout hlayout button hbutton => ?_⟩
  · rw [hchoices] at hsome ⊢
    rw [hlayouts, Graph.mem_names_layoutsOf]
    exact ⟨.inr, fun h => h.elim (hlabelled hsome language) id⟩
  · rw [hchoices] at hsome ⊢
    simp only [hlayouts, Graph.mem_names_layoutsOf]
    constructor
    · intro hexact c hc language hl
      exact (hexact language).1 ⟨c, hc, hl⟩
    · intro hwithin language
      refine ⟨?_, hlabelled hsome language⟩
      rintro ⟨c, hc, hl⟩
      exact hwithin c hc language hl
  · rw [hchoices] at hnone
    rw [hlayouts, List.eq_nil_iff_forall_not_mem]
    intro language hl
    obtain ⟨c, hc, -⟩ := Graph.mem_names_layoutsOf.1 hl
    rw [hnone] at hc
    cases hc
  · obtain ⟨c, hc, hlabel⟩ := Graph.exists_choice_of_mem_layoutsOf (hlayouts ▸ hlayout) hbutton
    obtain ⟨label, -, rfl⟩ := Option.map_eq_some_iff.1 hlabel
    obtain ⟨plan, hplan, rfl⟩ := Document.exists_plan_of_mem_compiledRows hc
    refine ⟨_, hchoices ▸ hc, hlabel, fun σ transport handlers id chat shown world => ?_⟩
    refine Router.serves_of_resolve (fun hl => ?_) (fun hl => ?_) world
    · rw [Document.languages_graph] at hl
      exact hvalid.resolve_payload hcompilable.indexed hp hs hplan hl rfl
    · exact Router.resolve_of_foreign rfl hl

/-- The document of one stage, its button with a label in a language that is not listed. -/
def Document.bilingual : Document :=
  { Document.loop with buttons := [⟨1, none, .ofList [("en", "Go"), ("fr", "Aller")]⟩] }

/-- The text of this document. -/
def Document.bilingualText : String :=
  "\x7b\"supportedLanguages\":[\"en\"]," ++
  "\"buttons\":[\x7b\"id\":1,\"text\":\x7b\"en\":\"Go\",\"fr\":\"Aller\"\x7d\x7d]," ++
  "\"procedures\":[\x7b\"id\":1,\"rootStageId\":1,\"stages\":[\x7b\"id\":1," ++
  "\"text\":\x7b\"en\":\"A\"\x7d," ++
  "\"options\":[[\x7b\"id\":1,\"buttonId\":1,\"nextStageId\":1\x7d]]\x7d]\x7d]\x7d"

theorem Document.ofText_bilingual :
    Document.ofText Document.bilingualText = .ok Document.bilingual :=
  Checks.toOption_eq_some_iff.1 (by decide +kernel)

theorem Document.graph_bilingual :
    Graph.compile Document.bilingual = .ok Document.bilingual.graph :=
  Graph.compile_eq_ok_iff.2
    ⟨(Document.valid_of_ofText ofText_bilingual).compilable (by decide +kernel), rfl⟩

/-- The one stage of the graph, and what it shows in the second language. -/
theorem Document.stages_bilingual :
    Document.bilingual.graph.stages.toList.map (fun s =>
      ((Document.bilingual.graph.choicesOf s).map Graph.Choice.id, s.layouts.names,
        s.layouts.get? "fr")) = [(["1"], ["en", "fr"],
          some ⟨[[⟨"Aller", "seduE-K1D99o4AgjK7V1NUNpU8YwllXP4wWH05bpLhU\nfr"⟩]]⟩)] := by
  decide +kernel

/-- The stage has a layout in the second language, and a click on its button there is ignored. -/
theorem Graph.lays_out_bilingual :
    ∃ stage ∈ Document.bilingual.graph.stages, "fr" ∈ stage.layouts.names ∧
      ∀ world : Recorder,
        ((Router.mk Recorder.transport Document.bilingual.graph .empty).onUpdate
          (.click "id" 7 (some 9)
            (some "seduE-K1D99o4AgjK7V1NUNpU8YwllXP4wWH05bpLhU\nfr"))).effect world =
          (.ok (.ignored .unsupportedLanguage), world) := by
  obtain ⟨stage, hstage, hview⟩ :=
    List.mem_map.1 (Document.stages_bilingual ▸ List.mem_singleton_self _)
  obtain ⟨-, hview⟩ := Prod.mk.inj hview
  obtain ⟨hnames, hlayout⟩ := Prod.mk.inj hview
  have hstage : stage ∈ Document.bilingual.graph.stages := Array.mem_toList_iff.1 hstage
  have hlaid := Graph.lays_out_every_stage Document.ofText_bilingual Document.graph_bilingual
    stage hstage
  obtain ⟨c, -, -, hserves⟩ := hlaid.served "fr" _ hlayout _ (List.mem_singleton_self _)
  refine ⟨stage, hstage, by rw [hnames]; decide, fun world => ?_⟩
  exact ((hserves Recorder Recorder.transport .empty "id" 7 (some 9) world).unsupported
    (by decide +kernel)).1

/-- The stage has a choice, and its layouts are not those of the languages of the graph alone. -/
theorem Graph.foreign_layout_of_bilingual :
    Document.ofText Document.bilingualText = .ok Document.bilingual ∧
      Graph.compile Document.bilingual = .ok Document.bilingual.graph ∧
      ∃ stage ∈ Document.bilingual.graph.stages, Document.bilingual.graph.choicesOf stage ≠ [] ∧
        ¬ ∀ language,
          language ∈ stage.layouts.names ↔ language ∈ Document.bilingual.graph.languages := by
  obtain ⟨stage, hstage, hview⟩ :=
    List.mem_map.1 (Document.stages_bilingual ▸ List.mem_singleton_self _)
  obtain ⟨hids, hview⟩ := Prod.mk.inj hview
  obtain ⟨hnames, -⟩ := Prod.mk.inj hview
  refine ⟨Document.ofText_bilingual, Document.graph_bilingual, stage,
    Array.mem_toList_iff.1 hstage, fun hnone => ?_, fun hexact => ?_⟩
  · rw [hnone] at hids
    cases hids
  · have hforeign := (hexact "fr").1 (by rw [hnames]; decide)
    exact absurd hforeign (by decide +kernel)

end ButtonDialog
