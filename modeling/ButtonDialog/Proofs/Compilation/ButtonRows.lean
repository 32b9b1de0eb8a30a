import ButtonDialog.Proofs.Compilation.Layouts
import ButtonDialog.Proofs.Compilation.Mirroring
import ButtonDialog.Proofs.Payloads

/-! Rows of buttons against rows of choices.

    A choice may have labels in some languages only, so the rows of a layout are shorter than those
    of the grid, and fewer. Still the buttons stand in the order of the labelled choices, each shows
    the label of its own choice, and two of them share a row if their choices do. Whatever the
    language is, the payload tells the choice and the language apart from all others, for a key has
    no line end and no two choices of a graph have one key. -/

namespace ButtonDialog

/-! ## What layouts show -/

/-- A button that shows a choice in a language: the label of the choice there, and a payload that
carries its key and the language. It is read back unless the language is no line of its own. -/
structure Button.Shows (b : Button) (c : Graph.Choice) (language : String) : Prop where
  label : c.text.get? language = some b.label
  payload : b.payload = c.key ++ "\n" ++ language
  read : language ≠ "" → '\n' ∉ language.toList →
    Payload.parse? b.payload = some ⟨c.key, language⟩

/-- A layout that shows a grid of choices in a language. No row is empty, the buttons in row order
show the labelled choices in grid order, and two of them share a row if their choices do. -/
structure Layout.Shows (layout : Layout) (grid : List (List Graph.Choice)) (language : String) :
    Prop where
  filled : ∀ row ∈ layout.rows, row ≠ []
  inOrder : List.Forall₂ (fun c b => Button.Shows b c language)
    (grid.flatten.filter fun c => c.text.contains language) layout.buttons
  once : layout.buttons.Nodup
  sameRow : ∀ c ∈ grid.flatten, ∀ c' ∈ grid.flatten, ∀ b b' : Button,
    b.Shows c language → b'.Shows c' language →
      ((∃ row ∈ layout.rows, b ∈ row ∧ b' ∈ row) ↔ ∃ row ∈ grid, c ∈ row ∧ c' ∈ row)

namespace Graph

/-- The choices at the places of a stage, row by row, none of the places leading nowhere. -/
def GridOf (g : Graph) (stage : Stage) (grid : List (List Choice)) : Prop :=
  stage.rows.map (·.map fun place => g.choices[place]?) = grid.map (·.map some)

/-- The stage has a layout in the languages that any of its choices has a label in, and in no
others, and each layout shows the grid of its choices, in which no choice stands twice. -/
structure ShowsStage (g : Graph) (stage : Stage) (grid : List (List Choice)) : Prop where
  places : g.GridOf stage grid
  once : grid.flatten.Nodup
  languages : ∀ language, (∃ layout, stage.layouts.get? language = some layout) ↔
    ∃ c ∈ grid.flatten, ∃ label, c.text.get? language = some label
  layouts : ∀ language layout, stage.layouts.get? language = some layout →
    layout.Shows grid language

/-- No two choices of the graph, in any two languages, have one payload. -/
def PayloadsApart (g : Graph) : Prop :=
  ∀ (place place' : Nat) (c c' : Choice) (language language' : String),
    g.choices[place]? = some c → g.choices[place']? = some c' →
      (Payload.mk c.key language).encode = (Payload.mk c'.key language').encode →
        place = place' ∧ language = language'

end Graph

/-! ## Payloads -/

/-- A payload whose key has no line end tells its key and its language. -/
theorem Payload.encode_injective {p q : Payload} (hp : separator ∉ p.choiceKey.toList)
    (hq : separator ∉ q.choiceKey.toList) (h : p.encode = q.encode) : p = q := by
  have hchars := congrArg String.toList h
  rw [toList_encode, toList_encode] at hchars
  obtain ⟨hkey, hlanguage⟩ := append_cons_inj_of_notMem hp hq hchars
  cases p
  cases q
  rw [Payload.mk.injEq]
  exact ⟨String.toList_inj.1 hkey, String.toList_inj.1 hlanguage⟩

namespace Graph

variable {c c' : Choice} {b b' : Button} {language : String} {rows : List (List Choice)}

/-- A choice whose key is made of its ids. -/
def Choice.IsKeyed (c : Choice) : Prop := c.key = Key.choice c.procedure c.stage c.id

theorem Choice.IsKeyed.separator_notMem (h : c.IsKeyed) :
    Payload.separator ∉ c.key.toList := by
  have hsymbols : ∀ d ∈ (Key.choice c.procedure c.stage c.id).toList,
      Base64Url.isSymbol d = true := fun d hd => Key.isSymbol_of_mem_ofText hd
  rw [h]
  exact Payload.separator_notMem_of_isSymbol hsymbols

/-- What shows a choice in a language is its button there. -/
theorem Choice.IsKeyed.shows_iff (h : c.IsKeyed) :
    b.Shows c language ↔ c.button? language = some b := by
  rw [Choice.button?, Option.map_eq_some_iff]
  constructor
  · intro hb
    refine ⟨b.label, hb.label, ?_⟩
    rw [Payload.encode_eq, ← hb.payload]
  · rintro ⟨label, hlabel, rfl⟩
    refine ⟨hlabel, rfl, fun htext hline => ?_⟩
    rw [Payload.encode_eq, h]
    exact Payload.parse?_key_line htext hline

/-- Two choices with one button have one key. -/
theorem Choice.IsKeyed.key_eq (h : c.IsKeyed) (h' : c'.IsKeyed)
    (hb : c.button? language = some b) (hb' : c'.button? language = some b) : c.key = c'.key := by
  have hpayload : (Payload.mk c.key language).encode = (Payload.mk c'.key language).encode :=
    (h.shows_iff.2 hb).payload.symm.trans (h'.shows_iff.2 hb').payload
  exact (Payload.mk.inj (Payload.encode_injective h.separator_notMem h'.separator_notMem
    hpayload)).1

/-! ## Rows -/

/-- In row order, the buttons of a layout are those of the choices in grid order. -/
theorem buttons_layoutIn (rows : List (List Choice)) (language : String) :
    (layoutIn rows language).buttons = rows.flatten.filterMap fun c => c.button? language := by
  rw [Layout.buttons, layoutIn, List.flatten_filter_not_isEmpty, List.filterMap_flatten]

/-- What is picked from a list is made, in order, of the elements that anything is made of. -/
theorem forall₂_filter_filterMap {α β : Type} {R : α → β → Prop} {pick : α → Bool}
    {make : α → Option β} {as : List α}
    (h : ∀ a ∈ as, pick a = (make a).isSome ∧ ∀ b, make a = some b → R a b) :
    List.Forall₂ R (as.filter pick) (as.filterMap make) := by
  induction as with
  | nil => exact .nil
  | cons a as ih =>
    obtain ⟨⟨hpick, hmake⟩, has⟩ := List.forall_mem_cons.1 h
    cases hb : make a with
    | none =>
      rw [hb] at hpick
      rw [List.filter_cons_of_neg (by simp [hpick]), List.filterMap_cons_none hb]
      exact ih has
    | some b =>
      rw [hb] at hpick
      rw [List.filter_cons_of_pos hpick, List.filterMap_cons_some hb]
      exact .cons (hmake b hb) (ih has)

/-- The rows of a layout are those of the grid that have a button. -/
theorem mem_rows_layoutIn {row : List Button} :
    row ∈ (layoutIn rows language).rows ↔
      row ≠ [] ∧ ∃ cs ∈ rows, cs.filterMap (fun c => c.button? language) = row := by
  simp [layoutIn, and_comm]

/-- A layout shows its grid, if keys tell the choices of the grid apart. -/
theorem shows_layoutIn (hkeyed : ∀ c ∈ rows.flatten, c.IsKeyed)
    (hkeys : (rows.flatten.map Choice.key).Nodup) :
    (layoutIn rows language).Shows rows language := by
  have hinj : ∀ c ∈ rows.flatten, ∀ c' ∈ rows.flatten, ∀ b : Button,
      c.button? language = some b → c'.button? language = some b → c = c' :=
    fun c hc c' hc' b hb hb' => List.inj_on_of_nodup_map hkeys hc hc'
      ((hkeyed c hc).key_eq (hkeyed c' hc') hb hb')
  refine ⟨fun row hrow => (mem_rows_layoutIn.1 hrow).1, ?_, ?_, ?_⟩
  · rw [buttons_layoutIn]
    refine forall₂_filter_filterMap fun c hc => ⟨?_, fun b hb => (hkeyed c hc).shows_iff.2 hb⟩
    rw [Bool.eq_iff_iff, isSome_button?_iff]
  · rw [buttons_layoutIn]
    refine List.pairwise_filterMap.2 (hkeys.of_map.imp_of_mem fun hc hc' hne b hb b' hb' heq => ?_)
    exact hne (hinj _ hc _ hc' b hb (heq ▸ hb'))
  · intro c hc c' hc' b b' hb hb'
    have hbutton := (hkeyed c hc).shows_iff.1 hb
    have hbutton' := (hkeyed c' hc').shows_iff.1 hb'
    constructor
    · rintro ⟨row, hrow, hmem, hmem'⟩
      obtain ⟨-, cs, hcs, rfl⟩ := mem_rows_layoutIn.1 hrow
      obtain ⟨d, hd, hshown⟩ := List.mem_filterMap.1 hmem
      obtain ⟨d', hd', hshown'⟩ := List.mem_filterMap.1 hmem'
      obtain rfl := hinj c hc d (List.mem_flatten.2 ⟨cs, hcs, hd⟩) b hbutton hshown
      obtain rfl := hinj c' hc' d' (List.mem_flatten.2 ⟨cs, hcs, hd'⟩) b' hbutton' hshown'
      exact ⟨cs, hcs, hd, hd'⟩
    · rintro ⟨cs, hcs, hmem, hmem'⟩
      have hshown : b ∈ cs.filterMap fun c => c.button? language :=
        List.mem_filterMap.2 ⟨c, hmem, hbutton⟩
      exact ⟨_, mem_rows_layoutIn.2 ⟨List.ne_nil_of_mem hshown, cs, hcs, rfl⟩, hshown,
        List.mem_filterMap.2 ⟨c', hmem', hbutton'⟩⟩

end Graph

/-! ## The graph of a document -/

namespace Document

variable {d : Document}

theorem isKeyed_of_mem_choices {c : Graph.Choice} (hc : c ∈ d.graph.choices) : c.IsKeyed :=
  key_of_mem_choices hc

/-- The choices of a stage are some of those of the graph. -/
theorem sublist_choices {p : Procedure} {s : Stage} (hx : (p, s) ∈ d.staged) :
    (d.compiledRows p s).flatten.Sublist d.graph.choices.toList := by
  obtain ⟨before, after, hsplit⟩ := List.append_of_mem hx
  rw [choices_graph, hsplit, compiledChoices_append, compiledChoices_cons]
  exact (List.sublist_append_left _ _).trans (List.sublist_append_right _ _)

/-- No two choices of the graph have one payload. -/
theorem payloadsApart_graph (hg : d.graph.Indexed) : d.graph.PayloadsApart := by
  intro place place' c c' language language' hc hc' hencode
  have hkeyed := isKeyed_of_mem_choices (Array.mem_of_getElem? hc)
  have hkeyed' := isKeyed_of_mem_choices (Array.mem_of_getElem? hc')
  obtain ⟨hkey, hlanguage⟩ := Payload.mk.inj
    (Payload.encode_injective hkeyed.separator_notMem hkeyed'.separator_notMem hencode)
  have hplace := hg.choices.get?_eq_some_iff.2 ⟨c, hc, hkey⟩
  have hplace' := hg.choices.get?_eq_some_iff.2 ⟨c', hc', rfl⟩
  exact ⟨Option.some.inj (hplace.symm.trans hplace'), hlanguage⟩

end Document

/-- Whatever document compiles, every stage of its graph has a layout in each language that any of
its choices has a label in; the layouts mirror the grid of the choices; and a payload belongs to one
choice and one language in the whole graph. -/
theorem Graph.mirrors_rows_of_choices {d : Document} {g : Graph} (h : Graph.compile d = .ok g) :
    (∀ stage ∈ g.stages, ∃ grid, g.ShowsStage stage grid) ∧ g.PayloadsApart := by
  obtain ⟨hcompilable, rfl⟩ := Graph.compile_eq_ok_iff.1 h
  have hindexed := hcompilable.indexed
  refine ⟨fun stage hstage => ?_, Document.payloadsApart_graph hindexed⟩
  have hplaces := (Document.coherent_graph hindexed).map_getElem? hstage
  obtain ⟨p, s, first, hx, rfl, hrows⟩ := Document.exists_staged hstage
  rw [hrows] at hplaces
  have hsublist := Document.sublist_choices hx
  have hkeyed : ∀ c ∈ (d.compiledRows p s).flatten, c.IsKeyed := fun c hc =>
    Document.isKeyed_of_mem_choices (Array.mem_toList_iff.1 (hsublist.subset hc))
  have hkeys : ((d.compiledRows p s).flatten.map Graph.Choice.key).Nodup :=
    hindexed.choices.nodup.sublist (hsublist.map _)
  have hlayouts : ∀ language, (d.compiledStage p s first).layouts.get? language =
      if ∃ c ∈ (d.compiledRows p s).flatten, c.text.contains language = true
      then some (Graph.layoutIn (d.compiledRows p s) language) else none :=
    fun language => Graph.get?_layoutsOf _ language
  refine ⟨d.compiledRows p s, hplaces, hkeys.of_map, fun language => ?_,
    fun language layout hlayout => ?_⟩
  · rw [hlayouts, ← Option.isSome_iff_exists, Option.isSome_ite]
    simp only [NameTable.contains, Option.isSome_iff_exists]
  · rw [hlayouts, Option.ite_none_right_eq_some] at hlayout
    obtain ⟨-, hlayout⟩ := hlayout
    rw [← Option.some.inj hlayout]
    exact Graph.shows_layoutIn hkeyed hkeys

/-- A document whose buttons have labels in different languages. The text that names one of the
languages is empty. -/
def Document.patchy : Document where
  languages := ["en", "fr"]
  buttons := [⟨1, none, .ofList [("en", "Go"), ("fr", "Aller")]⟩,
    ⟨2, none, .ofList [("en", "Stop")]⟩, ⟨3, none, .ofList [("fr", "Fin"), ("", "End")]⟩]
  procedures := [⟨1, none, 1, false, false, none, none, [
    ⟨1, none, none, false, false, .ofList [("en", "A")],
      [[⟨1, 2, none⟩, ⟨2, 1, some 1⟩], [], [⟨3, 2, none⟩], [⟨4, 3, none⟩, ⟨5, 1, none⟩]]⟩]⟩]

/-- Its one stage has a layout in each of the three, with rows of its own. -/
theorem Graph.mirrors_rows_of_patchy :
    Graph.compile Document.patchy = .ok Document.patchy.graph ∧
      (Document.patchy.graph.stages.toList.map fun stage =>
        stage.layouts.rows.map fun row => (row.1, row.2.rows.map (·.map Button.label))) =
          [[("", [["End"]]), ("en", [["Stop", "Go"], ["Stop"], ["Go"]]),
            ("fr", [["Aller"], ["Fin", "Aller"]])]] ∧
      (∀ stage ∈ Document.patchy.graph.stages, ∃ grid,
        Document.patchy.graph.ShowsStage stage grid) ∧ Document.patchy.graph.PayloadsApart := by
  have hcompile : Graph.compile Document.patchy = .ok Document.patchy.graph :=
    Graph.compile_eq_ok_iff.2
      ⟨⟨by decide, by decide +kernel, by decide +kernel, by decide +kernel⟩, rfl⟩
  exact ⟨hcompile, by decide +kernel, Graph.mirrors_rows_of_choices hcompile⟩

end ButtonDialog
