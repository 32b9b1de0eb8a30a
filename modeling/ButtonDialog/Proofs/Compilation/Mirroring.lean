import Mathlib.Algebra.GroupWithZero.Nat
import Mathlib.Data.List.Forall2
import ButtonDialog.Proofs.Compilation.Coherence
import ButtonDialog.Proofs.Compilation.Validated

/-! The graph of a document says what the document says.

    Procedures, their stages and the rows of choices stand in the graph as they stand in the
    document. The only thing that is new is the row of ways back, which a stage has under conditions
    that can be read off the document. They are stated here once more, apart from how compiling
    comes to them, and so is which button a choice shows. -/

namespace ButtonDialog

/-! ## What the document says -/

namespace Document

/-- The last button of an id: it has the id, and no button after it has. -/
def IsLastButton (d : Document) (id : Int64) (b : Button) : Prop :=
  ∃ before after, d.buttons = before ++ b :: after ∧ b.id = id ∧ ∀ later ∈ after, later.id ≠ id

/-- The stage is to have a way back to its previous stage, which shows this button. -/
def Procedure.WantsPrevious (p : Procedure) (s : Stage) (button : Int64) : Prop :=
  s.id ≠ p.root ∧ p.addToPrevious = true ∧ p.toPreviousButton = some button ∧
    s.removeToPrevious = false

/-- The stage is to have a way back to the root, which shows this button. -/
def Procedure.WantsRoot (p : Procedure) (s : Stage) (button : Int64) : Prop :=
  s.id ≠ p.root ∧ p.addToRoot = true ∧ p.toRootButton = some button ∧ s.removeToRoot = false

/-- The number of ways back that a stage is to have. -/
def Procedure.backCount (p : Procedure) (s : Stage) : Nat :=
  if s.id = p.root then 0
  else
    (if p.addToPrevious && p.toPreviousButton.isSome && !s.removeToPrevious then 1 else 0) +
      if p.addToRoot && p.toRootButton.isSome && !s.removeToRoot then 1 else 0

end Document

/-! ## What the graph says -/

/-- A choice of the graph that belongs to a stage of the document: it carries the ids of the stage,
has the label of the last button of a button id, and leads where it is meant to lead. -/
structure Document.Presents (d : Document) (p : Document.Procedure) (s : Document.Stage)
    (c : Graph.Choice) (id : String) (kind : ChoiceKind) (button : Int64) (next : Option Int64) :
    Prop where
  procedure : c.procedure = decimal p.id
  stage : c.stage = decimal s.id
  id : c.id = id
  kind : c.kind = kind
  label : ∃ b, d.IsLastButton button b ∧ c.text = b.text
  next : c.next = next.map decimal

/-- One way back if it is wanted, and none otherwise. -/
inductive WayBack (Wanted : Int64 → Prop) (Made : Int64 → Graph.Choice → Prop) :
    List Graph.Choice → Prop
  | there {button : Int64} {c : Graph.Choice} :
    Wanted button → Made button c → WayBack Wanted Made [c]
  | absent : (∀ button, ¬ Wanted button) → WayBack Wanted Made []

/-- The rows of choices that belong to a stage of the document: the declared rows, choice by choice,
and then, unless it would be empty, a row with the way back to the previous stage and the way back
to the root. -/
def Document.PresentsRows (d : Document) (p : Document.Procedure) (s : Document.Stage)
    (rows : List (List Graph.Choice)) : Prop :=
  ∃ declared previous root,
    List.Forall₂ (List.Forall₂ fun choice c =>
      d.Presents p s c (decimal choice.id) .declared choice.button choice.next) s.rows declared ∧
    WayBack (p.WantsPrevious s)
      (fun button c => d.Presents p s c "ToPrevious" .toPrevious button s.previous) previous ∧
    WayBack (p.WantsRoot s)
      (fun button c => d.Presents p s c "ToRoot" .toRoot button (some p.root)) root ∧
    rows = declared ++ if previous ++ root = [] then [] else [previous ++ root]

namespace Graph

/-- A stage of the graph that belongs to a stage of the document. -/
structure MirrorsStage (g : Graph) (d : Document) (p : Document.Procedure) (s : Document.Stage)
    (stage : Stage) : Prop where
  procedure : stage.procedure = decimal p.id
  id : stage.id = decimal s.id
  title : stage.title = s.title
  previous : stage.previous = s.previous.map decimal
  text : stage.text = s.text
  rows : ∃ rows, d.PresentsRows p s rows ∧
    stage.rows.map (·.map fun place => g.choices[place]?) = rows.map (·.map some)

/-- A procedure of the graph that belongs to a procedure of the document: its stages belong to the
stages there, in order. -/
structure MirrorsProcedure (g : Graph) (d : Document) (p : Document.Procedure)
    (procedure : Procedure) : Prop where
  id : procedure.id = decimal p.id
  title : procedure.title = p.title
  root : procedure.root = decimal p.root
  stages : List.Forall₂ (fun s place =>
    ∃ stage, g.stages[place]? = some stage ∧ g.MirrorsStage d p s stage) p.stages procedure.stages

/-- A graph that says what a document says and no more. -/
structure Mirrors (g : Graph) (d : Document) : Prop where
  languages : g.languages = d.languages
  procedures : List.Forall₂ (g.MirrorsProcedure d) d.procedures g.procedures
  stagesHeld : ∀ stage ∈ g.stages, ∃ p ∈ g.procedures, ∃ place ∈ p.stages,
    g.stages[place]? = some stage
  choicesHeld : ∀ c ∈ g.choices, ∃ stage ∈ g.stages, ∃ row ∈ stage.rows, ∃ place ∈ row,
    g.choices[place]? = some c
  stageCount : g.stages.size = (d.procedures.map fun p => p.stages.length).sum
  choiceCount : g.choices.size = (d.procedures.map fun p =>
    (p.stages.map fun s => s.choices.length + p.backCount s).sum).sum

end Graph

/-! ## What coherence gives -/

namespace Graph.Coherent

variable {g : Graph}

/-- Every stage of the graph is held by a procedure. -/
theorem exists_holder (h : g.Coherent) {stage : Stage} (hstage : stage ∈ g.stages) :
    ∃ p ∈ g.procedures, ∃ place ∈ p.stages, g.stages[place]? = some stage := by
  obtain ⟨place, hplace⟩ := Array.mem_iff_getElem?.1 hstage
  have hlt := (Array.getElem?_eq_some_iff.1 hplace).1
  have hcount := h.stageOnce place hlt
  have hmem := List.count_pos_iff.1 (hcount ▸ Nat.one_pos)
  obtain ⟨p, hp, hheld⟩ := List.mem_flatMap.1 hmem
  exact ⟨p, hp, place, hheld, hplace⟩

/-- Every choice of the graph is held by a row of a stage. -/
theorem exists_row (h : g.Coherent) {c : Choice} (hc : c ∈ g.choices) :
    ∃ stage ∈ g.stages, ∃ row ∈ stage.rows, ∃ place ∈ row, g.choices[place]? = some c := by
  obtain ⟨place, hplace⟩ := Array.mem_iff_getElem?.1 hc
  have hlt := (Array.getElem?_eq_some_iff.1 hplace).1
  have hcount := h.choiceOnce place hlt
  have hmem := List.count_pos_iff.1 (hcount ▸ Nat.one_pos)
  obtain ⟨stage, hstage, hheld⟩ := List.mem_flatMap.1 hmem
  obtain ⟨row, hrow, hheld⟩ := List.mem_flatten.1 hheld
  exact ⟨stage, Array.mem_toList_iff.1 hstage, row, hrow, place, hheld, hplace⟩

/-- No place of a row is passed over when its choices are looked up. -/
theorem map_getElem? (h : g.Coherent) {stage : Stage} (hstage : stage ∈ g.stages) :
    stage.rows.map (·.map fun place => g.choices[place]?) =
      (g.choiceRows stage.rows).map (·.map some) := by
  rw [choiceRows, List.map_map]
  refine List.map_congr_left fun row hrow => ?_
  rw [Function.comp_apply, List.map_filterMap_some_eq_filter_map_isSome, List.filter_eq_self.2]
  intro found hfound
  obtain ⟨place, hplace, rfl⟩ := List.mem_map.1 hfound
  rw [Array.getElem?_eq_getElem (h.choiceBound stage hstage row hrow place hplace)]
  rfl

end Graph.Coherent

namespace Document

variable {d : Document} {p : Procedure} {s : Stage}

/-! ## Choices and rows -/

theorem isLastButton_of_button? {id : Int64} {b : Button} (h : d.button? id = some b) :
    d.IsLastButton id b := by
  obtain ⟨hid, after, before, hbuttons, hafter⟩ := List.find?_eq_some_iff_append.1 h
  refine ⟨before.reverse, after.reverse, ?_, beq_iff_eq.1 hid, fun later hlater => ?_⟩
  · rw [List.reverse_eq_iff] at hbuttons
    simpa using hbuttons
  · simpa using hafter later (List.mem_reverse.1 hlater)

/-- What a plan becomes presents it, if there is a button for it. -/
theorem presents_compiledChoice {plan : ChoicePlan} (hbutton : (d.button? plan.button).isSome) :
    d.Presents p s (d.compiledChoice p s plan) plan.id plan.kind plan.button plan.next := by
  obtain ⟨b, hb⟩ := Option.isSome_iff_exists.1 hbutton
  refine ⟨rfl, rfl, rfl, rfl, ⟨b, isLastButton_of_button? hb, ?_⟩, rfl⟩
  rw [compiledChoice, label, hb]
  rfl

/-- The button of the way back to the previous stage, if the stage has that way. -/
def Procedure.previousOf? (p : Procedure) (s : Stage) : Option Int64 :=
  if p.isRoot s then none else p.previousButton?.filter fun _ => !s.removeToPrevious

/-- The button of the way back to the root, if the stage has that way. -/
def Procedure.rootOf? (p : Procedure) (s : Stage) : Option Int64 :=
  if p.isRoot s then none else p.rootButton?.filter fun _ => !s.removeToRoot

theorem waysBack_eq (p : Procedure) (s : Stage) :
    p.waysBack s =
      ((p.previousOf? s).map fun button => ⟨toPreviousId, .toPrevious, button, s.previous⟩).toList ++
        ((p.rootOf? s).map fun button => ⟨toRootId, .toRoot, button, some p.root⟩).toList := by
  unfold Procedure.waysBack Procedure.previousOf? Procedure.rootOf?
  split <;> rfl

theorem previousOf?_eq_some_iff {button : Int64} :
    p.previousOf? s = some button ↔ p.WantsPrevious s button := by
  simp only [Procedure.previousOf?, Procedure.previousButton?, Procedure.isRoot,
    Procedure.WantsPrevious, Option.ite_none_left_eq_some, Option.filter_eq_some_iff, beq_iff_eq,
    Bool.not_eq_true']
  tauto

theorem rootOf?_eq_some_iff {button : Int64} :
    p.rootOf? s = some button ↔ p.WantsRoot s button := by
  simp only [Procedure.rootOf?, Procedure.rootButton?, Procedure.isRoot, Procedure.WantsRoot,
    Option.ite_none_left_eq_some, Option.filter_eq_some_iff, beq_iff_eq, Bool.not_eq_true']
  tauto

theorem length_waysBack (p : Procedure) (s : Stage) : (p.waysBack s).length = p.backCount s := by
  by_cases hroot : s.id = p.root
  · simp [Procedure.waysBack, Procedure.backCount, Procedure.isRoot, hroot]
  · simp only [Procedure.waysBack, Procedure.backCount, Procedure.isRoot, hroot, beq_iff_eq,
      if_false, List.length_append, Procedure.previousButton?, Procedure.rootButton?]
    congr 1
    · cases p.toPreviousButton <;> cases p.addToPrevious <;> cases s.removeToPrevious <;> rfl
    · cases p.toRootButton <;> cases p.addToRoot <;> cases s.removeToRoot <;> rfl

/-- A way back that is there as an optional button is one way back or none. -/
theorem wayBack_of_option {x : Option Int64} {Wanted : Int64 → Prop}
    {Made : Int64 → Graph.Choice → Prop} {made : Int64 → Graph.Choice}
    (hwanted : ∀ button, x = some button ↔ Wanted button)
    (hmade : ∀ button, x = some button → Made button (made button)) :
    WayBack Wanted Made (x.map made).toList := by
  cases x with
  | none => exact .absent fun button hbutton => nomatch (hwanted button).2 hbutton
  | some button => exact .there ((hwanted button).1 rfl) (hmade button rfl)

/-- The rows that a stage has in the graph present it, if all its buttons are there. -/
theorem presentsRows_compiledRows
    (hbuttons : ∀ plan ∈ (p.plans s).flatten, (d.button? plan.button).isSome) :
    d.PresentsRows p s (d.compiledRows p s) := by
  have hplan : ∀ plan ∈ (p.plans s).flatten,
      d.Presents p s (d.compiledChoice p s plan) plan.id plan.kind plan.button plan.next :=
    fun plan hmem => presents_compiledChoice (hbuttons plan hmem)
  rw [flatten_plans, waysBack_eq] at hplan
  refine ⟨s.rows.map (·.map fun choice => d.compiledChoice p s choice.plan),
    ((p.previousOf? s).map fun button =>
      d.compiledChoice p s ⟨toPreviousId, .toPrevious, button, s.previous⟩).toList,
    ((p.rootOf? s).map fun button =>
      d.compiledChoice p s ⟨toRootId, .toRoot, button, some p.root⟩).toList, ?_, ?_, ?_, ?_⟩
  · refine List.forall₂_map_right_iff.2 (List.forall₂_same.2 fun row hrow => ?_)
    refine List.forall₂_map_right_iff.2 (List.forall₂_same.2 fun choice hchoice => ?_)
    exact hplan choice.plan (List.mem_append_left _
      (List.mem_map_of_mem (List.mem_flatten.2 ⟨row, hrow, hchoice⟩)))
  · refine wayBack_of_option (fun button => previousOf?_eq_some_iff) fun button hbutton => ?_
    refine hplan _ (List.mem_append_right _ (List.mem_append_left _ ?_))
    rw [hbutton]
    exact List.mem_singleton_self _
  · refine wayBack_of_option (fun button => rootOf?_eq_some_iff) fun button hbutton => ?_
    refine hplan _ (List.mem_append_right _ (List.mem_append_right _ ?_))
    rw [hbutton]
    exact List.mem_singleton_self _
  · rw [compiledRows, Procedure.plans, waysBack_eq, List.map_append, List.map_map]
    congr 1
    · refine List.map_congr_left fun row _ => ?_
      rw [Function.comp_apply, List.map_map]
      rfl
    · cases p.previousOf? s <;> cases p.rootOf? s <;> rfl

/-! ## Stages and procedures -/

theorem length_compiledStages (first : Nat) (xs : List (Procedure × Stage)) :
    (d.compiledStages first xs).length = xs.length := by
  induction xs generalizing first with
  | nil => rfl
  | cons x xs ih => rw [compiledStages, List.length_cons, ih, List.length_cons]

/-- The stage of the graph at the place of a stage of the document. -/
theorem getElem?_stages_graph {before after : List (Procedure × Stage)}
    (h : d.staged = before ++ (p, s) :: after) :
    d.graph.stages[before.length]? =
      some (d.compiledStage p s (d.compiledChoices before).length) := by
  have hlength : (d.compiledStages 0 before).length = before.length := length_compiledStages 0 before
  rw [← Array.getElem?_toList, stages_graph, h, compiledStages_append, Nat.zero_add, ← hlength,
    List.getElem?_append_right (Nat.le_refl _), Nat.sub_self]
  rfl

/-- The stage of the graph at the place of a stage of the document mirrors it. -/
theorem Compilable.mirrorsStage (h : d.Compilable) {before after : List (Procedure × Stage)}
    (hsplit : d.staged = before ++ (p, s) :: after) :
    ∃ stage, d.graph.stages[before.length]? = some stage ∧ d.graph.MirrorsStage d p s stage := by
  have hplace := getElem?_stages_graph hsplit
  have hmem := Array.mem_of_getElem? hplace
  have hx : (p, s) ∈ d.staged := hsplit ▸ List.mem_append_right _ List.mem_cons_self
  refine ⟨_, hplace, rfl, rfl, rfl, rfl, rfl, d.compiledRows p s,
    presentsRows_compiledRows (h.buttons _ hx), ?_⟩
  rw [(coherent_graph h.indexed).map_getElem? hmem, choiceRows_compiledStage hsplit]

/-- What holds of every element and its number holds all along the numbers. -/
theorem forall₂_range' {α : Type} {R : α → Nat → Prop} {as : List α} {first : Nat}
    (h : ∀ before a after, as = before ++ a :: after → R a (first + before.length)) :
    List.Forall₂ R as (List.range' first as.length) := by
  induction as generalizing first with
  | nil => exact .nil
  | cons a as ih =>
    rw [List.length_cons, List.range'_succ]
    refine .cons (h [] a as rfl) (ih fun before b after hsplit => ?_)
    have hb := h (a :: before) b after (by rw [hsplit, List.cons_append])
    rwa [List.length_cons, Nat.add_comm before.length, ← Nat.add_assoc] at hb

/-- Procedures whose stages enter at the places from `first` on mirror those of the document. -/
theorem Compilable.forall₂_mirrorsProcedure (h : d.Compilable) {before ps : List Procedure}
    (hsplit : d.procedures = before ++ ps) :
    List.Forall₂ (d.graph.MirrorsProcedure d) ps
      (compiledProcedures (before.flatMap Procedure.staged).length ps) := by
  induction ps generalizing before with
  | nil => exact .nil
  | cons p ps ih =>
    have hnext : d.procedures = (before ++ [p]) ++ ps := by rw [hsplit, List.append_assoc]; rfl
    have hrest := ih hnext
    rw [List.flatMap_append, List.flatMap_singleton, List.length_append, Procedure.staged,
      List.length_map] at hrest
    refine .cons ⟨rfl, rfl, rfl, forall₂_range' fun stagesBefore s stagesAfter hstages => ?_⟩ hrest
    have hstaged : d.staged =
        (before.flatMap Procedure.staged ++ stagesBefore.map (p, ·)) ++
          (p, s) :: (stagesAfter.map (p, ·) ++ ps.flatMap Procedure.staged) := by
      rw [staged, hsplit, List.flatMap_append, List.flatMap_cons, Procedure.staged, hstages]
      simp
    have hmirror := h.mirrorsStage hstaged
    rwa [List.length_append, List.length_map] at hmirror

/-! ## The whole graph -/

theorem length_staged (d : Document) :
    d.staged.length = (d.procedures.map fun p => p.stages.length).sum := by
  rw [staged, List.length_flatMap]
  exact congrArg List.sum (List.map_congr_left fun p _ => List.length_map ..)

theorem length_compiledChoices_staged (d : Document) :
    (d.compiledChoices d.staged).length = (d.procedures.map fun p =>
      (p.stages.map fun s => s.choices.length + p.backCount s).sum).sum := by
  have hstage : ∀ x : Procedure × Stage,
      (d.compiledRows x.1 x.2).flatten.length = x.2.choices.length + x.1.backCount x.2 := by
    intro x
    rw [Graph.flatten_compiledRows, List.length_map, flatten_plans, List.length_append,
      List.length_map, length_waysBack]
  rw [compiledChoices, staged, List.flatMap_assoc, List.length_flatMap]
  refine congrArg List.sum (List.map_congr_left fun p _ => ?_)
  rw [List.length_flatMap, Procedure.staged, List.map_map]
  exact congrArg List.sum (List.map_congr_left fun s _ => hstage (p, s))

end Document

/-- The graph that a document compiles to says what the document says, and the ways back that it is
to have, and no more. -/
theorem Graph.mirrors_of_compile {d : Document} {g : Graph} (h : Graph.compile d = .ok g) :
    g.Mirrors d := by
  obtain ⟨hcompilable, rfl⟩ := Graph.compile_eq_ok_iff.1 h
  have hcoherent := Document.coherent_graph hcompilable.indexed
  refine ⟨d.languages_graph, hcompilable.forall₂_mirrorsProcedure (List.nil_append _).symm,
    fun stage hstage => hcoherent.exists_holder hstage, fun c hc => hcoherent.exists_row hc, ?_, ?_⟩
  · rw [← Array.length_toList, Document.stages_graph, Document.length_compiledStages,
      Document.length_staged]
  · rw [← Array.length_toList, Document.choices_graph, Document.length_compiledChoices_staged]

theorem Graph.mirrors_twins :
    Graph.compile Document.twins = .ok Document.twins.graph ∧
      Document.twins.graph.Mirrors Document.twins :=
  ⟨Document.graph_twins, Graph.mirrors_of_compile Document.graph_twins⟩

end ButtonDialog
