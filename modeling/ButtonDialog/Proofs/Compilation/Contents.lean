import ButtonDialog.Proofs.Compilation.Success

/-! What the graph of a document holds.

    The stages and the choices of the graph are those of the document, in order. Every key is in its
    table, under the place of the one part that has it. Both follow from what one stage adds when it
    enters. -/

namespace ButtonDialog

/-! ## Tables of places -/

/-- The table leads from each key of a list to its place, and from nothing else. -/
def NameTable.Indexes (places : NameTable Nat) (keys : List String) : Prop :=
  ∀ key place, places.get? key = some place ↔ keys[place]? = some key

namespace NameTable

variable {places : NameTable Nat} {keys : List String}

theorem indexes_empty : (empty : NameTable Nat).Indexes [] := by
  intro key place
  simp

/-- A new key goes to the next place. -/
theorem Indexes.insert (h : places.Indexes keys) {key : String} (hnew : key ∉ keys) :
    (places.insert key keys.length).Indexes (keys ++ [key]) := by
  intro other place
  rw [get?_insert]
  by_cases hother : key = other
  · subst hother
    rw [if_pos rfl, Option.some.injEq, List.getElem?_append]
    constructor
    · rintro rfl
      simp
    · intro hplace
      split at hplace
      · exact absurd (List.mem_of_getElem? hplace) hnew
      · rw [List.getElem?_singleton] at hplace
        split at hplace
        · omega
        · cases hplace
  · rw [if_neg hother, h other place, List.getElem?_append]
    split
    · exact Iff.rfl
    · rename_i hlt
      rw [List.getElem?_eq_none (Nat.le_of_not_lt hlt), List.getElem?_singleton]
      split <;> simp [hother]

variable {α : Type} {parts : Array α} {key : α → String}

/-- A part with a new key goes to the next place. -/
theorem Indexes.push (h : places.Indexes (parts.toList.map key)) {part : α}
    (hnew : key part ∉ parts.toList.map key) :
    (places.insert (key part) parts.size).Indexes ((parts.push part).toList.map key) := by
  have hinsert := h.insert hnew
  rw [List.length_map, Array.length_toList] at hinsert
  rw [Array.toList_push, List.map_append]
  exact hinsert

/-- A part is found under a key if it has the key. -/
theorem Indexes.bind_getElem?_eq_some_iff (h : places.Indexes (parts.toList.map key))
    {name : String} {part : α} :
    ((places.get? name).bind fun place => parts[place]?) = some part ↔
      part ∈ parts ∧ key part = name := by
  rw [Option.bind_eq_some_iff, Array.mem_iff_getElem?]
  constructor
  · rintro ⟨place, hplace, hpart⟩
    have hkey := (h name place).1 hplace
    rw [List.getElem?_map, Array.getElem?_toList, hpart, Option.map_some, Option.some.injEq] at hkey
    exact ⟨⟨place, hpart⟩, hkey⟩
  · rintro ⟨⟨place, hpart⟩, hkey⟩
    refine ⟨place, (h name place).2 ?_, hpart⟩
    rw [List.getElem?_map, Array.getElem?_toList, hpart, Option.map_some, hkey]

end NameTable

namespace Graph

/-- Every stage and every choice stands in its table under its own key, at its own place, and
nothing else does. -/
structure Indexed (g : Graph) : Prop where
  stages : g.stagePlaces.Indexes (g.stages.toList.map Stage.key)
  choices : g.choicePlaces.Indexes (g.choices.toList.map Choice.key)

theorem indexed_empty (languages : List String) : (empty languages).Indexed :=
  ⟨NameTable.indexes_empty, NameTable.indexes_empty⟩

variable {g : Graph}

theorem Indexed.withChoice (h : g.Indexed) {c : Choice}
    (hnew : c.key ∉ g.choices.toList.map Choice.key) : (g.withChoice c).Indexed :=
  ⟨h.stages, h.choices.push hnew⟩

theorem Indexed.withStage (h : g.Indexed) {s : Stage}
    (hnew : s.key ∉ g.stages.toList.map Stage.key) : (g.withStage s).Indexed :=
  ⟨h.stages.push hnew, h.choices⟩

theorem Indexed.withChoices (h : g.Indexed) {cs : List Choice}
    (hnodup : (g.choices.toList.map Choice.key ++ cs.map Choice.key).Nodup) :
    (g.withChoices cs).Indexed := by
  induction cs generalizing g with
  | nil => exact h
  | cons c cs ih =>
    refine ih (h.withChoice fun hmem => ?_) ?_
    · exact (List.nodup_append.1 hnodup).2.2 _ hmem _ List.mem_cons_self rfl
    · rw [Graph.withChoice, Array.toList_push, List.map_append, List.append_assoc]
      exact hnodup

theorem Indexed.enterStages {d : Document} (h : g.Indexed)
    {xs : List (Document.Procedure × Document.Stage)}
    (hstages : (g.stages.toList.map Stage.key ++ xs.map fun x => x.1.stageKey x.2).Nodup)
    (hchoices :
      (g.choices.toList.map Choice.key ++ (d.compiledChoices xs).map Choice.key).Nodup) :
    (enterStages d g xs).Indexed := by
  induction xs generalizing g with
  | nil => exact h
  | cons x xs ih =>
    rw [Document.compiledChoices_cons, List.map_append, ← List.append_assoc] at hchoices
    -- the choices of a stage enter before the stage does
    have hentered : (g.withChoices (d.compiledRows x.1 x.2).flatten).Indexed :=
      h.withChoices (List.nodup_append.1 hchoices).1
    have hnew : x.1.stageKey x.2 ∉ g.stages.toList.map Stage.key := fun hmem =>
      (List.nodup_append.1 hstages).2.2 _ hmem _ List.mem_cons_self rfl
    refine ih (g := enterStage d g x) (hentered.withStage ?_) ?_ ?_
    · rw [stages_withChoices]
      exact hnew
    · rw [enterStage, Graph.withStage, Array.toList_push, stages_withChoices, List.map_append,
        List.append_assoc]
      exact hstages
    · rw [enterStage, Graph.withStage, choices_withChoices, Array.toList_append, List.map_append]
      exact hchoices

theorem Indexed.stageOfKey?_eq_some_iff (h : g.Indexed) {key : String} {s : Stage} :
    g.stageOfKey? key = some s ↔ s ∈ g.stages ∧ s.key = key :=
  h.stages.bind_getElem?_eq_some_iff

theorem Indexed.choiceOfKey?_eq_some_iff (h : g.Indexed) {key : String} {c : Choice} :
    g.choiceOfKey? key = some c ↔ c ∈ g.choices ∧ c.key = key :=
  h.choices.bind_getElem?_eq_some_iff

end Graph

/-! ## The parts of the graph of a document -/

namespace Document

/-- Stages in the graph, the choices of the first at the places from `first` on. -/
def compiledStages (d : Document) : Nat → List (Procedure × Stage) → List Graph.Stage
  | _, [] => []
  | first, x :: xs =>
    d.compiledStage x.1 x.2 first ::
      compiledStages d (first + (d.compiledRows x.1 x.2).flatten.length) xs

theorem compiledStages_append (d : Document) (first : Nat) (xs ys : List (Procedure × Stage)) :
    d.compiledStages first (xs ++ ys) =
      d.compiledStages first xs ++ d.compiledStages (first + (d.compiledChoices xs).length) ys := by
  induction xs generalizing first with
  | nil => rfl
  | cons x xs ih =>
    rw [List.cons_append, compiledStages, ih, compiledStages, List.cons_append,
      compiledChoices_cons, List.length_append, Nat.add_assoc]

theorem exists_of_mem_compiledStages {d : Document} {first : Nat} {xs : List (Procedure × Stage)}
    {stage : Graph.Stage} (h : stage ∈ d.compiledStages first xs) :
    ∃ before p s after, xs = before ++ (p, s) :: after ∧
      stage = d.compiledStage p s (first + (d.compiledChoices before).length) := by
  induction xs generalizing first with
  | nil => exact absurd h List.not_mem_nil
  | cons x xs ih =>
    rcases List.mem_cons.1 h with rfl | h
    · exact ⟨[], x.1, x.2, xs, rfl, rfl⟩
    · obtain ⟨before, p, s, after, rfl, rfl⟩ := ih h
      refine ⟨x :: before, p, s, after, rfl, ?_⟩
      rw [compiledChoices_cons, List.length_append, Nat.add_assoc]

end Document

namespace Graph

variable {d : Document}

/-- Stages that enter add their choices, in order. -/
theorem choices_enterStages (g : Graph) (xs : List (Document.Procedure × Document.Stage)) :
    (enterStages d g xs).choices.toList = g.choices.toList ++ d.compiledChoices xs := by
  induction xs generalizing g with
  | nil => exact (List.append_nil _).symm
  | cons x xs ih =>
    have hone : (enterStage d g x).choices.toList =
        g.choices.toList ++ (d.compiledRows x.1 x.2).flatten := by
      rw [enterStage, withStage, choices_withChoices, Array.toList_append]
    change (enterStages d (enterStage d g x) xs).choices.toList = _
    rw [ih, hone, Document.compiledChoices_cons, List.append_assoc]

/-- Stages that enter are added in order. -/
theorem stages_enterStages (g : Graph) (xs : List (Document.Procedure × Document.Stage)) :
    (enterStages d g xs).stages.toList =
      g.stages.toList ++ d.compiledStages g.choices.size xs := by
  induction xs generalizing g with
  | nil => exact (List.append_nil _).symm
  | cons x xs ih =>
    have hone : (enterStage d g x).stages.toList =
        g.stages.toList ++ [d.compiledStage x.1 x.2 g.choices.size] := by
      rw [enterStage, withStage, Array.toList_push, stages_withChoices]
    have hsize : (enterStage d g x).choices.size =
        g.choices.size + (d.compiledRows x.1 x.2).flatten.length := by
      simp [enterStage, withStage]
    change (enterStages d (enterStage d g x) xs).stages.toList = _
    rw [ih, hone, hsize, Document.compiledStages, List.append_assoc]
    rfl

end Graph

namespace Document

variable {d : Document}

theorem languages_graph (d : Document) : d.graph.languages = d.languages :=
  Graph.languages_enterStages (.empty d.languages) d.staged

theorem choices_graph (d : Document) :
    d.graph.choices.toList = d.compiledChoices d.staged :=
  Graph.choices_enterStages (.empty d.languages) d.staged

theorem stages_graph (d : Document) :
    d.graph.stages.toList = d.compiledStages 0 d.staged :=
  Graph.stages_enterStages (.empty d.languages) d.staged

/-- Every choice of the graph is what a plan of a stage of the document becomes. -/
theorem exists_plan_of_mem_choices {c : Graph.Choice} (hc : c ∈ d.graph.choices) :
    ∃ p s plan, (p, s) ∈ d.staged ∧ plan ∈ (p.plans s).flatten ∧ c = d.compiledChoice p s plan := by
  rw [← Array.mem_toList_iff, choices_graph] at hc
  obtain ⟨⟨p, s⟩, hx, hc⟩ := List.mem_flatMap.1 hc
  rw [Graph.flatten_compiledRows] at hc
  obtain ⟨plan, hplan, rfl⟩ := List.mem_map.1 hc
  exact ⟨p, s, plan, hx, hplan, rfl⟩

/-- The key of a choice is made of its ids. -/
theorem key_of_mem_choices {c : Graph.Choice} (hc : c ∈ d.graph.choices) :
    c.key = Key.choice c.procedure c.stage c.id := by
  obtain ⟨p, s, plan, -, -, rfl⟩ := exists_plan_of_mem_choices hc
  rfl

/-- The graph of a document that compiles has every part under its key. -/
theorem Compilable.indexed (h : d.Compilable) : d.graph.Indexed := by
  have hentered : (Graph.enterStages d (.empty d.languages) d.staged).Indexed :=
    (Graph.indexed_empty d.languages).enterStages h.stageKeys h.choiceKeys
  exact ⟨hentered.stages, hentered.choices⟩

/-- The choices of a stage are at its places, wherever it stands among the stages. -/
theorem choiceRows_compiledStage {before after : List (Procedure × Stage)} {p : Procedure}
    {s : Stage} (h : d.staged = before ++ (p, s) :: after) :
    d.graph.choiceRows (d.compiledStage p s (d.compiledChoices before).length).rows =
      d.compiledRows p s := by
  have hchoices : d.graph.choices.toList =
      d.compiledChoices before ++ ((d.compiledRows p s).flatten ++ d.compiledChoices after) := by
    rw [choices_graph, h, compiledChoices_append, compiledChoices_cons]
  exact Graph.choiceRows_numbered hchoices

/-- The graph of a document has the stage that a stage of the document becomes. -/
theorem exists_compiledStage {p : Procedure} {s : Stage} (hx : (p, s) ∈ d.staged) :
    ∃ first, d.compiledStage p s first ∈ d.graph.stages ∧
      d.graph.choiceRows (d.compiledStage p s first).rows = d.compiledRows p s := by
  obtain ⟨before, after, h⟩ := List.append_of_mem hx
  refine ⟨(d.compiledChoices before).length, ?_, choiceRows_compiledStage h⟩
  rw [← Array.mem_toList_iff, stages_graph, h, compiledStages_append, Nat.zero_add]
  exact List.mem_append_right _ List.mem_cons_self

/-- Every stage of the graph is what a stage of the document becomes. -/
theorem exists_staged {stage : Graph.Stage} (hstage : stage ∈ d.graph.stages) :
    ∃ p s first, (p, s) ∈ d.staged ∧ stage = d.compiledStage p s first ∧
      d.graph.choiceRows stage.rows = d.compiledRows p s := by
  rw [← Array.mem_toList_iff, stages_graph] at hstage
  obtain ⟨before, p, s, after, h, rfl⟩ := exists_of_mem_compiledStages hstage
  rw [Nat.zero_add]
  refine ⟨p, s, _, ?_, rfl, choiceRows_compiledStage h⟩
  rw [h]
  exact List.mem_append_right _ List.mem_cons_self

theorem mem_staged_iff {p : Procedure} {s : Stage} :
    (p, s) ∈ d.staged ↔ p ∈ d.procedures ∧ s ∈ p.stages := by
  simp only [staged, Procedure.staged, List.mem_flatMap, List.mem_map, Prod.mk.injEq]
  constructor
  · rintro ⟨p', hp, s', hs, rfl, rfl⟩
    exact ⟨hp, hs⟩
  · rintro ⟨hp, hs⟩
    exact ⟨p, hp, s, hs, rfl, rfl⟩

end Document

end ButtonDialog
