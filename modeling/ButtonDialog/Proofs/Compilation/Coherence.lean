import Mathlib.Data.List.Nodup
import ButtonDialog.Proofs.Compilation.Contents

/-! What the parts of a compiled graph promise each other.

    The tables undo the arrays: what stands in an array is found under its key, at its place, and
    nothing else is found. Places are handed out in order while the document is walked, so each of
    them is held once, by the procedure or the stage whose ids the part carries. No look-up leaves
    the arrays. -/

namespace ButtonDialog

/-! ## Tables as large as their arrays -/

namespace NameTable

variable {places : NameTable Nat} {keys : List String}

theorem Indexes.contains_iff (h : places.Indexes keys) {key : String} :
    places.contains key = true ↔ key ∈ keys := by
  rw [contains, Option.isSome_iff_exists, List.mem_iff_getElem?]
  exact exists_congr fun place => h key place

/-- A key that leads to one place stands at one place. -/
theorem Indexes.nodup (h : places.Indexes keys) : keys.Nodup := by
  refine List.nodup_iff_getElem?_ne_getElem?.2 fun i j hij hj heq => ?_
  have hkey : keys[j]? = some keys[j] := List.getElem?_eq_getElem hj
  have hi := (h _ i).2 (heq.trans hkey)
  rw [(h _ j).2 hkey, Option.some.injEq] at hi
  omega

/-- The table has a row for every key and no more. -/
theorem Indexes.size_eq (h : places.Indexes keys) : places.size = keys.length := by
  refine size_eq_length h.nodup fun key => ?_
  rw [mem_names_iff, h.contains_iff]

variable {α : Type} {parts : Array α} {key : α → String}

/-- A name leads to a place if the part that stands there has it as its key. -/
theorem Indexes.get?_eq_some_iff (h : places.Indexes (parts.toList.map key)) {name : String}
    {place : Nat} :
    places.get? name = some place ↔ ∃ part, parts[place]? = some part ∧ key part = name := by
  rw [h name place, List.getElem?_map, Array.getElem?_toList, Option.map_eq_some_iff]

/-- A name that is in the table leads to a part. -/
theorem Indexes.isSome_bind (h : places.Indexes (parts.toList.map key)) (name : String) :
    ((places.get? name).bind fun place => parts[place]?).isSome = places.contains name := by
  rw [contains]
  cases hplace : places.get? name with
  | none => rfl
  | some place =>
    obtain ⟨part, hpart, -⟩ := h.get?_eq_some_iff.1 hplace
    rw [Option.bind_some, hpart, Option.isSome_some, Option.isSome_some]

end NameTable

/-! ## Places that are handed out -/

section Handed

variable {α β : Type} {holders : List α} {name : α → β} {places : α → List Nat} {names : List β}

/-- Places that are handed out in the order of a list of names are those of the list, each once. -/
theorem flatMap_places_eq_range
    (h : holders.flatMap (fun a => (places a).map (name a, ·)) = names.zipIdx) :
    holders.flatMap places = List.range names.length := by
  have hsnd := congrArg (List.map Prod.snd) h
  simp only [List.map_flatMap, List.map_map, Function.comp_def, List.map_id'] at hsnd
  rw [hsnd, List.zipIdx_map_snd, List.range_eq_range']

/-- Who holds a place has the name that stands there. -/
theorem getElem?_of_mem_places
    (h : holders.flatMap (fun a => (places a).map (name a, ·)) = names.zipIdx) {a : α}
    (ha : a ∈ holders) {place : Nat} (hplace : place ∈ places a) :
    names[place]? = some (name a) := by
  refine List.mk_mem_zipIdx_iff_getElem?.1 ?_
  rw [← h]
  exact List.mem_flatMap.2 ⟨a, ha, List.mem_map_of_mem hplace⟩

theorem count_range {n place : Nat} (h : place < n) : (List.range n).count place = 1 :=
  List.count_eq_one_of_mem List.nodup_range (List.mem_range.2 h)

theorem map_range'_mk (b : β) (first n : Nat) :
    (List.range' first n).map (b, ·) = (List.replicate n b).zipIdx first := by
  induction n generalizing first with
  | zero => rfl
  | succ n ih => rw [List.range'_succ, List.map_cons, ih, List.replicate_succ, List.zipIdx_cons]

end Handed

theorem Graph.flatten_numbered {α : Type} (first : Nat) (rows : List (List α)) :
    (numbered first rows).flatten = List.range' first rows.flatten.length := by
  induction rows generalizing first with
  | nil => rfl
  | cons row rows ih =>
    rw [numbered, List.flatten_cons, ih, List.flatten_cons, List.length_append,
      List.range'_append_1]

namespace Document

variable {d : Document}

/-- The places of stages are handed out to procedures. -/
theorem handed_compiledProcedures (first : Nat) (ps : List Procedure) :
    (compiledProcedures first ps).flatMap (fun p => p.stages.map (p.id, ·)) =
      ((ps.flatMap Procedure.staged).map fun x => decimal x.1.id).zipIdx first := by
  induction ps generalizing first with
  | nil => rfl
  | cons p ps ih =>
    have hids : (p.staged.map fun x => decimal x.1.id) =
        List.replicate p.stages.length (decimal p.id) := by
      rw [Procedure.staged, List.map_map]
      exact (List.map_const' : p.stages.map (fun _ => decimal p.id) = _)
    rw [compiledProcedures, List.flatMap_cons, ih, List.flatMap_cons, List.map_append, hids,
      List.zipIdx_append, List.length_replicate, map_range'_mk]

/-- The places of choices are handed out to stages. -/
theorem handed_compiledStages (first : Nat) (xs : List (Procedure × Stage)) :
    (d.compiledStages first xs).flatMap
        (fun s => s.rows.flatten.map fun place => ((s.procedure, s.id), place)) =
      ((d.compiledChoices xs).map fun c => (c.procedure, c.stage)).zipIdx first := by
  induction xs generalizing first with
  | nil => rfl
  | cons x xs ih =>
    have hids : ((d.compiledRows x.1 x.2).flatten.map fun c => (c.procedure, c.stage)) =
        List.replicate (d.compiledRows x.1 x.2).flatten.length
          (decimal x.1.id, decimal x.2.id) := by
      rw [Graph.flatten_compiledRows, List.map_map, List.length_map]
      exact (List.map_const' : (x.1.plans x.2).flatten.map
        (fun _ => (decimal x.1.id, decimal x.2.id)) = _)
    rw [compiledStages, List.flatMap_cons, ih, compiledChoices_cons, List.map_append, hids,
      List.zipIdx_append, List.length_replicate, compiledStage, Graph.flatten_numbered,
      map_range'_mk]

theorem map_procedure_compiledStages (first : Nat) (xs : List (Procedure × Stage)) :
    (d.compiledStages first xs).map Graph.Stage.procedure = xs.map fun x => decimal x.1.id := by
  induction xs generalizing first with
  | nil => rfl
  | cons x xs ih => rw [compiledStages, List.map_cons, ih, List.map_cons, compiledStage]

/-- Over all procedures of the graph, the places of stages are handed out. -/
theorem handed_stages (d : Document) :
    d.graph.procedures.flatMap (fun p => p.stages.map (p.id, ·)) =
      (d.graph.stages.toList.map Graph.Stage.procedure).zipIdx := by
  rw [stages_graph, map_procedure_compiledStages]
  exact handed_compiledProcedures 0 d.procedures

/-- Over all stages of the graph, the places of choices are handed out. -/
theorem handed_choices (d : Document) :
    d.graph.stages.toList.flatMap
        (fun s => s.rows.flatten.map fun place => ((s.procedure, s.id), place)) =
      (d.graph.choices.toList.map fun c => (c.procedure, c.stage)).zipIdx := by
  rw [stages_graph, choices_graph]
  exact handed_compiledStages 0 d.staged

/-- The key of a stage is made of its ids. -/
theorem key_of_mem_stages {s : Graph.Stage} (hs : s ∈ d.graph.stages) :
    s.key = Key.stage s.procedure s.id := by
  obtain ⟨p, s, first, -, rfl, -⟩ := exists_staged hs
  rfl

end Document

/-! ## The promise -/

namespace Graph

/-- What the parts of a graph promise each other: the tables lead to the parts that have the keys,
and to no others; keys are made of ids; places are in bounds; and each place is held once, by the
part whose ids are carried there. -/
structure Coherent (g : Graph) : Prop where
  stageTable : ∀ key place,
    g.stagePlaces.get? key = some place ↔ ∃ s, g.stages[place]? = some s ∧ s.key = key
  stageTableSize : g.stagePlaces.size = g.stages.size
  choiceTable : ∀ key place,
    g.choicePlaces.get? key = some place ↔ ∃ c, g.choices[place]? = some c ∧ c.key = key
  choiceTableSize : g.choicePlaces.size = g.choices.size
  stageKey : ∀ s ∈ g.stages, s.key = Key.stage s.procedure s.id
  choiceKey : ∀ c ∈ g.choices, c.key = Key.choice c.procedure c.stage c.id
  stageBound : ∀ p ∈ g.procedures, ∀ place ∈ p.stages, place < g.stages.size
  choiceBound : ∀ s ∈ g.stages, ∀ row ∈ s.rows, ∀ place ∈ row, place < g.choices.size
  stageFound : ∀ key, (g.stageOfKey? key).isSome = g.stagePlaces.contains key
  choiceFound : ∀ key, (g.choiceOfKey? key).isSome = g.choicePlaces.contains key
  stageOnce : ∀ place < g.stages.size, (g.procedures.flatMap Procedure.stages).count place = 1
  stageHolder : ∀ p ∈ g.procedures, ∀ place ∈ p.stages, ∀ s, g.stages[place]? = some s →
    s.procedure = p.id
  choiceOnce : ∀ place < g.choices.size,
    (g.stages.toList.flatMap fun s => s.rows.flatten).count place = 1
  choiceHolder : ∀ s ∈ g.stages, ∀ row ∈ s.rows, ∀ place ∈ row, ∀ c, g.choices[place]? = some c →
    c.procedure = s.procedure ∧ c.stage = s.id

end Graph

/-- The graph of a document keeps all of this, once its keys lead to places. -/
theorem Document.coherent_graph {d : Document} (hg : d.graph.Indexed) : d.graph.Coherent := by
  have hstages := flatMap_places_eq_range d.handed_stages
  have hchoices := flatMap_places_eq_range d.handed_choices
  rw [List.length_map, Array.length_toList] at hstages hchoices
  -- a part carries the ids of whoever holds its place
  have hstageHeld : ∀ p ∈ d.graph.procedures, ∀ place ∈ p.stages,
      (d.graph.stages[place]?).map Graph.Stage.procedure = some p.id := by
    intro p hp place hplace
    have hheld := getElem?_of_mem_places d.handed_stages hp hplace
    rwa [List.getElem?_map, Array.getElem?_toList] at hheld
  have hchoiceHeld : ∀ s ∈ d.graph.stages, ∀ row ∈ s.rows, ∀ place ∈ row,
      (d.graph.choices[place]?).map (fun c => (c.procedure, c.stage)) = some (s.procedure, s.id) := by
    intro s hs row hrow place hplace
    have hheld := getElem?_of_mem_places d.handed_choices (Array.mem_toList_iff.2 hs)
      (List.mem_flatten.2 ⟨row, hrow, hplace⟩)
    rwa [List.getElem?_map, Array.getElem?_toList] at hheld
  refine ⟨fun key place => hg.stages.get?_eq_some_iff, ?_,
    fun key place => hg.choices.get?_eq_some_iff, ?_, fun s hs => key_of_mem_stages hs,
    fun c hc => key_of_mem_choices hc, fun p hp place hplace => ?_,
    fun s hs row hrow place hplace => ?_, hg.stages.isSome_bind, hg.choices.isSome_bind,
    fun place hplace => ?_, fun p hp place hplace s hs => ?_, fun place hplace => ?_,
    fun s hs row hrow place hplace c hc => ?_⟩
  · rw [hg.stages.size_eq, List.length_map, Array.length_toList]
  · rw [hg.choices.size_eq, List.length_map, Array.length_toList]
  · have hheld := congrArg Option.isSome (hstageHeld p hp place hplace)
    rwa [Option.isSome_map, Option.isSome_some, isSome_getElem?] at hheld
  · have hheld := congrArg Option.isSome (hchoiceHeld s hs row hrow place hplace)
    rwa [Option.isSome_map, Option.isSome_some, isSome_getElem?] at hheld
  · rw [hstages]
    exact count_range hplace
  · have hheld := hstageHeld p hp place hplace
    rw [hs] at hheld
    exact Option.some.inj hheld
  · rw [hchoices]
    exact count_range hplace
  · have hheld := hchoiceHeld s hs row hrow place hplace
    rw [hc] at hheld
    exact Prod.mk.inj (Option.some.inj hheld)

/-- Whatever document compiles, validated or built by hand, the parts of its graph keep what they
promise each other. -/
theorem Graph.coherent_of_compile {d : Document} {g : Graph} (h : Graph.compile d = .ok g) :
    g.Coherent := by
  obtain ⟨hcompilable, rfl⟩ := Graph.compile_eq_ok_iff.1 h
  exact Document.coherent_graph hcompilable.indexed

/-- A document that no validation would accept: two procedures have one id, two buttons have one id,
and a row is empty. Its keys are distinct all the same. -/
def Document.twins : Document where
  languages := ["en"]
  buttons := [⟨1, none, .ofList [("en", "Go")]⟩, ⟨2, none, .ofList [("en", "Back")]⟩,
    ⟨1, none, .ofList [("en", "Go on")]⟩]
  procedures := [
    ⟨1, some "First", 1, true, true, some 2, some 2, [
      ⟨1, none, some 2, false, false, .ofList [("en", "Here")], [[⟨1, 1, some 2⟩]]⟩,
      ⟨2, none, some 1, false, false, .ofList [("en", "There")], [[], [⟨1, 1, none⟩]]⟩]⟩,
    ⟨1, none, 3, true, true, some 2, none, [
      ⟨3, none, none, false, false, .ofList [("en", "Apart")], []⟩,
      ⟨4, none, none, true, false, .ofList [("en", "Alone")], [[⟨1, 2, some 3⟩]]⟩]⟩]

theorem Document.graph_twins : Graph.compile Document.twins = .ok Document.twins.graph :=
  Graph.compile_eq_ok_iff.2
    ⟨⟨by decide, by decide +kernel, by decide +kernel, by decide +kernel⟩, rfl⟩

theorem Graph.coherent_twins :
    Graph.compile Document.twins = .ok Document.twins.graph ∧ Document.twins.graph.Coherent :=
  ⟨Document.graph_twins, Graph.coherent_of_compile Document.graph_twins⟩

end ButtonDialog
