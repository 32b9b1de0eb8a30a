import Mathlib.Data.List.Nodup
import ButtonDialog.Proofs.Compilation.Contents
import ButtonDialog.Proofs.Keys
import ButtonDialog.Proofs.Validation.Documents
import ButtonDialog.Service.Startup

/-! Valid documents compile.

    Ids are unique in their scopes, so the lists of ids that stages and choices get their keys from
    are distinct; the ways back have ids that no number is written as. Keys are then distinct if the
    digest tells the joined ids of the document apart. Buttons and root stages are there because
    references lead somewhere. -/

namespace ButtonDialog

namespace Document

/-! ## The ids behind the keys -/

/-- The ids that the stages of a document get their keys from. -/
def stageIds (d : Document) : List (List String) :=
  d.staged.map fun x => [decimal x.1.id, decimal x.2.id]

/-- The ids that the choices of a document get their keys from, the ways back among them. -/
def choiceIds (d : Document) : List (List String) :=
  d.staged.flatMap fun x =>
    (x.1.plans x.2).flatten.map fun plan => [decimal x.1.id, decimal x.2.id, plan.id]

/-- The digest tells the joined ids of the stages apart, and those of the choices. -/
structure KeysApart (d : Document) : Prop where
  stages : Sha256.Apart (d.stageIds.map Key.joined)
  choices : Sha256.Apart (d.choiceIds.map Key.joined)

instance (d : Document) : Decidable d.KeysApart :=
  decidable_of_iff
    (Sha256.Apart (d.stageIds.map Key.joined) ∧ Sha256.Apart (d.choiceIds.map Key.joined))
    ⟨fun ⟨hstages, hchoices⟩ => ⟨hstages, hchoices⟩, fun h => ⟨h.stages, h.choices⟩⟩

theorem map_ofParts_stageIds (d : Document) :
    d.stageIds.map Key.ofParts = d.staged.map fun x => x.1.stageKey x.2 := by
  rw [stageIds, List.map_map]
  rfl

theorem map_ofParts_choiceIds (d : Document) :
    d.choiceIds.map Key.ofParts = (d.compiledChoices d.staged).map Graph.Choice.key := by
  rw [choiceIds, compiledChoices, List.map_flatMap, List.map_flatMap]
  refine congrArg d.staged.flatMap (funext fun x => ?_)
  rw [Graph.flatten_compiledRows, List.map_map, List.map_map]
  rfl

theorem flatten_plans (p : Procedure) (s : Stage) :
    (p.plans s).flatten = s.choices.map Choice.plan ++ p.waysBack s := by
  have hrows : (s.rows.map (·.map Choice.plan)).flatten = s.choices.map Choice.plan :=
    List.map_flatten.symm
  rw [Procedure.plans, List.flatten_append, hrows]
  cases hback : p.waysBack s with
  | nil => simp
  | cons plan plans => simp

theorem mem_waysBack {p : Procedure} {s : Stage} {plan : ChoicePlan}
    (h : plan ∈ p.waysBack s) :
    (∃ button, p.toPreviousButton = some button ∧
        plan = ⟨toPreviousId, .toPrevious, button, s.previous⟩) ∨
      ∃ button, p.toRootButton = some button ∧ plan = ⟨toRootId, .toRoot, button, some p.root⟩ := by
  unfold Procedure.waysBack at h
  split at h
  · exact absurd h List.not_mem_nil
  · rcases List.mem_append.1 h with h | h
    · obtain ⟨button, hbutton, rfl⟩ := Option.map_eq_some_iff.1 (Option.mem_toList.1 h)
      obtain ⟨hbutton, -⟩ := Option.filter_eq_some_iff.1 (Option.filter_eq_some_iff.1 hbutton).1
      exact .inl ⟨button, hbutton, rfl⟩
    · obtain ⟨button, hbutton, rfl⟩ := Option.map_eq_some_iff.1 (Option.mem_toList.1 h)
      obtain ⟨hbutton, -⟩ := Option.filter_eq_some_iff.1 (Option.filter_eq_some_iff.1 hbutton).1
      exact .inr ⟨button, hbutton, rfl⟩

theorem ids_toList_sublist (id : String) (x : Option Int64) {plan : Int64 → ChoicePlan}
    (h : ∀ button, (plan button).id = id) :
    ((x.map plan).toList.map ChoicePlan.id).Sublist [id] := by
  cases x with
  | none => exact List.nil_sublist _
  | some button =>
    have hids : ((some button).map plan).toList.map ChoicePlan.id = [id] := by
      rw [Option.map_some, Option.toList_some, List.map_singleton, h]
    exact hids ▸ List.Sublist.refl _

/-- A stage has at most one way back to the previous stage and one to the root. -/
theorem waysBack_ids_sublist (p : Procedure) (s : Stage) :
    ((p.waysBack s).map ChoicePlan.id).Sublist [toPreviousId, toRootId] := by
  unfold Procedure.waysBack
  split
  · exact List.nil_sublist _
  · rw [List.map_append]
    exact List.Sublist.append (ids_toList_sublist toPreviousId _ fun _ => rfl)
      (ids_toList_sublist toRootId _ fun _ => rfl)

/-- The ids of the ways back begin with a letter, so no number is written as one of them. -/
theorem decimal_notMem_waysBack (n : Int64) : decimal n ∉ [toPreviousId, toRootId] := by
  intro h
  have hletter : 'T' ∈ (decimal n).toList := by
    rcases List.mem_cons.1 h with h | h
    · rw [h]
      decide
    · rw [List.mem_singleton.1 h]
      decide
  rcases isDigit_or_minus_of_mem_decimal hletter with h | h <;> cases h

/-- The ids of choices are numbers and the two words for the ways back, none of which has a bar. -/
theorem barFree_plan {p : Procedure} {s : Stage} {plan : ChoicePlan}
    (hplan : plan ∈ (p.plans s).flatten) : Key.BarFree plan.id := by
  rw [flatten_plans] at hplan
  rcases List.mem_append.1 hplan with hplan | hplan
  · obtain ⟨c, -, rfl⟩ := List.mem_map.1 hplan
    exact Key.barFree_decimal c.id
  · rcases mem_waysBack hplan with ⟨button, -, rfl⟩ | ⟨button, -, rfl⟩
    · show '|' ∉ toPreviousId.toList
      decide
    · show '|' ∉ toRootId.toList
      decide

theorem barFree_stageIds {d : Document} {ids : List String} (h : ids ∈ d.stageIds) :
    ∀ id ∈ ids, Key.BarFree id := by
  obtain ⟨x, -, rfl⟩ := List.mem_map.1 h
  simp [Key.barFree_decimal]

theorem barFree_choiceIds {d : Document} {ids : List String} (h : ids ∈ d.choiceIds) :
    ∀ id ∈ ids, Key.BarFree id := by
  obtain ⟨x, -, h⟩ := List.mem_flatMap.1 h
  obtain ⟨plan, hplan, rfl⟩ := List.mem_map.1 h
  simp [Key.barFree_decimal, barFree_plan hplan]

variable {d : Document} {p : Procedure} {s : Stage}

/-- The choices of a stage, ways back among them, have distinct ids if the declared ones have. -/
theorem nodup_plans_iff :
    ((p.plans s).flatten.map ChoicePlan.id).Nodup ↔ (s.choices.map Choice.id).Nodup := by
  have hdeclared : ((s.choices.map Choice.plan).map ChoicePlan.id) =
      (s.choices.map Choice.id).map decimal := by
    rw [List.map_map, List.map_map]
    rfl
  rw [flatten_plans, List.map_append, hdeclared, List.nodup_append,
    List.nodup_map_iff fun _ _ => decimal_injective]
  refine ⟨And.left, fun h => ⟨h, (waysBack_ids_sublist p s).nodup (by decide), ?_⟩⟩
  intro a ha b hb hab
  obtain ⟨n, -, rfl⟩ := List.mem_map.1 ha
  exact decimal_notMem_waysBack n (hab ▸ (waysBack_ids_sublist p s).subset hb)

/-- Stages get their keys from distinct ids if no two of them share both ids. -/
theorem nodup_stageIds_iff :
    d.stageIds.Nodup ↔ (d.staged.map fun x => (x.1.id, x.2.id)).Nodup := by
  have hinj : Function.Injective fun ids : Int64 × Int64 => [decimal ids.1, decimal ids.2] := by
    rintro ⟨i, j⟩ ⟨i', j'⟩ heq
    simpa using heq
  rw [← List.nodup_map_iff hinj, List.map_map]
  rfl

/-- Where stages have distinct ids, choices have if those of each stage have. -/
theorem nodup_choiceIds_iff (hstages : d.stageIds.Nodup) :
    d.choiceIds.Nodup ↔ ∀ x ∈ d.staged, ((x.1.plans x.2).flatten.map ChoicePlan.id).Nodup := by
  -- in one stage the last ids differ, in two stages one of the first two does
  refine List.pairwise_flatMap.trans ((and_iff_left ?_).trans (forall₂_congr fun x _ => ?_))
  · refine (List.pairwise_map.1 hstages).imp ?_
    intro x x' hne ids hids ids' hids' heq
    obtain ⟨plan, -, rfl⟩ := List.mem_map.1 hids
    obtain ⟨plan', -, rfl⟩ := List.mem_map.1 hids'
    obtain ⟨hprocedure, hrest⟩ := List.cons.inj heq
    exact hne (by rw [hprocedure, (List.cons.inj hrest).1])
  · have hinj : Function.Injective fun id : String => [decimal x.1.id, decimal x.2.id, id] := by
      intro id id' heq
      simpa using heq
    rw [← List.nodup_map_iff hinj, List.map_map]
    rfl

/-- Where the digest tells the joined ids of a document apart, distinct ids are as good as distinct
keys. -/
theorem compilable_iff (hapart : d.KeysApart) :
    d.Compilable ↔ (∀ p ∈ d.procedures, ∃ s ∈ p.stages, s.id = p.root) ∧ d.stageIds.Nodup ∧
      d.choiceIds.Nodup ∧
        ∀ x ∈ d.staged, ∀ plan ∈ (x.1.plans x.2).flatten, (d.button? plan.button).isSome := by
  have hroot : ∀ p : Procedure, p.stages.any p.isRoot = true ↔ ∃ s ∈ p.stages, s.id = p.root := by
    simp [Procedure.isRoot]
  have hstages : (d.staged.map fun x => x.1.stageKey x.2).Nodup ↔ d.stageIds.Nodup := by
    rw [← map_ofParts_stageIds]
    refine ⟨List.Nodup.of_map _, Key.nodup_map_ofParts hapart.stages ?_ fun _ => barFree_stageIds⟩
    intro ids hids
    obtain ⟨x, -, rfl⟩ := List.mem_map.1 hids
    exact List.cons_ne_nil _ _
  have hchoices : ((d.compiledChoices d.staged).map Graph.Choice.key).Nodup ↔
      d.choiceIds.Nodup := by
    rw [← map_ofParts_choiceIds]
    refine ⟨List.Nodup.of_map _,
      Key.nodup_map_ofParts hapart.choices ?_ fun _ => barFree_choiceIds⟩
    intro ids hids
    obtain ⟨x, -, hids⟩ := List.mem_flatMap.1 hids
    obtain ⟨plan, -, rfl⟩ := List.mem_map.1 hids
    exact List.cons_ne_nil _ _
  constructor
  · rintro ⟨hroots, hstageKeys, hchoiceKeys, hbuttons⟩
    exact ⟨fun p hp => (hroot p).1 (hroots p hp), hstages.1 hstageKeys, hchoices.1 hchoiceKeys,
      hbuttons⟩
  · rintro ⟨hroots, hstageIds, hchoiceIds, hbuttons⟩
    exact ⟨fun p hp => (hroot p).2 (hroots p hp), hstages.2 hstageIds, hchoices.2 hchoiceIds,
      hbuttons⟩

namespace Valid

/-- Every choice that enters, a way back or not, shows a button that is there. -/
theorem isSome_plan_button (h : d.Valid) (hp : p ∈ d.procedures) (hs : s ∈ p.stages)
    {plan : ChoicePlan} (hplan : plan ∈ (p.plans s).flatten) :
    (d.button? plan.button).isSome = true := by
  rw [flatten_plans] at hplan
  rcases List.mem_append.1 hplan with hplan | hplan
  · obtain ⟨c, hc, rfl⟩ := List.mem_map.1 hplan
    exact h.isSome_button hp hs hc
  · rcases mem_waysBack hplan with ⟨button, hbutton, rfl⟩ | ⟨button, hbutton, rfl⟩
    · exact h.isSome_toPreviousButton hp hbutton
    · exact h.isSome_toRootButton hp hbutton

/-- Every choice that enters leads, if anywhere, to a stage of its procedure. -/
theorem exists_plan_next (h : d.Valid) (hp : p ∈ d.procedures) (hs : s ∈ p.stages)
    {plan : ChoicePlan} (hplan : plan ∈ (p.plans s).flatten) {id : Int64}
    (hid : plan.next = some id) : ∃ s' ∈ p.stages, s'.id = id := by
  rw [flatten_plans] at hplan
  rcases List.mem_append.1 hplan with hplan | hplan
  · obtain ⟨c, hc, rfl⟩ := List.mem_map.1 hplan
    exact h.exists_next hp hs hc hid
  · rcases mem_waysBack hplan with ⟨button, hbutton, rfl⟩ | ⟨button, hbutton, rfl⟩
    · exact h.exists_previous hp hs hid
    · cases hid
      exact h.exists_root hp

theorem nodup_stageIds (h : d.Valid) : d.stageIds.Nodup := by
  rw [nodup_stageIds_iff, staged, List.map_flatMap]
  refine List.pairwise_flatMap.2 ⟨fun p hp => ?_, ?_⟩
  · rw [Procedure.staged, List.map_map]
    refine List.pairwise_map.2 ((List.pairwise_map.1 (h.nodup_stages hp)).imp ?_)
    intro s s' hne heq
    exact hne (Prod.mk.inj heq).2
  · refine (List.pairwise_map.1 h.nodup_procedures).imp ?_
    intro p p' hne ids hids ids' hids' heq
    obtain ⟨x, hx, rfl⟩ := List.mem_map.1 hids
    obtain ⟨x', hx', rfl⟩ := List.mem_map.1 hids'
    obtain ⟨s, -, rfl⟩ := List.mem_map.1 hx
    obtain ⟨s', -, rfl⟩ := List.mem_map.1 hx'
    exact hne (Prod.mk.inj heq).1

theorem nodup_choiceIds (h : d.Valid) : d.choiceIds.Nodup := by
  rw [nodup_choiceIds_iff h.nodup_stageIds]
  rintro ⟨p, s⟩ hx
  obtain ⟨hp, hs⟩ := mem_staged_iff.1 hx
  exact nodup_plans_iff.2 (h.nodup_choices hp hs)

/-- A valid document compiles, if the digest tells its joined ids apart. -/
theorem compilable (h : d.Valid) (hapart : d.KeysApart) : d.Compilable := by
  refine (compilable_iff hapart).2
    ⟨fun p hp => h.exists_root hp, h.nodup_stageIds, h.nodup_choiceIds, ?_⟩
  rintro ⟨p, s⟩ hx plan hplan
  obtain ⟨hp, hs⟩ := mem_staged_iff.1 hx
  exact h.isSome_plan_button hp hs hplan

end Valid

end Document

/-! ## Validation is enough -/

/-- The document of a draft that validation accepts has a graph, ways back and all, if the digest
tells the joined ids of the document apart. So a text without a router is one that cannot be loaded,
never one that cannot be compiled. -/
theorem Graph.compile_validated :
    (∀ (draft : Draft) (d : Document), draft.validate = .ok d → d.KeysApart →
      ∃ g, Graph.compile d = .ok g) ∧
    ∀ (σ : Type) (transport : Transport σ) (text : String),
      (∀ d, Document.ofText text = .ok d → d.KeysApart) →
        ∀ trouble, (Startup.bareRouter transport text).2 = .error trouble →
          ∃ e, trouble = .load e := by
  have hcompile : ∀ {d : Document}, d.Valid → d.KeysApart → ∃ g, Graph.compile d = .ok g :=
    fun hvalid hapart => ⟨_, Graph.compile_eq_ok_iff.2 ⟨hvalid.compilable hapart, rfl⟩⟩
  refine ⟨fun draft d h hapart => hcompile (Document.valid_of_validate h) hapart,
    fun σ transport text hapart trouble htrouble => ?_⟩
  unfold Startup.bareRouter at htrouble
  cases hload : Document.ofText text with
  | error e =>
    rw [hload] at htrouble
    cases htrouble
    exact ⟨e, rfl⟩
  | ok d =>
    obtain ⟨g, hg⟩ := hcompile (Document.valid_of_ofText hload) (hapart d hload)
    rw [hload] at htrouble
    simp only [hg] at htrouble
    cases htrouble

/-- A document of two stages, with a choice that leads to the second and a way back. -/
def Document.twoStages : Document where
  languages := ["en"]
  buttons := [⟨1, none, .ofList [("en", "Go")]⟩, ⟨2, none, .ofList [("en", "Back")]⟩]
  procedures := [{
    id := 1
    title := none
    root := 1
    addToRoot := false
    addToPrevious := true
    toRootButton := none
    toPreviousButton := some 2
    stages := [
      ⟨1, none, none, false, false, .ofList [("en", "Here")], [[⟨1, 1, some 2⟩]]⟩,
      ⟨2, none, some 1, false, false, .ofList [("en", "There")], []⟩] }]

theorem Graph.compile_twoStages : ∃ g, Graph.compile Document.twoStages = .ok g :=
  Graph.compile_validated.1 Document.twoStages.draft Document.twoStages
    (Checks.toOption_eq_some_iff.1 (by decide +kernel)) (by decide +kernel)

theorem Document.valid_twoStages : Document.twoStages.Valid :=
  valid_of_validate (Checks.toOption_eq_some_iff.1
    (by decide +kernel : Document.twoStages.draft.validate.toOption = some Document.twoStages))

theorem Document.graph_twoStages :
    Graph.compile Document.twoStages = .ok Document.twoStages.graph :=
  Graph.compile_eq_ok_iff.2 ⟨valid_twoStages.compilable (by decide +kernel), rfl⟩

end ButtonDialog
