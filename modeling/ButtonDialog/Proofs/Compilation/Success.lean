import ButtonDialog.Proofs.Checks
import ButtonDialog.Proofs.Compilation.Assembly

/-! When a document compiles.

    Choices, stages and procedures enter if all their keys are new, all their buttons are there and
    every procedure has its root stage. So compiling gives the graph of the document under these
    conditions, and fails otherwise. -/

namespace ButtonDialog

/-! ## Names that are new to a table -/

/-- Names that are distinct, none of which is in the table. -/
def NameTable.Fresh {α : Type} (t : NameTable α) (names : List String) : Prop :=
  names.Nodup ∧ ∀ name ∈ names, t.contains name = false

/-- Names are new one after another, the later ones to a table that has the earlier ones. -/
theorem NameTable.fresh_append {α : Type} {t t' : NameTable α} {names names' : List String}
    (h : ∀ name, t'.contains name = true ↔ t.contains name = true ∨ name ∈ names) :
    t.Fresh (names ++ names') ↔ t.Fresh names ∧ t'.Fresh names' := by
  have hfalse : ∀ name, t'.contains name = false ↔ t.contains name = false ∧ name ∉ names := by
    intro name
    rw [← Bool.not_eq_true, ← Bool.not_eq_true, h, not_or]
  simp only [Fresh, hfalse, List.nodup_append, List.forall_mem_append]
  constructor
  · rintro ⟨⟨hnodup, hnodup', hne⟩, hold, hold'⟩
    exact ⟨⟨hnodup, hold⟩, hnodup', fun name hname =>
      ⟨hold' name hname, fun hmem => hne name hmem name hname rfl⟩⟩
  · rintro ⟨⟨hnodup, hold⟩, hnodup', hnew⟩
    exact ⟨⟨hnodup, hnodup', fun a ha b hb e => (hnew b hb).2 (e ▸ ha)⟩, hold,
      fun name hname => (hnew name hname).1⟩

theorem NameTable.fresh_nil {α : Type} (t : NameTable α) : t.Fresh [] := ⟨List.nodup_nil, nofun⟩

theorem NameTable.fresh_singleton {α : Type} {t : NameTable α} {name : String} :
    t.Fresh [name] ↔ t.contains name = false := by
  simp [Fresh]

namespace Graph

open Checks

variable {d : Document} {p : Document.Procedure} {s : Document.Stage}

/-- Keys of choices are new one after another. -/
theorem fresh_choicePlaces_append {g : Graph} {cs : List Choice} {keys : List String} :
    g.choicePlaces.Fresh (cs.map Choice.key ++ keys) ↔
      g.choicePlaces.Fresh (cs.map Choice.key) ∧ (g.withChoices cs).choicePlaces.Fresh keys :=
  NameTable.fresh_append (contains_choicePlaces_withChoices g cs)

/-! ## When choices enter -/

/-- Entering parts one after another, once it is known when one part can enter and what it leaves:
`Can` tells when a list of parts can enter, and `run` what it leaves. -/
theorem addEach_eq_ok_iff {α β : Type} {add : Graph → α → Except CompileError (Graph × β)}
    {CanOne : Graph → α → Prop} {one : Graph → α → Graph × β} (Can : Graph → List α → Prop)
    (run : Graph → List α → Graph × List β)
    (hadd : ∀ g a r, add g a = .ok r ↔ CanOne g a ∧ r = one g a)
    (hnil : ∀ g, Can g [] ∧ run g [] = (g, []))
    (hcan : ∀ g a as, Can g (a :: as) ↔ CanOne g a ∧ Can (one g a).1 as)
    (hrun : ∀ g a as, run g (a :: as) =
      ((run (one g a).1 as).1, (one g a).2 :: (run (one g a).1 as).2))
    {g : Graph} {as : List α} {r : Graph × List β} :
    addEach add g as = .ok r ↔ Can g as ∧ r = run g as := by
  induction as generalizing g r with
  | nil =>
    rw [addEach, (hnil g).2, Except.ok.injEq, and_iff_right (hnil g).1]
    exact eq_comm
  | cons a as ih =>
    rw [addEach, bind_eq_ok_iff, hcan, hrun]
    constructor
    · rintro ⟨first, hfirst, h⟩
      obtain ⟨hone, rfl⟩ := (hadd _ _ _).1 hfirst
      obtain ⟨rest, hrest, h⟩ := bind_eq_ok_iff.1 h
      obtain ⟨hall, rfl⟩ := ih.1 hrest
      cases h
      exact ⟨⟨hone, hall⟩, rfl⟩
    · rintro ⟨⟨hone, hall⟩, rfl⟩
      exact ⟨_, (hadd _ _ _).2 ⟨hone, rfl⟩, bind_eq_ok_iff.2 ⟨_, ih.2 ⟨hall, rfl⟩, rfl⟩⟩

/-- Choices that can enter: their keys are new, and their buttons are there. -/
def CanEnter (d : Document) (p : Document.Procedure) (s : Document.Stage) (g : Graph)
    (plans : List ChoicePlan) : Prop :=
  g.choicePlaces.Fresh ((plans.map (d.compiledChoice p s)).map Choice.key) ∧
    ∀ plan ∈ plans, (d.button? plan.button).isSome

theorem canEnter_append {g : Graph} {plans plans' : List ChoicePlan} :
    CanEnter d p s g (plans ++ plans') ↔
      CanEnter d p s g plans ∧
        CanEnter d p s (g.withChoices (plans.map (d.compiledChoice p s))) plans' := by
  simp only [CanEnter, List.map_append, fresh_choicePlaces_append, List.forall_mem_append]
  exact and_and_and_comm

theorem addChoice_eq_ok_iff {g : Graph} {plan : ChoicePlan} {r : Graph × Nat} :
    addChoice d (decimal p.id) (decimal s.id) g plan = .ok r ↔
      CanEnter d p s g [plan] ∧
        r = (g.withChoices [d.compiledChoice p s plan], g.choices.size) := by
  have hkey : (d.compiledChoice p s plan).key =
    Key.choice (decimal p.id) (decimal s.id) plan.id := rfl
  simp only [CanEnter, List.map_cons, List.map_nil, NameTable.fresh_singleton,
    List.forall_mem_singleton, addChoice, hkey]
  cases hold : g.choicePlaces.contains (Key.choice (decimal p.id) (decimal s.id) plan.id) with
  | true => simp
  | false =>
    cases hbutton : d.button? plan.button with
    | none => simp
    | some button =>
      have hlabel : d.label plan.button = button.text := by rw [Document.label, hbutton]; rfl
      simp only [Bool.false_eq_true, if_false, Except.ok.injEq, Option.isSome_some, and_self,
        true_and, withChoices, List.foldl_cons, List.foldl_nil, withChoice, Document.compiledChoice,
        hlabel]
      exact eq_comm

/-- A row of choices enters when its keys are new and its buttons are there. -/
theorem addRow_eq_ok_iff {g : Graph} {plans : List ChoicePlan} {r : Graph × List Nat} :
    addEach (addChoice d (decimal p.id) (decimal s.id)) g plans = .ok r ↔
      CanEnter d p s g plans ∧
        r = (g.withChoices (plans.map (d.compiledChoice p s)),
          List.range' g.choices.size plans.length) := by
  have hadd : ∀ g plan r, addChoice d (decimal p.id) (decimal s.id) g plan = .ok r ↔
      CanEnter d p s g [plan] ∧
        r = (g.withChoices [d.compiledChoice p s plan], g.choices.size) :=
    fun _ _ _ => addChoice_eq_ok_iff
  refine addEach_eq_ok_iff (CanEnter d p s) (fun g plans =>
      (g.withChoices (plans.map (d.compiledChoice p s)),
        List.range' g.choices.size plans.length))
    hadd (fun g => ?_) (fun g plan plans => ?_) (fun g plan plans => ?_)
  · exact ⟨⟨NameTable.fresh_nil _, nofun⟩, rfl⟩
  · rw [← List.singleton_append]
    exact canEnter_append
  · have hsize : (g.withChoices [d.compiledChoice p s plan]).choices.size = g.choices.size + 1 := by
      simp
    rw [hsize, List.map_cons, List.length_cons, List.range'_succ]
    rfl

/-- Rows of choices enter when all their keys are new and all their buttons are there. -/
theorem addRows_eq_ok_iff {g : Graph} {rows : List (List ChoicePlan)}
    {r : Graph × List (List Nat)} :
    addEach (addEach (addChoice d (decimal p.id) (decimal s.id))) g rows = .ok r ↔
      CanEnter d p s g rows.flatten ∧
        r = (g.withChoices (rows.flatten.map (d.compiledChoice p s)),
          numbered g.choices.size rows) := by
  have hadd : ∀ g row r, addEach (addChoice d (decimal p.id) (decimal s.id)) g row = .ok r ↔
      CanEnter d p s g row ∧
        r = (g.withChoices (row.map (d.compiledChoice p s)),
          List.range' g.choices.size row.length) :=
    fun _ _ _ => addRow_eq_ok_iff
  refine addEach_eq_ok_iff (fun g rows => CanEnter d p s g rows.flatten) (fun g rows =>
      (g.withChoices (rows.flatten.map (d.compiledChoice p s)), numbered g.choices.size rows))
    hadd (fun g => ?_) (fun g row rows => ?_) (fun g row rows => ?_)
  · exact ⟨⟨NameTable.fresh_nil _, nofun⟩, rfl⟩
  · rw [List.flatten_cons]
    exact canEnter_append
  · have hsize : (g.withChoices (row.map (d.compiledChoice p s))).choices.size =
        g.choices.size + row.length := by simp
    rw [hsize, List.flatten_cons, List.map_append, withChoices_append, numbered]

/-! ## When stages enter -/

/-- Stages that can enter: all keys are new, and the buttons of all choices are there. -/
structure CanEnterStages (d : Document) (g : Graph)
    (xs : List (Document.Procedure × Document.Stage)) : Prop where
  stageKeys : g.stagePlaces.Fresh (xs.map fun x => x.1.stageKey x.2)
  choiceKeys : g.choicePlaces.Fresh ((d.compiledChoices xs).map Choice.key)
  buttons : ∀ x ∈ xs, ∀ plan ∈ (x.1.plans x.2).flatten, (d.button? plan.button).isSome

theorem canEnterStages_nil (g : Graph) : CanEnterStages d g [] :=
  ⟨NameTable.fresh_nil _, NameTable.fresh_nil _, fun _ h => absurd h List.not_mem_nil⟩

theorem flatten_compiledRows :
    (d.compiledRows p s).flatten = (p.plans s).flatten.map (d.compiledChoice p s) :=
  List.map_flatten.symm

/-- Stages can enter if the first of them can and the others can after these. -/
theorem canEnterStages_append {g : Graph}
    {xs ys : List (Document.Procedure × Document.Stage)} :
    CanEnterStages d g (xs ++ ys) ↔
      CanEnterStages d g xs ∧ CanEnterStages d (enterStages d g xs) ys := by
  have hstages := @NameTable.fresh_append _ _ _ _ (ys.map fun y => y.1.stageKey y.2)
    (@contains_stagePlaces_enterStages d g xs)
  have hchoices := @NameTable.fresh_append _ _ _ _
    ((d.compiledChoices ys).map Choice.key)
    (@contains_choicePlaces_enterStages d g xs)
  rw [← List.map_append] at hstages hchoices
  rw [← Document.compiledChoices_append] at hchoices
  constructor
  · rintro ⟨hs, hc, hb⟩
    rw [hstages] at hs
    rw [hchoices] at hc
    rw [List.forall_mem_append] at hb
    exact ⟨⟨hs.1, hc.1, hb.1⟩, hs.2, hc.2, hb.2⟩
  · rintro ⟨⟨hs, hc, hb⟩, hs', hc', hb'⟩
    exact ⟨hstages.2 ⟨hs, hs'⟩, hchoices.2 ⟨hc, hc'⟩, List.forall_mem_append.2 ⟨hb, hb'⟩⟩

/-- A stage enters when its key is new and its choices can enter. -/
theorem addStage_eq_ok_iff {g : Graph} {r : Graph × Nat} :
    addStage d p g s = .ok r ↔
      CanEnterStages d g [(p, s)] ∧ r = (enterStage d g (p, s), g.stages.size) := by
  have hcan : CanEnterStages d g [(p, s)] ↔
      g.stagePlaces.contains (p.stageKey s) = false ∧ CanEnter d p s g (p.plans s).flatten := by
    constructor
    · rintro ⟨hs, hc, hb⟩
      refine ⟨NameTable.fresh_singleton.1 hs, ?_, hb _ List.mem_cons_self⟩
      rwa [Document.compiledChoices_singleton, flatten_compiledRows] at hc
    · rintro ⟨hs, hc, hb⟩
      refine ⟨NameTable.fresh_singleton.2 hs, ?_, List.forall_mem_singleton.2 hb⟩
      rwa [Document.compiledChoices_singleton, flatten_compiledRows]
  -- layouts are made of what is read back from the graph, which are the choices just entered
  have hrows : (g.withChoices (d.compiledRows p s).flatten).choiceRows
      (numbered g.choices.size (d.compiledRows p s)) = d.compiledRows p s := by
    have h : (g.withChoices (d.compiledRows p s).flatten).choices.toList =
        g.choices.toList ++ ((d.compiledRows p s).flatten ++ []) := by simp
    rw [← Array.length_toList]
    exact choiceRows_numbered h
  have hchoices : ∀ rows,
      addEach (addEach (addChoice d (decimal p.id) (decimal s.id))) g (p.plans s) = .ok rows ↔
        CanEnter d p s g (p.plans s).flatten ∧
          rows = (g.withChoices (d.compiledRows p s).flatten,
            numbered g.choices.size (d.compiledRows p s)) := by
    intro rows
    rw [addRows_eq_ok_iff, ← flatten_compiledRows, Document.compiledRows, numbered_map]
  have hleft : ((g.withChoices (d.compiledRows p s).flatten).withStage
      { d.compiledStage p s g.choices.size with
        layouts := layoutsOf ((g.withChoices (d.compiledRows p s).flatten).choiceRows
          (numbered g.choices.size (d.compiledRows p s))) },
      (g.withChoices (d.compiledRows p s).flatten).stages.size) =
      (enterStage d g (p, s), g.stages.size) := by
    rw [hrows, stages_withChoices]
    rfl
  rw [hcan]
  unfold addStage
  cases hkey : g.stagePlaces.contains (p.stageKey s) with
  | true =>
    rw [Document.Procedure.stageKey] at hkey
    simp only [hkey, if_true, Bool.true_eq_false, false_and, iff_false]
    exact nofun
  | false =>
    rw [Document.Procedure.stageKey] at hkey
    simp only [hkey, Bool.false_eq_true, if_false, true_and]
    constructor
    · intro h
      obtain ⟨entered, hentered, h⟩ := bind_eq_ok_iff.1 h
      obtain ⟨hall, rfl⟩ := (hchoices _).1 hentered
      cases h
      exact ⟨hall, hleft⟩
    · rintro ⟨hall, rfl⟩
      exact bind_eq_ok_iff.2 ⟨_, (hchoices _).2 ⟨hall, rfl⟩, congrArg Except.ok hleft⟩

/-- Stages of a procedure enter when their keys are new and their choices can enter. -/
theorem addStages_eq_ok_iff {g : Graph} {ss : List Document.Stage} {r : Graph × List Nat} :
    addEach (addStage d p) g ss = .ok r ↔
      CanEnterStages d g (ss.map (p, ·)) ∧
        r = (enterStages d g (ss.map (p, ·)), List.range' g.stages.size ss.length) := by
  have hadd : ∀ g s r, addStage d p g s = .ok r ↔
      CanEnterStages d g [(p, s)] ∧ r = (enterStage d g (p, s), g.stages.size) :=
    fun _ _ _ => addStage_eq_ok_iff
  refine addEach_eq_ok_iff (fun g ss => CanEnterStages d g (ss.map (p, ·))) (fun g ss =>
      (enterStages d g (ss.map (p, ·)), List.range' g.stages.size ss.length))
    hadd (fun g => ?_) (fun g s ss => ?_) (fun g s ss => ?_)
  · exact ⟨canEnterStages_nil g, rfl⟩
  · rw [List.map_cons, ← List.singleton_append]
    exact canEnterStages_append
  · have hsize : (enterStage d g (p, s)).stages.size = g.stages.size + 1 := by
      simp [enterStage, withStage]
    rw [hsize, List.map_cons, List.length_cons, List.range'_succ]
    rfl

/-! ## When procedures enter -/

theorem canEnterStages_withProcedures {g : Graph} {ps : List Procedure}
    {xs : List (Document.Procedure × Document.Stage)} :
    CanEnterStages d (g.withProcedures ps) xs ↔ CanEnterStages d g xs :=
  ⟨fun h => ⟨h.stageKeys, h.choiceKeys, h.buttons⟩, fun h => ⟨h.stageKeys, h.choiceKeys, h.buttons⟩⟩

/-- A procedure enters when it has its root stage and its stages can enter. -/
theorem addProcedure_eq_ok_iff {g g' : Graph} :
    addProcedure d g p = .ok g' ↔
      (p.stages.any p.isRoot = true ∧ CanEnterStages d g p.staged) ∧
        g' = enterProcedures d g [p] := by
  have hleft : (enterStages d g p.staged).withProcedures
      ((enterStages d g p.staged).procedures ++
        [⟨decimal p.id, p.title, decimal p.root, List.range' g.stages.size p.stages.length⟩]) =
      enterProcedures d g [p] := by
    rw [procedures_enterStages, enterProcedures, List.flatMap_singleton]
    rfl
  unfold addProcedure
  cases hroot : p.stages.any p.isRoot with
  | false =>
    simp only [Bool.not_false, if_true, Bool.false_eq_true, false_and, iff_false]
    intro h
    cases h
  | true =>
    simp only [Bool.not_true, Bool.false_eq_true, if_false, true_and]
    constructor
    · intro h
      obtain ⟨entered, hentered, h⟩ := bind_eq_ok_iff.1 h
      obtain ⟨hall, rfl⟩ := addStages_eq_ok_iff.1 hentered
      cases h
      exact ⟨hall, hleft⟩
    · rintro ⟨hall, rfl⟩
      exact bind_eq_ok_iff.2 ⟨_, addStages_eq_ok_iff.2 ⟨hall, rfl⟩, congrArg Except.ok hleft⟩

/-- Procedures enter when they have their root stages and their stages can enter. -/
theorem addProcedures_eq_ok_iff {g g' : Graph} {ps : List Document.Procedure} :
    ps.foldlM (addProcedure d) g = .ok g' ↔
      ((∀ p ∈ ps, p.stages.any p.isRoot = true) ∧
        CanEnterStages d g (ps.flatMap Document.Procedure.staged)) ∧
        g' = enterProcedures d g ps := by
  induction ps generalizing g with
  | nil =>
    rw [List.foldlM_nil, enterProcedures_nil, and_iff_right ⟨nofun, canEnterStages_nil g⟩]
    exact ⟨fun h => (Except.ok.inj h).symm, fun h => congrArg Except.ok h.symm⟩
  | cons p ps ih =>
    have hrest : CanEnterStages d (enterProcedures d g [p])
        (ps.flatMap Document.Procedure.staged) ↔
        CanEnterStages d (enterStages d g p.staged) (ps.flatMap Document.Procedure.staged) := by
      rw [enterProcedures, canEnterStages_withProcedures, List.flatMap_singleton]
    rw [List.foldlM_cons, bind_eq_ok_iff, List.flatMap_cons, canEnterStages_append,
      List.forall_mem_cons, enterProcedures_cons]
    constructor
    · rintro ⟨entered, hentered, h⟩
      obtain ⟨⟨hroot, hone⟩, rfl⟩ := addProcedure_eq_ok_iff.1 hentered
      obtain ⟨⟨hroots, hmore⟩, rfl⟩ := ih.1 h
      exact ⟨⟨⟨hroot, hroots⟩, hone, hrest.1 hmore⟩, rfl⟩
    · rintro ⟨⟨⟨hroot, hroots⟩, hone, hmore⟩, rfl⟩
      exact ⟨_, addProcedure_eq_ok_iff.2 ⟨⟨hroot, hone⟩, rfl⟩,
        ih.2 ⟨⟨hroots, hrest.2 hmore⟩, rfl⟩⟩

end Graph

/-! ## When a document compiles -/

/-- What a document needs to have a graph: root stages, distinct keys, and buttons for all its
choices, the ways back included. -/
structure Document.Compilable (d : Document) : Prop where
  roots : ∀ p ∈ d.procedures, p.stages.any p.isRoot = true
  stageKeys : (d.staged.map fun x => x.1.stageKey x.2).Nodup
  choiceKeys : ((d.compiledChoices d.staged).map Graph.Choice.key).Nodup
  buttons : ∀ x ∈ d.staged, ∀ plan ∈ (x.1.plans x.2).flatten, (d.button? plan.button).isSome

/-- A document compiles when it can, and always to its graph. -/
theorem Graph.compile_eq_ok_iff {d : Document} {g : Graph} :
    Graph.compile d = .ok g ↔ d.Compilable ∧ g = d.graph := by
  rw [compile, addProcedures_eq_ok_iff]
  have hfresh : ∀ names, (NameTable.empty : NameTable Nat).Fresh names ↔ names.Nodup :=
    fun names => and_iff_left fun _ _ => rfl
  refine and_congr ⟨?_, ?_⟩ Iff.rfl
  · rintro ⟨hroots, hs, hc, hb⟩
    exact ⟨hroots, (hfresh _).1 hs, (hfresh _).1 hc, hb⟩
  · rintro ⟨hroots, hs, hc, hb⟩
    exact ⟨hroots, (hfresh _).2 hs, (hfresh _).2 hc, hb⟩

end ButtonDialog
