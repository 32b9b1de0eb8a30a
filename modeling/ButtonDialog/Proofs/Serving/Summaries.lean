import Mathlib.Algebra.BigOperators.Group.List.Basic
import Mathlib.Data.List.ProdSigma
import ButtonDialog.Proofs.Compilation.Mirroring
import ButtonDialog.Proofs.Routing.Registration
import ButtonDialog.Proofs.Validation.Documents
import ButtonDialog.Service.Summary

/-! What a summary says.

    A summary takes the choices of a graph apart by the ids of their procedures. It counts what can
    be counted in the document: procedures have different ids, so each choice is counted once, with
    the procedure it belongs to. -/

namespace ButtonDialog

/-! ## Counting in the document -/

namespace Document

/-- A way back that a stage may have. -/
inductive Way where
  | toPrevious
  | toRoot
  deriving DecidableEq

/-- The procedure has a way back on its stages. -/
def Procedure.adds (p : Procedure) : Way → Bool
  | .toPrevious => p.addToPrevious
  | .toRoot => p.addToRoot

/-- The stage does without a way back that its procedure has. -/
def Stage.removes (s : Stage) : Way → Bool
  | .toPrevious => s.removeToPrevious
  | .toRoot => s.removeToRoot

/-- The stages of a procedure with the ways back that they have. The root has none. -/
def Procedure.ways (p : Procedure) : List (Stage × Way) :=
  (p.stages ×ˢ [Way.toPrevious, Way.toRoot]).filter fun x =>
    x.1.id != p.root && p.adds x.2 && !x.1.removes x.2

/-- What a summary is to say of a procedure. -/
def Procedure.account (p : Procedure) : ProcedureSummary where
  id := decimal p.id
  title := p.title
  root := decimal p.root
  stages := p.stages.length
  declared := (p.stages.flatMap Stage.choices).length
  waysBack := p.ways.length

variable {d : Document} {p : Procedure} {s : Stage}

/-- A way that a procedure adds has a button, so a stage has the way unless it is removed there. -/
theorem Valid.length_ways_stage (h : d.Valid) (hp : p ∈ d.procedures) (s : Stage) :
    (([Way.toPrevious, Way.toRoot].map (s, ·)).filter fun x : Stage × Way =>
      x.1.id != p.root && p.adds x.2 && !x.1.removes x.2).length = p.backCount s := by
  have hprevious : p.addToPrevious = true → p.toPreviousButton.isSome = true :=
    h .previousButtonGiven p.draft (List.mem_map_of_mem hp)
  have hroot : p.addToRoot = true → p.toRootButton.isSome = true :=
    h .rootButtonGiven p.draft (List.mem_map_of_mem hp)
  have hadds : (p.addToPrevious && p.toPreviousButton.isSome) = p.addToPrevious ∧
      (p.addToRoot && p.toRootButton.isSome) = p.addToRoot :=
    ⟨Bool.and_eq_left_iff_imp.2 hprevious, Bool.and_eq_left_iff_imp.2 hroot⟩
  rw [Procedure.backCount, hadds.1, hadds.2]
  by_cases hstart : s.id = p.root
  · simp [hstart]
  · rw [if_neg hstart, ← List.countP_eq_length_filter]
    simp [hstart, Procedure.adds, Stage.removes, List.countP_cons, Nat.add_comm]

theorem Valid.length_ways (h : d.Valid) (hp : p ∈ d.procedures) :
    p.ways.length = (p.stages.map p.backCount).sum := by
  have hpairs : p.stages ×ˢ [Way.toPrevious, Way.toRoot] =
      p.stages.flatMap fun s => [Way.toPrevious, Way.toRoot].map (s, ·) := rfl
  rw [Procedure.ways, hpairs, List.filter_flatMap, List.length_flatMap]
  exact congrArg List.sum (List.map_congr_left fun s _ => h.length_ways_stage hp s)

theorem Valid.declared_add_waysBack (h : d.Valid) (hp : p ∈ d.procedures) :
    p.account.declared + p.account.waysBack =
      (p.stages.map fun s => s.choices.length + p.backCount s).sum := by
  rw [Procedure.account, h.length_ways hp, List.length_flatMap, List.sum_map_add]

/-! ## Counting in the graph -/

/-- What belongs to one of several, all under different labels, is found by its label. -/
theorem filter_flatMap_of_nodup {α β κ : Type} [DecidableEq κ] {as : List α} {key : α → κ}
    {f : α → List β} {label : β → κ} (hnodup : (as.map key).Nodup)
    (hlabel : ∀ a, ∀ b ∈ f a, label b = key a) {a : α} (ha : a ∈ as) :
    (as.flatMap f).filter (fun b => label b == key a) = f a := by
  induction as with
  | nil => cases ha
  | cons first as ih =>
    obtain ⟨hnew, hrest⟩ := List.nodup_cons.1 hnodup
    rw [List.flatMap_cons, List.filter_append]
    rcases List.mem_cons.1 ha with rfl | ha
    · have hfirst : (f a).filter (fun b => label b == key a) = f a :=
        List.filter_eq_self.2 fun b hb => beq_iff_eq.2 (hlabel a b hb)
      have hothers : (as.flatMap f).filter (fun b => label b == key a) = [] := by
        refine List.filter_eq_nil_iff.2 fun b hb heq => hnew ?_
        obtain ⟨other, hother, hb⟩ := List.mem_flatMap.1 hb
        rw [← beq_iff_eq.1 heq, hlabel other b hb]
        exact List.mem_map_of_mem hother
      rw [hfirst, hothers, List.append_nil]
    · have hfirst : (f first).filter (fun b => label b == key a) = [] := by
        refine List.filter_eq_nil_iff.2 fun b hb heq => hnew ?_
        rw [← hlabel first b hb, beq_iff_eq.1 heq]
        exact List.mem_map_of_mem ha
      rw [hfirst, List.nil_append, ih hrest ha]

theorem procedure_of_mem_compiledChoices {c : Graph.Choice}
    (hc : c ∈ d.compiledChoices p.staged) : c.procedure = decimal p.id := by
  obtain ⟨x, hx, hc⟩ := List.mem_flatMap.1 hc
  obtain ⟨s, -, rfl⟩ := List.mem_map.1 hx
  rw [Graph.flatten_compiledRows] at hc
  obtain ⟨plan, -, rfl⟩ := List.mem_map.1 hc
  rfl

/-- The choices with the id of a procedure are those of its stages. -/
theorem Valid.filter_procedure (h : d.Valid) (hp : p ∈ d.procedures) :
    (d.graph.choices.toList.filter fun c => c.procedure == decimal p.id) =
      d.compiledChoices p.staged := by
  have hids : (d.procedures.map fun p => decimal p.id).Nodup := by
    have hnodup := h.nodup_procedures.map (f := decimal) fun i j => decimal_inj.1
    rwa [List.map_map] at hnodup
  rw [choices_graph, compiledChoices, staged, List.flatMap_assoc]
  exact filter_flatMap_of_nodup hids (fun p c hc => procedure_of_mem_compiledChoices hc) hp

theorem kind_ne_of_mem_waysBack {plan : ChoicePlan} (h : plan ∈ p.waysBack s) :
    plan.kind ≠ .declared := by
  rcases mem_waysBack h with ⟨button, -, rfl⟩ | ⟨button, -, rfl⟩
  · exact nofun
  · exact nofun

theorem countP_declared (d : Document) (p : Procedure) (s : Stage) :
    (d.compiledRows p s).flatten.countP (fun c => c.kind == .declared) = s.choices.length := by
  have hback : (p.waysBack s).countP (fun plan => plan.kind == .declared) = 0 :=
    List.countP_eq_zero.2 fun plan hplan => by simpa using kind_ne_of_mem_waysBack hplan
  have hdeclared : (s.choices.map Choice.plan).countP (fun plan => plan.kind == .declared) =
      s.choices.length := by
    rw [List.countP_map]
    exact List.countP_eq_length.2 fun choice _ => rfl
  rw [Graph.flatten_compiledRows, flatten_plans, List.countP_map]
  exact List.countP_append.trans (congrArg₂ (· + ·) hdeclared hback)

theorem countP_waysBack (d : Document) (p : Procedure) (s : Stage) :
    (d.compiledRows p s).flatten.countP (fun c => c.kind != .declared) = p.backCount s := by
  have hback : (p.waysBack s).countP (fun plan => plan.kind != .declared) = p.backCount s := by
    rw [← length_waysBack]
    exact List.countP_eq_length.2 fun plan hplan => by simpa using kind_ne_of_mem_waysBack hplan
  have hdeclared : (s.choices.map Choice.plan).countP (fun plan => plan.kind != .declared) = 0 := by
    rw [List.countP_map]
    exact List.countP_eq_zero.2 fun choice _ => Bool.false_ne_true
  rw [Graph.flatten_compiledRows, flatten_plans, List.countP_map]
  exact (List.countP_append.trans (congrArg₂ (· + ·) hdeclared hback)).trans (Nat.zero_add _)

/-- What is counted over the choices of a procedure is counted stage by stage. -/
theorem countP_compiledChoices (d : Document) (p : Procedure) (test : Graph.Choice → Bool) :
    (d.compiledChoices p.staged).countP test =
      (p.stages.map fun s => (d.compiledRows p s).flatten.countP test).sum := by
  rw [compiledChoices, Procedure.staged, List.flatMap_map, List.countP_flatMap]
  rfl

theorem Valid.summaryOf_eq (h : d.Valid) (hp : p ∈ d.procedures) (first : Nat) :
    d.graph.summaryOf ⟨decimal p.id, p.title, decimal p.root,
      List.range' first p.stages.length⟩ = p.account := by
  simp only [Graph.summaryOf, Procedure.account, h.filter_procedure hp, countP_compiledChoices,
    countP_declared, countP_waysBack, h.length_ways hp, List.length_range', List.length_flatMap]

theorem Valid.map_summaryOf (h : d.Valid) :
    d.graph.procedures.map d.graph.summaryOf = d.procedures.map Procedure.account := by
  have hall : ∀ first ps, (∀ p ∈ ps, p ∈ d.procedures) →
      (compiledProcedures first ps).map d.graph.summaryOf = ps.map Procedure.account := by
    intro first ps hps
    induction ps generalizing first with
    | nil => rfl
    | cons p ps ih =>
      obtain ⟨hp, hps⟩ := List.forall_mem_cons.1 hps
      rw [compiledProcedures, List.map_cons, List.map_cons, h.summaryOf_eq hp, ih _ hps]
  exact hall 0 d.procedures fun p hp => hp

end Document

/-! ## Counting handlers -/

namespace Router

variable {σ : Type} {d : Document}

/-- A choice has a handler once there was a call with its key. -/
theorem contains_attempts_new_iff (hg : d.graph.Indexed) (transport : Transport σ)
    (calls : List (Registration σ)) (key : String) :
    ((new transport d.graph).attempts calls).handlers.contains key = true ↔
      (∃ c ∈ d.graph.choices, c.key = key) ∧ ∃ call ∈ calls, call.key = key := by
  have hnew : (new transport d.graph).handlers.contains key = false := rfl
  have hchoice : ((new transport d.graph).graph.choiceOfKey? key).isSome ↔
      ∃ c ∈ d.graph.choices, c.key = key := by
    rw [Option.isSome_iff_exists]
    exact exists_congr fun c => hg.choiceOfKey?_eq_some_iff
  rw [contains_attempts, hnew, hchoice]
  simp only [Bool.false_eq_true, false_or]

/-- No two choices of a graph have one key. -/
theorem nodup_keys_choices (h : d.Compilable) :
    (d.graph.choices.toList.map Graph.Choice.key).Nodup := by
  rw [Document.choices_graph]
  exact h.choiceKeys

/-- There are as many handlers as there are choices that have one. -/
theorem size_handlers_attempts (h : d.Compilable) (transport : Transport σ)
    (calls : List (Registration σ)) :
    ((new transport d.graph).attempts calls).handlers.size =
      (d.graph.choices.toList.filter fun c =>
        ((new transport d.graph).attempts calls).handlers.contains c.key).length := by
  have hnodup := (nodup_keys_choices h).sublist ((List.filter_sublist (p := fun c : Graph.Choice =>
    ((new transport d.graph).attempts calls).handlers.contains c.key)).map Graph.Choice.key)
  have hmem : ∀ key, key ∈ ((new transport d.graph).attempts calls).handlers.names ↔
      key ∈ (d.graph.choices.toList.filter fun c =>
        ((new transport d.graph).attempts calls).handlers.contains c.key).map Graph.Choice.key := by
    intro key
    rw [NameTable.mem_names_iff, List.mem_map]
    constructor
    · intro hcontains
      obtain ⟨⟨c, hc, rfl⟩, -⟩ :=
        (contains_attempts_new_iff h.indexed transport calls key).1 hcontains
      exact ⟨c, List.mem_filter.2 ⟨Array.mem_toList_iff.2 hc, hcontains⟩, rfl⟩
    · rintro ⟨c, hc, rfl⟩
      exact (List.mem_filter.1 hc).2
  rw [NameTable.size_eq_length hnodup hmem, List.length_map]

/-- What it is for the summary of a router to be right. It has the procedures of the document in
order. Their stages add up to those of the graph, and their choices, declared or ways back, to its
choices. There are as many handlers as choices that have one, and these are the choices that there
was a call for. -/
structure Accounts (r : Router σ) (d : Document) (calls : List (Registration σ)) : Prop where
  languages : r.summary.languages = d.languages
  procedures : r.summary.procedures = d.procedures.map Document.Procedure.account
  stages : (r.summary.procedures.map ProcedureSummary.stages).sum = r.graph.stages.size
  choices : (r.summary.procedures.map ProcedureSummary.declared).sum +
    (r.summary.procedures.map ProcedureSummary.waysBack).sum = r.graph.choices.size
  distinct : r.graph.choices.toList.Nodup
  handlers : r.summary.handlers =
    (r.graph.choices.toList.filter fun c => r.handlers.contains c.key).length
  called : ∀ c ∈ r.graph.choices,
    r.handlers.contains c.key = true ↔ ∃ call ∈ calls, call.key = c.key

/-- For every document that is loaded and every row of calls for handlers, the summary is right. -/
theorem accounts_for_everything {text : String} {g : Graph} (hread : Document.ofText text = .ok d)
    (hcompile : Graph.compile d = .ok g) (transport : Transport σ)
    (calls : List (Registration σ)) :
    ((new transport g).attempts calls).Accounts d calls := by
  have hmirrors := Graph.mirrors_of_compile hcompile
  obtain ⟨hcompilable, rfl⟩ := Graph.compile_eq_ok_iff.1 hcompile
  have hvalid := Document.valid_of_ofText hread
  have hgraph : ((new transport d.graph).attempts calls).graph = d.graph := graph_attempts _ _
  have hprocedures : ((new transport d.graph).attempts calls).summary.procedures =
      d.procedures.map Document.Procedure.account := by
    rw [summary, hgraph]
    exact hvalid.map_summaryOf
  refine ⟨?_, hprocedures, ?_, ?_, ?_, ?_, fun c hc => ?_⟩
  · rw [summary, Router.languages, hgraph]
    exact d.languages_graph
  · rw [hprocedures, hgraph, hmirrors.stageCount, List.map_map]
    rfl
  · rw [hprocedures, hgraph, hmirrors.choiceCount, List.map_map, List.map_map, ← List.sum_map_add]
    exact congrArg List.sum (List.map_congr_left fun p hp => hvalid.declared_add_waysBack hp)
  · rw [hgraph]
    exact (nodup_keys_choices hcompilable).of_map _
  · rw [hgraph]
    exact size_handlers_attempts hcompilable transport calls
  · rw [hgraph] at hc
    rw [contains_attempts_new_iff hcompilable.indexed]
    exact and_iff_right ⟨c, hc, rfl⟩

end Router

/-- A document without languages. Its first stage has a choice, its second a way back. -/
def Document.bare : Document where
  languages := []
  buttons := [⟨1, none, .empty⟩]
  procedures := [⟨1, none, 1, false, true, none, some 1, [
    ⟨1, none, none, false, false, .empty, [[⟨1, 1, some 2⟩]]⟩,
    ⟨2, none, some 1, false, false, .empty, []⟩]⟩]

/-- A text of it. -/
def Document.bareText : String :=
  "\x7b\"buttons\":[\x7b\"id\":1\x7d],\"procedures\":[\x7b\"id\":1,\"rootStageId\":1," ++
  "\"addToPreviousButton\":true,\"toPreviousButtonId\":1,\"stages\":[" ++
  "\x7b\"id\":1,\"options\":[[\x7b\"id\":1,\"buttonId\":1,\"nextStageId\":2\x7d]]\x7d," ++
  "\x7b\"id\":2,\"previousStageId\":1\x7d]\x7d]\x7d"

theorem Router.accounts_for_bare :
    ((new Recorder.transport Document.bare.graph).attempts twoStagesCalls).Accounts Document.bare
        twoStagesCalls ∧
      Document.bare.procedures.map Document.Procedure.account =
        [⟨"1", none, "1", 2, 1, 1⟩] := by
  have hread : Document.ofText Document.bareText = .ok Document.bare :=
    Checks.toOption_eq_some_iff.1 (by decide +kernel)
  have hcompile : Graph.compile Document.bare = .ok Document.bare.graph :=
    Graph.compile_eq_ok_iff.2
      ⟨(Document.valid_of_ofText hread).compilable (by decide +kernel), rfl⟩
  exact ⟨accounts_for_everything hread hcompile _ _, by decide +kernel⟩

end ButtonDialog
