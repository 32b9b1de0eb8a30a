import Mathlib.Data.List.Count
import ButtonDialog.Proofs.Compilation.Mirroring

/-! Why a document does not compile.

    Compiling takes a document as it is, validated or not, and stops at the first part that cannot
    enter. Until then everything has entered, so what the tables hold are the keys of the parts
    before. As long as the digest tells the joined ids apart, a key that is there already is a list
    of ids that occurs twice, and a document without such faults compiles, whatever else is wrong
    with it. -/

namespace ButtonDialog

namespace Document

/-! ## Sound documents and flaws -/

/-- A choice that the stage declares, or a way back that it is to have, shows this button. -/
def Procedure.Uses (p : Procedure) (s : Stage) (button : Int64) : Prop :=
  (∃ c ∈ s.choices, c.button = button) ∨ p.WantsPrevious s button ∨ p.WantsRoot s button

/-- There is a button of this id. -/
def Defines (d : Document) (button : Int64) : Prop := ∃ b ∈ d.buttons, b.id = button

/-- The ids of all stages, each with that of its procedure. -/
def stagePairs (d : Document) : List (Int64 × Int64) :=
  d.procedures.flatMap fun p => p.stages.map fun s => (p.id, s.id)

/-- A document in which every procedure has its root stage, no two stages share both ids, no stage
has two choices of one id, and every button in use is there. Nothing is asked of texts, languages,
titles, other references or buttons that no stage uses, and procedures may share an id. -/
structure Sound (d : Document) : Prop where
  roots : ∀ p ∈ d.procedures, ∃ s ∈ p.stages, s.id = p.root
  stages : d.stagePairs.Nodup
  choices : ∀ p ∈ d.procedures, ∀ s ∈ p.stages, (s.choices.map Choice.id).Nodup
  buttons : ∀ p ∈ d.procedures, ∀ s ∈ p.stages, ∀ button, p.Uses s button → d.Defines button

/-- The document has the flaw that a compile error names. -/
inductive Flawed (d : Document) : CompileError → Prop
  | noRoot {p : Procedure} : p ∈ d.procedures → (∀ s ∈ p.stages, s.id ≠ p.root) →
    Flawed d (.stageNotFound p.id p.root)
  | noButton {p : Procedure} {s : Stage} {button : Int64} : p ∈ d.procedures → s ∈ p.stages →
    p.Uses s button → ¬ d.Defines button → Flawed d (.buttonNotFound button)
  | sameStage {procedure stage : Int64} : 2 ≤ d.stagePairs.count (procedure, stage) →
    Flawed d (.duplicateKey (Key.stage (decimal procedure) (decimal stage)))
  | sameChoice {p : Procedure} {s : Stage} {id : Int64} : p ∈ d.procedures → s ∈ p.stages →
    2 ≤ (s.choices.map Choice.id).count id →
    Flawed d (.duplicateKey (Key.choice (decimal p.id) (decimal s.id) (decimal id)))

variable {d : Document} {p : Procedure} {s : Stage}

theorem stagePairs_eq (d : Document) :
    d.stagePairs = d.staged.map fun x => (x.1.id, x.2.id) := by
  rw [stagePairs, staged, List.map_flatMap]
  refine congrArg d.procedures.flatMap (funext fun p => ?_)
  rw [Procedure.staged, List.map_map]
  rfl

theorem isSome_button?_iff_defines {button : Int64} :
    (d.button? button).isSome = true ↔ d.Defines button := Valid.isSome_button?_iff

/-- The buttons that a stage uses are those of the choices that it enters with. -/
theorem uses_iff {button : Int64} :
    p.Uses s button ↔ ∃ plan ∈ (p.plans s).flatten, plan.button = button := by
  have hway : ∀ {x : Option Int64} {plan : Int64 → ChoicePlan},
      (∀ button, (plan button).button = button) →
        ((∃ made ∈ (x.map plan).toList, made.button = button) ↔ x = some button) := by
    intro x plan hplan
    cases x <;> simp [hplan]
  rw [flatten_plans, waysBack_eq, Procedure.Uses, ← previousOf?_eq_some_iff, ← rootOf?_eq_some_iff]
  simp only [List.mem_append, or_and_right, exists_or]
  refine or_congr ?_ (or_congr (hway fun _ => rfl).symm (hway fun _ => rfl).symm)
  simp [Choice.plan]

/-- A document is sound if it can enter its graph, as long as the digest tells its ids apart. -/
theorem sound_iff_compilable (hapart : d.KeysApart) : d.Sound ↔ d.Compilable := by
  rw [compilable_iff hapart]
  constructor
  · rintro ⟨hroots, hstages, hchoices, hbuttons⟩
    have hstageIds : d.stageIds.Nodup := nodup_stageIds_iff.2 (stagePairs_eq d ▸ hstages)
    refine ⟨hroots, hstageIds, (nodup_choiceIds_iff hstageIds).2 ?_, ?_⟩
    · rintro ⟨p, s⟩ hx
      obtain ⟨hp, hs⟩ := mem_staged_iff.1 hx
      exact nodup_plans_iff.2 (hchoices p hp s hs)
    · rintro ⟨p, s⟩ hx plan hplan
      obtain ⟨hp, hs⟩ := mem_staged_iff.1 hx
      exact isSome_button?_iff_defines.2 (hbuttons p hp s hs _ (uses_iff.2 ⟨plan, hplan, rfl⟩))
  · rintro ⟨hroots, hstageIds, hchoiceIds, hbuttons⟩
    refine ⟨hroots, stagePairs_eq d ▸ nodup_stageIds_iff.1 hstageIds, fun p hp s hs => ?_,
      fun p hp s hs button huses => ?_⟩
    · exact nodup_plans_iff.1
        ((nodup_choiceIds_iff hstageIds).1 hchoiceIds (p, s) (mem_staged_iff.2 ⟨hp, hs⟩))
    · obtain ⟨plan, hplan, rfl⟩ := uses_iff.1 huses
      exact isSome_button?_iff_defines.1 (hbuttons (p, s) (mem_staged_iff.2 ⟨hp, hs⟩) plan hplan)

end Document

/-! ## Where compiling stops -/

namespace Graph

open Checks

variable {d : Document} {p : Document.Procedure} {s : Document.Stage} {g : Graph}
  {e : CompileError}

/-- Entering parts fails at one of them, once those before it have entered. -/
theorem exists_of_addEach_eq_error {α β : Type} {add : Graph → α → Except CompileError (Graph × β)}
    {as : List α} (h : addEach add g as = .error e) :
    ∃ before a after g' bs, as = before ++ a :: after ∧ addEach add g before = .ok (g', bs) ∧
      add g' a = .error e := by
  induction as generalizing g with
  | nil => cases h
  | cons a as ih =>
    rw [addEach] at h
    rcases bind_eq_error_iff.1 h with h | ⟨⟨g', b⟩, hfirst, h⟩
    · exact ⟨[], a, as, g, [], rfl, rfl, h⟩
    · rcases bind_eq_error_iff.1 h with h | ⟨_, _, h⟩
      · obtain ⟨before, a', after, g'', bs, rfl, hbefore, h⟩ := ih h
        refine ⟨a :: before, a', after, g'', b :: bs, rfl, ?_, h⟩
        rw [addEach]
        exact bind_eq_ok_iff.2 ⟨_, hfirst, bind_eq_ok_iff.2 ⟨_, hbefore, rfl⟩⟩
      · cases h

/-- A choice does not enter if its key is there already, or its button is not. -/
theorem addChoice_eq_error {plan : ChoicePlan}
    (h : addChoice d (decimal p.id) (decimal s.id) g plan = .error e) :
    (g.choicePlaces.contains (d.compiledChoice p s plan).key = true ∧
        e = .duplicateKey (d.compiledChoice p s plan).key) ∨
      d.button? plan.button = none ∧ e = .buttonNotFound plan.button := by
  have hkey : (d.compiledChoice p s plan).key =
    Key.choice (decimal p.id) (decimal s.id) plan.id := rfl
  rw [addChoice, ← hkey] at h
  split at h
  · exact .inl ⟨‹_›, (Except.error.inj h).symm⟩
  · split at h
    · exact .inr ⟨‹_›, (Except.error.inj h).symm⟩
    · cases h

/-- A row does not enter if one of its choices does not, once those before it have. -/
theorem addRow_eq_error {plans : List ChoicePlan}
    (h : addEach (addChoice d (decimal p.id) (decimal s.id)) g plans = .error e) :
    ∃ before plan after, plans = before ++ plan :: after ∧
      addChoice d (decimal p.id) (decimal s.id)
        (g.withChoices (before.map (d.compiledChoice p s))) plan = .error e := by
  obtain ⟨before, plan, after, g', places, rfl, hbefore, h⟩ := exists_of_addEach_eq_error h
  obtain ⟨-, hentered⟩ := addRow_eq_ok_iff.1 hbefore
  exact ⟨before, plan, after, rfl, (Prod.mk.inj hentered).1 ▸ h⟩

/-- Rows do not enter if one of their choices does not, once those before it have. -/
theorem addRows_eq_error {rows : List (List ChoicePlan)}
    (h : addEach (addEach (addChoice d (decimal p.id) (decimal s.id))) g rows = .error e) :
    ∃ before plan after, rows.flatten = before ++ plan :: after ∧
      addChoice d (decimal p.id) (decimal s.id)
        (g.withChoices (before.map (d.compiledChoice p s))) plan = .error e := by
  obtain ⟨rowsBefore, row, rowsAfter, g', places, rfl, hbefore, h⟩ := exists_of_addEach_eq_error h
  obtain ⟨-, hentered⟩ := addRows_eq_ok_iff.1 hbefore
  obtain rfl := (Prod.mk.inj hentered).1
  obtain ⟨before, plan, after, rfl, hplan⟩ := addRow_eq_error h
  rw [← withChoices_append, ← List.map_append] at hplan
  exact ⟨rowsBefore.flatten ++ before, plan, after ++ rowsAfter.flatten, by simp, hplan⟩

/-- A stage does not enter if its key is there already, or one of its choices does not enter. -/
theorem addStage_eq_error (h : addStage d p g s = .error e) :
    (g.stagePlaces.contains (p.stageKey s) = true ∧ e = .duplicateKey (p.stageKey s)) ∨
      g.stagePlaces.contains (p.stageKey s) = false ∧
        ∃ before plan after, (p.plans s).flatten = before ++ plan :: after ∧
          addChoice d (decimal p.id) (decimal s.id)
            (g.withChoices (before.map (d.compiledChoice p s))) plan = .error e := by
  unfold addStage at h
  cases hkey : g.stagePlaces.contains (p.stageKey s) with
  | true =>
    rw [Document.Procedure.stageKey] at hkey
    simp only [hkey, if_true] at h
    exact .inl ⟨rfl, (Except.error.inj h).symm⟩
  | false =>
    rw [Document.Procedure.stageKey] at hkey
    simp only [hkey, Bool.false_eq_true, if_false] at h
    rcases bind_eq_error_iff.1 h with h | ⟨_, _, h⟩
    · exact .inr ⟨rfl, addRows_eq_error h⟩
    · cases h

/-- A procedure does not enter without its root stage, or if one of its stages does not enter. -/
theorem addProcedure_eq_error (h : addProcedure d g p = .error e) :
    (p.stages.any p.isRoot = false ∧ e = .stageNotFound p.id p.root) ∨
      ∃ before s after, p.stages = before ++ s :: after ∧
        addStage d p (enterStages d g (before.map (p, ·))) s = .error e := by
  unfold addProcedure at h
  cases hroot : p.stages.any p.isRoot with
  | false =>
    simp only [hroot, Bool.not_false, if_true] at h
    exact .inl ⟨rfl, (Except.error.inj h).symm⟩
  | true =>
    simp only [hroot, Bool.not_true, Bool.false_eq_true, if_false] at h
    rcases bind_eq_error_iff.1 h with h | ⟨_, _, h⟩
    · obtain ⟨before, s, after, g', places, hsplit, hbefore, h⟩ := exists_of_addEach_eq_error h
      obtain ⟨-, hentered⟩ := addStages_eq_ok_iff.1 hbefore
      exact .inr ⟨before, s, after, hsplit, (Prod.mk.inj hentered).1 ▸ h⟩
    · cases h

/-- Compiling fails with a procedure that lacks its root stage, or at a stage that does not enter
once all stages before it have. -/
theorem compile_eq_error (h : compile d = .error e) :
    (∃ p ∈ d.procedures, p.stages.any p.isRoot = false ∧ e = .stageNotFound p.id p.root) ∨
      ∃ before p s after entered, d.staged = before ++ (p, s) :: after ∧
        addStage d p ((enterStages d (.empty d.languages) before).withProcedures entered) s =
          .error e := by
  obtain ⟨ps, p, psAfter, g, hprocedures, hbefore, h⟩ := exists_of_foldlM_eq_error h
  obtain ⟨-, rfl⟩ := addProcedures_eq_ok_iff.1 hbefore
  rcases addProcedure_eq_error h with ⟨hroot, rfl⟩ | ⟨ss, s, ssAfter, hstages, h⟩
  · exact .inl ⟨p, hprocedures ▸ List.mem_append_right _ List.mem_cons_self, hroot, rfl⟩
  · rw [enterProcedures, enterStages_withProcedures, ← enterStages_append] at h
    refine .inr ⟨_, p, s, ssAfter.map (p, ·) ++ psAfter.flatMap Document.Procedure.staged, _, ?_, h⟩
    rw [Document.staged, hprocedures, List.flatMap_append, List.flatMap_cons,
      Document.Procedure.staged, hstages]
    simp

/-- A stage that does not enter has the key of a stage before it. Otherwise one of its choices has
the key of a choice before it, or shows a button that is not there. -/
theorem addStage_eq_error_of_entered {before : List (Document.Procedure × Document.Stage)}
    {entered : List Procedure}
    (h : addStage d p ((enterStages d (.empty d.languages) before).withProcedures entered) s =
      .error e) :
    (p.stageKey s ∈ before.map (fun x => x.1.stageKey x.2) ∧ e = .duplicateKey (p.stageKey s)) ∨
      p.stageKey s ∉ before.map (fun x => x.1.stageKey x.2) ∧
        ∃ plans plan more, (p.plans s).flatten = plans ++ plan :: more ∧
          (((d.compiledChoice p s plan).key ∈
              (d.compiledChoices before ++ plans.map (d.compiledChoice p s)).map Choice.key ∧
            e = .duplicateKey (d.compiledChoice p s plan).key) ∨
          d.button? plan.button = none ∧ e = .buttonNotFound plan.button) := by
  have hstage : ∀ key, ((enterStages d (.empty d.languages) before).withProcedures
      entered).stagePlaces.contains key = true ↔ key ∈ before.map fun x => x.1.stageKey x.2 := by
    intro key
    refine (contains_stagePlaces_enterStages _ before key).trans (or_iff_right ?_)
    exact Bool.false_ne_true
  have hchoice : ∀ key, ((enterStages d (.empty d.languages) before).withProcedures
      entered).choicePlaces.contains key = true ↔
        key ∈ (d.compiledChoices before).map Choice.key := by
    intro key
    refine (contains_choicePlaces_enterStages _ before key).trans (or_iff_right ?_)
    exact Bool.false_ne_true
  rcases addStage_eq_error h with ⟨hkey, rfl⟩ | ⟨hkey, plans, plan, more, hplans, h⟩
  · exact .inl ⟨(hstage _).1 hkey, rfl⟩
  · refine .inr ⟨fun hmem => ?_, plans, plan, more, hplans, ?_⟩
    · rw [(hstage _).2 hmem] at hkey
      cases hkey
    · refine (addChoice_eq_error h).imp_left fun ⟨hthere, he⟩ => ⟨?_, he⟩
      rw [contains_choicePlaces_withChoices, hchoice] at hthere
      rwa [List.map_append, List.mem_append]

end Graph

/-! ## Every refusal names a flaw -/

namespace Document

variable {d : Document} {p p' : Procedure} {s s' : Stage}

/-- Where the digest tells the joined ids apart, two stages with one key have the same ids. -/
theorem ids_eq_of_stageKey_eq (hapart : d.KeysApart) (hx : (p, s) ∈ d.staged)
    (hx' : (p', s') ∈ d.staged) (h : p.stageKey s = p'.stageKey s') :
    p.id = p'.id ∧ s.id = s'.id := by
  have hmem : ∀ {x}, x ∈ d.staged → [decimal x.1.id, decimal x.2.id] ∈ d.stageIds :=
    fun hx => List.mem_map_of_mem hx
  have hids := Key.ofParts_injective hapart.stages (hmem hx) (hmem hx') (List.cons_ne_nil _ _)
    (List.cons_ne_nil _ _) (barFree_stageIds (hmem hx)) (barFree_stageIds (hmem hx')) h
  simpa using hids

/-- Where the digest tells the joined ids apart, two choices with one key have the same ids. -/
theorem ids_eq_of_choiceKey_eq (hapart : d.KeysApart) {plan plan' : ChoicePlan}
    (hx : (p, s) ∈ d.staged) (hplan : plan ∈ (p.plans s).flatten) (hx' : (p', s') ∈ d.staged)
    (hplan' : plan' ∈ (p'.plans s').flatten)
    (h : (d.compiledChoice p s plan).key = (d.compiledChoice p' s' plan').key) :
    (p.id = p'.id ∧ s.id = s'.id) ∧ plan.id = plan'.id := by
  have hmem : ∀ {x : Procedure × Stage} {plan}, x ∈ d.staged → plan ∈ (x.1.plans x.2).flatten →
      [decimal x.1.id, decimal x.2.id, plan.id] ∈ d.choiceIds :=
    fun hx hplan => List.mem_flatMap.2 ⟨_, hx, List.mem_map_of_mem hplan⟩
  have hids := Key.ofParts_injective hapart.choices (hmem hx hplan) (hmem hx' hplan')
    (List.cons_ne_nil _ _) (List.cons_ne_nil _ _) (barFree_choiceIds (hmem hx hplan))
    (barFree_choiceIds (hmem hx' hplan')) h
  simpa [and_assoc] using hids

/-- What occurs before an element that it is equal to occurs twice. -/
theorem two_le_count_of_mem {α : Type} [BEq α] [LawfulBEq α] {before after : List α} {a : α}
    (h : a ∈ before) : 2 ≤ (before ++ a :: after).count a := by
  have hbefore := List.count_pos_iff.2 h
  rw [List.count_append, List.count_cons_self]
  omega

/-- An id that two choices of a stage have, ways back among them, is that of two declared ones. -/
theorem exists_declared_twice {id : String}
    (h : 2 ≤ ((p.plans s).flatten.map ChoicePlan.id).count id) :
    ∃ n, decimal n = id ∧ 2 ≤ (s.choices.map Choice.id).count n := by
  have hdeclared : (s.choices.map Choice.plan).map ChoicePlan.id =
      (s.choices.map Choice.id).map decimal := by
    rw [List.map_map, List.map_map]
    rfl
  have hback := (waysBack_ids_sublist p s).count_le id
  rw [flatten_plans, List.map_append, hdeclared, List.count_append] at h
  by_cases hnumber : ∃ n, decimal n = id
  · obtain ⟨n, rfl⟩ := hnumber
    rw [List.count_eq_zero.2 (decimal_notMem_waysBack n)] at hback
    rw [List.count_map_of_injective _ _ fun _ _ => decimal_injective] at h
    exact ⟨n, rfl, by omega⟩
  · -- the ways back have two ids, each once
    have hnone : ((s.choices.map Choice.id).map decimal).count id = 0 := by
      refine List.count_eq_zero.2 fun hmem => ?_
      obtain ⟨n, -, hn⟩ := List.mem_map.1 hmem
      exact hnumber ⟨n, hn⟩
    have honce : [toPreviousId, toRootId].count id ≤ 1 :=
      List.nodup_iff_count_le_one.1 (by decide) id
    omega

/-- A document that does not compile has the flaw that the error names. -/
theorem flawed_of_compile_eq_error (hapart : d.KeysApart) {e : CompileError}
    (h : Graph.compile d = .error e) : d.Flawed e := by
  rcases Graph.compile_eq_error h with
    ⟨p, hp, hroot, rfl⟩ | ⟨before, p, s, after, entered, hstaged, h⟩
  · refine .noRoot hp fun s hs hid => ?_
    have hany : p.stages.any p.isRoot = true := List.any_eq_true.2 ⟨s, hs, beq_iff_eq.2 hid⟩
    rw [hroot] at hany
    cases hany
  have hx : (p, s) ∈ d.staged := hstaged ▸ List.mem_append_right _ List.mem_cons_self
  have hearlier : ∀ x ∈ before, x ∈ d.staged := fun x hx => hstaged ▸ List.mem_append_left _ hx
  obtain ⟨hp, hs⟩ := mem_staged_iff.1 hx
  rcases Graph.addStage_eq_error_of_entered h with
    ⟨hkey, rfl⟩ | ⟨hnew, plans, plan, more, hplans, h⟩
  · obtain ⟨x, hmem, hkey⟩ := List.mem_map.1 hkey
    obtain ⟨hprocedure, hstage⟩ := ids_eq_of_stageKey_eq hapart (hearlier x hmem) hx hkey
    have hpair : (p.id, s.id) ∈ before.map fun x => (x.1.id, x.2.id) :=
      List.mem_map.2 ⟨x, hmem, by rw [hprocedure, hstage]⟩
    refine .sameStage ?_
    rw [stagePairs_eq, hstaged, List.map_append, List.map_cons]
    exact two_le_count_of_mem hpair
  have hplan : plan ∈ (p.plans s).flatten := hplans ▸ List.mem_append_right _ List.mem_cons_self
  rcases h with ⟨hkey, rfl⟩ | ⟨hbutton, rfl⟩
  · rw [List.map_append, List.mem_append, List.map_map] at hkey
    rcases hkey with hkey | hkey
    · -- a choice of an earlier stage with these ids would give that stage the key of this one
      obtain ⟨c, hc, hkey⟩ := List.mem_map.1 hkey
      obtain ⟨x, hmem, hc⟩ := List.mem_flatMap.1 hc
      rw [Graph.flatten_compiledRows] at hc
      obtain ⟨plan', hplan', rfl⟩ := List.mem_map.1 hc
      obtain ⟨⟨hprocedure, hstage⟩, -⟩ :=
        ids_eq_of_choiceKey_eq hapart (hearlier x hmem) hplan' hx hplan hkey
      refine absurd (List.mem_map.2 ⟨x, hmem, ?_⟩) hnew
      rw [Procedure.stageKey, hprocedure, hstage, Procedure.stageKey]
    · obtain ⟨plan', hmem, hkey⟩ := List.mem_map.1 hkey
      have hplan' : plan' ∈ (p.plans s).flatten := hplans ▸ List.mem_append_left _ hmem
      obtain ⟨-, hid⟩ := ids_eq_of_choiceKey_eq hapart hx hplan' hx hplan hkey
      have htwice : 2 ≤ ((p.plans s).flatten.map ChoicePlan.id).count plan.id := by
        rw [hplans, List.map_append, List.map_cons]
        exact two_le_count_of_mem (List.mem_map.2 ⟨plan', hmem, hid⟩)
      obtain ⟨n, hn, htwice⟩ := exists_declared_twice htwice
      rw [compiledChoice, ← hn]
      exact .sameChoice hp hs htwice
  · refine .noButton hp hs (uses_iff.2 ⟨plan, hplan, rfl⟩) fun hdefines => ?_
    rw [← isSome_button?_iff_defines, hbutton] at hdefines
    cases hdefines

end Document

/-- Whatever document it is, it compiles if it is sound, and otherwise is refused with an error that
names one of its flaws. The digest is to tell the joined ids of the document apart. -/
theorem Graph.compiles_what_is_sound {d : Document} (hapart : d.KeysApart) :
    ((∃ g, Graph.compile d = .ok g) ↔ d.Sound) ∧
      (¬ d.Sound → ∃ e, Graph.compile d = .error e ∧ d.Flawed e) := by
  have hsound : (∃ g, Graph.compile d = .ok g) ↔ d.Sound := by
    rw [Document.sound_iff_compilable hapart]
    constructor
    · rintro ⟨g, hg⟩
      exact (Graph.compile_eq_ok_iff.1 hg).1
    · exact fun h => ⟨_, Graph.compile_eq_ok_iff.2 ⟨h, rfl⟩⟩
  refine ⟨hsound, fun hunsound => ?_⟩
  cases hcompile : Graph.compile d with
  | ok g => exact absurd (hsound.1 ⟨g, hcompile⟩) hunsound
  | error e => exact ⟨e, rfl, Document.flawed_of_compile_eq_error hapart hcompile⟩

/-- A document that is wrong in all that compiling does not look at: two procedures have one id, no
text is there, references lead nowhere, and so do the buttons of ways back that no stage has. -/
def Document.lax : Document where
  languages := ["en", "en", ""]
  buttons := [⟨1, none, .empty⟩]
  procedures := [
    ⟨1, none, 1, true, true, some 8, some 9, [
      ⟨1, none, some 7, false, false, .empty, [[⟨1, 1, some 5⟩], [], [⟨2, 1, some 2⟩]]⟩,
      ⟨2, none, some 6, true, true, .empty, []⟩]⟩,
    ⟨1, none, 3, false, true, some 8, none, [
      ⟨3, none, none, false, false, .empty, [[⟨1, 1, none⟩]]⟩]⟩]

theorem Document.sound_lax : Document.lax.Sound := by
  have hbuttons : ∀ p ∈ lax.procedures, ∀ s ∈ p.stages, ∀ plan ∈ (p.plans s).flatten,
      plan.button = 1 := by decide
  refine ⟨by decide, by decide, by decide, fun p hp s hs button huses => ?_⟩
  obtain ⟨plan, hplan, rfl⟩ := uses_iff.1 huses
  exact ⟨_, List.mem_singleton_self _, (hbuttons p hp s hs plan hplan).symm⟩

/-- This document compiles. Without its one button it is refused for a flaw. -/
theorem Graph.compiles_lax :
    (∃ g, Graph.compile Document.lax = .ok g) ∧
      ∃ e, Graph.compile { Document.lax with buttons := [] } = .error e ∧
        Document.Flawed { Document.lax with buttons := [] } e := by
  refine ⟨(Graph.compiles_what_is_sound (by decide +kernel)).1.2 Document.sound_lax,
    (Graph.compiles_what_is_sound (by decide +kernel)).2 fun hsound => ?_⟩
  obtain ⟨b, hb, -⟩ := hsound.buttons _ List.mem_cons_self _ List.mem_cons_self 1
    (.inl ⟨⟨1, 1, some 5⟩, by decide, rfl⟩)
  exact absurd hb List.not_mem_nil

end ButtonDialog
