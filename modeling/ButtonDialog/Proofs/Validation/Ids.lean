import ButtonDialog.Proofs.Checks
import ButtonDialog.Proofs.Validation.Rules

/-! The check of ids.

    The check walks through a scope with the ids it has seen. It accepts when every part of the
    scope has an id, the ids are distinct and none of them was seen before; it refuses with a part
    without an id, an id that two parts carry, or a fault inside a part. -/

namespace ButtonDialog.Draft

open Checks

section Parts

variable {α : Type} {kind : Entity} {scope : Scope} {id : α → Option Int64}
  {inside : Int64 → α → Except Violation Unit}

theorem freshId_eq_ok_iff {seen : List Int64} {given : Option Int64} {own : Int64} :
    freshId kind scope seen given = .ok own ↔ given = some own ∧ own ∉ seen := by
  cases given with
  | none => simp [freshId]
  | some i =>
    by_cases h : i ∈ seen
    · simp only [freshId, if_pos h, reduceCtorEq, Option.some.injEq, false_iff, not_and]
      rintro rfl
      exact fun hnot => hnot h
    · simp only [freshId, if_neg h, Except.ok.injEq, Option.some.injEq]
      exact ⟨by rintro rfl; exact ⟨rfl, h⟩, fun h => h.1⟩

theorem freshId_eq_error_iff {seen : List Int64} {given : Option Int64} {v : Violation} :
    freshId kind scope seen given = .error v ↔
      given = none ∧ v = .missingId kind scope ∨
        ∃ i ∈ seen, given = some i ∧ v = .duplicateId kind i scope := by
  cases given with
  | none => simp [freshId, eq_comm]
  | some i =>
    by_cases h : i ∈ seen
    · simp only [freshId, if_pos h, Except.error.injEq, Option.some.injEq, reduceCtorEq, false_and,
        false_or]
      exact ⟨fun e => ⟨i, h, rfl, e.symm⟩, fun ⟨_, _, rfl, e⟩ => e.symm⟩
    · simp only [freshId, if_neg h, Option.some.injEq, reduceCtorEq, false_and, false_or, false_iff]
      rintro ⟨_, hmem, rfl, -⟩
      exact h hmem

/-- A scope is accepted when its parts have ids, distinct from each other and from those seen
before, and each part is in order inside. -/
theorem checkParts_eq_ok_iff {Good : α → Prop} (hin : ∀ i a, inside i a = .ok () ↔ Good a)
    {seen : List Int64} {parts : List α} :
    checkParts kind scope id inside seen parts = .ok () ↔
      (∀ a ∈ parts, (id a).isSome ∧ Good a) ∧ (parts.filterMap id).Nodup ∧
        ∀ i ∈ parts.filterMap id, i ∉ seen := by
  induction parts generalizing seen with
  | nil => simp [checkParts]
  | cons a parts ih =>
    simp only [checkParts, bind_eq_ok_iff, freshId_eq_ok_iff, hin, ih, List.forall_mem_cons]
    constructor
    · rintro ⟨own, ⟨hid, hown⟩, _, hgood, hall, hnodup, hseen⟩
      rw [List.filterMap_cons_some hid, List.nodup_cons, List.forall_mem_cons]
      refine ⟨⟨⟨by rw [hid]; rfl, hgood⟩, hall⟩, ⟨fun hmem => ?_, hnodup⟩, hown, ?_⟩
      · exact hseen own hmem List.mem_cons_self
      · exact fun i hi hmem => hseen i hi (List.mem_cons_of_mem _ hmem)
    · rintro ⟨⟨⟨hsome, hgood⟩, hall⟩, hrest⟩
      obtain ⟨own, hid⟩ := Option.isSome_iff_exists.1 hsome
      rw [List.filterMap_cons_some hid, List.nodup_cons, List.forall_mem_cons] at hrest
      obtain ⟨⟨hnew, hnodup⟩, hown, hseen⟩ := hrest
      refine ⟨own, ⟨hid, hown⟩, (), hgood, hall, hnodup, fun i hi hmem => ?_⟩
      rcases List.mem_cons.1 hmem with rfl | hmem
      · exact hnew hi
      · exact hseen i hi hmem

/-- What a scope is refused with. An id counts as often as it was seen before, and once more for
each part that carries it. -/
theorem checkParts_eq_error {seen : List Int64} {parts : List α} {v : Violation}
    (h : checkParts kind scope id inside seen parts = .error v) :
    (none ∈ parts.map id ∧ v = .missingId kind scope) ∨
      (∃ i, 2 ≤ seen.count i + (parts.map id).count (some i) ∧ v = .duplicateId kind i scope) ∨
        ∃ a ∈ parts, ∃ i, id a = some i ∧ inside i a = .error v := by
  induction parts generalizing seen with
  | nil => simp [checkParts] at h
  | cons a parts ih =>
    rw [checkParts] at h
    rcases bind_eq_error_iff.1 h with h | ⟨own, hown, h⟩
    · rcases freshId_eq_error_iff.1 h with ⟨hid, rfl⟩ | ⟨i, hi, hid, rfl⟩
      · exact .inl ⟨by simp [hid], rfl⟩
      · refine .inr (.inl ⟨i, ?_, rfl⟩)
        have : 0 < seen.count i := List.count_pos_iff.2 hi
        rw [List.map_cons, hid, List.count_cons_self]
        omega
    have hid := (freshId_eq_ok_iff.1 hown).1
    rcases bind_eq_error_iff.1 h with h | ⟨_, _, h⟩
    · exact .inr (.inr ⟨a, List.mem_cons_self, own, hid, h⟩)
    rcases ih h with ⟨hnone, rfl⟩ | ⟨i, hi, rfl⟩ | ⟨b, hb, i, hbi, hv⟩
    · exact .inl ⟨List.mem_cons_of_mem _ hnone, rfl⟩
    · refine .inr (.inl ⟨i, ?_, rfl⟩)
      simp only [List.count_cons, List.map_cons, hid, beq_iff_eq, Option.some.injEq] at hi ⊢
      omega
    · exact .inr (.inr ⟨b, List.mem_cons_of_mem _ hb, i, hbi, hv⟩)

/-- What a whole scope is refused with, where the draft lists the ids of its parts. -/
theorem checkParts_shows {d : Draft} {parts : List α} {v : Violation}
    (hids : d.Lists kind scope (parts.map id))
    (hin : ∀ a ∈ parts, ∀ i, id a = some i → inside i a = .error v → d.ShowsIn .ids v)
    (h : checkParts kind scope id inside [] parts = .error v) : d.ShowsIn .ids v := by
  rcases checkParts_eq_error h with ⟨hnone, rfl⟩ | ⟨i, hi, rfl⟩ | ⟨a, ha, i, hid, hv⟩
  · exact ⟨.missingId hids hnone, rfl⟩
  · exact ⟨.duplicateId hids (by simpa using hi), rfl⟩
  · exact hin a ha i hid hv

end Parts

theorem checkChoiceIds_eq_ok_iff {i j : Int64} {s : Stage} :
    checkChoiceIds i j s = .ok () ↔
      (∀ c ∈ s.choices, c.id.isSome) ∧ (s.choices.filterMap Choice.id).Nodup := by
  have hin : ∀ (k : Int64) (c : Choice), (Except.ok () : Except Violation Unit) = .ok () ↔ True :=
    fun _ _ => by simp
  rw [checkChoiceIds, checkParts_eq_ok_iff hin]
  simp

theorem checkStageIds_eq_ok_iff {i : Int64} {p : Procedure} :
    checkStageIds i p = .ok () ↔
      (∀ s ∈ p.stages, s.id.isSome ∧ ∀ c ∈ s.choices, c.id.isSome) ∧
        (p.stages.filterMap Stage.id).Nodup ∧
          ∀ s ∈ p.stages, (s.choices.filterMap Choice.id).Nodup := by
  have hin := fun j s => @checkChoiceIds_eq_ok_iff i j s
  rw [checkStageIds, checkParts_eq_ok_iff hin]
  constructor
  · rintro ⟨hparts, hnodup, -⟩
    exact ⟨fun s hs => ⟨(hparts s hs).1, (hparts s hs).2.1⟩, hnodup, fun s hs => (hparts s hs).2.2⟩
  · rintro ⟨hgiven, hnodup, hchoices⟩
    exact ⟨fun s hs => ⟨(hgiven s hs).1, (hgiven s hs).2, hchoices s hs⟩, hnodup, by simp⟩

/-- The ids are accepted when they are given and distinct in their scopes. -/
theorem checkIds_eq_ok_iff {d : Draft} :
    d.checkIds = .ok () ↔ d.Obeys .idGiven ∧ d.Obeys .idUnique := by
  have hin : ∀ (j : Int64) (b : Button), (Except.ok () : Except Violation Unit) = .ok () ↔ True :=
    fun _ _ => by simp
  rw [checkIds, andThen_eq_ok_iff, checkParts_eq_ok_iff @checkStageIds_eq_ok_iff,
    checkParts_eq_ok_iff hin]
  constructor
  · rintro ⟨⟨hp, hnodup, -⟩, hb, hbuttons, -⟩
    exact ⟨⟨fun p h => ⟨(hp p h).1, (hp p h).2.1⟩, fun b h => (hb b h).1⟩,
      ⟨hnodup, fun p h => (hp p h).2.2⟩, hbuttons⟩
  · rintro ⟨⟨hp, hb⟩, ⟨hnodup, hunique⟩, hbuttons⟩
    exact ⟨⟨fun p h => ⟨(hp p h).1, (hp p h).2, hunique p h⟩, hnodup, by simp⟩,
      fun b h => ⟨hb b h, trivial⟩, hbuttons, by simp⟩

/-- What the ids are refused with is there to be seen. -/
theorem shows_of_checkIds {d : Draft} {v : Violation} (h : d.checkIds = .error v) :
    d.ShowsIn .ids v := by
  rcases bind_eq_error_iff.1 h with h | ⟨_, _, h⟩
  · refine checkParts_shows .procedures (fun p hp i hi h => ?_) h
    have hp : d.IsProcedure i p := ⟨hp, hi⟩
    refine checkParts_shows (.stages hp) (fun s hs j hj h => ?_) h
    exact checkParts_shows (.choices ⟨hp, hs, hj⟩) (fun _ _ _ _ h => by simp at h) h
  · exact checkParts_shows .buttons (fun _ _ _ _ h => by simp at h) h

end ButtonDialog.Draft
