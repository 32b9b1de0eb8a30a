import ButtonDialog.Proofs.Checks
import ButtonDialog.Proofs.Validation.Rules

/-! The document that is built from a draft.

    A document written back as a draft has every id, every root stage and every button of a choice
    set, and all else as it is. Building gives the document that is the draft when it is written
    back, and it fails only on a stage without its previous stage or a choice without its button. -/

namespace ButtonDialog

/-- The choice written back. -/
def Document.Choice.draft (c : Document.Choice) : Draft.Choice := ⟨some c.id, some c.button, c.next⟩

/-- The stage written back. -/
def Document.Stage.draft (s : Document.Stage) : Draft.Stage where
  id := some s.id
  title := s.title
  previous := s.previous
  removeToRoot := s.removeToRoot
  removeToPrevious := s.removeToPrevious
  text := s.text
  rows := s.rows.map (·.map Document.Choice.draft)

/-- The procedure written back. -/
def Document.Procedure.draft (p : Document.Procedure) : Draft.Procedure where
  id := some p.id
  title := p.title
  root := some p.root
  addToRoot := p.addToRoot
  addToPrevious := p.addToPrevious
  toRootButton := p.toRootButton
  toPreviousButton := p.toPreviousButton
  stages := p.stages.map Document.Stage.draft

/-- The button written back. -/
def Document.Button.draft (b : Document.Button) : Draft.Button := ⟨some b.id, b.title, b.text⟩

/-- The document written back as a draft. -/
def Document.draft (d : Document) : Draft where
  languages := d.languages
  buttons := d.buttons.map Document.Button.draft
  procedures := d.procedures.map Document.Procedure.draft

namespace Draft

open Checks

/-- A choice that can be built. -/
def Choice.Complete (c : Choice) : Prop := c.id.isSome ∧ c.button.isSome

/-- A stage that can be built, in a procedure with this root. -/
def Stage.Complete (root : Option Int64) (s : Stage) : Prop :=
  s.id.isSome ∧ (s.id ≠ root → s.previous.isSome) ∧ ∀ row ∈ s.rows, ∀ c ∈ row, c.Complete

/-- A procedure that can be built. -/
def Procedure.Complete (p : Procedure) : Prop :=
  p.id.isSome ∧ p.root.isSome ∧ ∀ s ∈ p.stages, s.Complete p.root

theorem require_eq_ok_iff {kind : Entity} {scope : Scope} {id : Option Int64} {i : Int64} :
    require kind scope id = .ok i ↔ id = some i := by
  cases id <;> simp [require]

theorem Choice.check_eq_ok_iff {i j : Int64} {c : Choice} {built : Document.Choice} :
    c.check i j = .ok built ↔ c.Complete ∧ built.draft = c := by
  obtain ⟨id, button, next⟩ := c
  obtain ⟨id', button', next'⟩ := built
  simp only [Choice.check, bind_eq_ok_iff, require_eq_ok_iff, Choice.Complete,
    Document.Choice.draft, Choice.mk.injEq]
  cases button with
  | none => simp [throw, throwThe, MonadExceptOf.throw]
  | some button =>
    simp only [pure, Except.pure, Except.ok.injEq, Document.Choice.mk.injEq, Option.some.injEq]
    constructor
    · rintro ⟨_, rfl, rfl, rfl, rfl⟩
      exact ⟨⟨rfl, rfl⟩, rfl, rfl, rfl⟩
    · rintro ⟨-, rfl, rfl, rfl⟩
      exact ⟨_, rfl, rfl, rfl, rfl⟩

theorem mapM_check_eq_ok_iff {i j : Int64} {rows : List (List Choice)}
    {built : List (List Document.Choice)} :
    (rows.mapM fun row => row.mapM (Choice.check i j)) = .ok built ↔
      (∀ row ∈ rows, ∀ c ∈ row, c.Complete) ∧ built.map (·.map Document.Choice.draft) = rows :=
  mapM_eq_ok_iff fun _ _ => mapM_eq_ok_iff fun _ _ => Choice.check_eq_ok_iff

theorem Stage.check_eq_ok_iff {i root : Int64} {s : Stage} {built : Document.Stage} :
    s.check i root = .ok built ↔ s.Complete (some root) ∧ built.draft = s := by
  obtain ⟨id, title, previous, removeToRoot, removeToPrevious, text, rows⟩ := s
  obtain ⟨id', title', previous', removeToRoot', removeToPrevious', text', rows'⟩ := built
  simp only [Stage.check, bind_eq_ok_iff, require_eq_ok_iff, Stage.Complete, Document.Stage.draft,
    Stage.mk.injEq]
  constructor
  · rintro ⟨j, rfl, h⟩
    cases hback : previous.isNone && j != root with
    | true => rw [hback] at h; cases h
    | false =>
      rw [hback] at h
      obtain ⟨built, hrows, h⟩ := bind_eq_ok_iff.1 h
      obtain ⟨hcomplete, hmap⟩ := mapM_check_eq_ok_iff.1 hrows
      cases h
      refine ⟨⟨rfl, fun hroot => ?_, hcomplete⟩, rfl, rfl, rfl, rfl, rfl, rfl, hmap⟩
      have hne : id' ≠ root := fun e => hroot (e ▸ rfl)
      cases previous with
      | none => simp [hne] at hback
      | some _ => rfl
  · rintro ⟨⟨-, hprevious, hcomplete⟩, rfl, rfl, rfl, rfl, rfl, rfl, hrows⟩
    have hback : (previous'.isNone && id' != root) = false := by
      by_cases hne : id' = root
      · simp [hne]
      · have := hprevious fun e => hne (Option.some.inj e)
        simp [Option.isSome_iff_ne_none.1 this]
    refine ⟨_, rfl, ?_⟩
    rw [hback]
    exact bind_eq_ok_iff.2 ⟨rows', mapM_check_eq_ok_iff.2 ⟨hcomplete, hrows⟩, rfl⟩

theorem Procedure.check_eq_ok_iff {p : Procedure} {built : Document.Procedure} :
    p.check = .ok built ↔ p.Complete ∧ built.draft = p := by
  obtain ⟨id, title, root, addToRoot, addToPrevious, toRootButton, toPreviousButton, stages⟩ := p
  obtain ⟨id', title', root', addToRoot', addToPrevious', toRootButton', toPreviousButton',
    stages'⟩ := built
  simp only [Procedure.check, bind_eq_ok_iff, require_eq_ok_iff, Procedure.Complete,
    Document.Procedure.draft, Procedure.mk.injEq]
  constructor
  · rintro ⟨i, rfl, h⟩
    cases root with
    | none => cases h
    | some root =>
      obtain ⟨built, hstages, h⟩ := bind_eq_ok_iff.1 h
      obtain ⟨hcomplete, hmap⟩ := (mapM_eq_ok_iff fun _ _ => Stage.check_eq_ok_iff).1 hstages
      cases h
      exact ⟨⟨rfl, rfl, hcomplete⟩, rfl, rfl, rfl, rfl, rfl, rfl, rfl, hmap⟩
  · rintro ⟨⟨-, -, hcomplete⟩, rfl, rfl, rfl, rfl, rfl, rfl, rfl, hstages⟩
    refine ⟨_, rfl, bind_eq_ok_iff.2 ⟨stages', ?_, rfl⟩⟩
    exact (mapM_eq_ok_iff fun _ _ => Stage.check_eq_ok_iff).2 ⟨hcomplete, hstages⟩

theorem Button.check_eq_ok_iff {b : Button} {built : Document.Button} :
    b.check = .ok built ↔ b.id.isSome ∧ built.draft = b := by
  obtain ⟨id, title, text⟩ := b
  obtain ⟨id', title', text'⟩ := built
  simp only [Button.check, bind_eq_ok_iff, require_eq_ok_iff, Document.Button.draft,
    Button.mk.injEq, pure, Except.pure, Except.ok.injEq, Document.Button.mk.injEq]
  constructor
  · rintro ⟨_, rfl, rfl, rfl, rfl⟩
    exact ⟨rfl, rfl, rfl, rfl⟩
  · rintro ⟨-, rfl, rfl, rfl⟩
    exact ⟨_, rfl, rfl, rfl, rfl⟩

/-- Building succeeds when all procedures and buttons are complete, and gives the document that is
the draft when it is written back. -/
theorem build_eq_ok_iff {d : Draft} {built : Document} :
    d.build = .ok built ↔
      ((∀ p ∈ d.procedures, p.Complete) ∧ ∀ b ∈ d.buttons, b.id.isSome) ∧ built.draft = d := by
  obtain ⟨languages, buttons, procedures⟩ := d
  obtain ⟨languages', buttons', procedures'⟩ := built
  have hprocedures := fun bs => @mapM_eq_ok_iff _ _ _ _ _ _ (fun _ _ => Procedure.check_eq_ok_iff)
    procedures bs
  have hbuttons := fun bs => @mapM_eq_ok_iff _ _ _ _ _ _ (fun _ _ => Button.check_eq_ok_iff)
    buttons bs
  simp only [build, bind_eq_ok_iff, hprocedures, hbuttons, pure, Except.pure, Except.ok.injEq,
    Document.draft, Document.mk.injEq, Draft.mk.injEq]
  constructor
  · rintro ⟨_, ⟨hp, hps⟩, _, ⟨hb, hbs⟩, rfl, rfl, rfl⟩
    exact ⟨⟨hp, hb⟩, rfl, hbs, hps⟩
  · rintro ⟨⟨hp, hb⟩, rfl, hbs, hps⟩
    exact ⟨_, ⟨hp, hps⟩, _, ⟨hb, hbs⟩, rfl, rfl, rfl⟩

/-! ## What building fails with -/

variable {d : Draft} {v : Violation}

theorem require_ne_error {kind : Entity} {scope : Scope} {id : Option Int64} {i : Int64}
    (hid : id = some i) : require kind scope id ≠ .error v := by
  rw [hid, require]
  exact nofun

theorem shows_of_choice_check {i j k : Int64} {p : Procedure} {s : Stage} {c : Choice}
    (hs : d.IsStage i p j s) (hc : c ∈ s.choices) (hk : c.id = some k)
    (h : c.check i j = .error v) : d.ShowsIn .completion v := by
  rcases bind_eq_error_iff.1 h with h | ⟨k', hk', h⟩
  · exact absurd h (require_ne_error hk)
  obtain rfl : k = k' := Option.some.inj (hk.symm.trans (require_eq_ok_iff.1 hk'))
  cases hbutton : c.button with
  | none =>
    rw [hbutton] at h
    cases h
    exact ⟨.noButton hs hc hk hbutton, rfl⟩
  | some _ =>
    rw [hbutton] at h
    cases h

theorem shows_of_stage_check {i j root : Int64} {p : Procedure} {s : Stage}
    (hids : d.Obeys .idGiven) (hs : d.IsStage i p j s) (hroot : p.root = some root)
    (h : s.check i root = .error v) : d.ShowsIn .completion v := by
  rcases bind_eq_error_iff.1 h with h | ⟨j', hj', h⟩
  · exact absurd h (require_ne_error hs.2.2)
  obtain rfl : j = j' := Option.some.inj (hs.2.2.symm.trans (require_eq_ok_iff.1 hj'))
  cases hback : s.previous.isNone && j != root with
  | true =>
    rw [hback] at h
    cases h
    rw [Bool.and_eq_true, Option.isNone_iff_eq_none, bne_iff_ne] at hback
    refine ⟨.noPreviousStage hs (fun e => hback.2 ?_) hback.1, rfl⟩
    exact Option.some.inj (hs.2.2.symm.trans (e.trans hroot))
  | false =>
    rw [hback] at h
    rcases bind_eq_error_iff.1 h with h | ⟨_, _, h⟩
    · obtain ⟨row, hrow, h⟩ := exists_of_mapM_eq_error h
      obtain ⟨c, hc, h⟩ := exists_of_mapM_eq_error h
      have hc : c ∈ s.choices := List.mem_flatten.2 ⟨row, hrow, hc⟩
      obtain ⟨k, hk⟩ := Option.isSome_iff_exists.1 (((hids.1 p hs.1.1).2 s hs.2.1).2 c hc)
      exact shows_of_choice_check hs hc hk h
    · cases h

/-- Where ids and root stages are given, building fails with a stage without its previous stage or
a choice without its button, and with nothing else. -/
theorem shows_of_build (hids : d.Obeys .idGiven) (hroots : ∀ p ∈ d.procedures, p.root.isSome)
    (h : d.build = .error v) : d.ShowsIn .completion v := by
  rcases bind_eq_error_iff.1 h with h | ⟨_, _, h⟩
  · obtain ⟨p, hp, h⟩ := exists_of_mapM_eq_error h
    obtain ⟨i, hi⟩ := Option.isSome_iff_exists.1 (hids.1 p hp).1
    obtain ⟨root, hroot⟩ := Option.isSome_iff_exists.1 (hroots p hp)
    rcases bind_eq_error_iff.1 h with h | ⟨i', hi', h⟩
    · exact absurd h (require_ne_error hi)
    obtain rfl : i = i' := Option.some.inj (hi.symm.trans (require_eq_ok_iff.1 hi'))
    rw [hroot] at h
    rcases bind_eq_error_iff.1 h with h | ⟨_, _, h⟩
    · obtain ⟨s, hs, h⟩ := exists_of_mapM_eq_error h
      obtain ⟨j, hj⟩ := Option.isSome_iff_exists.1 ((hids.1 p hp).2 s hs).1
      exact shows_of_stage_check hids ⟨⟨hp, hi⟩, hs, hj⟩ hroot h
    · cases h
  rcases bind_eq_error_iff.1 h with h | ⟨_, _, h⟩
  · obtain ⟨b, hb, h⟩ := exists_of_mapM_eq_error h
    obtain ⟨i, hi⟩ := Option.isSome_iff_exists.1 (hids.2 b hb)
    rcases bind_eq_error_iff.1 h with h | ⟨_, _, h⟩
    · exact absurd h (require_ne_error hi)
    · cases h
  · cases h

end Draft

end ButtonDialog
