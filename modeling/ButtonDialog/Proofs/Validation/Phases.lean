import ButtonDialog.Proofs.Checks
import ButtonDialog.Proofs.Validation.Rules

/-! The checks of languages, texts, references and ways back.

    Each phase accepts exactly the drafts that obey its rules. What it refuses a draft with is there
    to be seen, as long as all ids are given, which the phase before has made sure of. -/

namespace ButtonDialog.Draft

open Checks

variable {d : Draft} {v : Violation}

/-! ## Ids that are given -/

theorem Obeys.procedure_id (h : d.Obeys .idGiven) {p : Procedure} (hp : p ∈ d.procedures) :
    ∃ i, d.IsProcedure i p ∧ p.id.getD 0 = i := by
  obtain ⟨i, hi⟩ := Option.isSome_iff_exists.1 (h.1 p hp).1
  exact ⟨i, ⟨hp, hi⟩, by rw [hi]; rfl⟩

theorem Obeys.stage_id (h : d.Obeys .idGiven) {i : Int64} {p : Procedure} (hp : d.IsProcedure i p)
    {s : Stage} (hs : s ∈ p.stages) : ∃ j, d.IsStage i p j s ∧ s.id.getD 0 = j := by
  obtain ⟨j, hj⟩ := Option.isSome_iff_exists.1 ((h.1 p hp.1).2 s hs).1
  exact ⟨j, ⟨hp, hs, hj⟩, by rw [hj]; rfl⟩

/-! ## Languages -/

theorem titleDefect?_eq_none_iff {title : String} :
    titleDefect? title = none ↔ WellFormedTitle title := by
  have hlength : title.isEmpty = false ↔ 1 ≤ title.length := by
    rw [Nat.one_le_iff_ne_zero, ne_eq, String.length_eq_zero_iff, Bool.eq_false_iff, ne_eq,
      String.isEmpty_iff]
  have hchars : title.toList.all Char.isAlphanum = true ↔
      ∀ c ∈ title.toList, c.isAlphanum = true := List.all_eq_true
  rw [titleDefect?, WellFormedTitle, ← hlength, ← hchars]
  have hlong : (if maxTitleLength < title.length then some TitleDefect.tooLong else none) = none ↔
      title.length ≤ 10 := by
    split
    · rename_i h
      simpa [maxTitleLength] using h
    · rename_i h
      simpa [maxTitleLength] using h
  cases title.isEmpty <;> cases title.toList.all Char.isAlphanum <;> simp [hlong]

/-- What is wrong with a title is there to be seen. -/
theorem shows_of_titleDefect? {title : String} {defect : TitleDefect} (htitle : title ∈ d.languages)
    (h : titleDefect? title = some defect) : d.Shows (.invalidTitle title defect) := by
  unfold titleDefect? at h
  split at h
  · rename_i hbad
    cases h
    refine .badCharacter htitle ?_
    rcases Bool.or_eq_true_iff.1 hbad with hempty | hchar
    · exact .inl (String.isEmpty_iff.1 hempty)
    · right
      simpa using hchar
  · split at h
    · cases h
      exact .tooLong htitle (by assumption)
    · cases h

/-- Titles are accepted when each is well formed and none is one of the others up to case. -/
theorem checkTitles_eq_ok_iff {seen titles : List String} :
    checkTitles seen titles = .ok () ↔
      (∀ t ∈ titles, WellFormedTitle t) ∧ (titles.Pairwise fun s t => ¬ Text.sameLetters s t) ∧
        ∀ t ∈ titles, ∀ s ∈ seen, ¬ Text.sameLetters t s := by
  induction titles generalizing seen with
  | nil => simp [checkTitles]
  | cons title titles ih =>
    rw [checkTitles, List.forall_mem_cons, List.pairwise_cons, List.forall_mem_cons,
      ← titleDefect?_eq_none_iff]
    cases hdefect : titleDefect? title with
    | some defect => simp
    | none =>
      by_cases hseen : seen.any (Text.sameLetters title) = true
      · obtain ⟨s, hs, hsame⟩ := List.any_eq_true.1 hseen
        simp only [if_pos hseen, reduceCtorEq, false_iff]
        exact fun h => h.2.2.1 s hs hsame
      · have hnew : ∀ s ∈ seen, ¬ Text.sameLetters title s = true :=
          fun s hs hsame => hseen (List.any_eq_true.2 ⟨s, hs, hsame⟩)
        simp only [if_neg hseen, ih, List.forall_mem_cons, Text.sameLetters_iff, true_and] at hnew ⊢
        constructor
        · rintro ⟨hgood, hpairs, hold⟩
          exact ⟨hgood, ⟨fun t ht e => (hold t ht).1 e.symm, hpairs⟩, hnew,
            fun t ht => (hold t ht).2⟩
        · rintro ⟨hgood, ⟨hfirst, hpairs⟩, -, hold⟩
          exact ⟨hgood, hpairs, fun t ht => ⟨fun e => hfirst t ht e.symm, hold t ht⟩⟩

/-- What titles are refused with is there to be seen; the ones seen before stand before the rest. -/
theorem shows_of_checkTitles {before titles : List String} (hall : d.languages = before ++ titles)
    (h : checkTitles before.reverse titles = .error v) : d.ShowsIn .languages v := by
  induction titles generalizing before with
  | nil => simp [checkTitles] at h
  | cons title titles ih =>
    rw [checkTitles] at h
    split at h
    · rename_i hdefect
      cases h
      exact ⟨shows_of_titleDefect? (by simp [hall]) hdefect, rfl⟩
    · split at h
      · rename_i hsame
        cases h
        obtain ⟨earlier, hearlier, hsame⟩ := List.any_eq_true.1 hsame
        exact ⟨.duplicateLanguage hall (List.mem_reverse.1 hearlier) hsame, rfl⟩
      · have hall' : d.languages = (before ++ [title]) ++ titles := by simp [hall]
        exact ih hall' (by simpa using h)

theorem checkLanguages_eq_ok_iff :
    d.checkLanguages = .ok () ↔ d.Obeys .titleWellFormed ∧ d.Obeys .titleUnique := by
  rw [checkLanguages, checkTitles_eq_ok_iff]
  simp [Obeys]

theorem shows_of_checkLanguages (h : d.checkLanguages = .error v) : d.ShowsIn .languages v := by
  have hall : d.languages = [] ++ d.languages := rfl
  exact shows_of_checkTitles hall h

/-! ## Texts -/

theorem checkText_eq_ok_iff {languages : List String} {kind : Entity} {id : Int64} {scope : Scope}
    {text : LanguageText} :
    checkText languages kind id scope text = .ok () ↔
      ∀ language ∈ languages, text.contains language := by
  have hnone : (languages.find? fun language => !text.contains language) = none ↔
      ∀ language ∈ languages, text.contains language := by simp [List.find?_eq_none]
  rw [← hnone, checkText]
  cases languages.find? fun language => !text.contains language <;> simp

theorem checkText_eq_error {languages : List String} {kind : Entity} {id : Int64} {scope : Scope}
    {text : LanguageText} (h : checkText languages kind id scope text = .error v) :
    ∃ language ∈ languages, text.contains language = false ∧
      v = .missingText kind id scope language := by
  unfold checkText at h
  split at h
  · rename_i language hfind
    cases h
    exact ⟨language, List.mem_of_find?_eq_some hfind, by simpa using List.find?_some hfind, rfl⟩
  · cases h

/-- The texts are accepted when each covers every language. -/
theorem checkTexts_eq_ok_iff : d.checkTexts = .ok () ↔ d.Obeys .textComplete := by
  simp only [checkTexts, andThen_eq_ok_iff, forM_eq_ok_iff, checkText_eq_ok_iff, Obeys]

theorem shows_of_checkTexts (hids : d.Obeys .idGiven) (h : d.checkTexts = .error v) :
    d.ShowsIn .texts v := by
  rcases bind_eq_error_iff.1 h with h | ⟨_, _, h⟩
  · obtain ⟨p, hp, h⟩ := exists_of_forM_eq_error h
    obtain ⟨s, hs, h⟩ := exists_of_forM_eq_error h
    obtain ⟨i, hp, hi⟩ := hids.procedure_id hp
    obtain ⟨j, hs, hj⟩ := hids.stage_id hp hs
    obtain ⟨language, hlanguage, hlacks, rfl⟩ := checkText_eq_error h
    rw [hi, hj]
    exact ⟨.stageText hs hlanguage hlacks, rfl⟩
  · obtain ⟨b, hb, h⟩ := exists_of_forM_eq_error h
    obtain ⟨j, hj⟩ := Option.isSome_iff_exists.1 (hids.2 b hb)
    obtain ⟨language, hlanguage, hlacks, rfl⟩ := checkText_eq_error h
    rw [hj]
    exact ⟨.buttonText hb hj hlanguage hlacks, rfl⟩

/-! ## References -/

theorem hasStage_iff {p : Procedure} {id : Int64} : p.hasStage id = true ↔ p.Has id := by
  simp [Procedure.hasStage, Procedure.Has]

theorem hasButton_iff {id : Int64} : d.hasButton id = true ↔ d.Defines id := by
  simp [hasButton, Defines]

theorem checkStage_eq_ok_iff {p : Procedure} {field : StageField} {ref : Option Int64} :
    p.checkStage field ref = .ok () ↔ ∀ id ∈ ref, p.Has id := by
  cases ref <;> simp [Procedure.checkStage, hasStage_iff]

theorem checkStage_eq_error {p : Procedure} {field : StageField} {ref : Option Int64}
    (h : p.checkStage field ref = .error v) :
    ∃ id, ref = some id ∧ ¬ p.Has id ∧ v = .stageNotFound field (some id) (p.id.getD 0) := by
  cases ref with
  | none => cases h
  | some id =>
    rw [Procedure.checkStage] at h
    split at h
    · cases h
    · rename_i hnot
      cases h
      exact ⟨id, rfl, fun hhas => hnot (hasStage_iff.2 hhas), rfl⟩

theorem checkButton_eq_ok_iff {field : ButtonField} {scope : Scope} {ref : Option Int64} :
    d.checkButton field scope ref = .ok () ↔ ∀ id ∈ ref, d.Defines id := by
  cases ref <;> simp [checkButton, hasButton_iff]

theorem checkButton_eq_error {field : ButtonField} {scope : Scope} {ref : Option Int64}
    (h : d.checkButton field scope ref = .error v) :
    ∃ id, ref = some id ∧ ¬ d.Defines id ∧ v = .buttonNotFound field id scope := by
  cases ref with
  | none => cases h
  | some id =>
    rw [checkButton] at h
    split at h
    · cases h
    · rename_i hnot
      cases h
      exact ⟨id, rfl, fun hhas => hnot (hasButton_iff.2 hhas), rfl⟩

/-- The references of a stage are accepted when each leads somewhere. -/
theorem checkStageReferences_eq_ok_iff {p : Procedure} {s : Stage} :
    d.checkStageReferences p s = .ok () ↔
      (∀ id ∈ s.previous, p.Has id) ∧ ∀ c ∈ s.choices,
        (∀ id ∈ c.button, d.Defines id) ∧ ∀ id ∈ c.next, p.Has id := by
  simp only [checkStageReferences, andThen_eq_ok_iff, forM_eq_ok_iff, checkStage_eq_ok_iff,
    checkButton_eq_ok_iff]

theorem shows_of_checkStageReferences {i j : Int64} {p : Procedure} {s : Stage}
    (hs : d.IsStage i p j s) (h : d.checkStageReferences p s = .error v) :
    d.ShowsIn .references v := by
  have hi : p.id.getD 0 = i := by rw [hs.1.2]; rfl
  have hj : s.id.getD 0 = j := by rw [hs.2.2]; rfl
  rcases bind_eq_error_iff.1 h with h | ⟨_, _, h⟩
  · obtain ⟨id, hid, hnot, rfl⟩ := checkStage_eq_error h
    rw [hi]
    exact ⟨.previous hs.1 hs.2.1 hid hnot, rfl⟩
  obtain ⟨c, hc, h⟩ := exists_of_forM_eq_error h
  rcases bind_eq_error_iff.1 h with h | ⟨_, _, h⟩
  · obtain ⟨id, hid, hnot, rfl⟩ := checkButton_eq_error h
    rw [hi, hj]
    exact ⟨.label hs hc hid hnot, rfl⟩
  · obtain ⟨id, hid, hnot, rfl⟩ := checkStage_eq_error h
    rw [hi]
    exact ⟨.next hs.1 hs.2.1 hc hid hnot, rfl⟩

theorem root_any_hasStage_iff {p : Procedure} :
    p.root.any p.hasStage = true ↔ ∃ root ∈ p.root, p.Has root := by
  cases p.root <;> simp [hasStage_iff]

/-- The references of a procedure are accepted when its root stage is there and each of the others
leads somewhere. -/
theorem checkProcedureReferences_eq_ok_iff {p : Procedure} :
    d.checkProcedureReferences p = .ok () ↔
      (∃ root ∈ p.root, p.Has root) ∧ (∀ id ∈ p.toRootButton, d.Defines id) ∧
        (∀ id ∈ p.toPreviousButton, d.Defines id) ∧
          ∀ s ∈ p.stages, d.checkStageReferences p s = .ok () := by
  unfold checkProcedureReferences
  rw [← root_any_hasStage_iff]
  cases p.root.any p.hasStage with
  | false => simp [throw, throwThe, MonadExceptOf.throw, bind, Except.bind]
  | true =>
    simp only [Bool.not_true, Bool.false_eq_true, if_false, true_and]
    simp only [andThen_eq_ok_iff, checkButton_eq_ok_iff, forM_eq_ok_iff]

theorem shows_of_checkProcedureReferences {p : Procedure} {i : Int64} (hids : d.Obeys .idGiven)
    (hp : d.IsProcedure i p) (h : d.checkProcedureReferences p = .error v) :
    d.ShowsIn .references v := by
  have hi : p.id.getD 0 = i := by rw [hp.2]; rfl
  unfold checkProcedureReferences at h
  rw [hi] at h
  cases hroot : p.root.any p.hasStage with
  | false =>
    rw [hroot] at h
    cases h
    refine ⟨.root hp fun root hmem hhas => ?_, rfl⟩
    rw [root_any_hasStage_iff.2 ⟨root, hmem, hhas⟩] at hroot
    cases hroot
  | true =>
    simp only [hroot, Bool.not_true, Bool.false_eq_true, if_false] at h
    rcases bind_eq_error_iff.1 h with h | ⟨_, _, h⟩
    · obtain ⟨id, hid, hnot, rfl⟩ := checkButton_eq_error h
      exact ⟨.toRootButton hp hid hnot, rfl⟩
    rcases bind_eq_error_iff.1 h with h | ⟨_, _, h⟩
    · obtain ⟨id, hid, hnot, rfl⟩ := checkButton_eq_error h
      exact ⟨.toPreviousButton hp hid hnot, rfl⟩
    obtain ⟨s, hs, h⟩ := exists_of_forM_eq_error h
    obtain ⟨j, hs, -⟩ := hids.stage_id hp hs
    exact shows_of_checkStageReferences hs h

/-- The references are accepted when the stages and the buttons that they name exist. -/
theorem checkReferences_eq_ok_iff :
    d.checkReferences = .ok () ↔ d.Obeys .stageExists ∧ d.Obeys .buttonExists := by
  simp only [checkReferences, forM_eq_ok_iff, checkProcedureReferences_eq_ok_iff,
    checkStageReferences_eq_ok_iff]
  constructor
  · intro h
    refine ⟨fun p hp => ?_, fun p hp => ?_⟩
    · obtain ⟨hroot, -, -, hstages⟩ := h p hp
      exact ⟨hroot, fun s hs => ⟨(hstages s hs).1, fun c hc => ((hstages s hs).2 c hc).2⟩⟩
    · obtain ⟨-, htoRoot, htoPrevious, hstages⟩ := h p hp
      exact ⟨htoRoot, htoPrevious, fun s hs c hc => ((hstages s hs).2 c hc).1⟩
  · rintro ⟨hstage, hbutton⟩ p hp
    obtain ⟨hroot, hstages⟩ := hstage p hp
    obtain ⟨htoRoot, htoPrevious, hlabels⟩ := hbutton p hp
    exact ⟨hroot, htoRoot, htoPrevious, fun s hs =>
      ⟨(hstages s hs).1, fun c hc => ⟨hlabels s hs c hc, (hstages s hs).2 c hc⟩⟩⟩

theorem shows_of_checkReferences (hids : d.Obeys .idGiven) (h : d.checkReferences = .error v) :
    d.ShowsIn .references v := by
  obtain ⟨p, hp, h⟩ := exists_of_forM_eq_error h
  obtain ⟨i, hp, -⟩ := hids.procedure_id hp
  exact shows_of_checkProcedureReferences hids hp h

/-! ## Ways back -/

theorem checkNavigation_eq_ok_iff :
    d.checkNavigation = .ok () ↔ d.Obeys .rootButtonGiven ∧ d.Obeys .previousButtonGiven := by
  simp only [checkNavigation, forM_eq_ok_iff, Obeys, ← forall_and]
  refine forall_congr' fun p => forall_congr' fun hp => ?_
  cases p.addToRoot <;> cases p.toRootButton <;> cases p.addToPrevious <;>
    cases p.toPreviousButton <;>
      simp [throw, throwThe, MonadExceptOf.throw, bind, Except.bind, pure, Except.pure]

theorem shows_of_checkNavigation (hids : d.Obeys .idGiven) (h : d.checkNavigation = .error v) :
    d.ShowsIn .waysBack v := by
  obtain ⟨p, hp, h⟩ := exists_of_forM_eq_error h
  obtain ⟨i, hp, hi⟩ := hids.procedure_id hp
  rw [hi] at h
  cases hroot : p.addToRoot && p.toRootButton.isNone with
  | true =>
    rw [hroot] at h
    cases h
    simp only [Bool.and_eq_true, Option.isNone_iff_eq_none] at hroot
    exact ⟨.missingRootButton hp hroot.1 hroot.2, rfl⟩
  | false =>
    rw [hroot] at h
    cases hprevious : p.addToPrevious && p.toPreviousButton.isNone with
    | true =>
      rw [hprevious] at h
      cases h
      simp only [Bool.and_eq_true, Option.isNone_iff_eq_none] at hprevious
      exact ⟨.missingPreviousButton hp hprevious.1 hprevious.2, rfl⟩
    | false =>
      rw [hprevious] at h
      cases h

end ButtonDialog.Draft
