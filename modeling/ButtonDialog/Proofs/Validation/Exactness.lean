import ButtonDialog.Proofs.Validation.Building
import ButtonDialog.Proofs.Validation.Ids
import ButtonDialog.Proofs.Validation.Phases

/-! What validation accepts, and what it refuses with.

    A draft is accepted exactly when it obeys every rule, and its document is the draft with nothing
    added or lost. A draft that is refused shows the violation it is refused with; it obeys all the
    rules of the phases before, and not the one that the violation breaks. -/

namespace ButtonDialog.Draft

open Checks

variable {d : Draft} {v : Violation}

/-! ## A violation that is there breaks its rule -/

theorem Lists.isSome_of_obeys {kind : Entity} {scope : Scope} {ids : List (Option Int64)}
    (h : d.Lists kind scope ids) (hobeys : d.Obeys .idGiven) : none ∉ ids := by
  intro hnone
  have hid : ∀ {α : Type} {id : α → Option Int64} {parts : List α},
      (∀ a ∈ parts, (id a).isSome) → none ∉ parts.map id := fun hall hmem => by
    obtain ⟨a, ha, hnone⟩ := List.mem_map.1 hmem
    have := hall a ha
    rw [hnone] at this
    cases this
  cases h with
  | procedures => exact hid (fun p hp => (hobeys.1 p hp).1) hnone
  | stages hp => exact hid (fun s hs => ((hobeys.1 _ hp.1).2 s hs).1) hnone
  | choices hs => exact hid ((hobeys.1 _ hs.1.1).2 _ hs.2.1).2 hnone
  | buttons => exact hid hobeys.2 hnone

theorem count_le_one_of_nodup {α : Type} {id : α → Option Int64} {parts : List α}
    (h : (parts.filterMap id).Nodup) (i : Int64) : (parts.map id).count (some i) ≤ 1 := by
  have hcount : (parts.map id).count (some i) = (parts.filterMap id).count i := by
    induction parts with
    | nil => rfl
    | cons a parts ih =>
      cases ha : id a with
      | none =>
        rw [List.filterMap_cons_none ha] at h ⊢
        rw [List.map_cons, ha, List.count_cons_of_ne (by simp), ih h]
      | some j =>
        rw [List.filterMap_cons_some ha] at h ⊢
        rw [List.map_cons, ha, List.count_cons, List.count_cons, ih (List.nodup_cons.1 h).2]
        simp
  rw [hcount]
  exact List.nodup_iff_count.1 h i

theorem Lists.count_le_one_of_obeys {kind : Entity} {scope : Scope} {ids : List (Option Int64)}
    (h : d.Lists kind scope ids) (hobeys : d.Obeys .idUnique) (i : Int64) :
    ids.count (some i) ≤ 1 := by
  cases h with
  | procedures => exact count_le_one_of_nodup hobeys.1.1 i
  | stages hp => exact count_le_one_of_nodup (hobeys.1.2 _ hp.1).1 i
  | choices hs => exact count_le_one_of_nodup ((hobeys.1.2 _ hs.1.1).2 _ hs.2.1) i
  | buttons => exact count_le_one_of_nodup hobeys.2 i

/-- A draft that shows a violation does not obey the rule of the violation. -/
theorem Shows.not_obeys (h : d.Shows v) : ¬ d.Obeys v.rule := by
  intro hobeys
  cases h with
  | missingId hids hnone => exact hids.isSome_of_obeys hobeys hnone
  | @duplicateId _ _ _ id hids htwice =>
    have := hids.count_le_one_of_obeys hobeys id
    omega
  | badCharacter htitle hbad =>
    obtain ⟨hlength, -, hchars⟩ := hobeys _ htitle
    rcases hbad with rfl | ⟨c, hc, hbad⟩
    · cases hlength
    · rw [hchars c hc] at hbad
      cases hbad
  | tooLong htitle hlong =>
    have := (hobeys _ htitle).2.1
    omega
  | duplicateLanguage htitle hearlier hsame =>
    rw [Violation.rule, Obeys, htitle] at hobeys
    have := (List.pairwise_append.1 hobeys).2.2 _ hearlier _ List.mem_cons_self
    rw [Text.sameLetters_iff] at hsame this
    exact this hsame.symm
  | stageText hs hlanguage hlacks =>
    have := hobeys.1 _ hs.1.1 _ hs.2.1 _ hlanguage
    rw [hlacks] at this
    cases this
  | buttonText hb _ hlanguage hlacks =>
    have := hobeys.2 _ hb _ hlanguage
    rw [hlacks] at this
    cases this
  | root hp hroot =>
    obtain ⟨root, hmem, hhas⟩ := (hobeys _ hp.1).1
    exact hroot root hmem hhas
  | previous hp hs hstage hnot => exact hnot (((hobeys _ hp.1).2 _ hs).1 _ hstage)
  | next hp hs hc hstage hnot => exact hnot (((hobeys _ hp.1).2 _ hs).2 _ hc _ hstage)
  | toRootButton hp hbutton hnot => exact hnot ((hobeys _ hp.1).1 _ hbutton)
  | toPreviousButton hp hbutton hnot => exact hnot ((hobeys _ hp.1).2.1 _ hbutton)
  | label hs hc hbutton hnot => exact hnot ((hobeys _ hs.1.1).2.2 _ hs.2.1 _ hc _ hbutton)
  | missingRootButton hp hadd hnone =>
    have := hobeys _ hp.1 hadd
    rw [hnone] at this
    cases this
  | missingPreviousButton hp hadd hnone =>
    have := hobeys _ hp.1 hadd
    rw [hnone] at this
    cases this
  | noPreviousStage hs hroot hnone =>
    have := hobeys _ hs.1.1 _ hs.2.1 hroot
    rw [hnone] at this
    cases this
  | noButton hs hc _ hnone =>
    have := hobeys _ hs.1.1 _ hs.2.1 _ hc
    rw [hnone] at this
    cases this

/-! ## A violation names ids of the draft -/

theorem mem_ids_of_stage {p : Procedure} {s : Stage} (hp : p ∈ d.procedures) (hs : s ∈ p.stages)
    {i : Int64} (hi : i ∈ s.ids) : i ∈ d.ids := by
  refine List.mem_append_left _ (List.mem_flatMap.2 ⟨p, hp, ?_⟩)
  exact List.mem_append_right _ (List.mem_flatMap.2 ⟨s, hs, hi⟩)

theorem mem_ids_of_choice {p : Procedure} {s : Stage} {c : Choice} (hp : p ∈ d.procedures)
    (hs : s ∈ p.stages) (hc : c ∈ s.choices) {i : Int64} (hi : i ∈ c.ids) : i ∈ d.ids :=
  mem_ids_of_stage hp hs (List.mem_append_right _ (List.mem_flatMap.2 ⟨c, hc, hi⟩))

theorem mem_ids_of_button {b : Button} (hb : b ∈ d.buttons) {i : Int64} (hi : b.id = some i) :
    i ∈ d.ids :=
  List.mem_append_right _ (List.mem_flatMap.2 ⟨b, hb, by simp [hi]⟩)

theorem IsProcedure.mem_ids {i : Int64} {p : Procedure} (hp : d.IsProcedure i p) : i ∈ d.ids :=
  List.mem_append_left _ (List.mem_flatMap.2 ⟨p, hp.1, by simp [Procedure.ids, hp.2]⟩)

theorem IsStage.mem_ids {i j : Int64} {p : Procedure} {s : Stage} (hs : d.IsStage i p j s) :
    j ∈ d.ids :=
  mem_ids_of_stage hs.1.1 hs.2.1 (by simp [Stage.ids, hs.2.2])

theorem Lists.scope_ids {kind : Entity} {scope : Scope} {ids : List (Option Int64)}
    (h : d.Lists kind scope ids) : ∀ i ∈ scope.ids, i ∈ d.ids := by
  cases h with
  | procedures => exact nofun
  | stages hp => simpa [Scope.ids] using hp.mem_ids
  | choices hs => simpa [Scope.ids] using ⟨hs.1.mem_ids, hs.mem_ids⟩
  | buttons => exact nofun

theorem Lists.mem_ids {kind : Entity} {scope : Scope} {ids : List (Option Int64)}
    (h : d.Lists kind scope ids) {i : Int64} (hi : some i ∈ ids) : i ∈ d.ids := by
  cases h with
  | procedures =>
    obtain ⟨p, hp, hid⟩ := List.mem_map.1 hi
    exact IsProcedure.mem_ids ⟨hp, hid⟩
  | stages hp =>
    obtain ⟨s, hs, hid⟩ := List.mem_map.1 hi
    exact IsStage.mem_ids ⟨hp, hs, hid⟩
  | choices hs =>
    obtain ⟨c, hc, hid⟩ := List.mem_map.1 hi
    exact mem_ids_of_choice hs.1.1 hs.2.1 hc (by simp [Choice.ids, hid])
  | buttons =>
    obtain ⟨b, hb, hid⟩ := List.mem_map.1 hi
    exact mem_ids_of_button hb hid

theorem mem_ids_of_procedure {p : Procedure} (hp : p ∈ d.procedures) {i : Int64}
    (hi : i ∈ p.ids) : i ∈ d.ids :=
  List.mem_append_left _ (List.mem_flatMap.2 ⟨p, hp, hi⟩)

/-- Every id and reference that a violation names is written in the draft that shows it. -/
theorem Shows.ids_mem (h : d.Shows v) : ∀ i ∈ v.ids, i ∈ d.ids := by
  cases h with
  | missingId hids _ => exact hids.scope_ids
  | @duplicateId _ _ ids id hids htwice =>
    have hmem : some id ∈ ids := List.count_pos_iff.1 (by omega)
    exact List.forall_mem_cons.2 ⟨hids.mem_ids hmem, hids.scope_ids⟩
  | badCharacter => exact nofun
  | tooLong => exact nofun
  | duplicateLanguage => exact nofun
  | stageText hs => simpa [Violation.ids, Scope.ids] using ⟨hs.mem_ids, hs.1.mem_ids⟩
  | buttonText hb hj => simpa [Violation.ids, Scope.ids] using mem_ids_of_button hb hj
  | @root _ p hp =>
    intro i hi
    rcases List.mem_append.1 hi with hi | hi
    · exact mem_ids_of_procedure hp.1 (by simp_all [Procedure.ids])
    · rw [List.mem_singleton.1 hi]
      exact hp.mem_ids
  | @previous _ _ _ stage hp hs hstage =>
    have hmem : stage ∈ d.ids := mem_ids_of_stage hp.1 hs (by simp [Stage.ids, hstage])
    simpa [Violation.ids] using ⟨hmem, hp.mem_ids⟩
  | @next _ _ _ _ stage hp hs hc hstage =>
    have hmem : stage ∈ d.ids := mem_ids_of_choice hp.1 hs hc (by simp [Choice.ids, hstage])
    simpa [Violation.ids] using ⟨hmem, hp.mem_ids⟩
  | @toRootButton _ _ button hp hbutton =>
    have hmem : button ∈ d.ids := mem_ids_of_procedure hp.1 (by simp [Procedure.ids, hbutton])
    simpa [Violation.ids, Scope.ids] using ⟨hmem, hp.mem_ids⟩
  | @toPreviousButton _ _ button hp hbutton =>
    have hmem : button ∈ d.ids := mem_ids_of_procedure hp.1 (by simp [Procedure.ids, hbutton])
    simpa [Violation.ids, Scope.ids] using ⟨hmem, hp.mem_ids⟩
  | @label _ _ _ _ _ button hs hc hbutton =>
    have hmem : button ∈ d.ids :=
      mem_ids_of_choice hs.1.1 hs.2.1 hc (by simp [Choice.ids, hbutton])
    simpa [Violation.ids, Scope.ids] using ⟨hmem, hs.1.mem_ids, hs.mem_ids⟩
  | missingRootButton hp => simpa [Violation.ids] using hp.mem_ids
  | missingPreviousButton hp => simpa [Violation.ids] using hp.mem_ids
  | noPreviousStage hs => simpa [Violation.ids] using ⟨hs.1.mem_ids, hs.mem_ids⟩
  | @noButton _ _ _ _ _ k hs hc hk =>
    have hmem : k ∈ d.ids := mem_ids_of_choice hs.1.1 hs.2.1 hc (by simp [Choice.ids, hk])
    simpa [Violation.ids] using ⟨hs.1.mem_ids, hs.mem_ids, hmem⟩

/-! ## The phases in order -/

/-- The draft passes the check of a phase. -/
def Passes (d : Draft) : Phase → Prop
  | .ids => d.checkIds = .ok ()
  | .languages => d.checkLanguages = .ok ()
  | .texts => d.checkTexts = .ok ()
  | .references => d.checkReferences = .ok ()
  | .waysBack => d.checkNavigation = .ok ()
  | .completion => ∃ built, d.build = .ok built

theorem obeys_of_complete (h : ∀ p ∈ d.procedures, p.Complete) :
    d.Obeys .previousStageGiven ∧ d.Obeys .labelGiven := by
  refine ⟨fun p hp s hs => ((h p hp).2.2 s hs).2.1, fun p hp s hs c hc => ?_⟩
  obtain ⟨row, hrow, hc⟩ := List.mem_flatten.1 hc
  exact (((h p hp).2.2 s hs).2.2 row hrow c hc).2

/-- A draft that passes a phase obeys the rules of the phase. -/
theorem Passes.obeys {phase : Phase} (h : d.Passes phase) {rule : Rule}
    (hrule : rule.phase = phase) : d.Obeys rule := by
  cases phase with
  | ids =>
    obtain ⟨hgiven, hunique⟩ := checkIds_eq_ok_iff.1 h
    cases rule <;> first | assumption | cases hrule
  | languages =>
    obtain ⟨htitle, htitles⟩ := checkLanguages_eq_ok_iff.1 h
    cases rule <;> first | assumption | cases hrule
  | texts =>
    have htext := checkTexts_eq_ok_iff.1 h
    cases rule <;> first | assumption | cases hrule
  | references =>
    obtain ⟨hstage, hbutton⟩ := checkReferences_eq_ok_iff.1 h
    cases rule <;> first | assumption | cases hrule
  | waysBack =>
    obtain ⟨hroot, hprevious⟩ := checkNavigation_eq_ok_iff.1 h
    cases rule <;> first | assumption | cases hrule
  | completion =>
    obtain ⟨built, hbuild⟩ := h
    obtain ⟨hback, hlabel⟩ := obeys_of_complete (build_eq_ok_iff.1 hbuild).1.1
    cases rule <;> first | assumption | cases hrule

theorem isSome_root_of_obeys (h : d.Obeys .stageExists) :
    ∀ p ∈ d.procedures, p.root.isSome := by
  intro p hp
  obtain ⟨root, hroot, -⟩ := (h p hp).1
  exact Option.isSome_iff_exists.2 ⟨root, hroot⟩

/-- A procedure of a draft that obeys the rules can be built. -/
theorem Procedure.Complete.of_obeys (h : ∀ rule, d.Obeys rule) {p : Procedure}
    (hp : p ∈ d.procedures) : p.Complete := by
  obtain ⟨hid, hstages⟩ := (h .idGiven).1 p hp
  refine ⟨hid, isSome_root_of_obeys (h .stageExists) p hp, fun s hs => ?_⟩
  obtain ⟨hsid, hchoices⟩ := hstages s hs
  refine ⟨hsid, h .previousStageGiven p hp s hs, fun row hrow c hc => ?_⟩
  have hc : c ∈ s.choices := List.mem_flatten.2 ⟨row, hrow, hc⟩
  exact ⟨hchoices c hc, h .labelGiven p hp s hs c hc⟩

/-- Validation gives the document of a draft that obeys every rule. -/
theorem validate_eq_ok_iff {built : Document} :
    d.validate = .ok built ↔ (∀ rule, d.Obeys rule) ∧ built.draft = d := by
  simp only [validate, bind_eq_ok_iff]
  constructor
  · rintro ⟨_, hids, _, hlanguages, _, htexts, _, hreferences, _, hnavigation, hbuild⟩
    refine ⟨fun rule => ?_, (build_eq_ok_iff.1 hbuild).2⟩
    have hpass : d.Passes rule.phase := by
      cases rule.phase <;> first | assumption | exact ⟨built, hbuild⟩
    exact hpass.obeys rfl
  · rintro ⟨h, hdraft⟩
    refine ⟨(), checkIds_eq_ok_iff.2 ⟨h _, h _⟩, (), checkLanguages_eq_ok_iff.2 ⟨h _, h _⟩,
      (), checkTexts_eq_ok_iff.2 (h _), (), checkReferences_eq_ok_iff.2 ⟨h _, h _⟩,
      (), checkNavigation_eq_ok_iff.2 ⟨h _, h _⟩, build_eq_ok_iff.2 ⟨⟨fun p hp => ?_, ?_⟩, hdraft⟩⟩
    · exact .of_obeys h hp
    · exact (h .idGiven).2

/-- A draft is refused with a violation of the first phase that it does not pass. -/
theorem shows_of_validate (h : d.validate = .error v) :
    ∃ phase, d.ShowsIn phase v ∧ ∀ earlier, earlier.place < phase.place → d.Passes earlier := by
  rcases bind_eq_error_iff.1 h with h | ⟨_, hids, h⟩
  · exact ⟨.ids, shows_of_checkIds h, nofun⟩
  have hgiven := (checkIds_eq_ok_iff.1 hids).1
  rcases bind_eq_error_iff.1 h with h | ⟨_, hlanguages, h⟩
  · refine ⟨.languages, shows_of_checkLanguages h, fun earlier hlt => ?_⟩
    cases earlier <;> first | assumption | exact absurd hlt (by decide)
  rcases bind_eq_error_iff.1 h with h | ⟨_, htexts, h⟩
  · refine ⟨.texts, shows_of_checkTexts hgiven h, fun earlier hlt => ?_⟩
    cases earlier <;> first | assumption | exact absurd hlt (by decide)
  rcases bind_eq_error_iff.1 h with h | ⟨_, hreferences, h⟩
  · refine ⟨.references, shows_of_checkReferences hgiven h, fun earlier hlt => ?_⟩
    cases earlier <;> first | assumption | exact absurd hlt (by decide)
  rcases bind_eq_error_iff.1 h with h | ⟨_, hnavigation, h⟩
  · refine ⟨.waysBack, shows_of_checkNavigation hgiven h, fun earlier hlt => ?_⟩
    cases earlier <;> first | assumption | exact absurd hlt (by decide)
  · refine ⟨.completion, shows_of_build hgiven (isSome_root_of_obeys ?_) h, fun earlier hlt => ?_⟩
    · exact (checkReferences_eq_ok_iff.1 hreferences).1
    cases earlier <;> first | assumption | exact absurd hlt (by decide)

/-! ## Exactness and precision -/

theorem rule_of_completion {rule : Rule} (h : rule.phase = .completion) :
    rule = .previousStageGiven ∨ rule = .labelGiven := by
  cases rule <;> first | exact .inl rfl | exact .inr rfl | cases h

/-- Validation accepts a draft exactly when the draft obeys every rule, and the document is then the
draft, field for field. -/
theorem validate_accepts_exactly (d : Draft) :
    ((∃ built, d.validate = .ok built) ↔ ∀ rule, d.Obeys rule) ∧
      ∀ built, d.validate = .ok built → built.draft = d := by
  refine ⟨⟨fun ⟨built, h⟩ => (validate_eq_ok_iff.1 h).1, fun h => ?_⟩, fun built h => ?_⟩
  · cases hresult : d.validate with
    | ok built => exact ⟨built, rfl⟩
    | error v =>
      obtain ⟨phase, hshows, -⟩ := shows_of_validate hresult
      exact absurd (h v.rule) hshows.1.not_obeys
  · exact (validate_eq_ok_iff.1 h).2

/-- Validation refuses a draft with a violation that the draft shows, down to every id that is
named. The draft obeys the rules of all phases before, and not the rule that is violated. Building
the document, once ids and references have passed, never finds an id or a root stage missing. So a
draft that breaks one rule only is refused with a violation of that rule. -/
theorem validate_refuses_precisely (d : Draft) :
    (∀ v, d.validate = .error v →
      d.Shows v ∧ (∀ id ∈ v.ids, id ∈ d.ids) ∧ ¬ d.Obeys v.rule ∧
        ∀ rule : Rule, rule.phase.place < v.rule.phase.place → d.Obeys rule) ∧
    (d.checkIds = .ok () → d.checkReferences = .ok () →
      ∀ v, d.build = .error v → v.rule = .previousStageGiven ∨ v.rule = .labelGiven) ∧
    ∀ rule, ¬ d.Obeys rule → (∀ other, other ≠ rule → d.Obeys other) →
      ∃ v, d.validate = .error v ∧ v.rule = rule := by
  refine ⟨fun v h => ?_, fun hids hreferences v h => ?_, fun rule hbroken hothers => ?_⟩
  · obtain ⟨phase, ⟨hshows, hphase⟩, hearlier⟩ := shows_of_validate h
    refine ⟨hshows, hshows.ids_mem, hshows.not_obeys, fun rule hlt => ?_⟩
    rw [hphase] at hlt
    exact (hearlier rule.phase hlt).obeys rfl
  · have hroots := isSome_root_of_obeys (checkReferences_eq_ok_iff.1 hreferences).1
    have hphase := (shows_of_build (checkIds_eq_ok_iff.1 hids).1 hroots h).2
    exact rule_of_completion hphase
  · cases hresult : d.validate with
    | ok built => exact absurd ((validate_eq_ok_iff.1 hresult).1 rule) hbroken
    | error v =>
      -- another rule that is violated would not be obeyed
      obtain ⟨phase, hshows, -⟩ := shows_of_validate hresult
      refine ⟨v, rfl, Classical.byContradiction fun hne => ?_⟩
      exact hshows.1.not_obeys (hothers v.rule hne)

/-- A draft with a stage that lacks a text and leads to a stage that is not there. -/
def twoFaults : Draft where
  languages := ["en"]
  buttons := [⟨some 1, none, .ofList [("en", "Go")]⟩]
  procedures := [⟨some 1, none, some 1, false, false, none, none,
    [⟨some 1, none, none, false, false, .empty, [[⟨some 1, some 1, some 9⟩]]⟩]⟩]

theorem validate_twoFaults :
    twoFaults.validate = .error (.missingText .stage 1 (.procedure 1) "en") ∧
      twoFaults.Shows (.missingText .stage 1 (.procedure 1) "en") ∧
        twoFaults.Obeys .titleUnique := by
  have h : twoFaults.validate = .error (.missingText .stage 1 (.procedure 1) "en") := by rfl
  obtain ⟨hshows, -, -, hearlier⟩ := (validate_refuses_precisely twoFaults).1 _ h
  exact ⟨h, hshows, hearlier .titleUnique (by decide)⟩

end ButtonDialog.Draft
