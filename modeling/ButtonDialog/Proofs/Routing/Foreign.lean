import ButtonDialog.Proofs.Compilation.Validated
import ButtonDialog.Proofs.Payloads
import ButtonDialog.Proofs.Routing.Deeds
import ButtonDialog.Transport.Recorder

/-! Updates that are not meant for the router.

    An update is for the router if it is a click with the key of one of its choices and one of its
    languages. Any other is ignored: no handler runs, the transport is not called, and of the
    grounds that there are to ignore it the first is given. -/

namespace ButtonDialog

/-- The place of a reason in the order in which they are looked for. -/
def IgnoreReason.place : IgnoreReason → Nat
  | .notAClick => 0
  | .malformedPayload => 1
  | .unsupportedLanguage => 2
  | .unknownChoice => 3

namespace Graph

/-- The update is a click with the key of a choice of the graph, a line end and a language of the
graph. -/
def Clicks (g : Graph) (u : Update) (c : Choice) (language : String) : Prop :=
  c ∈ g.choices ∧ language ∈ g.languages ∧
    ∃ id chat shown, u = .click id chat shown (some (c.key ++ "\n" ++ language))

/-- The update gives these grounds to ignore it: it has no payload, or one that is not of two
lines, or the second line is no language of the graph, or the first is the key of no choice. -/
def Grounds (g : Graph) (u : Update) : IgnoreReason → Prop
  | .notAClick => u.payload? = none
  | .malformedPayload => ∃ raw, u.payload? = some raw ∧ ∀ p, ¬ Payload.TwoLines raw p
  | .unsupportedLanguage =>
    ∃ raw p, u.payload? = some raw ∧ Payload.TwoLines raw p ∧ p.language ∉ g.languages
  | .unknownChoice =>
    ∃ raw p, u.payload? = some raw ∧ Payload.TwoLines raw p ∧ ∀ c ∈ g.choices, c.key ≠ p.choiceKey

/-- The first grounds that there are to ignore an update. -/
def FirstGrounds (g : Graph) (u : Update) (reason : IgnoreReason) : Prop :=
  g.Grounds u reason ∧ ∀ earlier : IgnoreReason, earlier.place < reason.place →
    ¬ g.Grounds u earlier

end Graph

theorem Update.payload?_eq_some_iff {u : Update} {raw : String} :
    u.payload? = some raw ↔ ∃ id chat shown, u = .click id chat shown (some raw) := by
  cases u with
  | message chat text => simp [payload?]
  | click id chat shown data => simp [payload?]

namespace Router

variable {σ : Type} {r : Router σ} {u : Update} {c : Graph.Choice} {language : String}

/-! ## What an update is resolved to -/

theorem supports_iff : r.graph.supports language = true ↔ language ∈ r.graph.languages :=
  List.contains_iff_mem

/-- What is resolved to a choice clicks it, and there are grounds for the reason that is given
otherwise. -/
theorem resolve_spec (hg : r.graph.Indexed) (u : Update) :
    match r.resolve u with
    | .ok (c, language) => r.graph.Clicks u c language
    | .error reason => r.graph.Grounds u reason := by
  unfold resolve
  cases hraw : u.payload? with
  | none => exact hraw
  | some raw =>
    simp only
    cases hp : Payload.parse? raw with
    | none =>
      refine ⟨raw, hraw, fun p hlines => ?_⟩
      rw [Payload.parse?_eq_some_iff.2 hlines] at hp
      cases hp
    | some p =>
      have hlines := Payload.parse?_eq_some_iff.1 hp
      cases hlanguage : r.graph.supports p.language with
      | false =>
        simp only [hlanguage, Bool.not_false, if_true]
        refine ⟨raw, p, hraw, hlines, fun hmem => ?_⟩
        rw [supports_iff.2 hmem] at hlanguage
        cases hlanguage
      | true =>
        simp only [hlanguage, Bool.not_true, Bool.false_eq_true, if_false]
        cases hchoice : r.graph.choiceOfKey? p.choiceKey with
        | none =>
          refine ⟨raw, p, hraw, hlines, fun c hc hkey => ?_⟩
          rw [hg.choiceOfKey?_eq_some_iff.2 ⟨hc, hkey⟩] at hchoice
          cases hchoice
        | some c =>
          obtain ⟨hmem, hkey⟩ := hg.choiceOfKey?_eq_some_iff.1 hchoice
          refine ⟨hmem, supports_iff.1 hlanguage, ?_⟩
          rw [hkey, ← hlines.lines]
          exact Update.payload?_eq_some_iff.1 hraw

theorem clicks_of_resolve (hg : r.graph.Indexed) (h : r.resolve u = .ok (c, language)) :
    r.graph.Clicks u c language := by
  have hspec := resolve_spec hg u
  rwa [h] at hspec

theorem grounds_of_resolve (hg : r.graph.Indexed) {reason : IgnoreReason}
    (h : r.resolve u = .error reason) : r.graph.Grounds u reason := by
  have hspec := resolve_spec hg u
  rwa [h] at hspec

/-- What clicks a choice is resolved to it, as long as its payload can be read. -/
theorem resolve_of_clicks (hg : r.graph.Indexed) (h : r.graph.Clicks u c language)
    (hparse : Payload.parse? (c.key ++ "\n" ++ language) = some ⟨c.key, language⟩) :
    r.resolve u = .ok (c, language) := by
  obtain ⟨hc, hlanguage, hclick⟩ := h
  have hpayload := Update.payload?_eq_some_iff.2 hclick
  have hfound : r.graph.choiceOfKey? c.key = some c := hg.choiceOfKey?_eq_some_iff.2 ⟨hc, rfl⟩
  simp only [resolve, hpayload, hparse, supports_iff.2 hlanguage, Bool.not_true,
    Bool.false_eq_true, if_false, hfound]

/-- Grounds that are looked for before the choice is are given as the reason. -/
theorem resolve_of_grounds {reason : IgnoreReason} (h : r.graph.Grounds u reason)
    (hne : reason ≠ .unknownChoice) : r.resolve u = .error reason := by
  cases reason with
  | notAClick =>
    have hraw : u.payload? = none := h
    rw [resolve, hraw]
  | malformedPayload =>
    obtain ⟨raw, hraw, hnot⟩ := h
    cases hp : Payload.parse? raw with
    | none => simp only [resolve, hraw, hp]
    | some p => exact absurd (Payload.parse?_eq_some_iff.1 hp) (hnot p)
  | unsupportedLanguage =>
    obtain ⟨raw, p, hraw, hlines, hnot⟩ := h
    have hlanguage : r.graph.supports p.language = false :=
      Bool.eq_false_iff.2 fun hsupports => hnot (supports_iff.1 hsupports)
    simp only [resolve, hraw, Payload.parse?_eq_some_iff.2 hlines, hlanguage, Bool.not_false,
      if_true]
  | unknownChoice => exact absurd rfl hne

/-- Where no choice is found, the reason that is given is the first that there is. -/
theorem firstGrounds_of_resolve (hg : r.graph.Indexed) {reason : IgnoreReason}
    (h : r.resolve u = .error reason) : r.graph.FirstGrounds u reason := by
  refine ⟨grounds_of_resolve hg h, fun earlier hplace hearlier => ?_⟩
  have hne : earlier ≠ .unknownChoice := by
    rintro rfl
    cases reason <;> exact absurd hplace (by decide)
  have hgiven := resolve_of_grounds hearlier hne
  rw [h] at hgiven
  cases hgiven
  exact Nat.lt_irrefl _ hplace

/-- The router does nothing on an update that it ignores. -/
theorem deeds_of_ignored {reason : IgnoreReason} (h : r.resolve u = .error reason) (world : σ) :
    r.deeds u world = [] := by
  rw [deeds, effect_watched_of_ignored h]

end Router

/-! ## Foreign updates -/

/-- Updates that click no choice in a language of the graph are ignored, and no others are. No
handler runs for them, the transport is not called, and the reason is the first that there is. -/
theorem Router.ignores_exactly_foreign {σ : Type} {d : Document} {g : Graph}
    (hcompile : Graph.compile d = .ok g)
    (hlanguages : ∀ language ∈ g.languages, language ≠ "" ∧ '\n' ∉ language.toList)
    (transport : Transport σ) (handlers : NameTable (Handler σ)) (u : Update) (world : σ) :
    ((∃ reason, (((Router.mk transport g handlers).onUpdate u).effect world).1 =
        .ok (.ignored reason)) ↔ ¬ ∃ c language, g.Clicks u c language) ∧
      ((¬ ∃ c language, g.Clicks u c language) → ∃ reason, g.FirstGrounds u reason ∧
        ((Router.mk transport g handlers).onUpdate u).effect world =
            (.ok (.ignored reason), world) ∧
          (Router.mk transport g handlers).deeds u world = []) := by
  obtain ⟨hcompilable, rfl⟩ := Graph.compile_eq_ok_iff.1 hcompile
  have hg := hcompilable.indexed
  have hforeign : (¬ ∃ c language, d.graph.Clicks u c language) →
      ∃ reason, (Router.mk transport d.graph handlers).resolve u = .error reason := by
    intro hnone
    cases hresolve : (Router.mk transport d.graph handlers).resolve u with
    | error reason => exact ⟨reason, rfl⟩
    | ok clicked => exact absurd ⟨_, _, clicks_of_resolve hg hresolve⟩ hnone
  refine ⟨⟨?_, fun hnone => ?_⟩, fun hnone => ?_⟩
  · rintro ⟨reason, hignored⟩ ⟨c, language, hclicks⟩
    obtain ⟨hlanguage, hline⟩ := hlanguages language hclicks.2.1
    have hparse : Payload.parse? (c.key ++ "\n" ++ language) = some ⟨c.key, language⟩ := by
      rw [Document.key_of_mem_choices hclicks.1]
      exact Payload.parse?_key_line hlanguage hline
    exact effect_onUpdate_ne_ignored (resolve_of_clicks hg hclicks hparse) world reason hignored
  · obtain ⟨reason, hresolve⟩ := hforeign hnone
    exact ⟨reason, by rw [effect_onUpdate_of_ignored hresolve]⟩
  · obtain ⟨reason, hresolve⟩ := hforeign hnone
    exact ⟨reason, firstGrounds_of_resolve hg hresolve, effect_onUpdate_of_ignored hresolve world,
      deeds_of_ignored hresolve world⟩

/-- The data of a click on a choice that is there, with its language in capital letters. -/
def Document.capitalData : String := Key.choice "1" "1" "1" ++ "\nEN"

/-- A router with a handler on that choice. -/
def Router.twoStages : Router Recorder :=
  ⟨Recorder.transport, Document.twoStages.graph,
    NameTable.empty.insert (Key.choice "1" "1" "1") fun _ _ _ => return .ok .stay⟩

theorem Router.ignores_capital_letters :
    ∃ reason, Document.twoStages.graph.FirstGrounds
        (.click "id" 7 (some 9) (some Document.capitalData)) reason ∧
      (Router.twoStages.onUpdate (.click "id" 7 (some 9) (some Document.capitalData))).effect
          .fresh = (.ok (.ignored reason), .fresh) ∧
        Router.twoStages.deeds (.click "id" 7 (some 9) (some Document.capitalData)) .fresh =
          [] := by
  have hother : ∀ c ∈ Document.twoStages.graph.choices.toList,
      ∀ language ∈ Document.twoStages.graph.languages,
        c.key ++ "\n" ++ language ≠ Document.capitalData := by decide +kernel
  refine (Router.ignores_exactly_foreign Document.graph_twoStages (by decide +kernel)
    Recorder.transport Router.twoStages.handlers _ _).2 ?_
  rintro ⟨c, language, hc, hlanguage, id, chat, shown, hclick⟩
  exact hother c (Array.mem_toList_iff.2 hc) language hlanguage
    (Option.some.inj (Update.click.inj hclick).2.2.2).symm

end ButtonDialog
