import ButtonDialog.Graph.Compile
import ButtonDialog.Proofs.Validation.Exactness

/-! What a valid document has.

    A document is valid if it keeps every rule when it is written back as a draft. Documents that
    validation gives are valid. The rules are read here as facts about the document itself, in which
    ids are there and references that must be set are set. -/

namespace ButtonDialog.Document

open Checks

/-- A document that keeps every rule for drafts. -/
def Valid (d : Document) : Prop := ∀ rule, d.draft.Obeys rule

theorem valid_of_validate {draft : Draft} {d : Document} (h : draft.validate = .ok d) :
    d.Valid := by
  obtain ⟨hobeys, hdraft⟩ := Draft.validate_eq_ok_iff.1 h
  intro rule
  rw [hdraft]
  exact hobeys rule

/-- A document that is loaded is valid. -/
theorem valid_of_ofText {text : String} {d : Document} (h : Document.ofText text = .ok d) :
    d.Valid := by
  obtain ⟨draft, -, hvalidate⟩ := bind_eq_ok_iff.1 h
  cases hresult : draft.validate with
  | ok built =>
    rw [hresult] at hvalidate
    cases hvalidate
    exact valid_of_validate hresult
  | error v =>
    rw [hresult] at hvalidate
    cases hvalidate

namespace Valid

variable {d : Document} {p : Procedure} {s : Stage}

/-! ## Ids -/

theorem nodup_procedures (h : d.Valid) : (d.procedures.map Procedure.id).Nodup := by
  have hunique := (h .idUnique).1.1
  rw [draft, List.filterMap_map] at hunique
  exact List.filterMap_eq_map ▸ hunique

theorem nodup_stages (h : d.Valid) (hp : p ∈ d.procedures) : (p.stages.map Stage.id).Nodup := by
  have hunique := ((h .idUnique).1.2 p.draft (List.mem_map_of_mem hp)).1
  rw [Procedure.draft, List.filterMap_map] at hunique
  exact List.filterMap_eq_map ▸ hunique

theorem choices_draft (s : Stage) : s.draft.choices = s.choices.map Choice.draft :=
  List.map_flatten.symm

theorem nodup_choices (h : d.Valid) (hp : p ∈ d.procedures) (hs : s ∈ p.stages) :
    (s.choices.map Choice.id).Nodup := by
  have hunique := ((h .idUnique).1.2 p.draft (List.mem_map_of_mem hp)).2 s.draft
    (List.mem_map_of_mem hs)
  rw [choices_draft, List.filterMap_map] at hunique
  exact List.filterMap_eq_map ▸ hunique

/-! ## Languages and texts -/

theorem wellFormedTitle (h : d.Valid) {language : String} (hl : language ∈ d.languages) :
    WellFormedTitle language := h .titleWellFormed language hl

theorem contains_text (h : d.Valid) (hp : p ∈ d.procedures) (hs : s ∈ p.stages)
    {language : String} (hl : language ∈ d.languages) : s.text.contains language = true :=
  (h .textComplete).1 p.draft (List.mem_map_of_mem hp) s.draft (List.mem_map_of_mem hs) language hl

theorem contains_label (h : d.Valid) {b : Button} (hb : b ∈ d.buttons) {language : String}
    (hl : language ∈ d.languages) : b.text.contains language = true :=
  (h .textComplete).2 b.draft (List.mem_map_of_mem hb) language hl

/-! ## References -/

theorem has_draft_iff {stage : Int64} : p.draft.Has stage ↔ ∃ s ∈ p.stages, s.id = stage := by
  constructor
  · rintro ⟨_, hmem, hid⟩
    obtain ⟨s, hs, rfl⟩ := List.mem_map.1 hmem
    exact ⟨s, hs, Option.some.inj hid⟩
  · rintro ⟨s, hs, rfl⟩
    exact ⟨s.draft, List.mem_map_of_mem hs, rfl⟩

theorem defines_draft_iff {button : Int64} :
    d.draft.Defines button ↔ ∃ b ∈ d.buttons, b.id = button := by
  constructor
  · rintro ⟨_, hmem, hid⟩
    obtain ⟨b, hb, rfl⟩ := List.mem_map.1 hmem
    exact ⟨b, hb, Option.some.inj hid⟩
  · rintro ⟨b, hb, rfl⟩
    exact ⟨b.draft, List.mem_map_of_mem hb, rfl⟩

theorem exists_root (h : d.Valid) (hp : p ∈ d.procedures) : ∃ s ∈ p.stages, s.id = p.root := by
  obtain ⟨root, hroot, hhas⟩ := (h .stageExists p.draft (List.mem_map_of_mem hp)).1
  cases hroot
  exact has_draft_iff.1 hhas

theorem exists_previous (h : d.Valid) (hp : p ∈ d.procedures) (hs : s ∈ p.stages) {id : Int64}
    (hid : s.previous = some id) : ∃ s' ∈ p.stages, s'.id = id :=
  has_draft_iff.1 (((h .stageExists p.draft (List.mem_map_of_mem hp)).2 s.draft
    (List.mem_map_of_mem hs)).1 id hid)

theorem exists_next (h : d.Valid) (hp : p ∈ d.procedures) (hs : s ∈ p.stages) {c : Choice}
    (hc : c ∈ s.choices) {id : Int64} (hid : c.next = some id) : ∃ s' ∈ p.stages, s'.id = id := by
  have hall := ((h .stageExists p.draft (List.mem_map_of_mem hp)).2 s.draft
    (List.mem_map_of_mem hs)).2
  rw [choices_draft] at hall
  exact has_draft_iff.1 (hall c.draft (List.mem_map_of_mem hc) id hid)

theorem isSome_button?_iff {id : Int64} :
    (d.button? id).isSome = true ↔ ∃ b ∈ d.buttons, b.id = id := by
  simp [button?]

theorem isSome_toRootButton (h : d.Valid) (hp : p ∈ d.procedures) {button : Int64}
    (hbutton : p.toRootButton = some button) : (d.button? button).isSome = true :=
  isSome_button?_iff.2 (defines_draft_iff.1
    ((h .buttonExists p.draft (List.mem_map_of_mem hp)).1 button hbutton))

theorem isSome_toPreviousButton (h : d.Valid) (hp : p ∈ d.procedures) {button : Int64}
    (hbutton : p.toPreviousButton = some button) : (d.button? button).isSome = true :=
  isSome_button?_iff.2 (defines_draft_iff.1
    ((h .buttonExists p.draft (List.mem_map_of_mem hp)).2.1 button hbutton))

theorem isSome_button (h : d.Valid) (hp : p ∈ d.procedures) (hs : s ∈ p.stages) {c : Choice}
    (hc : c ∈ s.choices) : (d.button? c.button).isSome = true := by
  have hall := (h .buttonExists p.draft (List.mem_map_of_mem hp)).2.2 s.draft
    (List.mem_map_of_mem hs)
  rw [choices_draft] at hall
  exact isSome_button?_iff.2
    (defines_draft_iff.1 (hall c.draft (List.mem_map_of_mem hc) c.button rfl))

end Valid

end ButtonDialog.Document
