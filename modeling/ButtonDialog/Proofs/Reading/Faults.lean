import ButtonDialog.Proofs.Checks
import ButtonDialog.Proofs.Reading.Cutting

/-! Where a fault lies.

    What a lexeme and a fault remember of the text is an end of it. The machine keeps this step by
    step, and the reader only reports what the lexemes remember. So a fault has a place in the text,
    and its line is a line of the text. -/

namespace ButtonDialog.Json

open Lenient

variable {text : List Char}

/-- What a lexeme remembers lies in the text. -/
def Lexeme.Within (text : List Char) (l : Lexeme) : Prop :=
  l.rest <:+ text ∧ ∀ fault, l.content = .error fault → fault.rest <:+ text

/-- What a mode remembers lies in the text. -/
def Mode.Within (text : List Char) : Mode → Prop
  | .between => True
  | .text start _ _ | .number _ start _ | .word _ start _ _ => start <:+ text

/-- What a step makes and where it leads lies in the text. -/
def Step.Within (text : List Char) : Step → Prop
  | .go made mode => (∀ l ∈ made, l.Within text) ∧ mode.Within text
  | .halt made => ∀ l ∈ made, l.Within text

/-! ## Steps -/

theorem Lexeme.within_ok {first : Char} {start : List Char} {t : Token} (h : start <:+ text) :
    Lexeme.Within text ⟨first, start, .ok t⟩ :=
  ⟨h, fun _ hfault => by cases hfault⟩

theorem Lexeme.within_error {first : Char} {start rest : List Char} {defect : Defect}
    (h : start <:+ text) (hrest : rest <:+ text) :
    Lexeme.Within text ⟨first, start, .error ⟨defect, rest⟩⟩ := by
  refine ⟨h, fun fault hfault => ?_⟩
  obtain rfl := Except.error.inj hfault
  exact hrest

theorem Step.within_halt {first : Char} {start rest : List Char} {defect : Defect}
    (h : start <:+ text) (hrest : rest <:+ text) :
    (Step.halt [⟨first, start, .error ⟨defect, rest⟩⟩]).Within text :=
  List.forall_mem_singleton.2 (Lexeme.within_error h hrest)

theorem Step.Within.after {s : Step} {l : Lexeme} (hl : l.Within text) (h : s.Within text) :
    (s.after l).Within text := by
  cases s with
  | go made mode => exact ⟨List.forall_mem_cons.2 ⟨hl, h.1⟩, h.2⟩
  | halt made => exact List.forall_mem_cons.2 ⟨hl, h⟩

theorem Mode.within_enter {c : Char} {rest : List Char} (h : rest <:+ text) :
    (Mode.enter c rest).Within text := by
  have hnone : ∀ l ∈ ([] : List Lexeme), l.Within text := List.forall_mem_nil _
  by_cases hspace : isSpace c = true
  · rw [enter_of_isSpace hspace]
    exact ⟨hnone, trivial⟩
  by_cases hmark : isMark c = true
  · rw [enter_of_isMark hmark]
    exact ⟨List.forall_mem_singleton.2 (Lexeme.within_ok h), trivial⟩
  by_cases hquote : c = '"'
  · subst hquote
    exact ⟨hnone, h⟩
  by_cases hword : isWordChar c = true
  · rcases enter_of_isWordChar hword with ⟨left, t, -, -, henter⟩ | ⟨n, henter⟩ | henter
    · rw [henter]
      exact ⟨hnone, h⟩
    · rw [henter]
      exact ⟨hnone, h⟩
    · rw [henter]
      exact Step.within_halt h h
  · rw [enter_eq_halt (by simpa using hspace) (by simpa using hmark) hquote (by simpa using hword)]
    exact Step.within_halt h h

theorem Mode.within_textStep {c : Char} {start taken rest : List Char} {phase : TextPhase}
    (hstart : start <:+ text) (h : rest <:+ text) :
    (Mode.textStep start taken c rest phase).Within text := by
  by_cases hclose : phase = .plain ∧ c = '"'
  · obtain ⟨rfl, rfl⟩ := hclose
    exact ⟨List.forall_mem_singleton.2 (Lexeme.within_ok hstart), trivial⟩
  rcases textStep_cases taken (not_and.1 hclose) with ⟨taken', phase', -, hstep⟩ | hstep
  · rw [hstep]
    exact ⟨List.forall_mem_nil _, hstart⟩
  · rw [hstep]
    exact Step.within_halt hstart h

theorem Numeral.rest_of_token_eq_error {n : Numeral} {rest : List Char} {fault : Fault}
    (h : n.token rest = .error fault) : fault.rest = rest := by
  rw [Numeral.token] at h
  split at h
  · obtain rfl := Except.error.inj h
    rfl
  · cases h

/-- What a character brings about lies in the text if the mode does. -/
theorem Mode.Within.step {mode : Mode} {c : Char} {rest : List Char} (hmode : mode.Within text)
    (h : c :: rest <:+ text) : (mode.step c rest).Within text := by
  have hrest : rest <:+ text := (List.suffix_cons c rest).trans h
  cases mode with
  | between => exact Mode.within_enter hrest
  | text start taken phase => exact Mode.within_textStep hmode hrest
  | number first start n =>
    cases hnext : n.next c with
    | more n' =>
      simp only [Mode.step, hnext]
      exact ⟨List.forall_mem_nil _, hmode⟩
    | mistaken =>
      simp only [Mode.step, hnext]
      exact Step.within_halt hmode hrest
    | ended =>
      simp only [Mode.step, hnext]
      cases htoken : n.token (c :: rest) with
      | ok t => exact (Mode.within_enter hrest).after (Lexeme.within_ok hmode)
      | error fault =>
        have hfault : fault.rest <:+ text := Numeral.rest_of_token_eq_error htoken ▸ h
        exact Step.within_halt hmode hfault
  | word first start left t =>
    by_cases hhead : left.head? = some c
    · obtain ⟨left, rfl⟩ := List.head?_eq_some_iff.1 hhead
      cases left with
      | nil =>
        simp only [Mode.step, if_true]
        exact ⟨List.forall_mem_singleton.2 (Lexeme.within_ok hmode), trivial⟩
      | cons d left =>
        simp only [Mode.step, if_true]
        exact ⟨List.forall_mem_nil _, hmode⟩
    · rw [step_word_of_ne hhead]
      exact Step.within_halt hmode hrest

theorem Mode.Within.finish {mode : Mode} (hmode : mode.Within text) :
    ∀ l ∈ mode.finish, l.Within text := by
  have hnil : [] <:+ text := List.nil_suffix
  cases mode with
  | between => exact List.forall_mem_nil _
  | text start taken phase => exact List.forall_mem_singleton.2 (Lexeme.within_error hmode hnil)
  | word first start left t => exact List.forall_mem_singleton.2 (Lexeme.within_error hmode hnil)
  | number first start n =>
    refine List.forall_mem_singleton.2 ⟨hmode, fun fault hfault => ?_⟩
    dsimp only at hfault
    split at hfault
    · exact Numeral.rest_of_token_eq_error hfault ▸ hnil
    · obtain rfl := Except.error.inj hfault
      exact hnil

/-! ## Runs -/

/-- Whatever a lexeme remembers lies in the text that the machine takes it from. -/
theorem Mode.Within.scan {mode : Mode} (hmode : mode.Within text) {cs : List Char}
    (h : cs <:+ text) : ∀ l ∈ scan mode cs, l.Within text := by
  induction cs generalizing mode with
  | nil => exact hmode.finish
  | cons c cs ih =>
    have hstep := hmode.step h
    have hcs : cs <:+ text := (List.suffix_cons c cs).trans h
    cases heq : mode.step c cs with
    | go made mode' =>
      rw [heq] at hstep
      rw [scan_go heq]
      exact List.forall_mem_append.2 ⟨hstep.1, ih hstep.2 hcs⟩
    | halt made =>
      rw [heq] at hstep
      rw [scan_halt heq]
      exact hstep

/-- The reader reports a lexeme that is out of place, or one that is broken. -/
theorem Reading.takeValue_eq_error {r : Reading} {l : Lexeme} {fault : Fault}
    (h : r.takeValue l = .error fault) : fault = l.misplaced ∨ l.content = .error fault := by
  have hnest {inside : Reading} (h : r.nest l inside = .error fault) : fault = l.misplaced := by
    rw [Reading.nest] at h
    split at h
    · cases h
    · exact (Except.error.inj h).symm
  rw [Reading.takeValue] at h
  cases hcontent : l.content with
  | error fault' =>
    rw [hcontent] at h
    obtain rfl := Except.error.inj h
    exact .inr rfl
  | ok t =>
    rw [hcontent] at h
    cases t with
    | openArray | openObject => exact .inl (hnest h)
    | closeArray | closeObject | comma | colon => exact .inl (Except.error.inj h).symm
    | null | bool | number | text => cases h

theorem Reading.takeName_eq_error {r : Reading} {members : List (String × Json)} {l : Lexeme}
    {fault : Fault} (h : r.takeName members l = .error fault) :
    fault = l.misplaced ∨ l.content = .error fault := by
  rw [Reading.takeName] at h
  split at h
  · cases h
  · rename_i fault' hcontent
    split at h
    · obtain rfl := Except.error.inj h
      exact .inr hcontent
    · exact .inl (Except.error.inj h).symm
  · exact .inl (Except.error.inj h).symm

theorem Reading.take_eq_error {r : Reading} {l : Lexeme} {fault : Fault}
    (h : r.take l = .error fault) : fault = l.misplaced ∨ l.content = .error fault := by
  rw [Reading.take] at h
  split at h
  · exact takeValue_eq_error h
  · split at h
    · cases h
    · exact takeValue_eq_error h
  · split at h
    · cases h
    · exact takeName_eq_error h
  · exact takeName_eq_error h
  · split at h
    · cases h
    · exact .inl (Except.error.inj h).symm
  · split at h
    · cases h
    · cases h
    · cases h
    · cases h
    · exact .inl (Except.error.inj h).symm

/-- A fault of a text lies in the text. -/
theorem rest_of_run_eq_error {fault : Fault}
    (h : Reading.start.run (lexemes text) = .error fault) : fault.rest <:+ text := by
  have hwithin : ∀ l ∈ lexemes text, l.Within text :=
    @Mode.Within.scan text .between trivial _ List.suffix_rfl
  rcases Checks.bind_eq_error_iff.1 h with h | ⟨r, -, h⟩
  · obtain ⟨before, l, after, r, hsplit, -, htake⟩ := Checks.exists_of_foldlM_eq_error h
    have hl := hwithin l (by rw [hsplit]; exact List.mem_append_right _ List.mem_cons_self)
    rcases Reading.take_eq_error htake with rfl | hcontent
    · exact hl.1
    · exact hl.2 fault hcontent
  · rw [Reading.finish] at h
    split at h
    · cases h
    · obtain rfl := Except.error.inj h
      exact List.nil_suffix

/-- A text that is not JSON has a fault, and the line of it is one more than the line ends before
the fault. -/
theorem exists_fault_of_readChars {e : ReadError} (h : readChars text = .error e) :
    ∃ before fault, Reading.start.run (lexemes text) = .error fault ∧
      text = before ++ fault.rest ∧ e = ⟨fault.defect, 1 + before.count '\n'⟩ := by
  rw [readChars] at h
  cases hrun : Reading.start.run (lexemes text) with
  | ok v =>
    rw [hrun] at h
    cases h
  | error fault =>
    rw [hrun] at h
    obtain ⟨before, htext⟩ := rest_of_run_eq_error hrun
    refine ⟨before, fault, rfl, htext.symm, ?_⟩
    rw [← Except.error.inj h, Fault.locate]
    conv_lhs => rw [← htext]
    rw [List.count_append, Nat.add_sub_cancel]

end ButtonDialog.Json
