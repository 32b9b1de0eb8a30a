import ButtonDialog.Proofs.Payloads
import ButtonDialog.Proofs.Routing.Clicks
import ButtonDialog.Proofs.Validation.Documents
import ButtonDialog.Service.Command

/-! What commands are read as, and how they are answered.

    A text without blanks is not changed by trimming, and in a valid document no two languages are
    the same up to case. So the command of each language is read as asking for that language, and
    not for one that stands before it. -/

namespace ButtonDialog

namespace Text

theorem trimStart_eq_self {cs : List Char} (h : ∀ c ∈ cs, isBlank c = false) :
    trimStart cs = cs := by
  cases cs with
  | nil => rfl
  | cons c cs => rw [trimStart, List.dropWhile_cons_of_neg (by simp [h c List.mem_cons_self])]

theorem trimEnd_eq_self {cs : List Char} (h : ∀ c ∈ cs, isBlank c = false) : trimEnd cs = cs := by
  have hreverse : trimStart cs.reverse = cs.reverse :=
    trimStart_eq_self fun c hc => h c (List.mem_reverse.1 hc)
  calc trimEnd cs = (trimStart cs.reverse).reverse := rfl
    _ = cs := by rw [hreverse, List.reverse_reverse]

/-- Trimming leaves a text without blanks as it is. -/
theorem trim_eq_self {s : String} (h : ∀ c ∈ s.toList, isBlank c = false) : trim s = s := by
  rw [trim, trimStart_eq_self h, trimEnd_eq_self h, String.ofList_toList]

/-- Among texts that differ in more than case, a text is found by its own letters. -/
theorem find?_sameLetters {texts : List String} {text : String} (hmem : text ∈ texts)
    (hdiffer : texts.Pairwise fun s t => ¬ sameLetters s t) :
    (texts.find? fun s => sameLetters s text) = some text := by
  induction texts with
  | nil => exact absurd hmem List.not_mem_nil
  | cons first texts ih =>
    obtain ⟨hfirst, hrest⟩ := List.pairwise_cons.1 hdiffer
    rcases List.mem_cons.1 hmem with rfl | hmem
    · exact List.find?_cons_of_pos (sameLetters_self _)
    · have hskip : sameLetters first text = false := Bool.eq_false_iff.2 (hfirst text hmem)
      rw [List.find?_cons, hskip]
      exact ih hmem hrest

end Text

namespace Command

theorem toList_textFor (language : String) :
    (textFor language).toList = (textFor "").toList ++ language.toList := by
  simp [textFor]

theorem after?_append (word cs : List Char) : after? word (word ++ cs) = some cs := by
  simp [after?]

theorem not_isBlank_of_mem_textFor {language : String} (h : WellFormedTitle language) {c : Char}
    (hc : c ∈ (textFor language).toList) : Text.isBlank c = false := by
  have hword : ((textFor "").toList.all fun c => !Text.isBlank c) = true := by decide
  rw [toList_textFor] at hc
  rcases List.mem_append.1 hc with hc | hc
  · simpa using List.all_eq_true.1 hword c hc
  · exact Base64Url.not_isBlank_of_isSymbol (Base64Url.isSymbol_of_isAlphanum (h.2.2 c hc))

/-- The command of a language asks for the language. -/
theorem parse_textFor {d : Document} (hvalid : d.Valid) {language : String}
    (hl : language ∈ d.languages) :
    parse (textFor language) d.languages = .start language := by
  have hblank : Text.trim (textFor language) = textFor language :=
    Text.trim_eq_self fun c hc => not_isBlank_of_mem_textFor (hvalid.wellFormedTitle hl) hc
  have hlonger : (textFor language).toList ≠ startText.toList := by
    intro heq
    have hlength := congrArg List.length heq
    rw [toList_textFor, List.length_append] at hlength
    have hword : (textFor "").toList.length = startText.toList.length + 1 := by decide
    omega
  have hafter : after? (textFor "").toList (textFor language).toList = some language.toList := by
    rw [toList_textFor language]
    exact after?_append _ _
  have hfound := Text.find?_sameLetters hl (hvalid .titleUnique)
  simp only [parse, hblank, if_neg hlonger, hafter, String.ofList_toList, hfound]

end Command

/-! ## Answers -/

namespace Router

variable {σ : Type} {r : Router σ} {start : StartSettings} {chat : Int64} {message : String}
  {world after : σ}

/-- A message is answered as the command that it is. -/
theorem effect_onMessage_eq_ok {command : Command}
    (h : (r.onMessage start chat message).effect world = (.ok command, after)) :
    Command.parse message r.languages = command ∧
      (r.answer start chat command).effect world = (.ok (), after) := by
  simp only [onMessage, Act.effect_bind, Act.effect_pure] at h
  generalize Command.parse message r.languages = asked at h ⊢
  rcases hanswer : (r.answer start chat asked).effect world with ⟨e | ⟨⟩, left⟩
  · rw [hanswer] at h
    cases h
  · rw [hanswer] at h
    cases h
    exact ⟨rfl, hanswer⟩

/-- What is told has been sent. -/
theorem effect_tell_eq_ok {content : Content}
    (h : (r.tell chat content).effect world = (.ok (), after)) :
    ∃ m, (r.transport.send chat content).effect world = (.ok m, after) := by
  simp only [tell, Act.effect_bind, Act.effect_pure] at h
  rcases hsend : (r.transport.send chat content).effect world with ⟨e | m, left⟩
  · rw [hsend] at h
    cases h
  · rw [hsend] at h
    cases h
    exact ⟨m, rfl⟩

/-- A start message that is answered has been answered with the start stage, if there is one. -/
theorem sent_of_start {language : String} {page : Rendered}
    (hpage : r.graph.render start.procedure start.stage language = some page)
    (h : (r.onMessage start chat message).effect world = (.ok (.start language), after)) :
    ∃ m, (r.transport.send chat page.content).effect world = (.ok m, after) := by
  obtain ⟨-, hanswer⟩ := effect_onMessage_eq_ok h
  simp only [answer, hpage] at hanswer
  exact effect_tell_eq_ok hanswer

end Router

end ButtonDialog
