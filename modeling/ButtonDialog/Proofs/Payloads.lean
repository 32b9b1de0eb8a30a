import ButtonDialog.Payload
import ButtonDialog.Proofs.Keys
import ButtonDialog.Proofs.Validation.Rules

/-! What payloads are read as.

    A text is read at its first line end. So a payload that is written from a key and a language is
    read back, as long as both hold something and neither holds a line end. Keys and well-formed
    titles are made of letters, digits and two more signs, and satisfy this. -/

namespace ButtonDialog

namespace Payload

theorem toList_encode (p : Payload) :
    p.encode.toList = p.choiceKey.toList ++ separator :: p.language.toList := by
  simp [encode, String.toList_append]

/-- What stands around the first line end is read as the key and the language. -/
theorem parse?_of_split {raw : String} {key language : List Char}
    (h : raw.toList = key ++ separator :: language) (hkey : separator ∉ key) :
    parse? raw =
      if Text.isBlankText raw || key.isEmpty || language.isEmpty || language.contains separator
      then none else some ⟨String.ofList key, String.ofList language⟩ := by
  have hline : ∀ c ∈ key, (c != separator) = true := fun c hc =>
    bne_iff_ne.2 fun heq => hkey (heq ▸ hc)
  have htake : raw.toList.takeWhile (· != separator) = key := by
    rw [h, List.takeWhile_append_of_pos hline, List.takeWhile_cons_of_neg (by simp),
      List.append_nil]
  have hdrop : raw.toList.dropWhile (· != separator) = separator :: language := by
    rw [h, List.dropWhile_append_of_pos hline, List.dropWhile_cons_of_neg (by simp)]
  unfold parse?
  rw [htake, hdrop]

/-- A text of two lines, that of the key and that of the language, both with something on them and
not all blank. -/
structure TwoLines (raw : String) (p : Payload) : Prop where
  lines : raw = p.choiceKey ++ "\n" ++ p.language
  key : p.choiceKey ≠ ""
  keyLine : separator ∉ p.choiceKey.toList
  language : p.language ≠ ""
  languageLine : separator ∉ p.language.toList
  notBlank : Text.isBlankText raw = false

theorem encode_eq (p : Payload) : p.encode = p.choiceKey ++ "\n" ++ p.language := rfl

/-- What is read is what stands on two lines. -/
theorem parse?_eq_some_iff {raw : String} {p : Payload} :
    parse? raw = some p ↔ TwoLines raw p := by
  constructor
  · intro h
    by_cases hmem : separator ∈ raw.toList
    · obtain ⟨key, language, hsplit, hkey⟩ := List.eq_append_cons_of_mem hmem
      rw [parse?_of_split hsplit hkey] at h
      split at h
      · cases h
      · rename_i hkept
        cases h
        simp only [Bool.or_eq_true, not_or, Bool.not_eq_true, List.isEmpty_eq_false_iff,
          List.contains_eq_mem, decide_eq_false_iff_not] at hkept
        obtain ⟨⟨⟨hblank, hkeyText⟩, hlanguageText⟩, hlanguage⟩ := hkept
        refine ⟨String.toList_inj.1 ?_, by simpa using hkeyText, by simpa using hkey,
          by simpa using hlanguageText, by simpa using hlanguage, hblank⟩
        rw [← encode_eq, toList_encode, hsplit, String.toList_ofList, String.toList_ofList]
    · have hline : ∀ c ∈ raw.toList, (c != separator) = true := fun c hc =>
        bne_iff_ne.2 fun heq => hmem (heq ▸ hc)
      have hdrop : (raw.toList ++ []).dropWhile (· != separator) = [] :=
        List.dropWhile_append_of_pos hline
      rw [List.append_nil] at hdrop
      rw [parse?, hdrop] at h
      cases h
  · intro h
    have hkeyList : p.choiceKey.toList.isEmpty = false := by simpa using h.key
    have hlanguageList : p.language.toList.isEmpty = false := by simpa using h.language
    have hcontains : p.language.toList.contains separator = false := by simpa using h.languageLine
    have hlines : raw = p.encode := h.lines
    have hsplit : raw.toList = p.choiceKey.toList ++ separator :: p.language.toList := by
      rw [hlines, toList_encode]
    rw [parse?_of_split hsplit h.keyLine, h.notBlank, hkeyList, hlanguageList, hcontains]
    simp

/-- Writing and reading undo each other. What is read is the text that the payload is written as,
with something on both lines, no line end in either and not all of it blank. So what is read is
written back as it was, a payload with such lines that are not both blank is read back, and a
payload is read from one text only. -/
theorem parses_what_it_encodes (raw : String) (p : Payload) :
    (parse? raw = some p ↔
      raw = p.encode ∧ (p.choiceKey ≠ "" ∧ '\n' ∉ p.choiceKey.toList) ∧
        (p.language ≠ "" ∧ '\n' ∉ p.language.toList) ∧ ∃ c ∈ raw.toList, Text.isBlank c = false) ∧
    (parse? raw = some p → p.encode = raw) ∧
    (p.choiceKey ≠ "" → '\n' ∉ p.choiceKey.toList → p.language ≠ "" → '\n' ∉ p.language.toList →
      ¬ (Text.isBlankText p.choiceKey = true ∧ Text.isBlankText p.language = true) →
        parse? p.encode = some p) ∧
    ∀ other, parse? raw = some p → parse? other = some p → raw = other := by
  have hwritten : ∀ {text}, parse? text = some p → p.encode = text := fun h =>
    (parse?_eq_some_iff.1 h).lines.symm
  refine ⟨⟨fun h => ?_, fun ⟨hraw, hkey, hlanguage, hblank⟩ => ?_⟩, hwritten,
    fun hkey hkeyLine hlanguage hlanguageLine hblank => ?_, fun other h h' => ?_⟩
  · have htwo := parse?_eq_some_iff.1 h
    exact ⟨htwo.lines, ⟨htwo.key, htwo.keyLine⟩, ⟨htwo.language, htwo.languageLine⟩,
      by simpa [Text.isBlankText] using htwo.notBlank⟩
  · exact parse?_eq_some_iff.2 ⟨hraw, hkey.1, hkey.2, hlanguage.1, hlanguage.2,
      by simpa [Text.isBlankText] using hblank⟩
  · refine parse?_eq_some_iff.2 ⟨rfl, hkey, hkeyLine, hlanguage, hlanguageLine, ?_⟩
    -- the line end between the lines is blank itself
    have hseparator : Text.isBlank separator = true := by decide
    rw [Text.isBlankText, toList_encode, List.all_append, List.all_cons, hseparator, Bool.true_and]
    exact Bool.eq_false_iff.2 fun hall => hblank (by simpa [Text.isBlankText] using hall)
  · rw [← hwritten h, hwritten h']

/-- A key of blanks is read back beside a language that is not blank. -/
theorem parses_blank_key :
    parse? " \x0c\nen" = some ⟨" \x0c", "en"⟩ ∧ parse? " \x0c\n\t" = none := by
  refine ⟨(parses_what_it_encodes " \x0c\nen" ⟨" \x0c", "en"⟩).2.2.1 ?_ ?_ ?_ ?_ ?_, by decide⟩
  all_goals decide

end Payload

/-! ## Keys and titles -/

theorem Base64Url.isSymbol_of_isAlphanum {c : Char} (h : c.isAlphanum = true) :
    isSymbol c = true := by
  simp [isSymbol, h]

/-- The codes of the alphabet: digits, letters, the hyphen and the underscore. -/
theorem Base64Url.code_of_isSymbol {c : Char} (h : isSymbol c = true) :
    (48 ≤ c.toNat ∧ c.toNat ≤ 57) ∨ (65 ≤ c.toNat ∧ c.toNat ≤ 90) ∨
      (97 ≤ c.toNat ∧ c.toNat ≤ 122) ∨ c.toNat = 45 ∨ c.toNat = 95 := by
  have hbetween : ∀ low high : Char,
      (decide (low.val ≤ c.val) && decide (c.val ≤ high.val)) = true →
        low.toNat ≤ c.toNat ∧ c.toNat ≤ high.toNat := by
    intro low high h
    rw [Bool.and_eq_true, decide_eq_true_eq, decide_eq_true_eq] at h
    exact h
  rcases Bool.or_eq_true_iff.1 h with h | h
  · rcases Bool.or_eq_true_iff.1 h with h | h
    · rcases Bool.or_eq_true_iff.1 h with h | h
      · rcases Bool.or_eq_true_iff.1 h with h | h
        · exact .inr (.inl (of_decide_eq_true h))
        · exact .inr (.inr (.inl (hbetween 'a' 'z' h)))
      · exact .inl (hbetween '0' '9' h)
    · rw [beq_iff_eq.1 h]
      decide
  · rw [beq_iff_eq.1 h]
    decide

/-- The alphabet has no blanks. -/
theorem Base64Url.not_isBlank_of_isSymbol {c : Char} (h : isSymbol c = true) :
    Text.isBlank c = false := by
  have hcode := code_of_isSymbol h
  simp only [Text.isBlank, Bool.or_eq_false_iff, Bool.and_eq_false_iff, decide_eq_false_iff_not,
    beq_eq_false_iff_ne]
  omega

namespace Payload

/-- The alphabet has no line end. -/
theorem separator_notMem_of_isSymbol {cs : List Char}
    (h : ∀ c ∈ cs, Base64Url.isSymbol c = true) : separator ∉ cs := by
  intro hmem
  cases h _ hmem

/-- The payload of a key and a language, which has something on its only line, is read back. -/
theorem parse?_key_line {part : String} {parts : List String} {language : String}
    (hlanguage : language ≠ "") (hline : separator ∉ language.toList) :
    parse? (Key.ofParts (part :: parts) ++ "\n" ++ language) =
      some ⟨Key.ofParts (part :: parts), language⟩ := by
  have hsymbols : ∀ c ∈ (Key.ofParts (part :: parts)).toList, Base64Url.isSymbol c = true :=
    fun c hc => Key.isSymbol_of_mem_ofText hc
  have hlength : (Key.ofParts (part :: parts)).length = 43 := Key.length_ofText _
  have hkey : Key.ofParts (part :: parts) ≠ "" := by
    intro h
    rw [h] at hlength
    cases hlength
  refine parse?_eq_some_iff.2
    ⟨rfl, hkey, separator_notMem_of_isSymbol hsymbols, hlanguage, hline, ?_⟩
  cases hlist : (Key.ofParts (part :: parts)).toList with
  | nil => exact absurd (String.toList_eq_nil_iff.1 hlist) hkey
  | cons c cs =>
    have hc := Base64Url.not_isBlank_of_isSymbol (hsymbols c (hlist ▸ List.mem_cons_self))
    rw [Text.isBlankText, String.toList_append, String.toList_append, hlist, List.cons_append,
      List.cons_append, List.all_cons, hc, Bool.false_and]

/-- The payload of a key and a language that is empty, or has a line end in it, cannot be read. -/
theorem parse?_key_line_eq_none {part : String} {parts : List String} {language : String}
    (hlanguage : language = "" ∨ separator ∈ language.toList) :
    parse? (Key.ofParts (part :: parts) ++ "\n" ++ language) = none := by
  have hsymbols : ∀ c ∈ (Key.ofParts (part :: parts)).toList, Base64Url.isSymbol c = true :=
    fun c hc => Key.isSymbol_of_mem_ofText hc
  have hsplit := toList_encode ⟨Key.ofParts (part :: parts), language⟩
  rw [encode_eq] at hsplit
  rw [parse?_of_split hsplit (separator_notMem_of_isSymbol hsymbols), if_pos]
  rcases hlanguage with rfl | hline
  · simp
  · simp [hline]

/-- The payload of a key and a well-formed title is read back. -/
theorem parse?_encode_ofParts {part : String} {parts : List String} {language : String}
    (hlanguage : WellFormedTitle language) :
    parse? (encode ⟨Key.ofParts (part :: parts), language⟩) =
      some ⟨Key.ofParts (part :: parts), language⟩ := by
  have htitle : language ≠ "" := by
    intro h
    rw [h] at hlanguage
    cases hlanguage.1
  exact parse?_key_line htitle (separator_notMem_of_isSymbol fun c hc =>
    Base64Url.isSymbol_of_isAlphanum (hlanguage.2.2 c hc))

end Payload

end ButtonDialog
