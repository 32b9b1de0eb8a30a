import ButtonDialog.Proofs.Reading.Cleaning

/-! The lexemes of a piece.

    A lexeme remembers where it stands, and a fault how much text is left. Without that, a piece
    gives the same lexemes wherever it stands, so two texts of the same pieces have the same
    lexemes. -/

namespace ButtonDialog.Json

open Lenient

/-- What lexemes hold: a token, or nothing in a broken one. -/
def contents (ls : List Lexeme) : List (Option Token) := ls.map (·.content.toOption)

/-! ## Single steps -/

theorem scan_go {mode mode' : Mode} {made : List Lexeme} {c : Char} {rest : List Char}
    (h : mode.step c rest = .go made mode') : scan mode (c :: rest) = made ++ scan mode' rest := by
  rw [scan, h]

theorem scan_halt {mode : Mode} {made : List Lexeme} {c : Char} {rest : List Char}
    (h : mode.step c rest = .halt made) : scan mode (c :: rest) = made := by
  rw [scan, h]

theorem lexemes_go {mode : Mode} {made : List Lexeme} {c : Char} {rest : List Char}
    (h : Mode.enter c rest = .go made mode) : lexemes (c :: rest) = made ++ scan mode rest :=
  scan_go h

theorem lexemes_halt {made : List Lexeme} {c : Char} {rest : List Char}
    (h : Mode.enter c rest = .halt made) : lexemes (c :: rest) = made :=
  scan_halt h

/-- A lexeme that a character ends, and then what that character begins. -/
theorem scan_after {mode : Mode} {l : Lexeme} {c : Char} {rest : List Char}
    (h : mode.step c rest = (Mode.enter c rest).after l) :
    scan mode (c :: rest) = l :: lexemes (c :: rest) := by
  cases henter : Mode.enter c rest with
  | go made mode' =>
    rw [henter] at h
    rw [scan_go h, lexemes_go henter, List.cons_append]
  | halt made =>
    rw [henter] at h
    rw [scan_halt h, lexemes_halt henter]

theorem enter_of_isSpace {c : Char} (h : isSpace c = true) (rest : List Char) :
    Mode.enter c rest = .go [] .between := by
  rw [Mode.enter, if_pos h]

theorem lexemes_spaces {gap : List Char} (h : Spaces gap) (rest : List Char) :
    lexemes (gap ++ rest) = lexemes rest := by
  induction gap with
  | nil => rfl
  | cons c gap ih =>
    obtain ⟨hc, hgap⟩ := List.forall_mem_cons.1 h
    rw [List.cons_append, lexemes_go (enter_of_isSpace hc _), List.nil_append]
    exact ih hgap

/-- The token of a bracket, a comma or a colon. -/
def markToken (c : Char) : Token :=
  if c = '[' then .openArray
  else if c = ']' then .closeArray
  else if c = '\x7b' then .openObject
  else if c = '\x7d' then .closeObject
  else if c = ',' then .comma
  else .colon

theorem enter_of_isMark {c : Char} (h : isMark c = true) (rest : List Char) :
    Mode.enter c rest = .go [⟨c, rest, .ok (markToken c)⟩] .between := by
  simp only [isMark, Bool.or_eq_true, beq_iff_eq] at h
  rcases h with ((((rfl | rfl) | rfl) | rfl) | rfl) | rfl <;> rfl

/-! ## Stretches of a text

    In `Settles` the mode may remember any start, for the start of a lexeme is not in what it
    holds. -/

section Settles

variable {Next : List Char → Prop} {Fits : Token → Prop}

/-- From `mode` on, `cs` gives the same lexemes whatever stands before it, and whatever stands
behind it as long as `Next` holds there: tokens that are as `Fits` says, and then a broken lexeme or
what the text behind gives by itself. -/
def Settles (Next : List Char → Prop) (Fits : Token → Prop) (mode : List Char → Mode)
    (cs : List Char) : Prop :=
  ∃ (ts : List Token) (broken : Bool), (∀ t ∈ ts, Fits t) ∧
    ∀ start rest, Next rest → contents (scan (mode start) (cs ++ rest)) =
      ts.map some ++ if broken then [none] else contents (lexemes rest)

theorem Settles.nil : Settles Next Fits (fun _ => .between) [] :=
  ⟨[], false, by simp, fun _ _ _ => rfl⟩

theorem Settles.broken {mode : List Char → Mode} {cs : List Char}
    (h : ∀ start rest, Next rest → contents (scan (mode start) (cs ++ rest)) = [none]) :
    Settles Next Fits mode cs :=
  ⟨[], true, by simp, fun start rest hrest => h start rest hrest⟩

theorem Settles.halt {mode : List Char → Mode} {c : Char} {cs : List Char}
    (h : ∀ start rest, ∃ l, (mode start).step c rest = .halt [l] ∧ l.content.toOption = none) :
    Settles Next Fits mode (c :: cs) := by
  refine .broken fun start rest _ => ?_
  obtain ⟨l, hstep, hl⟩ := h start (cs ++ rest)
  rw [List.cons_append, scan_halt hstep, contents, List.map_singleton, hl]

theorem Settles.go {mode : List Char → Mode} (mode' : List Char → Mode) {c : Char} {cs : List Char}
    (h : ∀ start rest, ∃ start', (mode start).step c rest = .go [] (mode' start'))
    (hcs : Settles Next Fits mode' cs) : Settles Next Fits mode (c :: cs) := by
  obtain ⟨ts, broken, hts, hscan⟩ := hcs
  refine ⟨ts, broken, hts, fun start rest hrest => ?_⟩
  obtain ⟨start', hstep⟩ := h start (cs ++ rest)
  rw [List.cons_append, scan_go hstep, List.nil_append]
  exact hscan start' rest hrest

theorem Settles.token {mode mode' : List Char → Mode} {c : Char} {cs : List Char} {t : Token}
    (h : ∀ start rest, ∃ l start', (mode start).step c rest = .go [l] (mode' start') ∧
      l.content = .ok t)
    (ht : Fits t) (hcs : Settles Next Fits mode' cs) : Settles Next Fits mode (c :: cs) := by
  obtain ⟨ts, broken, hts, hscan⟩ := hcs
  refine ⟨t :: ts, broken, List.forall_mem_cons.2 ⟨ht, hts⟩, fun start rest hrest => ?_⟩
  obtain ⟨l, start', hstep, hl⟩ := h start (cs ++ rest)
  have hscan := hscan start' rest hrest
  rw [contents] at hscan
  rw [List.cons_append, scan_go hstep, contents, List.map_append, hscan, List.map_singleton, hl]
  rfl

end Settles

/-! ## Texts between quotes -/

section Texts

variable {Next : List Char → Prop} {Fits : Token → Prop} {taken : List Char}

/-- The machine is not in the middle of an escape of two characters. -/
def TextPhase.IsWhole : TextPhase → Prop
  | .plain | .unit .. | .pair _ => True
  | .escape | .pairEscape _ => False

/-- What the end of a unit brings about. -/
theorem unitDone_cases (high : Option Nat) (unit : Nat) :
    (∃ taken' phase', phase'.IsWhole ∧ ∀ start rest,
      Mode.unitDone start taken rest high unit = .go [] (.text start taken' phase')) ∨
    ∀ start rest, Mode.unitDone start taken rest high unit =
      Step.brokenText start .misplaced rest := by
  cases high with
  | none =>
    by_cases hlow : isLow unit
    · exact .inr fun start rest => by simp [Mode.unitDone, hlow]
    · by_cases hhigh : isHigh unit
      · exact .inl ⟨taken, .pair unit, trivial, fun start rest => by
          simp [Mode.unitDone, hlow, hhigh]⟩
      · exact .inl ⟨Char.ofNat unit :: taken, .plain, trivial, fun start rest => by
          simp [Mode.unitDone, hlow, hhigh]⟩
  | some high =>
    by_cases hlow : isLow unit
    · exact .inl ⟨paired high unit :: taken, .plain, trivial, fun start rest => by
        simp [Mode.unitDone, hlow]⟩
    · exact .inr fun start rest => by simp [Mode.unitDone, hlow]

/-- What a character between quotes brings about, unless it closes them. Only a backslash leads into
an escape. -/
theorem textStep_cases (taken : List Char) {c : Char} {phase : TextPhase}
    (h : phase = .plain → c ≠ '"') :
    (∃ taken' phase', (phase'.IsWhole ∨ c = '\\' ∧ phase.IsWhole) ∧ ∀ start rest,
      Mode.textStep start taken c rest phase = .go [] (.text start taken' phase')) ∨
    ∀ start rest, Mode.textStep start taken c rest phase =
      Step.brokenText start .misplaced rest := by
  cases phase with
  | plain =>
    have hquote := h rfl
    by_cases hslash : c = '\\'
    · exact .inl ⟨taken, .escape, .inr ⟨hslash, trivial⟩, fun start rest => by
        simp [Mode.textStep, hslash]⟩
    · by_cases hcontrol : c.toNat < 0x20
      · exact .inr fun start rest => by simp [Mode.textStep, hquote, hslash, hcontrol]
      · exact .inl ⟨c :: taken, .plain, .inl trivial, fun start rest => by
          simp [Mode.textStep, hquote, hslash, hcontrol]⟩
  | escape =>
    by_cases hunit : c = 'u'
    · exact .inl ⟨taken, .unit none 0 (some 0), .inl trivial, fun start rest => by
        simp [Mode.textStep, hunit]⟩
    · cases hsimple : simpleEscape? c with
      | some meant =>
        exact .inl ⟨meant :: taken, .plain, .inl trivial, fun start rest => by
          simp [Mode.textStep, hunit, hsimple]⟩
      | none => exact .inr fun start rest => by simp [Mode.textStep, hunit, hsimple]
  | unit high width value =>
    simp only [Mode.textStep]
    generalize (do return (← value) * 16 + (← Text.hexValue? c) : Option Nat) = value'
    by_cases hwidth : width + c.utf8Size < 4
    · exact .inl ⟨taken, .unit high (width + c.utf8Size) value', .inl trivial, fun start rest => by
        simp [hwidth]⟩
    · cases value' with
      | none => exact .inr fun start rest => by simp [hwidth]
      | some unit =>
        simp only [hwidth, if_false]
        exact (unitDone_cases high unit).imp_left fun ⟨taken', phase', hphase, hdone⟩ =>
          ⟨taken', phase', .inl hphase, hdone⟩
  | pair high =>
    by_cases hslash : c = '\\'
    · exact .inl ⟨taken, .pairEscape high, .inr ⟨hslash, trivial⟩, fun start rest => by
        simp [Mode.textStep, hslash]⟩
    · exact .inr fun start rest => by simp [Mode.textStep, hslash]
  | pairEscape high =>
    by_cases hunit : c = 'u'
    · exact .inl ⟨taken, .unit (some high) 0 (some 0), .inl trivial, fun start rest => by
        simp [Mode.textStep, hunit]⟩
    · exact .inr fun start rest => by simp [Mode.textStep, hunit]

/-- Once a unit is spoiled, the text is broken whatever follows. -/
theorem contents_spoiled (start : List Char) (high : Option Nat) (width : Nat) (cs : List Char) :
    contents (scan (.text start taken (.unit high width none)) cs) = [none] := by
  induction cs generalizing width with
  | nil => rfl
  | cons c cs ih =>
    by_cases hwidth : width + c.utf8Size < 4
    · have hstep : Mode.step c cs (.text start taken (.unit high width none)) =
          .go [] (.text start taken (.unit high (width + c.utf8Size) none)) := by
        simp [Mode.step, Mode.textStep, hwidth]
      rw [scan_go hstep]
      exact ih _
    · have hstep : Mode.step c cs (.text start taken (.unit high width none)) =
          Step.brokenText start .misplaced cs := by
        simp [Mode.step, Mode.textStep, hwidth]
      rw [scan_halt hstep]
      rfl

/-- A character that is no digit spoils a unit. -/
theorem contents_unit {c : Char} (h : Text.hexValue? c = none) (start : List Char)
    (high : Option Nat) (width : Nat) (value : Option Nat) (cs : List Char) :
    contents (scan (.text start taken (.unit high width value)) (c :: cs)) = [none] := by
  have hvalue : (do return (← value) * 16 + (← Text.hexValue? c) : Option Nat) = none := by
    rw [h]
    cases value <;> rfl
  rw [← contents_spoiled start high width (c :: cs), scan, scan]
  simp only [Mode.step, Mode.textStep, hvalue]
  rfl

theorem Settles.text_step {c : Char} {cs : List Char} {phase : TextPhase}
    (h : phase = .plain → c ≠ '"')
    (hcs : ∀ taken' phase', (phase'.IsWhole ∨ c = '\\' ∧ phase.IsWhole) →
      Settles Next Fits (.text · taken' phase') cs) :
    Settles Next Fits (.text · taken phase) (c :: cs) := by
  rcases textStep_cases taken h with ⟨taken', phase', hphase, hstep⟩ | hstep
  · exact .go _ (fun start rest => ⟨start, hstep start rest⟩) (hcs taken' phase' hphase)
  · exact .halt fun start rest => ⟨_, hstep start rest, rfl⟩

/-- A text between quotes gives one lexeme. -/
theorem Settles.text {inside : List Char} (h : Inside inside) {phase : TextPhase}
    (hphase : phase.IsWhole) :
    Settles Next (fun _ => True) (.text · taken phase) (inside ++ ['"']) := by
  induction h generalizing taken phase with
  | nil =>
    cases phase with
    | plain => exact .token (fun start rest => ⟨_, [], rfl, rfl⟩) trivial .nil
    | unit high width value =>
      exact .broken fun start rest _ => contents_unit (by decide) start high width value rest
    | pair high => exact .halt fun start rest => ⟨_, rfl, rfl⟩
    | escape => exact hphase.elim
    | pairEscape high => exact hphase.elim
  | plain hquote hslash _ ih =>
    refine .text_step (fun _ => hquote) fun taken' phase' hphase' => ih ?_
    exact hphase'.resolve_right fun h => hslash h.1
  | @escape c cs _ ih =>
    cases phase with
    | plain =>
      refine .go (.text · taken .escape) (fun start rest => ⟨start, rfl⟩) ?_
      exact .text_step (by simp) fun taken' phase' hphase' =>
        ih (hphase'.resolve_right fun h => h.2)
    | unit high width value =>
      exact .broken fun start rest _ => contents_unit (by decide) start high width value _
    | pair high =>
      refine .go (.text · taken (.pairEscape high)) (fun start rest => ⟨start, rfl⟩) ?_
      exact .text_step (by simp) fun taken' phase' hphase' =>
        ih (hphase'.resolve_right fun h => h.2)
    | escape => exact hphase.elim
    | pairEscape high => exact hphase.elim

end Texts

/-! ## Words -/

section Words

/-- The tokens of words. -/
def Token.IsScalar : Token → Prop
  | .null | .bool _ | .number _ => True
  | _ => False

/-- The text ends, or goes on with a character that is in no word. -/
def WordEnds (rest : List Char) : Prop := ∀ c ∈ rest.head?, isWordChar c = false

theorem code_of_isDigit {c : Char} (h : c.isDigit = true) : 48 ≤ c.toNat ∧ c.toNat ≤ 57 := by
  simpa [Char.isDigit, UInt32.le_iff_toNat_le] using h

theorem isWordChar_of_isDigit {c : Char} (h : c.isDigit = true) : isWordChar c = true := by
  have hrange := code_of_isDigit h
  have hblank : Text.isBlank c = false := by
    simp only [Text.isBlank, Bool.or_eq_false_iff, Bool.and_eq_false_iff, beq_eq_false_iff_ne,
      decide_eq_false_iff_not]
    omega
  have hne (d : Char) (hd : d.isDigit = false) : c ≠ d :=
    ne_of_apply_ne Char.isDigit (by simp [h, hd])
  simp [isWordChar, hblank, isMark, hne]

theorem not_isDigit_of_not_isWordChar {c : Char} (h : isWordChar c = false) :
    c.isDigit = false := by
  rw [Bool.eq_false_iff]
  exact fun hc => absurd (isWordChar_of_isDigit hc) (by simp [h])

/-- A character that is in no word ends a number, or is a mistake in it. -/
theorem Numeral.next_of_not_isWordChar {c : Char} (h : isWordChar c = false) (n : Numeral) :
    n.next c = if n.isComplete then .ended else .mistaken := by
  have hdigit := not_isDigit_of_not_isWordChar h
  have hne (d : Char) (hd : isWordChar d = true) : c ≠ d :=
    ne_of_apply_ne isWordChar (by simp [h, hd])
  have hzero := hne '0' (by decide)
  have hpoint := hne '.' (by decide)
  have hmark : ¬ (c = 'e' ∨ c = 'E') := not_or.2 ⟨hne 'e' (by decide), hne 'E' (by decide)⟩
  have hsign : ¬ (c = '+' ∨ c = '-') := not_or.2 ⟨hne '+' (by decide), hne '-' (by decide)⟩
  cases hphase : n.phase <;>
    simp [Numeral.next, Numeral.isComplete, hphase, hdigit, hzero, hpoint, hmark, hsign]

/-- The end of a number is the end of its lexeme, or of the whole if it is out of range. -/
theorem contents_number_ended {n : Numeral} {c : Char} (h : n.next c = .ended) (first : Char)
    (start rest : List Char) :
    contents (scan (.number first start n) (c :: rest)) =
      if n.value.outOfRange then [none]
      else some (.number n.value) :: contents (lexemes (c :: rest)) := by
  by_cases hrange : n.value.outOfRange
  · have hstep : (Mode.number first start n).step c rest =
        .halt [⟨first, start, .error ⟨.misplaced, c :: rest⟩⟩] := by
      simp [Mode.step, h, Numeral.token, hrange]
    rw [if_pos hrange, scan_halt hstep]
    rfl
  · have hstep : (Mode.number first start n).step c rest =
        (Mode.enter c rest).after ⟨first, start, .ok (.number n.value)⟩ := by
      simp [Mode.step, h, Numeral.token, hrange]
    rw [if_neg hrange, scan_after hstep]
    rfl

/-- A complete number ends where no word goes on. -/
theorem contents_number_complete {n : Numeral} (h : n.isComplete = true) (first : Char)
    (start : List Char) {rest : List Char} (hrest : WordEnds rest) :
    contents (scan (.number first start n) rest) =
      if n.value.outOfRange then [none]
      else some (.number n.value) :: contents (lexemes rest) := by
  cases rest with
  | nil =>
    by_cases hrange : n.value.outOfRange <;>
      simp [scan, Mode.finish, h, Numeral.token, hrange, contents, Except.toOption, lexemes]
  | cons c rest =>
    refine contents_number_ended ?_ first start rest
    rw [Numeral.next_of_not_isWordChar (hrest c rfl), if_pos h]

/-- A number at its end gives one lexeme. -/
theorem Settles.number_nil (first : Char) (n : Numeral) :
    Settles WordEnds Token.IsScalar (.number first · n) [] := by
  by_cases hcomplete : n.isComplete = true
  · by_cases hrange : n.value.outOfRange
    · exact .broken fun start rest hrest =>
        (contents_number_complete hcomplete first start hrest).trans (if_pos hrange)
    · exact ⟨[.number n.value], false, by simp [Token.IsScalar], fun start rest hrest =>
        (contents_number_complete hcomplete first start hrest).trans (if_neg hrange)⟩
  · refine .broken fun start rest hrest => ?_
    cases rest with
    | nil => simp [scan, Mode.finish, hcomplete, contents, Except.toOption]
    | cons c rest =>
      have hnext := Numeral.next_of_not_isWordChar (hrest c rfl) n
      rw [if_neg hcomplete] at hnext
      have hstep : (Mode.number first start n).step c rest =
          .halt [⟨first, start, .error ⟨.misplaced, rest⟩⟩] := by
        simp [Mode.step, hnext]
      rw [List.nil_append, scan_halt hstep]
      rfl

/-- A number settles if its continuation does, and what begins where it ends. -/
theorem Settles.number_cons {first c : Char} {n : Numeral} {cs : List Char}
    (hmore : ∀ n', Settles WordEnds Token.IsScalar (.number first · n') cs)
    (hended : Settles WordEnds Token.IsScalar (fun _ => .between) (c :: cs)) :
    Settles WordEnds Token.IsScalar (.number first · n) (c :: cs) := by
  cases hnext : n.next c with
  | more n' => exact .go _ (fun start rest => ⟨start, by simp [Mode.step, hnext]⟩) (hmore n')
  | mistaken =>
    exact .halt fun start rest => ⟨⟨first, start, .error ⟨.misplaced, rest⟩⟩, by
      simp [Mode.step, hnext], rfl⟩
  | ended =>
    by_cases hrange : n.value.outOfRange
    · exact .broken fun start rest _ =>
        (contents_number_ended hnext first start _).trans (if_pos hrange)
    · obtain ⟨ts, broken, hts, hscan⟩ := hended
      refine ⟨.number n.value :: ts, broken, List.forall_mem_cons.2 ⟨trivial, hts⟩, ?_⟩
      intro start rest hrest
      rw [List.cons_append, contents_number_ended hnext, if_neg hrange]
      exact congrArg _ (hscan start rest hrest)

/-- A character of a word begins a literal or a number, or is a mistake. -/
theorem enter_of_isWordChar {c : Char} (h : isWordChar c = true) :
    (∃ left t, (∀ d ∈ left, isWordChar d = true) ∧ t.IsScalar ∧
      ∀ rest, Mode.enter c rest = .go [] (.word c rest left t)) ∨
    (∃ n, ∀ rest, Mode.enter c rest = .go [] (.number c rest n)) ∨
    ∀ rest, Mode.enter c rest = .halt [⟨c, rest, .error ⟨.misplaced, rest⟩⟩] := by
  have hspace : isSpace c = false := by
    rw [Bool.eq_false_iff]
    exact fun hc => absurd (isBlank_of_isSpace hc) (by simp [not_isBlank_of_isWordChar h])
  have hne (d : Char) (hd : isWordChar d = false) : c ≠ d :=
    ne_of_apply_ne isWordChar (by simp [h, hd])
  have hmarks : c ≠ '[' ∧ c ≠ ']' ∧ c ≠ '\x7b' ∧ c ≠ '\x7d' ∧ c ≠ ',' ∧ c ≠ ':' ∧ c ≠ '"' := by
    refine ⟨?_, ?_, ?_, ?_, ?_, ?_, ?_⟩ <;> exact hne _ (by decide)
  by_cases hn : c = 'n'
  · exact .inl ⟨['u', 'l', 'l'], .null, List.all_eq_true.1 rfl, trivial, fun rest => by
      subst hn; rfl⟩
  by_cases ht : c = 't'
  · exact .inl ⟨['r', 'u', 'e'], .bool true, List.all_eq_true.1 rfl, trivial, fun rest => by
      subst ht; rfl⟩
  by_cases hf : c = 'f'
  · exact .inl ⟨['a', 'l', 's', 'e'], .bool false, List.all_eq_true.1 rfl, trivial, fun rest => by
      subst hf; rfl⟩
  refine .inr ?_
  cases hstart : Numeral.start? c with
  | some n =>
    exact .inl ⟨n, fun rest => by simp [Mode.enter, hspace, hmarks, hn, ht, hf, hstart]⟩
  | none =>
    exact .inr fun rest => by simp [Mode.enter, hspace, hmarks, hn, ht, hf, hstart]

/-- A literal is broken off by a character other than its next. -/
theorem step_word_of_ne {first c : Char} {start left rest : List Char} {t : Token}
    (h : left.head? ≠ some c) : Mode.step c rest (.word first start left t) =
      .halt [⟨first, start, .error ⟨.misplaced, rest⟩⟩] := by
  match left with
  | [] => rfl
  | [last] => simp_all [Mode.step, eq_comm]
  | wanted :: next :: left => simp_all [Mode.step, eq_comm]

/-- A literal that the text ends in the middle of is broken. -/
theorem Settles.literal_nil {first : Char} {left : List Char} {t : Token}
    (hleft : ∀ d ∈ left, isWordChar d = true) :
    Settles WordEnds Token.IsScalar (.word first · left t) [] := by
  refine .broken fun start rest hrest => ?_
  cases rest with
  | nil => rfl
  | cons c rest =>
    have hne : left.head? ≠ some c := by
      intro hhead
      have hc := hleft c (List.mem_of_mem_head? hhead)
      simp [hrest c rfl] at hc
    rw [List.nil_append, scan_halt (step_word_of_ne hne)]
    rfl

/-- A literal settles if its continuation does, and what comes after its last character. -/
theorem Settles.literal_cons {first c : Char} {left cs : List Char} {t : Token} (ht : t.IsScalar)
    (hmore : ∀ left', left = c :: left' →
      Settles WordEnds Token.IsScalar (.word first · left' t) cs)
    (hdone : Settles WordEnds Token.IsScalar (fun _ => .between) cs) :
    Settles WordEnds Token.IsScalar (.word first · left t) (c :: cs) := by
  by_cases hhead : left.head? = some c
  · obtain ⟨left, rfl⟩ := List.head?_eq_some_iff.1 hhead
    cases left with
    | nil =>
      exact .token (fun start rest => ⟨⟨first, start, .ok t⟩, start, by simp [Mode.step], rfl⟩)
        ht hdone
    | cons d left =>
      exact .go _ (fun start rest => ⟨start, by simp [Mode.step]⟩) (hmore (d :: left) rfl)
  · exact .halt fun start rest => ⟨_, step_word_of_ne hhead, rfl⟩

/-- A word gives its lexemes, from whatever place the machine has reached. -/
theorem Settles.word_modes {cs : List Char} (h : ∀ c ∈ cs, isWordChar c = true) :
    (∀ first n, Settles WordEnds Token.IsScalar (.number first · n) cs) ∧
    (∀ first left (t : Token), (∀ d ∈ left, isWordChar d = true) → t.IsScalar →
      Settles WordEnds Token.IsScalar (.word first · left t) cs) ∧
    Settles WordEnds Token.IsScalar (fun _ => .between) cs := by
  -- the three modes lead to each other: a number may end where a literal begins
  induction cs with
  | nil => exact ⟨Settles.number_nil, fun first left t hleft _ => .literal_nil hleft, .nil⟩
  | cons c cs ih =>
    obtain ⟨hc, hcs⟩ := List.forall_mem_cons.1 h
    obtain ⟨hnumber, hliteral, hbetween⟩ := ih hcs
    have henter : Settles WordEnds Token.IsScalar (fun _ => .between) (c :: cs) := by
      rcases enter_of_isWordChar hc with ⟨left, t, hleft, ht, henter⟩ | ⟨n, henter⟩ | henter
      · exact .go _ (fun _ rest => ⟨rest, henter rest⟩) (hliteral c left t hleft ht)
      · exact .go _ (fun _ rest => ⟨rest, henter rest⟩) (hnumber c n)
      · exact .halt fun _ rest => ⟨_, henter rest, rfl⟩
    refine ⟨fun first n => .number_cons (hnumber first) henter, fun first left t hleft ht => ?_,
      henter⟩
    refine .literal_cons ht (fun left' hsplit => ?_) hbetween
    subst hsplit
    exact hliteral first left' t (List.forall_mem_cons.1 hleft).2 ht

end Words

/-! ## Pieces -/

namespace Lenient

/-- Within a lexeme the machine makes one sooner or later, be it a broken one. -/
theorem scan_ne_nil {mode : Mode} (h : mode ≠ .between) (cs : List Char) : scan mode cs ≠ [] := by
  induction cs generalizing mode with
  | nil => cases mode <;> simp_all [scan, Mode.finish]
  | cons c cs ih =>
    cases mode with
    | between => exact absurd rfl h
    | text start taken phase =>
      by_cases hclose : phase = .plain ∧ c = '"'
      · obtain ⟨rfl, rfl⟩ := hclose
        simp [scan, Mode.step, Mode.textStep]
      · rcases textStep_cases taken (not_and.1 hclose) with ⟨taken', phase', -, hstep⟩ | hstep
        · rw [scan, Mode.step, hstep]
          exact ih (by simp)
        · rw [scan, Mode.step, hstep]
          exact List.cons_ne_nil _ _
    | number first start n =>
      cases hnext : n.next c with
      | more n' =>
        simp only [scan, Mode.step, hnext, List.nil_append]
        exact ih (by simp)
      | mistaken => simp [scan, Mode.step, hnext]
      | ended =>
        intro hnil
        have hcontents := contents_number_ended hnext first start cs
        rw [hnil] at hcontents
        split at hcontents <;> simp [contents] at hcontents
    | word first start left t =>
      by_cases hhead : left.head? = some c
      · obtain ⟨left, rfl⟩ := List.head?_eq_some_iff.1 hhead
        cases left with
        | nil => simp [scan, Mode.step]
        | cons d left =>
          simp only [scan, Mode.step, if_true, List.nil_append]
          exact ih (by simp)
      · rw [scan_halt (step_word_of_ne hhead)]
        simp

/-- What a piece may stand before without running into it. -/
def Piece.MayTouch : Piece → List Char → Prop
  | .word _, rest => WordEnds rest
  | _, _ => True

/-- The tokens that a piece may give. -/
def Piece.Gives : Piece → Token → Prop
  | .mark c, t => t = markToken c
  | .word _, t => t.IsScalar
  | .quoted _, _ => True

theorem Piece.Proper.settles {p : Piece} (h : p.Proper) :
    Settles p.MayTouch p.Gives (fun _ => .between) p.chars := by
  cases p with
  | mark c =>
    exact .token (fun start rest => ⟨_, start, enter_of_isMark h rest, rfl⟩) rfl .nil
  | quoted inside =>
    exact .go (.text · [] .plain) (fun start rest => ⟨rest, rfl⟩) (.text h trivial)
  | word cs => exact (Settles.word_modes h.2).2.2

theorem Piece.Proper.lexemes_ne_nil {p : Piece} (h : p.Proper) : lexemes p.chars ≠ [] := by
  cases p with
  | mark c => simp [Piece.chars, lexemes_go (enter_of_isMark h [])]
  | quoted inside =>
    have hmode : Mode.text (inside ++ ['"']) [] .plain ≠ .between := by simp
    exact scan_ne_nil hmode _
  | word cs =>
    obtain ⟨hne, hcs⟩ := h
    obtain ⟨c, cs, rfl⟩ := List.exists_cons_of_ne_nil hne
    rw [Piece.chars]
    rcases enter_of_isWordChar (hcs c List.mem_cons_self) with ⟨left, t, -, -, h⟩ | ⟨n, h⟩ | h
    · simpa [lexemes_go (h cs)] using scan_ne_nil (by simp) cs
    · simpa [lexemes_go (h cs)] using scan_ne_nil (by simp) cs
    · simp [lexemes_halt (h cs)]

/-- Where the lexemes of a text are all whole, those of its first piece are some tokens that the
piece may give, and the other tokens are those of the text behind. -/
theorem Piece.Proper.exists_tokens {p : Piece} (h : p.Proper) {rest : List Char}
    (hrest : p.MayTouch rest) {ts : List Token}
    (hts : contents (lexemes (p.chars ++ rest)) = ts.map some) :
    ∃ own more, ts = own ++ more ∧ own ≠ [] ∧ (∀ t ∈ own, p.Gives t) ∧
      contents (lexemes rest) = more.map some := by
  obtain ⟨own, broken, hown, hscan⟩ := h.settles
  have hread := hscan [] rest hrest
  rw [← lexemes, hts] at hread
  cases broken with
  | true =>
    have hnone : none ∈ ts.map some := by simp [hread]
    simp at hnone
  | false =>
    obtain ⟨first, more, rfl, hfirst, hmore⟩ := List.map_eq_append_iff.1 hread
    obtain rfl := List.map_injective_iff.2 (fun _ _ => Option.some.inj) hfirst
    refine ⟨first, more, rfl, ?_, hown, hmore.symm⟩
    rintro rfl
    have hnil := hscan [] [] (by cases p <;> simp [Piece.MayTouch, WordEnds])
    rw [List.append_nil, ← lexemes] at hnil
    exact h.lexemes_ne_nil (List.map_eq_nil_iff.1 hnil)

theorem wordEnds_spaces {gap rest : List Char} (h : Spaces gap) (hrest : WordEnds rest) :
    WordEnds (gap ++ rest) := by
  cases gap with
  | nil => exact hrest
  | cons c gap =>
    have hblank := isBlank_of_isSpace (h c List.mem_cons_self)
    simp [WordEnds, isWordChar, hblank]

theorem wordEnds_piece {q : Piece} (h : q.Proper) (hq : ∀ cs, q ≠ .word cs) (rest : List Char) :
    WordEnds (q.chars ++ rest) := by
  cases q with
  | mark c =>
    have hmark : isMark c = true := h
    simp [WordEnds, Piece.chars, isWordChar, hmark]
  | quoted inside => simp [WordEnds, Piece.chars, isWordChar]
  | word cs => exact absurd rfl (hq cs)

/-- A piece does not run into what may follow it. -/
theorem Spells.mayTouch {p : Piece} {ps : List Piece} {cs : List Char} (hps : Orderly (p :: ps))
    (h : Spells ps cs) : p.MayTouch cs := by
  cases p with
  | mark c => trivial
  | quoted inside => trivial
  | word w =>
    cases h with
    | nil hgap =>
      have hends := wordEnds_spaces hgap (by simp [WordEnds] : WordEnds [])
      rwa [List.append_nil] at hends
    | @cons gap cs q ps hgap hq _ =>
      refine wordEnds_spaces hgap (wordEnds_piece hq ?_ cs)
      rintro w' rfl
      exact (List.isChain_cons_cons.1 hps).1

/-- Two texts of the same pieces have the same lexemes, but for where these stand. -/
theorem Spells.contents_eq {ps : List Piece} {cs cs' : List Char} (hps : Orderly ps)
    (h : Spells ps cs) (h' : Spells ps cs') :
    contents (lexemes cs) = contents (lexemes cs') := by
  induction h generalizing cs' with
  | @nil gap hgap =>
    obtain ⟨hgap'⟩ := h'
    have hnone := lexemes_spaces hgap []
    have hnone' := lexemes_spaces hgap' []
    rw [List.append_nil] at hnone hnone'
    rw [hnone, hnone']
  | cons hgap hp hcs ih =>
    obtain _ | ⟨hgap', -, hcs'⟩ := h'
    obtain ⟨ts, broken, -, hscan⟩ := hp.settles
    have hread := hscan [] _ (hcs.mayTouch hps)
    have hread' := hscan [] _ (hcs'.mayTouch hps)
    rw [lexemes_spaces hgap, lexemes_spaces hgap']
    rw [← lexemes] at hread hread'
    rw [hread, hread', ih hps.tail hcs']

end Lenient

end ButtonDialog.Json
