import ButtonDialog.Proofs.Reading.Acceptance

/-! Cutting a text into pieces.

    A text whose lexemes are all whole begins with a piece, if it does not begin with a blank. Cut
    off piece by piece, a text that the strict reader accepts comes apart into pieces in a strict
    order, for its tokens are in order. -/

namespace ButtonDialog.Json.Lenient

/-! ## The first piece -/

/-- Where a text between quotes is not broken, a character that does not close it leads on. -/
theorem exists_next {c : Char} {cs start taken : List Char} {phase : TextPhase}
    (hclose : phase = .plain → c ≠ '"')
    (h : none ∉ contents (scan (.text start taken phase) (c :: cs))) :
    ∃ taken' phase', (phase'.IsWhole ∨ c = '\\' ∧ phase.IsWhole) ∧
      none ∉ contents (scan (.text start taken' phase') cs) := by
  rcases textStep_cases taken hclose with ⟨taken', phase', hphase', hstep⟩ | hstep
  · rw [scan, Mode.step, hstep] at h
    exact ⟨taken', phase', hphase', h⟩
  · rw [scan, Mode.step, hstep] at h
    exact absurd h (by simp [Step.brokenText, contents, Except.toOption])

/-- Between quotes, a text whose lexemes are all whole goes on to the closing quote. In the middle
of an escape, one more character comes first. -/
theorem exists_inside {cs start taken : List Char} {phase : TextPhase}
    (h : none ∉ contents (scan (.text start taken phase) cs)) :
    (phase.IsWhole → ∃ inside rest, Inside inside ∧ cs = inside ++ '"' :: rest) ∧
    (¬ phase.IsWhole → ∃ c inside rest, Inside inside ∧ cs = c :: (inside ++ '"' :: rest)) := by
  induction cs generalizing taken phase with
  | nil => exact absurd h (by simp [scan, Mode.finish, contents, Except.toOption])
  | cons c cs ih =>
    have hplain (hphase : phase.IsWhole) (hquote : c ≠ '"') (hslash : c ≠ '\\') :
        ∃ inside rest, Inside inside ∧ c :: cs = inside ++ '"' :: rest := by
      obtain ⟨taken', phase', hphase', hrest⟩ := exists_next (fun _ => hquote) h
      obtain ⟨inside, rest, hin, rfl⟩ := (ih hrest).1 (hphase'.resolve_right fun h => hslash h.1)
      exact ⟨c :: inside, rest, .plain hquote hslash hin, rfl⟩
    have hescape (middle : TextPhase) (hmiddle : ¬ middle.IsWhole)
        (hrest : none ∉ contents (scan (.text start taken middle) cs)) :
        ∃ inside rest, Inside inside ∧ '\\' :: cs = inside ++ '"' :: rest := by
      obtain ⟨d, inside, rest, hin, rfl⟩ := (ih hrest).2 hmiddle
      exact ⟨'\\' :: d :: inside, rest, .escape hin, rfl⟩
    refine ⟨fun hphase => ?_, fun hphase => ?_⟩
    · cases phase with
      | plain =>
        by_cases hquote : c = '"'
        · exact ⟨[], cs, .nil, by rw [hquote]; rfl⟩
        by_cases hslash : c = '\\'
        · subst hslash
          exact hescape .escape id h
        exact hplain hphase hquote hslash
      | unit high width value =>
        have hdigit (d : Char) (hd : Text.hexValue? d = none) : c ≠ d := by
          rintro rfl
          simp [contents_unit hd] at h
        exact hplain hphase (hdigit '"' (by decide)) (hdigit '\\' (by decide))
      | pair high =>
        by_cases hslash : c = '\\'
        · subst hslash
          exact hescape (.pairEscape high) id h
        refine hplain hphase ?_ hslash
        rintro rfl
        exact h (List.mem_singleton_self none)
      | escape => exact hphase.elim
      | pairEscape high => exact hphase.elim
    · have hclose : phase = .plain → c ≠ '"' := by
        rintro rfl
        exact absurd trivial hphase
      obtain ⟨taken', phase', hphase', hrest⟩ := exists_next hclose h
      obtain ⟨inside, rest, hin, rfl⟩ := (ih hrest).1 (hphase'.resolve_right fun h => hphase h.2)
      exact ⟨c, inside, rest, hin, rfl⟩

/-- A slash, or a blank that is none of JSON, breaks the text. -/
theorem enter_eq_halt {c : Char} (hspace : isSpace c = false) (hmark : isMark c = false)
    (hquote : c ≠ '"') (hword : isWordChar c = false) (rest : List Char) :
    Mode.enter c rest = .halt [⟨c, rest, .error ⟨.misplaced, rest⟩⟩] := by
  have hne (d : Char) (hd : isWordChar d = true) : c ≠ d :=
    ne_of_apply_ne isWordChar (by simp [hword, hd])
  have hdigit := not_isDigit_of_not_isWordChar hword
  have hnumber : Numeral.start? c = none := by
    simp [Numeral.start?, hdigit, hne '-' (by decide), hne '0' (by decide)]
  simp only [isMark, Bool.or_eq_false_iff, beq_eq_false_iff_ne] at hmark
  simp [Mode.enter, hspace, hmark, hquote, hnumber, hne 'n' (by decide), hne 't' (by decide),
    hne 'f' (by decide)]

/-- A text with no broken lexeme begins with a piece, if it does not begin with a blank. -/
theorem exists_piece {c : Char} {cs : List Char} (hc : isSpace c = false)
    (h : none ∉ contents (lexemes (c :: cs))) :
    ∃ (p : Piece) (rest : List Char), p.Proper ∧ c :: cs = p.chars ++ rest ∧ p.MayTouch rest := by
  by_cases hmark : isMark c = true
  · exact ⟨.mark c, cs, hmark, rfl, trivial⟩
  by_cases hquote : c = '"'
  · subst hquote
    have htext : none ∉ contents (scan (.text cs [] .plain) cs) := h
    obtain ⟨inside, rest, hin, hcs⟩ := (exists_inside htext).1 trivial
    exact ⟨.quoted inside, rest, hin, by simp [Piece.chars, hcs], trivial⟩
  by_cases hword : isWordChar c = true
  · refine ⟨.word ((c :: cs).takeWhile isWordChar), (c :: cs).dropWhile isWordChar,
      ⟨by simp [List.takeWhile, hword], List.all_eq_true.1 List.all_takeWhile⟩,
      List.takeWhile_append_dropWhile.symm, fun d hd => ?_⟩
    have hnot := List.head?_dropWhile_not isWordChar (c :: cs)
    rwa [hd] at hnot
  · have hbroken := enter_eq_halt hc (by simpa using hmark) hquote (by simpa using hword) cs
    rw [lexemes_halt hbroken] at h
    exact absurd h (by simp [contents, Except.toOption])

/-! ## All pieces -/

/-- Two pieces may stand in the order in which their tokens do. -/
theorem Piece.mayPrecede_of_gives {p q : Piece} {s t : Token} (hs : p.Gives s) (ht : q.Gives t)
    (h : s.MayPrecede t) : p.MayPrecede q := by
  cases p with
  | mark c =>
    rintro rfl hcloser
    cases q with
    | mark d =>
      obtain rfl : t = markToken d := ht
      simp only [Piece.IsCloser, isCloser, Bool.or_eq_true, beq_iff_eq] at hcloser
      rcases hcloser with rfl | rfl <;> exact h.1 hs trivial
    | quoted inside => exact hcloser
    | word cs => exact hcloser
  | quoted inside => trivial
  | word cs =>
    cases q with
    | word cs' => exact h.2 hs ht
    | mark c => trivial
    | quoted inside => trivial

/-- The first token of a text is one that its first piece may give. -/
theorem Spells.exists_first {p : Piece} {ps : List Piece} {cs : List Char}
    (hps : Orderly (p :: ps)) (h : Spells (p :: ps) cs) {ts : List Token}
    (hts : contents (lexemes cs) = ts.map some) : ∃ t ∈ ts.head?, p.Gives t := by
  cases h with
  | cons hgap hp hcs =>
    rw [lexemes_spaces hgap] at hts
    obtain ⟨own, more, rfl, hne, hown, -⟩ := hp.exists_tokens (hcs.mayTouch hps) hts
    obtain ⟨t, own, rfl⟩ := List.exists_cons_of_ne_nil hne
    exact ⟨t, rfl, hown t List.mem_cons_self⟩

/-- A text whose tokens are in order has pieces in order. -/
theorem exists_pieces {cs : List Char} {ts : List Token} (h : contents (lexemes cs) = ts.map some)
    (hts : ts.IsChain Token.MayPrecede) : ∃ ps, Orderly ps ∧ Spells ps cs := by
  have hnil : Spaces [] := by simp [Spaces]
  induction hlength : cs.length using Nat.strong_induction_on generalizing cs ts with
  | _ n ih =>
  subst hlength
  cases cs with
  | nil => exact ⟨[], .nil, .nil hnil⟩
  | cons c cs =>
    by_cases hc : isSpace c = true
    · have hgap : Spaces [c] := by simpa [Spaces] using hc
      rw [← List.singleton_append, lexemes_spaces hgap] at h
      obtain ⟨ps, hps, hspells⟩ := ih cs.length (by simp) h hts rfl
      exact ⟨ps, hps, hspells.prepend hgap⟩
    · have hwhole : none ∉ contents (lexemes (c :: cs)) := by simp [h]
      obtain ⟨p, rest, hp, hcs, htouch⟩ := exists_piece (by simpa using hc) hwhole
      rw [hcs] at h ih ⊢
      obtain ⟨own, more, rfl, hne, hown, hmore⟩ := hp.exists_tokens htouch h
      obtain ⟨-, hchain, hbetween⟩ := List.isChain_append.1 hts
      have hshort : rest.length < (p.chars ++ rest).length := by
        obtain ⟨d, ds, hchars, -⟩ := hp.exists_first
        simp only [hchars, List.length_append, List.length_cons]
        omega
      obtain ⟨ps, hps, hspells⟩ := ih rest.length hshort hmore hchain rfl
      refine ⟨p :: ps, List.isChain_cons.2 ⟨fun q hq => ?_, hps⟩, .cons hnil hp hspells⟩
      obtain ⟨ps, rfl⟩ := List.head?_eq_some_iff.1 hq
      obtain ⟨t, ht, hgives⟩ := hspells.exists_first hps hmore
      have hlast := List.getLast?_eq_some_getLast hne
      exact Piece.mayPrecede_of_gives (hown _ (List.getLast_mem hne)) hgives (hbetween _ hlast t ht)

/-- A text that the strict reader accepts has pieces. -/
theorem exists_pieces_of_readChars {cs : List Char} {v : Json} (h : readChars cs = .ok v) :
    ∃ ps, Orderly ps ∧ Spells ps cs := by
  obtain ⟨ts, hts, haccepts⟩ := readChars_eq_ok_iff.1 h
  exact exists_pieces hts haccepts.isChain

end ButtonDialog.Json.Lenient
