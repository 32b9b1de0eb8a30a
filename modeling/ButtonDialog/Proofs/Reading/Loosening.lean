import ButtonDialog.Proofs.Reading.Uncommenting

/-! No text is read that is looser than this.

    Cleaning could make JSON of a text that is far from it. That it does not is shown by going back:
    a piece that stands in the cleaned text stands in the text, since every comment leaves a blank
    that no piece goes over, and a comma that is gone stood before a closing bracket. So a text that
    is JSON once it is cleaned has the same pieces, with no more than comments and such commas
    between them. -/

namespace ButtonDialog.Json.Lenient

/-! ## What a text begins with -/

theorem Filler.append {filler more : List Char} (h : Filler filler) (h' : Filler more) :
    Filler (filler ++ more) := by
  induction h with
  | nil => exact h'
  | blank hc _ ih => exact .blank hc ih
  | line hcomment _ ih => simpa using Filler.line hcomment ih
  | block hcomment _ ih => simpa using Filler.block hcomment ih

theorem Trailer.prepend {filler trailer : List Char} (h : Filler filler) (h' : Trailer trailer) :
    Trailer (filler ++ trailer) := by
  cases h' with
  | last hlast =>
    cases hlast with
    | ended hmore => exact .last (.ended (h.append hmore))
    | line hmore hcomment =>
      rw [← List.append_assoc]
      exact .last (.line (h.append hmore) hcomment)
  | block hmore hcomment =>
    rw [← List.append_assoc]
    exact .block (h.append hmore) hcomment

/-- Something other than blanks and comments comes next: a quote, or a character of the code. -/
def Solid (c : Char) (rest : List Char) : Prop :=
  isSpace c = false ∧ (c = '"' ∨ (Stretch.code c).Fits rest)

/-- After blanks and comments a text ends, or something else comes. -/
theorem trailer_or_solid (cs : List Char) :
    Trailer cs ∨ ∃ filler c rest, Filler filler ∧ cs = filler ++ c :: rest ∧ Solid c rest := by
  obtain ⟨ss, hcut⟩ := exists_cut cs
  induction hcut with
  | nil => exact .inl (.last (.ended .nil))
  | @cons s ss rest hs _ ih =>
    have hmore {filler : List Char} (h : Filler filler) (heq : s.chars = filler) :
        Trailer (s.chars ++ rest) ∨ ∃ filler c rest', Filler filler ∧
          s.chars ++ rest = filler ++ c :: rest' ∧ Solid c rest' := by
      rw [heq]
      rcases ih with htrailer | ⟨more, c, rest, hfiller, rfl, hsolid⟩
      · exact .inl (htrailer.prepend h)
      · exact .inr ⟨filler ++ more, c, rest, h.append hfiller, by simp, hsolid⟩
    rcases s with c | ⟨_ | _ | _, inside, _ | _⟩
    · by_cases hc : isSpace c = true
      · exact hmore (.blank hc .nil) rfl
      · exact .inr ⟨[], c, rest, .nil, rfl, by simpa using hc, .inr hs⟩
    · exact .inr ⟨[], '"', _, .nil, rfl, by decide, .inl rfl⟩
    · exact .inr ⟨[], '"', _, .nil, rfl, by decide, .inl rfl⟩
    · obtain ⟨hopen, rfl⟩ := hs
      refine .inl (.last ?_)
      simpa [Stretch.chars, Enclosure.opener] using
        LastFiller.line .nil (clear_of_not_closes_line hopen)
    · refine hmore (@Filler.line inside [] hs .nil) ?_
      simp [Stretch.chars, Enclosure.opener, Enclosure.closer]
    · obtain ⟨hopen, rfl⟩ := hs
      simpa [Stretch.chars, Enclosure.opener] using
        Or.inl (Trailer.block .nil (clear_of_not_closes_block hopen))
    · refine hmore (@Filler.block inside [] hs .nil) ?_
      simp [Stretch.chars, Enclosure.opener, Enclosure.closer]

/-! ## What cleaning makes of it -/

theorem exists_spaces_clean {filler : List Char} (h : Filler filler) :
    ∃ gap, Spaces gap ∧ ∀ rest, clean (filler ++ rest) = gap ++ clean rest := by
  obtain ⟨gap, hgap, hdrop⟩ := exists_spaces_of_filler h
  refine ⟨gap, hgap, fun rest => ?_⟩
  rw [clean, hdrop, dropCommas_spaces hgap, clean]

theorem spaces_clean {trailer : List Char} (h : Trailer trailer) : Spaces (clean trailer) := by
  have hgap := spaces_of_trailer h
  have hdrop := dropCommas_spaces hgap []
  rw [List.append_nil] at hdrop
  rw [clean, hdrop]
  simpa [dropCommas] using hgap

/-- A comma here is dropped. -/
def Surplus (c : Char) (rest : List Char) : Prop :=
  c = ',' ∧ closes (dropComments .code rest) = true

theorem clean_code {c : Char} {rest : List Char} (h : (Stretch.code c).Fits rest)
    (hkept : ¬ Surplus c rest) : clean (c :: rest) = c :: clean rest := by
  have hquote : c ≠ '"' := by
    rintro rfl
    exact h .quotes ⟨rest, rfl⟩
  rw [clean, dropComments_code h, clean]
  refine dropCommas_kept hquote fun hcomma => ?_
  rw [Bool.eq_false_iff]
  exact fun hcloses => hkept ⟨hcomma, hcloses⟩

theorem clean_surplus {c : Char} {rest : List Char} (h : Surplus c rest) :
    clean (c :: rest) = clean rest := by
  obtain ⟨rfl, hcloses⟩ := h
  rw [clean, dropComments_ordinary ⟨by decide, by decide⟩, dropCommas_dropped hcloses, clean]

theorem clean_piece {p : Piece} (h : p.Proper) (hcomma : ∀ c, p ≠ .mark c) (rest : List Char) :
    clean (p.chars ++ rest) = p.chars ++ clean rest := by
  rw [clean, dropComments_piece h, dropCommas_piece h (fun h => absurd h (hcomma _)), clean]

/-- What comes first before a closing bracket are blanks, and they are kept. -/
theorem dropCommas_of_closes {cs : List Char} (h : closes cs = true) :
    ∃ blanks c rest, cs = blanks ++ c :: rest ∧ (∀ b ∈ blanks, Text.isBlank b = true) ∧
      isCloser c = true ∧ dropCommas .code cs = blanks ++ c :: dropCommas .code rest := by
  obtain ⟨blanks, c, rest, rfl, hblanks, hcloser⟩ := closes_eq_true_iff.1 h
  refine ⟨blanks, c, rest, rfl, hblanks, hcloser, ?_⟩
  have hplain : ∀ b ∈ blanks, b ≠ '"' ∧ b ≠ ',' := by
    intro b hb
    have hb := hblanks b hb
    constructor <;> rintro rfl <;> exact absurd hb (by decide)
  have hc : c ≠ '"' ∧ c ≠ ',' := by
    constructor <;> rintro rfl <;> exact absurd hcloser (by decide)
  rw [dropCommas_plain hplain, dropCommas_kept hc.1 fun h => absurd h hc.2]

/-! ## Where a word ends -/

theorem wordEnds_of_isBlank {b : Char} (h : Text.isBlank b = true) (rest : List Char) :
    WordEnds (b :: rest) := by
  intro c hc
  obtain rfl := Option.some.inj hc
  simp [isWordChar, h]

theorem wordEnds_of_isMark {c : Char} (h : isMark c = true) (rest : List Char) :
    WordEnds (c :: rest) := by
  intro d hd
  obtain rfl := Option.some.inj hd
  simp [isWordChar, h]

/-- A word is not longer without comments than with them. -/
theorem wordEnds_dropComments {cs : List Char} (h : WordEnds cs) :
    WordEnds (dropComments .code cs) := by
  obtain ⟨ss, hcut⟩ := exists_cut cs
  rw [hcut.dropComments_eq]
  cases hcut with
  | nil => exact h
  | @cons s ss rest hs hss =>
    rw [bareText, List.flatMap_cons]
    by_cases hcomment : s.isComment = true
    · cases hbare : s.bare with
      | nil =>
        -- only a comment that ends the text leaves nothing
        obtain rfl : rest = [] := by
          rcases s with c | ⟨_ | _ | _, inside, _ | _⟩ <;>
            simp_all [Stretch.isComment, Stretch.bare, Stretch.Fits, Stretch.chars,
              Enclosure.opener, Enclosure.closer]
        have hnone : bareText ss = [] := by rw [← hss.dropComments_eq, dropComments_code_nil]
        rw [bareText] at hnone
        rw [hnone]
        simp [WordEnds]
      | cons b bs =>
        have hb := Stretch.spaces_bare hcomment b (by simp [hbare])
        exact wordEnds_of_isBlank (isBlank_of_isSpace hb) _
    · have hcomment : s.isComment = false := by simpa using hcomment
      obtain ⟨c, cs, hchars⟩ := List.exists_cons_of_ne_nil s.chars_ne_nil
      rw [hchars] at h
      rw [Stretch.bare_of_not_isComment hcomment, hchars]
      exact fun d hd => h d hd

theorem wordEnds_dropCommas {cs : List Char} (h : WordEnds cs) :
    WordEnds (dropCommas .code cs) := by
  cases cs with
  | nil => exact h
  | cons c cs =>
    by_cases hsurplus : c = ',' ∧ closes cs = true
    · obtain ⟨rfl, hcloses⟩ := hsurplus
      obtain ⟨blanks, c, rest, rfl, hblanks, hcloser, hdrop⟩ := dropCommas_of_closes hcloses
      rw [dropCommas_dropped hcloses, hdrop]
      cases blanks with
      | nil => exact wordEnds_of_isMark (isMark_of_isCloser hcloser) _
      | cons b blanks => exact wordEnds_of_isBlank (hblanks b List.mem_cons_self) _
    · rw [dropCommas, if_neg hsurplus]
      · exact fun d hd => h d hd
      all_goals simp

theorem wordEnds_clean {cs : List Char} (h : WordEnds cs) : WordEnds (clean cs) :=
  wordEnds_dropCommas (wordEnds_dropComments h)

theorem takeWhile_of_wordEnds {w rest : List Char} (hw : ∀ c ∈ w, isWordChar c = true)
    (h : WordEnds rest) : (w ++ rest).takeWhile isWordChar = w := by
  rw [List.takeWhile_append_of_pos hw]
  cases rest with
  | nil => simp
  | cons c rest => simp [h c rfl]

/-! ## Pieces of the cleaned text -/

/-- The first piece of a strict text that begins with no blank. -/
theorem Spells.exists_cons {ps : List Piece} {c : Char} {cs : List Char} (hc : isSpace c = false)
    (h : Spells ps (c :: cs)) :
    ∃ p ps' cs', ps = p :: ps' ∧ p.Proper ∧ c :: cs = p.chars ++ cs' ∧ Spells ps' cs' := by
  generalize htext : c :: cs = text at h
  cases h with
  | nil hgap =>
    rw [← htext] at hgap
    simp [hgap c List.mem_cons_self] at hc
  | @cons gap rest p ps hgap hp hrest =>
    cases gap with
    | nil => exact ⟨p, ps, rest, rfl, hp, rfl, hrest⟩
    | cons b gap =>
      obtain ⟨rfl, -⟩ := List.cons.inj htext
      simp [hgap c List.mem_cons_self] at hc

theorem Spells.strip {ps : List Piece} {gap cs : List Char} (hgap : Spaces gap)
    (h : Spells ps (gap ++ cs)) : Spells ps cs := by
  generalize htext : gap ++ cs = text at h
  cases h with
  | nil hall =>
    rw [← htext] at hall
    exact .nil (List.forall_mem_append.1 hall).2
  | @cons gap' rest p ps hgap' hp hrest =>
    rcases List.append_eq_append_iff.1 htext with ⟨more, rfl, rfl⟩ | ⟨more, rfl, hmore⟩
    · exact .cons (List.forall_mem_append.1 hgap').2 hp hrest
    · -- the blanks end where the piece begins
      obtain ⟨d, ds, hchars, hd, -⟩ := hp.exists_first
      cases more with
      | nil =>
        rw [List.nil_append] at hmore
        rw [← hmore]
        exact .cons (List.forall_mem_nil _) hp hrest
      | cons b more =>
        rw [hchars] at hmore
        obtain ⟨rfl, -⟩ := List.cons.inj hmore
        have hspace := hgap d (List.mem_append_right _ List.mem_cons_self)
        simp [isBlank_of_isSpace hspace] at hd

/-- The first piece is a closing bracket where one comes next. -/
theorem Spells.exists_closer {ps : List Piece} {cs : List Char} (hcloses : closes cs = true)
    (h : Spells ps (dropCommas .code cs)) : ∃ closer ps', ps = closer :: ps' ∧ closer.IsCloser := by
  obtain ⟨blanks, c, rest, -, hblanks, hcloser, hdrop⟩ := dropCommas_of_closes hcloses
  have hc := not_isBlank_of_isMark (isMark_of_isCloser hcloser)
  rw [hdrop] at h
  generalize htext : blanks ++ c :: dropCommas .code rest = text at h
  cases h with
  | nil hall =>
    rw [← htext] at hall
    have hspace := hall c (List.mem_append_right _ List.mem_cons_self)
    simp [isBlank_of_isSpace hspace] at hc
  | @cons gap more p ps hgap hp hrest =>
    refine ⟨p, ps, rfl, ?_⟩
    obtain ⟨d, ds, hchars, hd, hiff⟩ := hp.exists_first
    have hsame := congrArg (List.dropWhile Text.isBlank) htext
    rw [hchars, List.dropWhile_append_of_pos hblanks,
      List.dropWhile_append_of_pos fun b hb => isBlank_of_isSpace (hgap b hb), List.cons_append,
      List.dropWhile_cons_of_neg (by simp [hc]), List.dropWhile_cons_of_neg (by simp [hd])] at hsame
    obtain ⟨rfl, -⟩ := List.cons.inj hsame
    exact hiff.1 hcloser

/-! ## From the cleaned text to the text -/

/-- A quote begins a text between quotes. -/
theorem Piece.Proper.exists_quoted {p : Piece} {cs rest : List Char} (h : p.Proper)
    (heq : '"' :: cs = p.chars ++ rest) :
    ∃ inside, p = .quoted inside ∧ Inside inside ∧ cs = inside ++ '"' :: rest := by
  cases p with
  | mark c =>
    obtain ⟨rfl, -⟩ := List.cons.inj heq
    exact absurd (show isMark '"' = true from h) (by decide)
  | quoted inside => exact ⟨inside, rfl, h, by simpa [chars] using heq⟩
  | word w =>
    obtain ⟨hne, hw⟩ := h
    obtain ⟨c, w, rfl⟩ := List.exists_cons_of_ne_nil hne
    obtain ⟨rfl, -⟩ := List.cons.inj heq
    exact absurd (hw _ List.mem_cons_self) (by decide)

/-- A text between quotes in the cleaned text stands in the text. -/
theorem exists_quoted_of_clean {rest : List Char} {ps : List Piece}
    (h : Spells ps (clean ('"' :: rest))) :
    ∃ p ps' rest', ps = p :: ps' ∧ p.Proper ∧ '"' :: rest = p.chars ++ rest' ∧
      Spells ps' (clean rest') := by
  by_cases hcloses : Enclosure.quotes.Closes rest
  · obtain ⟨inside, rest', hinside, rfl⟩ := hcloses
    have hproper : (Piece.quoted inside).Proper := hinside
    have hchars (more : List Char) :
        (Piece.quoted inside).chars ++ more = '"' :: (inside ++ '"' :: more) := by
      simp [Piece.chars]
    have hclean := clean_piece hproper (by simp) rest'
    rw [hchars, hchars] at hclean
    change Spells ps (clean ('"' :: (inside ++ '"' :: rest'))) at h
    rw [hclean] at h
    obtain ⟨p, ps', cs', rfl, hp, heq, hcs'⟩ := h.exists_cons (by decide)
    obtain ⟨inside', rfl, hinside', hsame⟩ := hp.exists_quoted heq
    obtain ⟨rfl, rfl⟩ := Inside.append_quote_inj hinside hinside' hsame
    exact ⟨_, ps', rest', rfl, hproper, (hchars rest').symm, hcs'⟩
  · -- where no quote closes the text, none does in the cleaned text
    have hclean : clean ('"' :: rest) = '"' :: rest := by
      rw [clean, dropComments_quote, dropComments_unclosed hcloses]
      simp [dropCommas, dropCommas_unclosed hcloses]
    rw [hclean] at h
    obtain ⟨p, ps', cs', rfl, hp, heq, -⟩ := h.exists_cons (by decide)
    obtain ⟨inside, -, hinside, hsame⟩ := hp.exists_quoted heq
    exact absurd ⟨inside, cs', hinside, hsame⟩ hcloses

/-- A bracket, a comma, a colon or a word of the cleaned text stands in the text, unless a comma is
dropped before it. -/
theorem exists_code_of_clean {c : Char} {rest : List Char} {ps : List Piece}
    (hspace : isSpace c = false) (hfits : (Stretch.code c).Fits rest) (hkept : ¬ Surplus c rest)
    (hps : Orderly ps) (h : Spells ps (clean (c :: rest))) :
    ∃ p ps' rest', ps = p :: ps' ∧ p.Proper ∧ c :: rest = p.chars ++ rest' ∧
      Spells ps' (clean rest') := by
  have hclean := clean_code hfits hkept
  rw [hclean] at h
  obtain ⟨p, ps', cs', rfl, hp, heq, hcs'⟩ := h.exists_cons hspace
  cases p with
  | mark d =>
    obtain ⟨rfl, rfl⟩ := List.cons.inj heq
    exact ⟨.mark c, ps', rest, rfl, hp, rfl, hcs'⟩
  | quoted inside =>
    obtain ⟨rfl, -⟩ := List.cons.inj heq
    exact absurd ⟨rest, rfl⟩ (hfits .quotes)
  | word w =>
    -- the longest run of characters of words is the same in both texts
    have hends : WordEnds cs' := hcs'.mayTouch hps
    obtain ⟨hne, hw⟩ := hp
    obtain ⟨d, w, rfl⟩ := List.exists_cons_of_ne_nil hne
    obtain ⟨rfl, -⟩ := List.cons.inj heq
    have hc := hw c List.mem_cons_self
    obtain ⟨rest', htext, hends'⟩ : ∃ rest', c :: rest =
        (c :: rest).takeWhile isWordChar ++ rest' ∧ WordEnds rest' := by
      refine ⟨(c :: rest).dropWhile isWordChar, List.takeWhile_append_dropWhile.symm, ?_⟩
      intro d hd
      have hnot := List.head?_dropWhile_not isWordChar (c :: rest)
      rwa [hd] at hnot
    have hproper : (Piece.word ((c :: rest).takeWhile isWordChar)).Proper :=
      ⟨by simp [hc], List.all_eq_true.1 List.all_takeWhile⟩
    have hsplit := clean_piece hproper (by simp) rest'
    change clean ((c :: rest).takeWhile isWordChar ++ rest') =
      (c :: rest).takeWhile isWordChar ++ clean rest' at hsplit
    rw [← htext, hclean, heq] at hsplit
    have hrun := congrArg (List.takeWhile isWordChar) hsplit
    rw [takeWhile_of_wordEnds hproper.2 (wordEnds_clean hends')] at hrun
    have hword : (Piece.word (c :: w)).chars = (c :: rest).takeWhile isWordChar := by
      rw [← hrun]
      exact (takeWhile_of_wordEnds hw hends).symm
    rw [hword] at hsplit
    have hrest := List.append_cancel_left hsplit
    refine ⟨.word (c :: w), ps', rest', rfl, ⟨by simp, hw⟩, ?_, hrest ▸ hcs'⟩
    rw [hword]
    exact htext

/-- The first piece of the cleaned text stands in the text, unless a comma is dropped before it. -/
theorem exists_piece_of_clean {c : Char} {rest : List Char} {ps : List Piece} (h : Solid c rest)
    (hkept : ¬ Surplus c rest) (hps : Orderly ps) (hspells : Spells ps (clean (c :: rest))) :
    ∃ p ps' rest', ps = p :: ps' ∧ p.Proper ∧ c :: rest = p.chars ++ rest' ∧
      Spells ps' (clean rest') := by
  obtain ⟨hspace, rfl | hfits⟩ := h
  · exact exists_quoted_of_clean hspells
  · exact exists_code_of_clean hspace hfits hkept hps hspells

/-- After a comma that is dropped, pieces go on with a closing bracket, and with no second comma. -/
def AfterSurplus (ps : List Piece) (cs : List Char) : Prop :=
  ∃ filler rest closer ps', Filler filler ∧ cs = filler ++ ',' :: rest ∧ ps = closer :: ps' ∧
    closer.IsCloser ∧ Loosens ps rest

/-- A text has the pieces of the cleaned text, and maybe a comma before them that is dropped. -/
theorem loosens_of_spells_clean {cs : List Char} {ps : List Piece} (hps : Orderly ps)
    (hclosers : ps.IsChain fun p q => q.IsCloser → p.MayEnd) (h : Spells ps (clean cs)) :
    Loosens ps cs ∨ AfterSurplus ps cs := by
  induction hlength : cs.length using Nat.strong_induction_on generalizing cs ps with
  | _ n ih =>
  subst hlength
  rcases trailer_or_solid cs with htrailer | ⟨filler, c, rest, hfiller, rfl, hsolid⟩
  · obtain rfl : ps = [] := by
      refine (Draft.all_isBlank_iff h).1 (List.all_eq_true.2 fun c hc => ?_)
      exact isBlank_of_isSpace (spaces_clean htrailer c hc)
    exact .inl (.nil htrailer)
  · obtain ⟨gap, hgap, hclean⟩ := exists_spaces_clean hfiller
    rw [hclean] at h
    have hspells := h.strip hgap
    by_cases hsurplus : Surplus c rest
    · rw [clean_surplus hsurplus] at hspells
      obtain ⟨rfl, hcloses⟩ := hsurplus
      obtain ⟨closer, ps', hcons, hcloser⟩ := hspells.exists_closer hcloses
      refine .inr ⟨filler, rest, closer, ps', hfiller, rfl, hcons, hcloser, ?_⟩
      rcases ih rest.length (by simp; omega) hps hclosers hspells rfl with hloose | hcomma
      · exact hloose
      · -- two commas in a row would both have to be next to the bracket
        obtain ⟨filler', rest', -, -, hfiller', rfl, -⟩ := hcomma
        obtain ⟨gap', hgap', hdrop⟩ := exists_spaces_of_filler hfiller'
        rw [hdrop, closes_spaces hgap', dropComments_ordinary ⟨by decide, by decide⟩] at hcloses
        exact absurd hcloses (by simp [closes, Text.trimStart, Text.isBlank])
    · obtain ⟨p, ps', rest', rfl, hp, htext, hrest⟩ :=
        exists_piece_of_clean hsolid hsurplus hps hspells
      obtain ⟨d, ds, hchars, -⟩ := hp.exists_first
      have hshorter : rest'.length < (filler ++ c :: rest).length := by
        rw [htext, hchars]
        simp only [List.length_append, List.length_cons]
        omega
      obtain ⟨hlast, hclosers'⟩ := List.isChain_cons.1 hclosers
      left
      rw [htext]
      rcases ih _ hshorter hps.tail hclosers' hrest rfl with hloose | hcomma
      · exact .cons hfiller hp hloose
      · obtain ⟨between, more, closer, ps, hbetween, rfl, rfl, hcloser, hloose⟩ := hcomma
        exact .comma hfiller hp (hlast closer rfl hcloser) hbetween hcloser hloose

end ButtonDialog.Json.Lenient
