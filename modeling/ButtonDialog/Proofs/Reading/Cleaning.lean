import ButtonDialog.Proofs.Reading.Pieces

/-! What cleaning makes of a lenient text.

    Each of the two passes goes over a piece and leaves it as it is. The first pass turns what is
    between two pieces into blanks; the second drops a comma when the first character after the
    blanks behind it closes an array or object. So cleaning leaves the pieces, with blanks between
    them. -/

namespace ButtonDialog.Json.Lenient

/-! ## Characters -/

theorem isBlank_of_isSpace {c : Char} (h : isSpace c = true) : Text.isBlank c = true := by
  simp only [isSpace, Bool.or_eq_true, beq_iff_eq] at h
  rcases h with ((rfl | rfl) | rfl) | rfl <;> decide

/-- A character that begins no comment and no text. -/
def Ordinary (c : Char) : Prop := c ≠ '/' ∧ c ≠ '"'

theorem ordinary_of_isSpace {c : Char} (h : isSpace c = true) : Ordinary c := by
  constructor <;> rintro rfl <;> exact absurd h (by decide)

theorem ordinary_of_isMark {c : Char} (h : isMark c = true) : Ordinary c := by
  constructor <;> rintro rfl <;> exact absurd h (by decide)

theorem ordinary_of_isWordChar {c : Char} (h : isWordChar c = true) : Ordinary c := by
  constructor <;> rintro rfl <;> exact absurd h (by decide)

theorem isMark_of_isCloser {c : Char} (h : isCloser c = true) : isMark c = true := by
  simp only [isCloser, Bool.or_eq_true, beq_iff_eq] at h
  rcases h with rfl | rfl <;> decide

theorem not_isBlank_of_isMark {c : Char} (h : isMark c = true) : Text.isBlank c = false := by
  simp only [isMark, Bool.or_eq_true, beq_iff_eq] at h
  rcases h with ((((rfl | rfl) | rfl) | rfl) | rfl) | rfl <;> decide

theorem not_isBlank_of_isWordChar {c : Char} (h : isWordChar c = true) :
    Text.isBlank c = false := by
  simp only [isWordChar, Bool.and_eq_true, Bool.not_eq_true'] at h
  exact h.1.1.1

theorem not_isMark_of_isWordChar {c : Char} (h : isWordChar c = true) : isMark c = false := by
  simp only [isWordChar, Bool.and_eq_true, Bool.not_eq_true'] at h
  exact h.1.1.2

/-- A piece has a first character. It is not blank, and it closes an array or object only in a
closing bracket. -/
theorem Piece.Proper.exists_first {p : Piece} (h : p.Proper) :
    ∃ c cs, p.chars = c :: cs ∧ Text.isBlank c = false ∧ (isCloser c = true ↔ p.IsCloser) := by
  cases p with
  | mark c => exact ⟨c, [], rfl, not_isBlank_of_isMark h, Iff.rfl⟩
  | quoted inside =>
    exact ⟨'"', inside ++ ['"'], rfl, by decide, ⟨fun hc => absurd hc (by decide), False.elim⟩⟩
  | word cs =>
    obtain ⟨hne, hcs⟩ := h
    obtain ⟨c, cs, rfl⟩ := List.exists_cons_of_ne_nil hne
    have hc := hcs c List.mem_cons_self
    refine ⟨c, cs, rfl, not_isBlank_of_isWordChar hc, ⟨fun h => ?_, False.elim⟩⟩
    exact absurd (isMark_of_isCloser h) (by rw [not_isMark_of_isWordChar hc]; decide)

/-! ## The first pass -/

section Equations

variable (c : Char) (cs : List Char)

theorem dropComments_code_nil : dropComments .code [] = [] := rfl

theorem dropComments_line_nil : dropComments .line [] = [] := rfl

theorem dropComments_slash_slash :
    dropComments .code ('/' :: '/' :: cs) = dropComments .line cs := rfl

theorem dropComments_slash_star :
    dropComments .code ('/' :: '*' :: cs) = dropComments (.block false) cs := rfl

theorem dropComments_quote : dropComments .code ('"' :: cs) = '"' :: dropComments .text cs := rfl

theorem dropComments_text_cons :
    dropComments .text (c :: cs) =
      c :: dropComments (if c = '\\' then .escape else if c = '"' then .code else .text) cs := rfl

theorem dropComments_escape_cons :
    dropComments .escape (c :: cs) = c :: dropComments .text cs := rfl

theorem dropComments_line_cons :
    dropComments .line (c :: cs) =
      if c = '\n' then c :: dropComments .code cs else dropComments .line cs := rfl

theorem dropComments_block_cons (star : Bool) :
    dropComments (.block star) (c :: cs) =
      if star = true ∧ c = '/' then ' ' :: dropComments .code cs
      else if c = '\n' then c :: dropComments (.block false) cs
      else dropComments (.block (c == '*')) cs := rfl

end Equations

theorem dropComments_ordinary {c : Char} (h : Ordinary c) (rest : List Char) :
    dropComments .code (c :: rest) = c :: dropComments .code rest := by
  rw [dropComments.eq_def]
  split <;> simp_all [Ordinary]

/-- Comments begin and end between pieces, not within one. -/
theorem dropComments_inside {inside : List Char} (h : Inside inside) (rest : List Char) :
    dropComments .text (inside ++ '"' :: rest) = inside ++ '"' :: dropComments .code rest := by
  induction h with
  | nil => simp [dropComments_text_cons]
  | plain hquote hslash _ ih => simp [dropComments_text_cons, hquote, hslash, ih]
  | escape _ ih => simp [dropComments_text_cons, dropComments_escape_cons, ih]

theorem dropComments_ordinaries {cs : List Char} (h : ∀ c ∈ cs, Ordinary c) (rest : List Char) :
    dropComments .code (cs ++ rest) = cs ++ dropComments .code rest := by
  induction cs with
  | nil => rfl
  | cons c cs ih =>
    obtain ⟨hc, hcs⟩ := List.forall_mem_cons.1 h
    rw [List.cons_append, dropComments_ordinary hc, ih hcs, List.cons_append]

theorem dropComments_piece {p : Piece} (h : p.Proper) (rest : List Char) :
    dropComments .code (p.chars ++ rest) = p.chars ++ dropComments .code rest := by
  cases p with
  | mark c => exact dropComments_ordinary (ordinary_of_isMark h) rest
  | quoted inside =>
    simpa [Piece.chars, dropComments_quote] using dropComments_inside h rest
  | word cs => exact dropComments_ordinaries (fun c hc => ordinary_of_isWordChar (h.2 c hc)) rest

theorem dropComments_line {comment : List Char} (h : '\n' ∉ comment) (rest : List Char) :
    dropComments .line (comment ++ '\n' :: rest) = '\n' :: dropComments .code rest := by
  induction comment with
  | nil => simp [dropComments_line_cons]
  | cons c comment ih =>
    obtain ⟨hc, hcomment⟩ := not_or.1 (List.mem_cons.not.1 h)
    simp [dropComments_line_cons, Ne.symm hc, ih hcomment]

theorem dropComments_lastLine {comment : List Char} (h : '\n' ∉ comment) :
    dropComments .line comment = [] := by
  induction comment with
  | nil => exact dropComments_line_nil
  | cons c comment ih =>
    obtain ⟨hc, hcomment⟩ := not_or.1 (List.mem_cons.not.1 h)
    simp [dropComments_line_cons, Ne.symm hc, ih hcomment]

/-- In a block comment the line ends are left, up to what may close it. If a star came right before
`comment`, no slash begins it. -/
theorem exists_dropComments_block {comment : List Char} (star : Bool)
    (h : ¬ ['*', '/'] <:+: comment) (hstar : star = true → comment.head? ≠ some '/')
    (tail : List Char) :
    ∃ star', dropComments (.block star) (comment ++ tail) =
      comment.filter (· == '\n') ++ dropComments (.block star') tail := by
  induction comment generalizing star with
  | nil => exact ⟨star, rfl⟩
  | cons c comment ih =>
    have hrest : ¬ ['*', '/'] <:+: comment := fun h' => h (List.infix_cons h')
    have hnext : (c == '*') = true → comment.head? ≠ some '/' := by
      intro hc hhead
      obtain ⟨tail, rfl⟩ := List.head?_eq_some_iff.1 hhead
      rw [beq_iff_eq.1 hc] at h
      exact h ⟨[], tail, rfl⟩
    have hends : ¬ (star = true ∧ c = '/') := fun ⟨hs, hc⟩ => hstar hs (by rw [hc]; rfl)
    rw [List.cons_append, dropComments_block_cons, if_neg hends]
    by_cases hc : c = '\n'
    · obtain ⟨star', hdrop⟩ := ih false hrest (by simp)
      refine ⟨star', ?_⟩
      rw [if_pos hc, hdrop, List.filter_cons_of_pos (by simpa using hc), List.cons_append]
    · obtain ⟨star', hdrop⟩ := ih (c == '*') hrest hnext
      refine ⟨star', ?_⟩
      rw [if_neg hc, hdrop, List.filter_cons_of_neg (by simpa using hc)]

/-- A block comment leaves its line ends and a space. -/
theorem dropComments_block {comment : List Char} (h : ¬ ['*', '/'] <:+: comment)
    (rest : List Char) :
    dropComments (.block false) (comment ++ '*' :: '/' :: rest) =
      comment.filter (· == '\n') ++ ' ' :: dropComments .code rest := by
  obtain ⟨star, hdrop⟩ := exists_dropComments_block false h (by simp) ('*' :: '/' :: rest)
  rw [hdrop]
  simp [dropComments_block_cons]

/-- So does a block comment that the text ends in. -/
theorem dropComments_lastBlock {comment : List Char} (h : ¬ ['*', '/'] <:+: comment) :
    dropComments (.block false) comment = comment.filter (· == '\n') ++ [' '] := by
  obtain ⟨star, hdrop⟩ := exists_dropComments_block false h (by simp) []
  rwa [List.append_nil] at hdrop

/-- What is between two pieces becomes blanks. -/
theorem exists_spaces_of_filler {filler : List Char} (h : Filler filler) :
    ∃ gap, Spaces gap ∧
      ∀ rest, dropComments .code (filler ++ rest) = gap ++ dropComments .code rest := by
  induction h with
  | nil => exact ⟨[], by simp [Spaces], fun _ => rfl⟩
  | @blank c cs hc _ ih =>
    obtain ⟨gap, hgap, hdrop⟩ := ih
    refine ⟨c :: gap, List.forall_mem_cons.2 ⟨hc, hgap⟩, fun rest => ?_⟩
    rw [List.cons_append, dropComments_ordinary (ordinary_of_isSpace hc), hdrop, List.cons_append]
  | @line comment cs hcomment _ ih =>
    obtain ⟨gap, hgap, hdrop⟩ := ih
    refine ⟨'\n' :: gap, List.forall_mem_cons.2 ⟨by decide, hgap⟩, fun rest => ?_⟩
    simp [dropComments_slash_slash, dropComments_line hcomment, hdrop]
  | @block comment cs hcomment _ ih =>
    obtain ⟨gap, hgap, hdrop⟩ := ih
    refine ⟨comment.filter (· == '\n') ++ ' ' :: gap, ?_, fun rest => ?_⟩
    · intro c hc
      rcases List.mem_append.1 hc with hc | hc
      · rw [beq_iff_eq.1 (List.mem_filter.1 hc).2]
        decide
      · exact List.forall_mem_cons.2 ⟨by decide, hgap⟩ c hc
    · simp [dropComments_slash_star, dropComments_block hcomment, hdrop]

theorem spaces_of_lastFiller {filler : List Char} (h : LastFiller filler) :
    Spaces (dropComments .code filler) := by
  cases h with
  | ended h =>
    obtain ⟨gap, hgap, hdrop⟩ := exists_spaces_of_filler h
    have hall := hdrop []
    rw [List.append_nil] at hall
    rw [hall]
    simpa [dropComments_code_nil] using hgap
  | @line cs comment h hcomment =>
    obtain ⟨gap, hgap, hdrop⟩ := exists_spaces_of_filler h
    rw [hdrop]
    simpa [dropComments_slash_slash, dropComments_lastLine hcomment] using hgap

theorem spaces_of_trailer {trailer : List Char} (h : Trailer trailer) :
    Spaces (dropComments .code trailer) := by
  cases h with
  | last h => exact spaces_of_lastFiller h
  | @block cs comment h hcomment =>
    obtain ⟨gap, hgap, hdrop⟩ := exists_spaces_of_filler h
    rw [hdrop, dropComments_slash_star, dropComments_lastBlock hcomment]
    intro c hc
    simp only [List.mem_append, List.mem_filter, List.mem_singleton, beq_iff_eq] at hc
    rcases hc with hc | ⟨-, rfl⟩ | rfl
    · exact hgap c hc
    · decide
    · decide

/-! ## The second pass -/

theorem closes_spaces {gap : List Char} (h : Spaces gap) (rest : List Char) :
    closes (gap ++ rest) = closes rest := by
  have hskip : Text.trimStart (gap ++ rest) = Text.trimStart rest := by
    induction gap with
    | nil => rfl
    | cons c gap ih =>
      obtain ⟨hc, hgap⟩ := List.forall_mem_cons.1 h
      exact (List.dropWhile_cons_of_pos (isBlank_of_isSpace hc)).trans (ih hgap)
  rw [closes, closes, hskip]

theorem closes_piece {p : Piece} (h : p.Proper) (rest : List Char) :
    closes (p.chars ++ rest) = true ↔ p.IsCloser := by
  obtain ⟨c, cs, hchars, hblank, hcloser⟩ := h.exists_first
  rw [hchars, closes, Text.trimStart, List.cons_append,
    List.dropWhile_cons_of_neg (by simp [hblank]), ← hcloser, isCloser]

theorem dropCommas_kept {c : Char} (hquote : c ≠ '"') {rest : List Char}
    (h : c = ',' → closes rest = false) :
    dropCommas .code (c :: rest) = c :: dropCommas .code rest := by
  have hkept : ¬ (c = ',' ∧ closes rest = true) := fun ⟨hc, hcloses⟩ => by simp [h hc] at hcloses
  rw [dropCommas, if_neg hkept, if_neg hquote] <;> simp

theorem dropCommas_dropped {rest : List Char} (h : closes rest = true) :
    dropCommas .code (',' :: rest) = dropCommas .code rest := by
  rw [dropCommas, if_pos ⟨rfl, h⟩] <;> simp

theorem dropCommas_inside {inside : List Char} (h : Inside inside) (rest : List Char) :
    dropCommas .text (inside ++ '"' :: rest) = inside ++ '"' :: dropCommas .code rest := by
  induction h with
  | nil => simp [dropCommas]
  | plain hquote hslash _ ih => simp [dropCommas, hquote, hslash, ih]
  | escape _ ih => simp [dropCommas, ih]

theorem dropCommas_plain {cs : List Char} (h : ∀ c ∈ cs, c ≠ '"' ∧ c ≠ ',') (rest : List Char) :
    dropCommas .code (cs ++ rest) = cs ++ dropCommas .code rest := by
  induction cs with
  | nil => rfl
  | cons c cs ih =>
    obtain ⟨⟨hquote, hcomma⟩, hcs⟩ := List.forall_mem_cons.1 h
    rw [List.cons_append, dropCommas_kept hquote (fun hc => absurd hc hcomma), ih hcs,
      List.cons_append]

theorem dropCommas_spaces {gap : List Char} (h : Spaces gap) (rest : List Char) :
    dropCommas .code (gap ++ rest) = gap ++ dropCommas .code rest := by
  refine dropCommas_plain (fun c hc => ⟨(ordinary_of_isSpace (h c hc)).2, ?_⟩) rest
  rintro rfl
  exact absurd (h _ hc) (by decide)

/-- A piece is left as it is, a comma if no closing bracket comes next. -/
theorem dropCommas_piece {p : Piece} (h : p.Proper) {rest : List Char}
    (hcomma : p = .mark ',' → closes rest = false) :
    dropCommas .code (p.chars ++ rest) = p.chars ++ dropCommas .code rest := by
  cases p with
  | mark c =>
    exact dropCommas_kept (ordinary_of_isMark h).2 (fun hc => hcomma (by rw [hc]))
  | quoted inside =>
    simpa [Piece.chars, dropCommas] using dropCommas_inside h rest
  | word cs =>
    refine dropCommas_plain (fun c hc => ⟨(ordinary_of_isWordChar (h.2 c hc)).2, ?_⟩) rest
    rintro rfl
    exact absurd (h.2 _ hc) (by decide)

/-! ## Both passes -/

/-- A loose text without its comments closes an array or object first if its first piece does. -/
theorem Loosens.closes_iff {ps : List Piece} {cs : List Char} (h : Loosens ps cs) :
    closes (dropComments .code cs) = true ↔ ∃ p ∈ ps.head?, p.IsCloser := by
  cases h with
  | nil h =>
    have hnone := closes_spaces (spaces_of_trailer h) []
    rw [List.append_nil] at hnone
    rw [hnone]
    simp [closes, Text.trimStart]
  | cons hfiller hp _ =>
    obtain ⟨gap, hgap, hdrop⟩ := exists_spaces_of_filler hfiller
    simp [hdrop, closes_spaces hgap, dropComments_piece hp, closes_piece hp]
  | comma hfiller hp _ _ _ _ =>
    obtain ⟨gap, hgap, hdrop⟩ := exists_spaces_of_filler hfiller
    simp [hdrop, closes_spaces hgap, dropComments_piece hp, closes_piece hp]

/-- A piece that pieces may follow is no comma before a closing bracket. -/
theorem Orderly.closes_eq_false {p : Piece} {ps : List Piece} {cs : List Char}
    (hps : Orderly (p :: ps)) (h : Loosens ps cs) (hp : p = .mark ',') :
    closes (dropComments .code cs) = false := by
  rw [Bool.eq_false_iff, Ne, h.closes_iff]
  rintro ⟨q, hq, hcloser⟩
  subst hp
  exact (List.isChain_cons.1 hps).1 q hq rfl hcloser

theorem Orderly.tail {p : Piece} {ps : List Piece} (h : Orderly (p :: ps)) : Orderly ps :=
  (List.isChain_cons.1 h).2

theorem Spells.prepend {gap cs : List Char} {ps : List Piece} (hgap : Spaces gap)
    (h : Spells ps cs) : Spells ps (gap ++ cs) := by
  cases h with
  | nil h => exact .nil (List.forall_mem_append.2 ⟨hgap, h⟩)
  | cons h hp hps =>
    rw [← List.append_assoc]
    exact .cons (List.forall_mem_append.2 ⟨hgap, h⟩) hp hps

/-- Cleaning leaves the pieces of a loose text. -/
theorem Loosens.spells_clean {ps : List Piece} {cs : List Char} (hps : Orderly ps)
    (h : Loosens ps cs) : Spells ps (clean cs) := by
  induction h with
  | nil h =>
    have hgap := spaces_of_trailer h
    have := dropCommas_spaces hgap []
    rw [List.append_nil] at this
    rw [clean, this]
    simpa [dropCommas] using Spells.nil hgap
  | @cons filler cs p ps hfiller hp hcs ih =>
    obtain ⟨gap, hgap, hdrop⟩ := exists_spaces_of_filler hfiller
    rw [clean, hdrop, dropComments_piece hp, dropCommas_spaces hgap,
      dropCommas_piece hp (hps.closes_eq_false hcs)]
    exact .cons hgap hp (ih hps.tail)
  | @comma filler between cs p closer ps hfiller hp hends hbetween hcloser hcs ih =>
    obtain ⟨gap, hgap, hdrop⟩ := exists_spaces_of_filler hfiller
    obtain ⟨gap', hgap', hdrop'⟩ := exists_spaces_of_filler hbetween
    have hcomma : p ≠ .mark ',' := by
      rintro rfl
      exact absurd hends (by simp [Piece.MayEnd, isCloser, isOpener])
    have hcloses := hcs.closes_iff.2 ⟨closer, rfl, hcloser⟩
    rw [clean, hdrop, dropComments_piece hp, hdrop',
      dropComments_ordinary ⟨by decide, by decide⟩, dropCommas_spaces hgap,
      dropCommas_piece hp (fun h => absurd h hcomma), dropCommas_spaces hgap',
      dropCommas_dropped hcloses]
    exact .cons hgap hp ((ih hps.tail).prepend hgap')

/-- So it does with a lenient text. -/
theorem Decorates.spells_clean {ps : List Piece} {cs : List Char} (hps : Orderly ps)
    (h : Decorates ps cs) : Spells ps (clean cs) := h.loosens.spells_clean hps

/-- There are no comments in a strict text. -/
theorem Spells.dropComments_eq {ps : List Piece} {cs : List Char} (h : Spells ps cs) :
    dropComments .code cs = cs := by
  induction h with
  | nil hgap =>
    have hall := dropComments_ordinaries (fun c hc => ordinary_of_isSpace (hgap c hc)) []
    simpa [dropComments_code_nil] using hall
  | cons hgap hp _ ih =>
    rw [dropComments_ordinaries (fun c hc => ordinary_of_isSpace (hgap c hc)),
      dropComments_piece hp, ih]

/-- Cleaning changes nothing in a strict text. -/
theorem Spells.clean_eq {ps : List Piece} {cs : List Char} (hps : Orderly ps) (h : Spells ps cs) :
    clean cs = cs := by
  rw [clean, h.dropComments_eq]
  induction h with
  | nil hgap =>
    have hall := dropCommas_spaces hgap []
    simpa [dropCommas] using hall
  | cons hgap hp hcs ih =>
    have hnext := fun hcomma => hps.closes_eq_false hcs.decorates.loosens hcomma
    rw [hcs.dropComments_eq] at hnext
    rw [dropCommas_spaces hgap, dropCommas_piece hp hnext, ih hps.tail]

end ButtonDialog.Json.Lenient
