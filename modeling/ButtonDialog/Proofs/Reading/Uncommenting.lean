import ButtonDialog.Proofs.Reading.Edits

/-! A text without its comments.

    Once comments are gone, what is left is again a text with a cut of its own: the stretches that
    are no comment stand there as they stood before, and each comment has become blanks of the code.
    So no comment is left, none has come about where two ends met, and going over the text once more
    changes nothing. -/

namespace ButtonDialog.Json.Lenient

namespace Stretch

/-- A text between quotes. -/
def isQuoted : Stretch → Bool
  | enclosed .quotes .. => true
  | _ => false

/-- A comment. -/
def isComment : Stretch → Bool
  | enclosed .line .. | enclosed .block .. => true
  | _ => false

/-- The stretches that a stretch becomes once comments are gone: a comment becomes blanks of the
code, and everything else stays. -/
def uncommented (s : Stretch) : List Stretch := if s.isComment then s.bare.map code else [s]

/-! ## One stretch -/

/-- A character that begins no comment and no text is code before everything. -/
theorem fits_of_ordinary {c : Char} (h : Ordinary c) (rest : List Char) : (code c).Fits rest := by
  rintro (_ | _ | _) ⟨tail, htail⟩
  · exact h.2 (List.cons.inj htail).1.symm
  · exact h.1 (List.cons.inj htail).1.symm
  · exact h.1 (List.cons.inj htail).1.symm

/-- Only line ends and spaces are left of a comment. -/
theorem spaces_bare {s : Stretch} (h : s.isComment = true) : Spaces s.bare := by
  have hline : ∀ cs : List Char, Spaces (cs.filter (· == '\n')) := by
    intro cs c hc
    rw [beq_iff_eq.1 (List.mem_filter.1 hc).2]
    decide
  rcases s with c | ⟨_ | _ | _, inside, closed⟩
  · simp [isComment] at h
  · simp [isComment] at h
  · exact hline _
  · refine List.forall_mem_append.2 ⟨hline _, ?_⟩
    exact List.forall_mem_singleton.2 (by decide)

/-- What is no comment stays as it is. -/
theorem bare_of_not_isComment {s : Stretch} (h : s.isComment = false) : s.bare = s.chars := by
  rcases s with c | ⟨_ | _ | _, inside, closed⟩
  · rfl
  · rfl
  · simp [isComment] at h
  · simp [isComment] at h

/-- A comment begins with a slash. -/
theorem exists_chars_of_isComment {s : Stretch} (h : s.isComment = true) :
    ∃ cs, s.chars = '/' :: cs := by
  rcases s with c | ⟨_ | _ | _, inside, closed⟩
  · simp [isComment] at h
  · simp [isComment] at h
  · exact ⟨_, rfl⟩
  · exact ⟨_, rfl⟩

theorem isComment_of_mem_uncommented {s t : Stretch} (h : t ∈ s.uncommented) :
    t.isComment = false := by
  by_cases hs : s.isComment = true
  · rw [uncommented, if_pos hs] at h
    obtain ⟨c, -, rfl⟩ := List.mem_map.1 h
    rfl
  · rw [uncommented, if_neg hs] at h
    rw [List.mem_singleton.1 h]
    simpa using hs

theorem filter_isQuoted_uncommented (s : Stretch) :
    s.uncommented.filter isQuoted = [s].filter isQuoted := by
  by_cases hs : s.isComment = true
  · have hcode : ∀ t ∈ s.bare.map code, ¬ t.isQuoted = true := by
      intro t ht
      obtain ⟨c, -, rfl⟩ := List.mem_map.1 ht
      simp [isQuoted]
    have hcomment : ∀ t ∈ [s], ¬ t.isQuoted = true := by
      rcases s with c | ⟨_ | _ | _, inside, closed⟩ <;> simp_all [isQuoted, isComment]
    rw [uncommented, if_pos hs, List.filter_eq_nil_iff.2 hcode, List.filter_eq_nil_iff.2 hcomment]
  · rw [uncommented, if_neg hs]

end Stretch

/-- Two characters tell whether a comment or a text begins. -/
theorem Enclosure.opener_prefix_congr {e : Enclosure} {c d : Char} {cs cs' : List Char}
    (h : e.opener <+: c :: d :: cs) : e.opener <+: c :: d :: cs' := by
  cases e <;> simpa [opener] using h

/-! ## All stretches -/

variable {ss : List Stretch} {cs : List Char}

theorem Cut.chars_eq (h : Cut ss cs) : ss.flatMap Stretch.chars = cs := by
  induction h with
  | nil => rfl
  | cons _ _ ih => rw [List.flatMap_cons, ih]

theorem Cut.ordinaries {gap : List Char} (hgap : ∀ c ∈ gap, Ordinary c) (h : Cut ss cs) :
    Cut (gap.map .code ++ ss) (gap ++ cs) := by
  induction gap with
  | nil => exact h
  | cons c gap ih =>
    obtain ⟨hc, hgap⟩ := List.forall_mem_cons.1 hgap
    exact .cons (Stretch.fits_of_ordinary hc _) (ih hgap)

/-- A slash of the code comes before what it came before with the comments there: right before a
comment, it would have begun one. -/
theorem Cut.fits_code {c : Char} (h : Cut ss cs) (hc : (Stretch.code c).Fits cs) :
    (Stretch.code c).Fits (bareText ss) := by
  by_cases hordinary : Ordinary c
  · exact Stretch.fits_of_ordinary hordinary _
  have hquote : c ≠ '"' := by
    rintro rfl
    exact hc .quotes ⟨cs, rfl⟩
  obtain rfl : c = '/' := by
    by_contra hslash
    exact hordinary ⟨hslash, hquote⟩
  cases h with
  | nil => exact hc
  | @cons s ss rest _ hss =>
    by_cases hs : s.isComment = true
    · obtain ⟨inside, hchars⟩ := Stretch.exists_chars_of_isComment hs
      refine absurd ?_ (hc .line)
      exact ⟨inside ++ rest, by rw [hchars]; rfl⟩
    · -- the slash and what comes after it are the same with comments and without
      obtain ⟨d, ds, hd⟩ := List.exists_cons_of_ne_nil s.chars_ne_nil
      have hbare : s.bare = d :: ds := by
        rw [Stretch.bare_of_not_isComment (by simpa using hs), hd]
      intro e hopener
      rw [bareText, List.flatMap_cons, hbare] at hopener
      rw [hd] at hc
      exact hc e (Enclosure.opener_prefix_congr hopener)

/-- Without its comments a text is cut as before, but for the comments. -/
theorem Cut.uncommented (h : Cut ss cs) : Cut (ss.flatMap Stretch.uncommented) (bareText ss) := by
  induction h with
  | nil => exact .nil
  | @cons s ss rest hs hss ih =>
    rw [List.flatMap_cons, bareText, List.flatMap_cons]
    by_cases hcomment : s.isComment = true
    · rw [Stretch.uncommented, if_pos hcomment]
      exact ih.ordinaries fun c hc => ordinary_of_isSpace (Stretch.spaces_bare hcomment c hc)
    · rw [Stretch.uncommented, if_neg hcomment,
        Stretch.bare_of_not_isComment (by simpa using hcomment)]
      refine .cons ?_ ih
      rcases s with c | ⟨e, inside, _ | _⟩
      · exact hss.fits_code hs
      · -- what is not closed ends the text
        obtain ⟨hopen, rfl⟩ := hs
        refine ⟨hopen, ?_⟩
        change bareText ss = []
        rw [← hss.dropComments_eq, dropComments_code_nil]
      · exact hs

theorem isComment_of_mem_flatMap {t : Stretch} (h : t ∈ ss.flatMap Stretch.uncommented) :
    t.isComment = false := by
  obtain ⟨s, -, ht⟩ := List.mem_flatMap.1 h
  exact Stretch.isComment_of_mem_uncommented ht

theorem filter_isQuoted_flatMap (ss : List Stretch) :
    (ss.flatMap Stretch.uncommented).filter Stretch.isQuoted = ss.filter Stretch.isQuoted := by
  induction ss with
  | nil => rfl
  | cons s ss ih =>
    rw [List.flatMap_cons, List.filter_append, ih, Stretch.filter_isQuoted_uncommented,
      ← List.filter_append, List.singleton_append]

/-- In a cut, what begins a comment is not two characters of the code. -/
theorem Cut.slash_alone {before after : List Stretch} {d : Char}
    (h : Cut (before ++ .code '/' :: .code d :: after) cs) : d ≠ '/' ∧ d ≠ '*' := by
  induction before generalizing cs with
  | nil =>
    cases h with
    | cons hslash hrest =>
      cases hrest with
      | @cons _ _ rest _ _ =>
        constructor
        · rintro rfl
          exact hslash .line ⟨rest, rfl⟩
        · rintro rfl
          exact hslash .block ⟨rest, rfl⟩
  | cons s before ih =>
    cases h with
    | cons _ hrest => exact ih hrest

/-- Nothing but comments is left out, and nothing comes about. -/
theorem Cut.dropComments_uncommented (h : Cut ss cs) :
    dropComments .code (bareText ss) = bareText ss := by
  have hchars : bareText (ss.flatMap Stretch.uncommented) =
      (ss.flatMap Stretch.uncommented).flatMap Stretch.chars := by
    refine List.flatMap_congr fun s hs => ?_
    exact Stretch.bare_of_not_isComment (isComment_of_mem_flatMap hs)
  rw [h.uncommented.dropComments_eq, hchars, h.uncommented.chars_eq]

/-- Every text loses its comments at once and for good. What is left has one cut, which is that of
the text with blanks of the code in place of each comment. There is no comment in it, and no two
characters of its code begin one. Its texts between quotes are those of the text, in order, closed
or not. Taking comments out once more changes nothing. -/
theorem uncomments_for_good (text : String) :
    ∃ ss, Cut ss text.toList ∧ (∀ ss', Cut ss' text.toList → ss' = ss) ∧
      Cut (ss.flatMap Stretch.uncommented) (dropComments .code text.toList) ∧
      (∀ left, Cut left (dropComments .code text.toList) → left = ss.flatMap Stretch.uncommented ∧
        (∀ s ∈ left, s.isComment = false) ∧
        (∀ before after d, left = before ++ .code '/' :: .code d :: after → d ≠ '/' ∧ d ≠ '*') ∧
        left.filter Stretch.isQuoted = ss.filter Stretch.isQuoted) ∧
      dropComments .code (dropComments .code text.toList) = dropComments .code text.toList := by
  obtain ⟨ss, hcut⟩ := exists_cut text.toList
  have hleft := hcut.uncommented
  have hagain := hcut.dropComments_uncommented
  rw [← hcut.dropComments_eq] at hleft hagain
  refine ⟨ss, hcut, fun ss' => hcut.unique, hleft, fun left hcut' => ?_, hagain⟩
  obtain rfl := hleft.unique hcut'
  refine ⟨rfl, fun s hs => isComment_of_mem_flatMap hs, fun before after d hsplit => ?_,
    filter_isQuoted_flatMap ss⟩
  rw [hsplit] at hleft
  exact hleft.slash_alone

end ButtonDialog.Json.Lenient
