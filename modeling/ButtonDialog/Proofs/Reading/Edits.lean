import ButtonDialog.Proofs.Reading.Decorations
import ButtonDialog.Proofs.Reading.Faults
import ButtonDialog.Proofs.Reading.Stretches

/-! What cleaning does to every text.

    Cleaning keeps each character of a text or drops it, and puts in the space of a block comment;
    which of these it does is said by the stretches of the text. No line end is dropped or put in,
    so what is kept stays on its line. -/

namespace ButtonDialog

namespace Json.Lenient

/-- What is done to a text in one place: a character is kept or dropped, or one is put in. -/
inductive Edit where
  | keep (c : Char)
  | drop (c : Char)
  | put (c : Char)
  deriving DecidableEq

namespace Edit

/-- The character that is found, if any. -/
def found? : Edit → Option Char
  | keep c | drop c => some c
  | put _ => none

/-- The character that is left, if any. -/
def left? : Edit → Option Char
  | keep c | put c => some c
  | drop _ => none

end Edit

/-- The text that is edited. -/
def foundBy (es : List Edit) : List Char := es.filterMap Edit.found?

/-- The edited text. -/
def leftBy (es : List Edit) : List Char := es.filterMap Edit.left?

/-- The first character that is not blank is a closing bracket. -/
def ClosesNext (cs : List Char) : Prop :=
  ∃ blanks c rest, cs = blanks ++ c :: rest ∧ (∀ b ∈ blanks, Text.isBlank b = true) ∧
    isCloser c = true

theorem closes_eq_true_iff {cs : List Char} : closes cs = true ↔ ClosesNext cs := by
  constructor
  · intro h
    rw [closes, Text.trimStart] at h
    cases hdrop : cs.dropWhile Text.isBlank with
    | nil => rw [hdrop] at h; cases h
    | cons c rest =>
      rw [hdrop] at h
      refine ⟨cs.takeWhile Text.isBlank, c, rest, ?_, List.all_eq_true.1 List.all_takeWhile, h⟩
      rw [← hdrop, List.takeWhile_append_dropWhile]
  · rintro ⟨blanks, c, rest, rfl, hblanks, hcloser⟩
    have hblank := not_isBlank_of_isMark (isMark_of_isCloser hcloser)
    rw [closes, Text.trimStart, List.dropWhile_append_of_pos hblanks,
      List.dropWhile_cons_of_neg (by simp [hblank])]
    exact hcloser

instance (cs : List Char) : Decidable (ClosesNext cs) := decidable_of_iff _ closes_eq_true_iff

/-- Only line ends are kept. -/
def keepLineEnds (cs : List Char) : List Edit :=
  cs.map fun c => if c = '\n' then .keep c else .drop c

namespace Stretch

/-- What is left of a stretch once comments are gone. -/
def bare : Stretch → List Char
  | code c => [c]
  | s@(enclosed .quotes ..) => s.chars
  | s@(enclosed .line ..) => s.chars.filter (· == '\n')
  | s@(enclosed .block ..) => s.chars.filter (· == '\n') ++ [' ']

/-- What is done to a stretch where `next` comes after it once comments are gone: a comma before a
closing bracket is dropped, so is a comment but for its line ends, and a space is put in for a block
comment. Everything else is kept. -/
def edits : Stretch → List Char → List Edit
  | code c, next => if c = ',' ∧ ClosesNext next then [.drop c] else [.keep c]
  | s@(enclosed .quotes ..), _ => s.chars.map .keep
  | s@(enclosed .line ..), _ => keepLineEnds s.chars
  | s@(enclosed .block ..), _ => keepLineEnds s.chars ++ [.put ' ']

end Stretch

/-- What is left of stretches once comments are gone. -/
def bareText (ss : List Stretch) : List Char := ss.flatMap Stretch.bare

/-- What is done to a text that consists of stretches. -/
def editsOf : List Stretch → List Edit
  | [] => []
  | s :: ss => s.edits (bareText ss) ++ editsOf ss

/-! ## The first pass -/

theorem dropComments_unclosed {cs : List Char} (h : ¬ Enclosure.quotes.Closes cs) :
    dropComments .text cs = cs := by
  obtain ⟨inside, last, hinside, hlast, rfl⟩ := exists_inside_of_not_closes h
  clear h
  induction hinside with
  | nil => rcases hlast with rfl | rfl <;> rfl
  | plain hquote hslash _ ih => simp [dropComments_text_cons, hquote, hslash, ih]
  | escape _ ih => simp [dropComments_text_cons, dropComments_escape_cons, ih]

theorem dropComments_code {c : Char} {rest : List Char} (h : (Stretch.code c).Fits rest) :
    dropComments .code (c :: rest) = c :: dropComments .code rest := by
  have hquote : c ≠ '"' := by
    rintro rfl
    exact h .quotes ⟨rest, rfl⟩
  rw [dropComments.eq_def]
  split
  · simp_all
  · simp_all
  · rename_i heq
    exact absurd ⟨_, heq.symm⟩ (h .line)
  · rename_i heq
    exact absurd ⟨_, heq.symm⟩ (h .block)
  all_goals simp_all

/-- Of a comment the line ends are those inside it and the one that closes it. -/
theorem filter_chars_enclosed {e : Enclosure} (he : e ≠ .quotes) (inside : List Char)
    (closed : Bool) : (Stretch.enclosed e inside closed).chars.filter (· == '\n') =
      inside.filter (· == '\n') ++ if closed ∧ e = .line then ['\n'] else [] := by
  cases e with
  | quotes => exact absurd rfl he
  | line => cases closed <;> simp [Stretch.chars, Enclosure.opener, Enclosure.closer]
  | block => cases closed <;> simp [Stretch.chars, Enclosure.opener, Enclosure.closer]

/-- The first pass leaves what is bare of a stretch. -/
theorem dropComments_stretch {s : Stretch} {rest : List Char} (h : s.Fits rest) :
    dropComments .code (s.chars ++ rest) = s.bare ++ dropComments .code rest := by
  cases s with
  | code c => exact dropComments_code h
  | enclosed e inside closed =>
    cases e with
    | quotes =>
      cases closed with
      | true => exact dropComments_piece (p := .quoted inside) h rest
      | false =>
        obtain ⟨hopen, rfl⟩ := h
        simp [Stretch.bare, Stretch.chars, Enclosure.opener, dropComments_quote,
          dropComments_unclosed hopen, dropComments_code_nil]
    | line =>
      have hclear : '\n' ∉ inside := by
        cases closed with
        | true => exact h
        | false => exact clear_of_not_closes_line h.1
      have hnone : inside.filter (· == '\n') = [] :=
        List.filter_eq_nil_iff.2 fun c hc hend => hclear (beq_iff_eq.1 hend ▸ hc)
      rw [Stretch.bare, filter_chars_enclosed (by decide), hnone]
      cases closed with
      | true =>
        simp [Stretch.chars, Enclosure.opener, Enclosure.closer, dropComments_slash_slash,
          dropComments_line hclear]
      | false =>
        obtain ⟨-, rfl⟩ := h
        simp [Stretch.chars, Enclosure.opener, dropComments_slash_slash,
          dropComments_lastLine hclear, dropComments_code_nil]
    | block =>
      rw [Stretch.bare, filter_chars_enclosed (by decide)]
      cases closed with
      | true =>
        have hclear : ¬ ['*', '/'] <:+: inside := h
        simp [Stretch.chars, Enclosure.opener, Enclosure.closer, dropComments_slash_star,
          dropComments_block hclear]
      | false =>
        obtain ⟨hopen, rfl⟩ := h
        have hclear := clear_of_not_closes_block hopen
        simp [Stretch.chars, Enclosure.opener, dropComments_slash_star,
          dropComments_lastBlock hclear, dropComments_code_nil]

theorem Cut.dropComments_eq {ss : List Stretch} {cs : List Char} (h : Cut ss cs) :
    dropComments .code cs = bareText ss := by
  induction h with
  | nil => rfl
  | cons hs _ ih => rw [dropComments_stretch hs, ih, bareText, bareText, List.flatMap_cons]

/-! ## The second pass -/

theorem foundBy_append (es es' : List Edit) : foundBy (es ++ es') = foundBy es ++ foundBy es' :=
  List.filterMap_append

theorem leftBy_append (es es' : List Edit) : leftBy (es ++ es') = leftBy es ++ leftBy es' :=
  List.filterMap_append

theorem foundBy_map_keep (cs : List Char) : foundBy (cs.map .keep) = cs := by
  simp [foundBy, List.filterMap_map, Function.comp_def, Edit.found?]

theorem leftBy_map_keep (cs : List Char) : leftBy (cs.map .keep) = cs := by
  simp [leftBy, List.filterMap_map, Function.comp_def, Edit.left?]

theorem foundBy_keepLineEnds (cs : List Char) : foundBy (keepLineEnds cs) = cs := by
  induction cs with
  | nil => rfl
  | cons c cs ih =>
    by_cases hc : c = '\n' <;> simp_all [foundBy, keepLineEnds, Edit.found?]

theorem leftBy_keepLineEnds (cs : List Char) :
    leftBy (keepLineEnds cs) = cs.filter (· == '\n') := by
  induction cs with
  | nil => rfl
  | cons c cs ih =>
    by_cases hc : c = '\n' <;> simp_all [leftBy, keepLineEnds, List.filterMap_cons, Edit.left?]

/-- The edits of a stretch are made in the stretch. -/
theorem foundBy_edits (s : Stretch) (next : List Char) : foundBy (s.edits next) = s.chars := by
  cases s with
  | code c =>
    rw [Stretch.edits]
    split <;> rfl
  | enclosed e inside closed =>
    cases e with
    | quotes => exact foundBy_map_keep _
    | line => exact foundBy_keepLineEnds _
    | block =>
      rw [Stretch.edits, foundBy_append, foundBy_keepLineEnds]
      exact List.append_nil _

theorem dropCommas_unclosed {cs : List Char} (h : ¬ Enclosure.quotes.Closes cs) :
    dropCommas .text cs = cs := by
  obtain ⟨inside, last, hinside, hlast, rfl⟩ := exists_inside_of_not_closes h
  clear h
  induction hinside with
  | nil => rcases hlast with rfl | rfl <;> rfl
  | plain hquote hslash _ ih => simp [dropCommas, hquote, hslash, ih]
  | escape _ ih => simp [dropCommas, ih]

theorem dropCommas_lineEnds (cs rest : List Char) :
    dropCommas .code (cs.filter (· == '\n') ++ rest) =
      cs.filter (· == '\n') ++ dropCommas .code rest := by
  refine dropCommas_spaces (fun c hc => ?_) rest
  rw [beq_iff_eq.1 (List.mem_filter.1 hc).2]
  rfl

/-- The second pass makes of what is bare of a stretch what its edits leave. -/
theorem dropCommas_bare {s : Stretch} {rest next : List Char} (h : s.Fits rest)
    (hnext : rest = [] → next = []) :
    dropCommas .code (s.bare ++ next) = leftBy (s.edits next) ++ dropCommas .code next := by
  cases s with
  | code c =>
    have hquote : c ≠ '"' := by
      rintro rfl
      exact h .quotes ⟨rest, rfl⟩
    rw [Stretch.edits]
    split
    · rename_i hdropped
      obtain ⟨rfl, hcloses⟩ := hdropped
      exact dropCommas_dropped (closes_eq_true_iff.2 hcloses)
    · rename_i hkept
      refine dropCommas_kept hquote fun hcomma => ?_
      rw [Bool.eq_false_iff]
      exact fun hcloses => hkept ⟨hcomma, closes_eq_true_iff.1 hcloses⟩
  | enclosed e inside closed =>
    cases e with
    | quotes =>
      rw [Stretch.edits, leftBy_map_keep]
      cases closed with
      | true => exact dropCommas_piece (p := .quoted inside) h (by simp)
      | false =>
        obtain ⟨hopen, hrest⟩ := h
        obtain rfl := hnext hrest
        simp [Stretch.bare, Stretch.chars, Enclosure.opener, dropCommas, dropCommas_unclosed hopen]
    | line =>
      rw [Stretch.edits, leftBy_keepLineEnds]
      exact dropCommas_lineEnds _ next
    | block =>
      have hspace : dropCommas .code (' ' :: next) = ' ' :: dropCommas .code next :=
        dropCommas_kept (by decide) (by simp)
      rw [Stretch.edits, leftBy_append, leftBy_keepLineEnds, Stretch.bare, List.append_assoc,
        dropCommas_lineEnds, List.append_assoc]
      exact congrArg _ hspace

theorem Cut.foundBy_eq {ss : List Stretch} {cs : List Char} (h : Cut ss cs) :
    foundBy (editsOf ss) = cs := by
  induction h with
  | nil => rfl
  | cons _ _ ih => rw [editsOf, foundBy_append, foundBy_edits, ih]

theorem Cut.leftBy_eq {ss : List Stretch} {cs : List Char} (h : Cut ss cs) :
    leftBy (editsOf ss) = clean cs := by
  rw [clean, h.dropComments_eq]
  induction h with
  | nil => rfl
  | @cons s ss rest hs hss ih =>
    have hnext : rest = [] → bareText ss = [] := by
      rintro rfl
      rw [← hss.dropComments_eq, dropComments_code_nil]
    rw [editsOf, leftBy_append, ih, ← dropCommas_bare hs hnext, bareText, bareText,
      List.flatMap_cons]

/-! ## Lines -/

/-- An edit neither drops a line end nor puts one in. -/
def Edit.KeepsLineEnds : Edit → Prop
  | keep _ => True
  | drop c | put c => c ≠ '\n'

theorem keepsLineEnds_keepLineEnds (cs : List Char) :
    ∀ edit ∈ keepLineEnds cs, edit.KeepsLineEnds := by
  intro edit hedit
  obtain ⟨c, -, rfl⟩ := List.mem_map.1 hedit
  split
  · trivial
  · assumption

theorem keepsLineEnds_edits (s : Stretch) (next : List Char) :
    ∀ edit ∈ s.edits next, edit.KeepsLineEnds := by
  cases s with
  | code c =>
    rw [Stretch.edits]
    split
    · rename_i hdropped
      refine List.forall_mem_singleton.2 ?_
      rw [hdropped.1]
      exact (by decide : ',' ≠ '\n')
    · exact List.forall_mem_singleton.2 trivial
  | enclosed e inside closed =>
    cases e with
    | quotes =>
      intro edit hedit
      obtain ⟨c, -, rfl⟩ := List.mem_map.1 hedit
      trivial
    | line => exact keepsLineEnds_keepLineEnds _
    | block =>
      refine List.forall_mem_append.2 ⟨keepsLineEnds_keepLineEnds _, ?_⟩
      exact List.forall_mem_singleton.2 (by decide : ' ' ≠ '\n')

theorem keepsLineEnds_editsOf (ss : List Stretch) :
    ∀ edit ∈ editsOf ss, edit.KeepsLineEnds := by
  induction ss with
  | nil => exact List.forall_mem_nil _
  | cons s ss ih => exact List.forall_mem_append.2 ⟨keepsLineEnds_edits s _, ih⟩

/-- Edits that keep the line ends leave as many as they find. -/
theorem count_leftBy {es : List Edit} (h : ∀ edit ∈ es, edit.KeepsLineEnds) :
    (leftBy es).count '\n' = (foundBy es).count '\n' := by
  induction es with
  | nil => rfl
  | cons edit es ih =>
    obtain ⟨hedit, hes⟩ := List.forall_mem_cons.1 h
    have hrest := ih hes
    cases edit with
    | keep c =>
      change (c :: leftBy es).count '\n' = (c :: foundBy es).count '\n'
      rw [List.count_cons, List.count_cons, hrest]
    | drop c =>
      change (leftBy es).count '\n' = (c :: foundBy es).count '\n'
      rw [List.count_cons_of_ne hedit, hrest]
    | put c =>
      change (c :: leftBy es).count '\n' = (foundBy es).count '\n'
      rw [List.count_cons_of_ne hedit, hrest]

end Json.Lenient

namespace Draft

open Json Json.Lenient

theorem readChars_of_notJson {cs : List Char} {e : ReadError}
    (h : readClean cs = .error (.notJson e)) : readChars cs = .error e := by
  rw [readClean] at h
  split at h
  · cases h
  · split at h
    · rename_i hread
      obtain rfl := Error.notJson.inj (Except.error.inj h)
      exact hread
    · cases h
    · rename_i v _ _
      cases hshape : ofJson v <;> rw [hshape] at h <;> cases h

/-- Every text has one cut, which says what each pass makes of the text. The edits are made in the
text and leave the cleaned text; up to any place there are as many line ends in what they find as in
what they leave, so whatever is kept stays on its line. A text that is not JSON once it is cleaned
is reported with the line on which its fault stands in the text itself. -/
theorem cleans_every_text (text : String) :
    ∃ ss, Cut ss text.toList ∧ (∀ ss', Cut ss' text.toList → ss' = ss) ∧
      dropComments .code text.toList = bareText ss ∧
      foundBy (editsOf ss) = text.toList ∧ leftBy (editsOf ss) = clean text.toList ∧
      (clean text.toList).count '\n' = text.toList.count '\n' ∧
      (∀ before after, editsOf ss = before ++ after →
        (leftBy before).count '\n' = (foundBy before).count '\n') ∧
      ∀ e, read text = .error (.notJson e) → ∃ before after fault,
        editsOf ss = before ++ after ∧
        Reading.start.run (lexemes (clean text.toList)) = .error fault ∧
        fault.rest = leftBy after ∧ e.line = 1 + (foundBy before).count '\n' ∧
        e.line ≤ 1 + text.toList.count '\n' := by
  obtain ⟨ss, hcut⟩ := exists_cut text.toList
  have hlines : ∀ before after, editsOf ss = before ++ after →
      (leftBy before).count '\n' = (foundBy before).count '\n' := by
    intro before after hsplit
    refine count_leftBy fun edit hedit => keepsLineEnds_editsOf ss edit ?_
    exact hsplit ▸ List.mem_append_left after hedit
  refine ⟨ss, hcut, fun ss' => hcut.unique, hcut.dropComments_eq, hcut.foundBy_eq, hcut.leftBy_eq,
    ?_, hlines, fun e hread => ?_⟩
  · rw [← hcut.leftBy_eq, count_leftBy (keepsLineEnds_editsOf ss), hcut.foundBy_eq]
  · obtain ⟨shown, fault, hrun, hsplit, rfl⟩ :=
      exists_fault_of_readChars (readChars_of_notJson hread)
    rw [← hcut.leftBy_eq, leftBy] at hsplit
    obtain ⟨before, after, hedits, hshown, hrest⟩ := List.filterMap_eq_append_iff.1 hsplit
    have hline : shown.count '\n' = (foundBy before).count '\n' := by
      rw [← hlines before after hedits, leftBy, hshown]
    refine ⟨before, after, fault, hedits, hrun, hrest.symm, by rw [hline], ?_⟩
    rw [hline, ← hcut.foundBy_eq, hedits, foundBy_append, List.count_append]
    exact Nat.add_le_add_left (Nat.le_add_right ..) 1

/-- A text that breaks off between quotes, after a comment that only seems to be closed at once. -/
def raggedText : String := "[\"//,]\", /*\n/*/ ], //\"\n\"a,\x7d/*\\"

/-- Of its two commas in code the first is dropped, and the other is out of place, on the second
line of the text. -/
theorem cleans_raggedText :
    read raggedText = .error (.notJson ⟨.misplaced, 2⟩) ∧
    ∃ ss before after, Cut ss raggedText.toList ∧ editsOf ss = before ++ after ∧
      leftBy (editsOf ss) = "[\"//,]\" \n  ], \n\"a,\x7d/*\\".toList ∧
      (foundBy before).count '\n' = 1 := by
  have hread : read raggedText = .error (.notJson ⟨.misplaced, 2⟩) := by decide +kernel
  obtain ⟨ss, hcut, -, -, -, hleft, -, -, hfault⟩ := cleans_every_text raggedText
  obtain ⟨before, after, fault, hedits, -, -, hline, -⟩ := hfault _ hread
  refine ⟨hread, ss, before, after, hcut, hedits, hleft.trans (by decide +kernel), ?_⟩
  exact (Nat.add_left_cancel hline).symm

end Draft

end ButtonDialog
