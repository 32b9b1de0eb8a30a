import ButtonDialog.Key
import ButtonDialog.Proofs.Reading.Decorations
import ButtonDialog.Service.Serve

/-! The lines of a text and the lines of its bytes.

    The byte of a line end is no part of any other character, so the bytes of a text are cut where
    the text is cut, and the lines of a text in UTF-8 are texts in UTF-8. What a line says does not
    depend on a carriage return at its end, and a blank line is never an update. -/

namespace ButtonDialog

/-! ## Texts in UTF-8 -/

theorem Key.bytes_eq_flatMap (text : String) :
    Key.bytes text = text.toList.flatMap String.utf8EncodeChar := by
  have htext : text.toByteArray = text.toList.utf8Encode := String.utf8Encode_toList.symm
  rw [Key.bytes, String.toUTF8_eq_toByteArray, htext, List.utf8Encode, List.toList_data_toByteArray]

/-- A text is read from its bytes and from no others. -/
theorem textOfBytes?_eq_some_iff {bytes : List UInt8} {text : String} :
    textOfBytes? bytes = some text ↔ bytes = Key.bytes text := by
  unfold textOfBytes? String.fromUTF8?
  constructor
  · intro h
    split at h
    · cases h
      rfl
    · cases h
  · rintro rfl
    have hvalid : (ByteArray.mk (Key.bytes text).toArray).IsValidUTF8 := text.isValidUTF8
    rw [dif_pos hvalid]
    rfl

theorem textOfBytes?_bytes (text : String) : textOfBytes? (Key.bytes text) = some text :=
  textOfBytes?_eq_some_iff.2 rfl

namespace Serve

theorem utf8EncodeChar_lineEnd : String.utf8EncodeChar '\n' = [lineEnd] := rfl

/-- The byte of a line end is part of no other character: the bytes of a character are its ASCII
code or they are all high. -/
theorem lineEnd_notMem_utf8EncodeChar {c : Char} (h : c ≠ '\n') :
    lineEnd ∉ String.utf8EncodeChar c := by
  have hcode : c.val.toNat ≠ 10 := fun heq => h (Char.ext (UInt32.toNat_inj.1 heq))
  have hbyte : ∀ n, n < 256 → n ≠ 10 → lineEnd ≠ UInt8.ofNat n := by
    intro n hn hne heq
    have hvalue := congrArg UInt8.toNat heq
    rw [UInt8.toNat_ofNat', Nat.mod_eq_of_lt hn] at hvalue
    exact hne hvalue.symm
  have hlow : ∀ m, lineEnd ≠ UInt8.ofNat (m % 64 + 128) := fun m =>
    hbyte _ (by omega) (by omega)
  unfold String.utf8EncodeChar
  simp only
  split
  · exact List.not_mem_cons_of_ne_of_not_mem (hbyte _ (by omega) hcode) List.not_mem_nil
  · split
    · simp only [List.mem_cons, List.not_mem_nil, or_false, not_or]
      exact ⟨hbyte _ (by omega) (by omega), hlow _⟩
    · split
      · simp only [List.mem_cons, List.not_mem_nil, or_false, not_or]
        exact ⟨hbyte _ (by omega) (by omega), hlow _, hlow _⟩
      · simp only [List.mem_cons, List.not_mem_nil, or_false, not_or]
        exact ⟨hbyte _ (by omega) (by omega), hlow _, hlow _, hlow _⟩

/-! ## Cutting at line ends -/

/-- What stands between the line ends of a text. After a line end at the end of the text there is a
blank line, which says nothing. -/
def textLines (text : String) : List String := (text.toList.splitOn '\n').map String.ofList

theorem splitOn_append_of_notMem {α : Type} [BEq α] [LawfulBEq α] {sep : α} {xs : List α}
    (h : sep ∉ xs) (ys : List α) :
    (xs ++ ys).splitOn sep = (ys.splitOn sep).modifyHead (xs ++ ·) := by
  induction xs with
  | nil =>
    rw [List.nil_append]
    cases ys.splitOn sep <;> rfl
  | cons x xs ih =>
    rw [List.mem_cons, not_or] at h
    have hne : (x == sep) = false := beq_false_of_ne (Ne.symm h.1)
    rw [List.cons_append, List.splitOn_cons_eq_if_modifyHead, hne, if_neg Bool.false_ne_true,
      ih h.2, List.modifyHead_modifyHead]
    rfl

/-- Lines that are written one after the other are read as they were. -/
theorem textLines_join {texts : List String} (h : ∀ line ∈ texts, '\n' ∉ line.toList) :
    textLines (String.join (texts.map (· ++ "\n"))) = texts ++ [""] := by
  induction texts with
  | nil => rfl
  | cons line texts ih =>
    obtain ⟨hline, htexts⟩ := List.forall_mem_cons.1 h
    have hchars : (String.join ((line :: texts).map (· ++ "\n"))).toList =
        line.toList ++ '\n' :: (String.join (texts.map (· ++ "\n"))).toList := by
      rw [List.map_cons, String.join_cons, String.toList_append, String.toList_append,
        List.append_assoc]
      rfl
    rw [textLines, hchars, List.splitOn_append_cons_self, List.splitOn_eq_singleton hline,
      List.map_append, List.map_singleton, String.ofList_toList]
    rw [textLines] at ih
    rw [ih htexts, List.cons_append]
    rfl

/-- The bytes of characters are cut where the characters are. -/
theorem splitOn_flatMap_utf8EncodeChar (cs : List Char) :
    (cs.flatMap String.utf8EncodeChar).splitOn lineEnd =
      (cs.splitOn '\n').map (·.flatMap String.utf8EncodeChar) := by
  induction cs with
  | nil => rfl
  | cons c cs ih =>
    rw [List.flatMap_cons, List.splitOn_cons_eq_if_modifyHead]
    by_cases hc : c = '\n'
    · subst hc
      rw [utf8EncodeChar_lineEnd, List.singleton_append, List.splitOn_cons_eq_if_modifyHead, ih]
      rfl
    · rw [splitOn_append_of_notMem (lineEnd_notMem_utf8EncodeChar hc), ih,
        if_neg (by simpa using hc)]
      cases cs.splitOn '\n' with
      | nil => rfl
      | cons line lines => rfl

/-- Lines are what stands between line ends, but for an empty one at the end. -/
theorem exists_linesAfter_append (taken input : List UInt8) :
    ∃ blank, (blank = [] ∨ blank = [[]]) ∧
      (input.splitOn lineEnd).modifyHead (taken.reverse ++ ·) =
        linesAfter taken input ++ blank := by
  induction input generalizing taken with
  | nil =>
    cases taken with
    | nil => exact ⟨[[]], .inr rfl, rfl⟩
    | cons b taken => exact ⟨[], .inl rfl, by simp [linesAfter]⟩
  | cons b input ih =>
    rw [List.splitOn_cons_eq_if_modifyHead, linesAfter]
    by_cases hb : b = lineEnd
    · obtain ⟨blank, hblank, hlines⟩ := ih []
      refine ⟨blank, hblank, ?_⟩
      rw [if_pos hb, if_pos (beq_iff_eq.2 hb), List.cons_append, ← hlines, List.modifyHead_cons,
        List.append_nil]
      cases input.splitOn lineEnd <;> rfl
    · obtain ⟨blank, hblank, hlines⟩ := ih (b :: taken)
      refine ⟨blank, hblank, ?_⟩
      rw [if_neg hb, if_neg (mt beq_iff_eq.1 hb), ← hlines, List.modifyHead_modifyHead]
      simp [Function.comp_def]

theorem exists_splitOn_eq (input : List UInt8) :
    ∃ blank, (blank = [] ∨ blank = [[]]) ∧ input.splitOn lineEnd = lines input ++ blank := by
  obtain ⟨blank, hblank, hlines⟩ := exists_linesAfter_append [] input
  refine ⟨blank, hblank, ?_⟩
  rw [lines, ← hlines]
  cases input.splitOn lineEnd <;> rfl

/-- If texts in UTF-8 stand between the line ends, they are the lines, but for an empty one at the
end. -/
theorem exists_lines_eq {input : List UInt8} {texts : List String}
    (h : input.splitOn lineEnd = texts.map Key.bytes) :
    ∃ front blank, texts = front ++ blank ∧ (blank = [] ∨ blank = [""]) ∧
      lines input = front.map Key.bytes := by
  obtain ⟨blank, hblank, hlines⟩ := exists_splitOn_eq input
  obtain ⟨front, last, htexts, hfront, hlast⟩ := List.map_eq_append_iff.1 (h.symm.trans hlines)
  refine ⟨front, last, htexts, ?_, hfront.symm⟩
  rcases hblank with rfl | rfl
  · exact .inl (List.map_eq_nil_iff.1 hlast)
  · obtain ⟨line, rfl, hline⟩ := List.map_eq_singleton_iff.1 hlast
    have hempty : Key.bytes "" = [] := rfl
    exact .inr (by rw [Key.bytes_injective (hline.trans hempty.symm)])

/-- What is no text between two line ends is a line. -/
theorem exists_lines_eq_of_foreign {input foreign : List UInt8} {front : List String}
    {rest : List (List UInt8)} (hforeign : textOfBytes? foreign = none)
    (h : input.splitOn lineEnd = front.map Key.bytes ++ foreign :: rest) :
    ∃ rest', lines input = front.map Key.bytes ++ foreign :: rest' := by
  obtain ⟨blank, hblank, hlines⟩ := exists_splitOn_eq input
  rw [h] at hlines
  rcases hblank with rfl | rfl
  · exact ⟨rest, by rw [hlines, List.append_nil]⟩
  · -- the empty line at the end is a text
    have hempty : textOfBytes? [] = some "" := textOfBytes?_bytes ""
    rcases List.eq_nil_or_concat rest with rfl | ⟨rest', last, rfl⟩
    · obtain ⟨-, hlast⟩ := List.append_inj' hlines rfl
      cases hlast
      rw [hempty] at hforeign
      cases hforeign
    · rw [List.concat_eq_append, ← List.cons_append, ← List.append_assoc] at hlines
      obtain ⟨hall, -⟩ := List.append_inj' hlines rfl
      exact ⟨rest', hall.symm⟩

/-- The bytes of a text are cut where the text is. -/
theorem splitOn_bytes (text : String) :
    (Key.bytes text).splitOn lineEnd = (textLines text).map Key.bytes := by
  rw [Key.bytes_eq_flatMap, splitOn_flatMap_utf8EncodeChar, textLines, List.map_map]
  refine List.map_congr_left fun cs _ => ?_
  rw [Function.comp_apply, Key.bytes_eq_flatMap, String.toList_ofList]

end Serve

/-! ## What a line says -/

namespace Json.Lenient

/-- A piece has a last character, which is not blank. -/
theorem Piece.Proper.exists_last {p : Piece} (h : p.Proper) :
    ∃ cs c, p.chars = cs ++ [c] ∧ Text.isBlank c = false := by
  cases p with
  | mark c => exact ⟨[], c, rfl, not_isBlank_of_isMark h⟩
  | quoted inside => exact ⟨'"' :: inside, '"', rfl, by decide⟩
  | word cs =>
    obtain ⟨hne, hcs⟩ := h
    exact ⟨_, _, (List.dropLast_append_getLast hne).symm,
      not_isBlank_of_isWordChar (hcs _ (List.getLast_mem hne))⟩

/-- A blank at the end of a strict text belongs to no piece. -/
theorem spells_append_space_iff {ps : List Piece} {cs : List Char} {c : Char}
    (hc : isSpace c = true) : Spells ps (cs ++ [c]) ↔ Spells ps cs := by
  constructor
  · intro h
    generalize htext : cs ++ [c] = text at h
    induction h generalizing cs with
    | nil hgap => exact .nil fun d hd => hgap d (htext ▸ List.mem_append_left _ hd)
    | @cons gap rest p ps hgap hp hrest ih =>
      obtain ⟨front, last, hchars, hlast⟩ := hp.exists_last
      rcases List.eq_nil_or_concat rest with rfl | ⟨rest, d, rfl⟩
      · -- the last character would be that of the piece
        rw [List.append_nil, hchars, ← List.append_assoc] at htext
        obtain ⟨-, hend⟩ := List.append_inj' htext rfl
        cases hend
        rw [isBlank_of_isSpace hc] at hlast
        cases hlast
      · rw [List.concat_eq_append, ← List.append_assoc, ← List.append_assoc] at htext
        obtain ⟨rfl, hend⟩ := List.append_inj' htext rfl
        rw [List.append_assoc]
        exact .cons hgap hp (ih (by rw [hend, List.concat_eq_append]))
  · intro h
    induction h with
    | nil hgap => exact .nil (List.forall_mem_append.2 ⟨hgap, List.forall_mem_singleton.2 hc⟩)
    | cons hgap hp _ ih =>
      rw [List.append_assoc, List.append_assoc]
      exact .cons hgap hp ih

/-- A blank at the end of a text is passed over. -/
theorem readChars_append_space {cs : List Char} {c : Char} (hc : isSpace c = true) (v : Json) :
    readChars (cs ++ [c]) = .ok v ↔ readChars cs = .ok v := by
  constructor
  · intro h
    obtain ⟨ps, hps, hspells⟩ := exists_pieces_of_readChars h
    rw [readChars_eq_ok_iff] at h ⊢
    rwa [((spells_append_space_iff hc).1 hspells).contents_eq hps hspells]
  · intro h
    obtain ⟨ps, hps, hspells⟩ := exists_pieces_of_readChars h
    rw [readChars_eq_ok_iff] at h ⊢
    rwa [((spells_append_space_iff hc).2 hspells).contents_eq hps hspells]

end Json.Lenient

namespace Update

/-- A line that is an update is not blank. -/
theorem isBlankText_of_decode? {line : String} {u : Update} (h : decode? line = some u) :
    Text.isBlankText line = false := by
  obtain ⟨v, hv, -⟩ := Option.bind_eq_some_iff.1 h
  have hread : Json.readChars line.toList = .ok v := Checks.toOption_eq_some_iff.1 hv
  obtain ⟨ps, -, hspells⟩ := Json.Lenient.exists_pieces_of_readChars hread
  have hne : ps ≠ [] := by
    rintro rfl
    exact Draft.readChars_ne_ok_of_nil hspells v hread
  exact Bool.eq_false_iff.2 fun hblank => hne ((Draft.all_isBlank_iff hspells).1 hblank)

/-- A carriage return at the end of a line changes nothing. -/
theorem decode?_append_return (line : String) : decode? (line ++ "\r") = decode? line := by
  have hread : (Json.read (line ++ "\r")).toOption = (Json.read line).toOption := by
    refine Option.ext fun v => ?_
    rw [Checks.toOption_eq_some_iff, Checks.toOption_eq_some_iff, Json.read, Json.read,
      String.toList_append]
    exact Json.Lenient.readChars_append_space (by decide) v
  rw [decode?, hread, decode?]

end Update

namespace Serve

theorem isBlankText_append_return (line : String) :
    Text.isBlankText (line ++ "\r") = Text.isBlankText line := by
  rw [Text.isBlankText, String.toList_append, List.all_append]
  exact Bool.and_true _

/-- A line is an update if it can be read as one. -/
theorem update?_ofText (line : String) : (Line.ofText line).update? = Update.decode? line := by
  unfold Line.ofText
  cases hline : Update.decode? line with
  | none => split <;> rfl
  | some u =>
    rw [Update.isBlankText_of_decode? hline]
    rfl

/-- A line is malformed if it is neither an update nor blank. -/
theorem ofText_eq_malformed_iff {line : String} :
    Line.ofText line = .malformed ↔
      Update.decode? line = none ∧ Text.isBlankText line = false := by
  unfold Line.ofText
  cases Update.decode? line <;> cases Text.isBlankText line <;> simp

end Serve

end ButtonDialog
