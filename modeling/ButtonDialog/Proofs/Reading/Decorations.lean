import ButtonDialog.Draft.Reader
import ButtonDialog.Proofs.Reading.Cutting

/-! Reading a decorated text.

    A draft is read from a strict text and from every decoration of it alike: cleaning brings back
    the pieces of the strict text, the reader sees the same tokens in both, and no more than the
    value that they make reaches the draft. -/

namespace ButtonDialog.Draft

open Json Json.Lenient

/-- Reads a draft from the value of a strict text. -/
def ofValue : Json → Except Error Draft
  | .null => .error .empty
  | v => (ofJson v).mapError .misshapen

theorem ofValue_ne_notJson (v : Json) (e : Json.ReadError) : ofValue v ≠ .error (.notJson e) := by
  have hshape : (ofJson v).mapError Error.misshapen ≠ .error (.notJson e) := by
    cases ofJson v <;> simp [Except.mapError]
  cases v with
  | null => simp [ofValue]
  | _ => exact hshape

/-! ## Strict texts -/

/-- A text of blanks only has no pieces. -/
theorem all_isBlank_iff {ps : List Piece} {cs : List Char} (h : Spells ps cs) :
    cs.all Text.isBlank = true ↔ ps = [] := by
  cases h with
  | nil hgap => simpa using fun c hc => isBlank_of_isSpace (hgap c hc)
  | cons hgap hp _ =>
    obtain ⟨c, cs, hchars, hblank, -⟩ := hp.exists_first
    simp [hchars, hblank]

/-- A text without pieces is not JSON. -/
theorem readChars_ne_ok_of_nil {cs : List Char} (h : Spells [] cs) (v : Json) :
    readChars cs ≠ .ok v := by
  obtain ⟨hgap⟩ := h
  intro hread
  obtain ⟨ts, hts, haccepts⟩ := readChars_eq_ok_iff.1 hread
  have hnone := lexemes_spaces hgap []
  rw [List.append_nil] at hnone
  rw [hnone] at hts
  obtain rfl := List.map_eq_nil_iff.1 hts.symm
  cases haccepts

/-- A text with pieces is read as JSON, and then its value as a draft. -/
theorem readClean_spelled {ps : List Piece} {cs : List Char} (h : Spells ps cs) (hne : ps ≠ []) :
    readClean cs = ((readChars cs).mapError .notJson).bind ofValue := by
  have hblank : ¬ cs.all Text.isBlank = true := fun hall => hne ((all_isBlank_iff h).1 hall)
  rw [readClean, if_neg hblank]
  cases readChars cs with
  | error e => rfl
  | ok v => cases v <;> rfl

/-- A text that is JSON once it is cleaned is read by its value. -/
theorem read_of_readChars {text : String} {v : Json} (h : readChars (clean text.toList) = .ok v) :
    read text = ofValue v := by
  obtain ⟨ps, -, hspells⟩ := exists_pieces_of_readChars h
  have hne : ps ≠ [] := by
    rintro rfl
    exact readChars_ne_ok_of_nil hspells _ h
  rw [read, readClean_spelled hspells hne, h]
  rfl

/-! ## Decorated texts -/

/-- A strict text and the cleaned text of a loose text of its pieces are accepted alike. -/
theorem readChars_clean_eq_ok_iff_of_loosens {ps : List Piece} {cs cs' : List Char}
    (hps : Orderly ps) (h : Spells ps cs) (h' : Loosens ps cs') (v : Json) :
    readChars (clean cs') = .ok v ↔ readChars cs = .ok v := by
  rw [readChars_eq_ok_iff, readChars_eq_ok_iff, (h'.spells_clean hps).contents_eq hps h]

theorem readChars_clean_eq_ok_iff {ps : List Piece} {cs cs' : List Char} (hps : Orderly ps)
    (h : Spells ps cs) (h' : Decorates ps cs') (v : Json) :
    readChars (clean cs') = .ok v ↔ readChars cs = .ok v :=
  readChars_clean_eq_ok_iff_of_loosens hps h h'.loosens v

/-- Reading adds nothing to strict JSON but comments, blanks and commas before closing brackets.
Every text that the strict reader accepts consists of pieces, and cleaning leaves it alone; each
decoration of it is read as a draft like the value of the text. A decoration of a text that is not
JSON is not made JSON by cleaning it. -/
theorem reads_decorations (strict : String) :
    (∀ v, Json.read strict = .ok v →
      Decoration strict.toList strict.toList ∧ clean strict.toList = strict.toList) ∧
    ∀ lenient : String, Decoration strict.toList lenient.toList →
      (∀ v, Json.read strict = .ok v → read lenient = ofValue v) ∧
      ∀ e, readClean strict.toList = .error (.notJson e) →
        ∃ e', read lenient = .error (.notJson e') := by
  refine ⟨fun v hread => ?_, fun lenient hdecoration => ?_⟩
  · obtain ⟨ps, hps, hspells⟩ := exists_pieces_of_readChars hread
    exact ⟨⟨ps, hps, hspells, hspells.decorates⟩, hspells.clean_eq hps⟩
  obtain ⟨ps, hps, hspells, hdecorates⟩ := hdecoration
  have hcleaned := hdecorates.spells_clean hps
  have haccepted := readChars_clean_eq_ok_iff hps hspells hdecorates
  refine ⟨fun v hread => ?_, fun e hrefused => ?_⟩
  · have hne : ps ≠ [] := by
      rintro rfl
      exact readChars_ne_ok_of_nil hspells v hread
    rw [read, readClean_spelled hcleaned hne, (haccepted v).2 hread]
    rfl
  · have hne : ps ≠ [] := by
      rintro rfl
      rw [readClean, if_pos ((all_isBlank_iff hspells).2 rfl)] at hrefused
      cases hrefused
    rw [readClean_spelled hspells hne] at hrefused
    rw [read, readClean_spelled hcleaned hne]
    cases hread : readChars (clean lenient.toList) with
    | error e' => exact ⟨e', rfl⟩
    | ok v =>
      rw [(haccepted v).1 hread] at hrefused
      exact absurd hrefused (ofValue_ne_notJson v e)

/-- A strict text with what looks like a comment and a comma between its quotes. -/
def plainText : String := "\x7b\"a\":\"//,]\"\x7d"

/-- The same text with comments and a comma, and with quotes and brackets in the comments. -/
def decoratedText : String := "/**/\x7b\"a\":\"//,]\" /* \"\x7d, ***/, // ]\n\x7d//"

theorem decoration_decoratedText : Decoration plainText.toList decoratedText.toList := by
  have hname : Inside ['a'] := .plain (by decide) (by decide) .nil
  have hvalue : Inside ['/', '/', ',', ']'] :=
    .plain (by decide) (by decide) <| .plain (by decide) (by decide) <|
      .plain (by decide) (by decide) <| .plain (by decide) (by decide) .nil
  have hplain := @spells_flatMap
    [.mark '\x7b', .quoted ['a'], .mark ':', .quoted ['/', '/', ',', ']'], .mark '\x7d']
    (by simpa [Piece.Proper] using ⟨rfl, hname, rfl, hvalue, rfl⟩)
  have hfirst := @Filler.block [] [] (by decide) .nil
  have hbefore := Filler.blank (c := ' ') rfl
    (@Filler.block " \"\x7d, **".toList [] (by decide +kernel) .nil)
  have hafter := Filler.blank (c := ' ') rfl
    (@Filler.line " ]".toList [] (by decide +kernel) .nil)
  have hlast := @LastFiller.line [] [] .nil List.not_mem_nil
  have hclosed := Decorates.cons (p := .mark '\x7d') hafter rfl (.nil hlast)
  have hmember := Decorates.comma (p := .quoted _) .nil hvalue trivial hbefore (by rfl) hclosed
  have hcolon := Decorates.cons (p := .mark ':') .nil rfl hmember
  have hnamed := Decorates.cons (p := .quoted _) .nil hname hcolon
  have hall := Decorates.cons (p := .mark '\x7b') hfirst rfl hnamed
  have horder : Orderly [.mark '\x7b', .quoted ['a'], .mark ':', .quoted ['/', '/', ',', ']'],
      .mark '\x7d'] := by
    simp [Orderly, Piece.MayPrecede]
  exact ⟨_, horder, hplain, Eq.mp (congrArg (Decorates _) (by decide +kernel)) hall⟩

/-- The decorated text is read as the draft that says nothing, for its only name is unknown. A
number with a zero in front is no JSON, and a comment behind it changes nothing about that. -/
theorem reads_decoratedText :
    Decoration plainText.toList decoratedText.toList ∧ clean plainText.toList = plainText.toList ∧
    read decoratedText = .ok ⟨[], [], []⟩ ∧ ∃ e, read "01//" = .error (.notJson e) := by
  have hread : Json.read plainText = .ok (.object [("a", .text "//,]")]) := rfl
  have hword : (Piece.word ['0', '1']).Proper := ⟨by simp, List.all_eq_true.1 rfl⟩
  have hdecorates : Decorates [.word ['0', '1']] "01//".toList :=
    .cons .nil hword (.nil (@LastFiller.line [] [] .nil List.not_mem_nil))
  have hdecoration : Decoration "01".toList "01//".toList :=
    ⟨_, .singleton _, spells_flatMap (by simpa using hword), hdecorates⟩
  have hrefused : readClean "01".toList = .error (.notJson ⟨.misplaced, 1⟩) := by decide +kernel
  refine ⟨decoration_decoratedText, ((reads_decorations plainText).1 _ hread).2, ?_, ?_⟩
  · exact ((reads_decorations plainText).2 _ decoration_decoratedText).1 _ hread
  · exact ((reads_decorations "01").2 _ hdecoration).2 _ hrefused

end ButtonDialog.Draft
