import ButtonDialog.Proofs.Reading.Loosening

/-! What is read at all.

    A text is refused as no JSON unless it is a strict text with comments, blanks and single commas
    before closing brackets added, or has nothing in it but blanks and comments. The tokens of a
    strict text tell where such a comma may stand: a closing bracket comes after a value that is
    complete, or right after its opening bracket. -/

namespace ButtonDialog

namespace Json

open Lenient

/-! ## Before a closing bracket -/

/-- After a comma or a colon comes something to be closed first. -/
def Token.Awaits (s t : Token) : Prop := s = .comma ∨ s = .colon → ¬ t.IsCloser

theorem Reading.Takes.awaits {r r' r'' : Reading} {s t : Token} (hs : r.Takes s r')
    (ht : r'.Takes t r'') : s.Awaits t := by
  rintro (rfl | rfl)
  · exact (hs.mayPrecede ht).1 rfl
  · cases hs with
    | value _ hwrites => cases hwrites
    | colon =>
      cases ht with
      | value _ hwrites => exact hwrites.not_isCloser
      | _ => exact id

theorem Reading.Accepts.isChain_awaits {r : Reading} {ts : List Token} {v : Json}
    (h : r.Accepts ts v) : ts.IsChain Token.Awaits := by
  induction h with
  | done => exact .nil
  | take hs h ih =>
    cases h with
    | done => exact .singleton _
    | take ht h => exact .cons_cons (hs.awaits ht) ih

/-- No text begins with a closing bracket. -/
theorem Reading.Accepts.not_isCloser {t : Token} {ts : List Token} {v : Json}
    (h : Reading.start.Accepts (t :: ts) v) : ¬ t.IsCloser := by
  cases h with
  | take ht _ =>
    cases ht with
    | value _ hwrites => exact hwrites.not_isCloser
    | _ => exact id

namespace Lenient

/-- The tokens that a closing bracket gives close. -/
theorem Piece.IsCloser.isCloser_of_gives {p : Piece} (h : p.IsCloser) {t : Token}
    (ht : p.Gives t) : t.IsCloser := by
  cases p with
  | mark c =>
    obtain rfl : t = markToken c := ht
    simp only [Piece.IsCloser, isCloser, Bool.or_eq_true, beq_iff_eq] at h
    rcases h with rfl | rfl <;> trivial
  | quoted inside => exact h.elim
  | word cs => exact h.elim

theorem Piece.mayEnd_of_gives {p q : Piece} (hp : p.Proper) {s t : Token} (hs : p.Gives s)
    (ht : q.Gives t) (h : s.Awaits t) (hq : q.IsCloser) : p.MayEnd := by
  cases p with
  | mark c =>
    obtain rfl : s = markToken c := hs
    have hcloser := hq.isCloser_of_gives ht
    have hmark : isMark c = true := hp
    simp only [isMark, Bool.or_eq_true, beq_iff_eq] at hmark
    rcases hmark with ((((rfl | rfl) | rfl) | rfl) | rfl) | rfl
    · exact .inr (by decide)
    · exact .inl (by decide)
    · exact .inr (by decide)
    · exact .inl (by decide)
    · exact absurd hcloser (h (.inl rfl))
    · exact absurd hcloser (h (.inr rfl))
  | quoted inside => trivial
  | word cs => trivial

/-- What is in order among the tokens of a text is in order among its pieces. -/
theorem Spells.isChain {R : Token → Token → Prop} {Q : Piece → Piece → Prop}
    (hQ : ∀ {p q s t}, p.Proper → p.Gives s → q.Gives t → R s t → Q p q) {ps : List Piece}
    {cs : List Char} (hps : Orderly ps) (h : Spells ps cs) {ts : List Token}
    (hts : contents (lexemes cs) = ts.map some) (hchain : ts.IsChain R) : ps.IsChain Q := by
  induction h generalizing ts with
  | nil => exact .nil
  | @cons gap cs p ps hgap hp hcs ih =>
    rw [lexemes_spaces hgap] at hts
    obtain ⟨own, more, rfl, hne, hown, hmore⟩ := hp.exists_tokens (hcs.mayTouch hps) hts
    obtain ⟨-, hlater, hbetween⟩ := List.isChain_append.1 hchain
    refine List.isChain_cons.2 ⟨fun q hq => ?_, ih hps.tail hmore hlater⟩
    obtain ⟨ps, rfl⟩ := List.head?_eq_some_iff.1 hq
    obtain ⟨t, ht, hgives⟩ := hcs.exists_first hps.tail hmore
    have hlast := List.getLast?_eq_some_getLast hne
    exact hQ hp (hown _ (List.getLast_mem hne)) hgives (hbetween _ hlast t ht)

/-- A text that is JSON once it is cleaned is a loose text of the pieces of the cleaned text. -/
theorem loosening_of_readChars_clean {cs : List Char} {v : Json}
    (h : readChars (clean cs) = .ok v) : Loosening (clean cs) cs := by
  obtain ⟨ts, hts, haccepts⟩ := readChars_eq_ok_iff.1 h
  obtain ⟨ps, hps, hspells⟩ := exists_pieces hts haccepts.isChain
  have hclosers : ps.IsChain fun p q => q.IsCloser → p.MayEnd :=
    hspells.isChain (fun hp hs ht hawaits hq => Piece.mayEnd_of_gives hp hs ht hawaits hq) hps hts
      haccepts.isChain_awaits
  refine ⟨ps, hps, hspells, ?_⟩
  rcases loosens_of_spells_clean hps hclosers hspells with hloose | hcomma
  · exact hloose
  · obtain ⟨-, -, closer, ps', -, -, rfl, hcloser, -⟩ := hcomma
    obtain ⟨t, ht, hgives⟩ := hspells.exists_first hps hts
    obtain ⟨ts, rfl⟩ := List.head?_eq_some_iff.1 ht
    exact absurd (hcloser.isCloser_of_gives hgives) haccepts.not_isCloser

/-! ## Texts without anything to read -/

/-- A comment, or a blank of the code. -/
def Stretch.IsIdle (s : Stretch) : Prop :=
  s.isComment = true ∨ ∃ c, s = .code c ∧ Text.isBlank c = true

/-- A text that has nothing in it but blanks and comments. -/
def Hollow (cs : List Char) : Prop := ∃ ss, Cut ss cs ∧ ∀ s ∈ ss, s.IsIdle

theorem Stretch.all_isBlank_bare_iff {s : Stretch} :
    s.bare.all Text.isBlank = true ↔ s.IsIdle := by
  by_cases hcomment : s.isComment = true
  · refine iff_of_true (List.all_eq_true.2 fun c hc => ?_) (.inl hcomment)
    exact isBlank_of_isSpace (spaces_bare hcomment c hc)
  · rcases s with c | ⟨_ | _ | _, inside, closed⟩
    · simp [IsIdle, bare, isComment]
    · have hquote : Text.isBlank '"' = false := by decide
      simp [IsIdle, bare, chars, Enclosure.opener, isComment, hquote]
    · exact absurd rfl hcomment
    · exact absurd rfl hcomment

theorem all_isBlank_dropCommas (cs : List Char) :
    (dropCommas .code cs).all Text.isBlank = cs.all Text.isBlank := by
  have hcomma : Text.isBlank ',' = false := by decide
  induction cs with
  | nil => rfl
  | cons c cs ih =>
    by_cases hsurplus : c = ',' ∧ closes cs = true
    · obtain ⟨rfl, hcloses⟩ := hsurplus
      obtain ⟨blanks, c, rest, -, -, hcloser, hdrop⟩ := dropCommas_of_closes hcloses
      have hc := not_isBlank_of_isMark (isMark_of_isCloser hcloser)
      rw [dropCommas_dropped hcloses, hdrop]
      simp [hcomma, hc]
    · by_cases hquote : c = '"'
      · subst hquote
        have hblank : Text.isBlank '"' = false := by decide
        simp [dropCommas, hblank]
      · rw [dropCommas_kept hquote fun hc => by simpa [hc] using hsurplus, List.all_cons, ih,
          List.all_cons]

/-- Blanks are left exactly of what has nothing else in it. -/
theorem hollow_iff {cs : List Char} : Hollow cs ↔ (clean cs).all Text.isBlank = true := by
  obtain ⟨ss, hcut⟩ := exists_cut cs
  have hidle : (clean cs).all Text.isBlank = true ↔ ∀ s ∈ ss, s.IsIdle := by
    rw [clean, all_isBlank_dropCommas, hcut.dropComments_eq, bareText, List.all_flatMap,
      List.all_eq_true]
    exact forall₂_congr fun s _ => Stretch.all_isBlank_bare_iff
  rw [hidle]
  constructor
  · rintro ⟨ss', hcut', hall⟩
    obtain rfl := hcut.unique hcut'
    exact hall
  · intro hall
    exact ⟨ss, hcut, hall⟩

/-! ## Looser texts that are not lenient -/

theorem Filler.not_isMark {filler : List Char} (h : Filler filler) {c : Char} {cs : List Char}
    (heq : c :: cs = filler) : isMark c = false := by
  cases h with
  | nil => cases heq
  | blank hc _ =>
    obtain ⟨rfl, -⟩ := List.cons.inj heq
    refine Bool.eq_false_iff.2 fun hmark => ?_
    have hblank := isBlank_of_isSpace hc
    rw [not_isBlank_of_isMark hmark] at hblank
    cases hblank
  | line _ _ =>
    obtain ⟨rfl, -⟩ := List.cons.inj heq
    decide
  | block _ _ =>
    obtain ⟨rfl, -⟩ := List.cons.inj heq
    decide

/-- A mark is not part of what stands between pieces. -/
theorem Filler.eq_nil {filler rest : List Char} (h : Filler filler) {c : Char} {cs : List Char}
    (hc : isMark c = true) (heq : c :: cs = filler ++ rest) : filler = [] := by
  cases filler with
  | nil => rfl
  | cons c' filler =>
    obtain ⟨rfl, -⟩ := List.cons.inj heq
    rw [h.not_isMark rfl] at hc
    cases hc

theorem Piece.Proper.eq_mark {p : Piece} (h : p.Proper) {c : Char} {cs rest : List Char}
    (hc : isMark c = true) (heq : c :: cs = p.chars ++ rest) : p = .mark c ∧ rest = cs := by
  cases p with
  | mark c' =>
    obtain ⟨rfl, rfl⟩ := List.cons.inj heq
    exact ⟨rfl, rfl⟩
  | quoted inside =>
    obtain ⟨rfl, -⟩ := List.cons.inj heq
    exact absurd hc (by decide)
  | word word =>
    obtain ⟨hne, hword⟩ := h
    obtain ⟨c', word, rfl⟩ := List.exists_cons_of_ne_nil hne
    obtain ⟨rfl, -⟩ := List.cons.inj heq
    have hc' := hword c (List.mem_cons_self ..)
    simp [isWordChar, hc] at hc'

/-- A lenient text that begins with a mark begins with that piece. A comma comes next only if the
mark ends a value. -/
theorem Decorates.exists_mark {ps : List Piece} {c : Char} {cs : List Char}
    (h : Decorates ps (c :: cs)) (hc : isMark c = true) :
    ∃ ps', ps = .mark c :: ps' ∧ (Decorates ps' cs ∨ isCloser c = true ∧ ',' ∈ cs) := by
  generalize htext : c :: cs = text at h
  cases h with
  | nil hlast =>
    cases hlast with
    | ended hfiller => simp [hfiller.not_isMark htext] at hc
    | line hfiller _ =>
      obtain rfl := hfiller.eq_nil hc htext
      obtain ⟨rfl, -⟩ := List.cons.inj htext
      exact absurd hc (by decide)
  | cons hfiller hp hrest =>
    obtain rfl := hfiller.eq_nil hc htext
    obtain ⟨rfl, rfl⟩ := hp.eq_mark hc htext
    exact ⟨_, rfl, .inl hrest⟩
  | comma hfiller hp hends _ _ _ =>
    obtain rfl := hfiller.eq_nil hc htext
    obtain ⟨rfl, rfl⟩ := hp.eq_mark hc htext
    exact ⟨_, rfl, .inr ⟨hends, by simp⟩⟩

/-- No piece begins with a slash. -/
theorem Piece.Proper.ne_slash {p : Piece} (h : p.Proper) (cs rest : List Char) :
    '/' :: cs ≠ p.chars ++ rest := by
  intro heq
  cases p with
  | mark c =>
    obtain ⟨rfl, -⟩ := List.cons.inj heq
    simp [Piece.Proper, isMark] at h
  | quoted inside => simp [Piece.chars] at heq
  | word word =>
    obtain ⟨hne, hword⟩ := h
    obtain ⟨c, word, rfl⟩ := List.exists_cons_of_ne_nil hne
    obtain ⟨rfl, -⟩ := List.cons.inj heq
    exact absurd (hword '/' (List.mem_cons_self ..)) (by decide)

/-- The beginning of a block comment alone is not what stands between pieces. -/
theorem Filler.eq_nil_of_opener {filler rest : List Char} (h : Filler filler)
    (heq : ['/', '*'] = filler ++ rest) : filler = [] := by
  cases h with
  | nil => rfl
  | blank hc _ =>
    obtain ⟨rfl, -⟩ := List.cons.inj heq
    exact absurd hc (by decide)
  | line _ _ => simp at heq
  | block _ _ => simp at heq

/-- The beginning of a block comment alone is no lenient text. -/
theorem not_decorates_opener (ps : List Piece) : ¬ Decorates ps ['/', '*'] := by
  intro h
  generalize htext : ['/', '*'] = text at h
  cases h with
  | nil hlast =>
    cases hlast with
    | ended hfiller =>
      obtain rfl := hfiller.eq_nil_of_opener (htext.trans (List.append_nil _).symm)
      cases htext
    | line hfiller _ =>
      obtain rfl := hfiller.eq_nil_of_opener htext
      simp at htext
  | cons hfiller hp _ =>
    obtain rfl := hfiller.eq_nil_of_opener htext
    exact hp.ne_slash _ _ htext
  | comma hfiller hp _ _ _ _ =>
    obtain rfl := hfiller.eq_nil_of_opener htext
    exact hp.ne_slash _ _ htext

end Lenient

end Json

namespace Draft

open Json Json.Lenient

theorem read_of_hollow {text : String} (h : Hollow text.toList) : read text = .error .empty := by
  rw [read, readClean, if_pos (hollow_iff.1 h)]

theorem read_of_readChars_error {text : String} (h : ¬ Hollow text.toList) {e : ReadError}
    (hread : readChars (clean text.toList) = .error e) : read text = .error (.notJson e) := by
  rw [read, readClean, if_neg (mt hollow_iff.2 h), hread]

/-- A text is refused as no JSON exactly if it has something in it and is no strict text with
comments, blanks and single commas before closing brackets added. If it is one, it is read as the
value of that strict text is, and if it has nothing in it, it is refused as empty. -/
theorem reads_nothing_looser (text : String) :
    ((∃ e, read text = .error (.notJson e)) ↔ ¬ Hollow text.toList ∧
      ¬ ∃ strict v, Json.read strict = .ok v ∧ Loosening strict.toList text.toList) ∧
    (Hollow text.toList → read text = .error .empty) ∧
    ∀ strict v, Json.read strict = .ok v → Loosening strict.toList text.toList →
      read text = ofValue v := by
  have hvalue : ∀ strict v, Json.read strict = .ok v → Loosening strict.toList text.toList →
      read text = ofValue v := by
    rintro strict v hstrict ⟨ps, hps, hspells, hloose⟩
    exact read_of_readChars ((readChars_clean_eq_ok_iff_of_loosens hps hspells hloose v).2 hstrict)
  refine ⟨⟨?_, ?_⟩, read_of_hollow, hvalue⟩
  · rintro ⟨e, hread⟩
    refine ⟨fun hhollow => ?_, ?_⟩
    · rw [read_of_hollow hhollow] at hread
      cases hread
    · rintro ⟨strict, v, hstrict, hloose⟩
      rw [hvalue strict v hstrict hloose] at hread
      exact ofValue_ne_notJson v e hread
  · rintro ⟨hsome, hnone⟩
    cases hread : readChars (clean text.toList) with
    | error e => exact ⟨e, read_of_readChars_error hsome hread⟩
    | ok v =>
      refine absurd ⟨String.ofList (clean text.toList), v, ?_, ?_⟩ hnone
      · rw [Json.read, String.toList_ofList, hread]
      · rw [String.toList_ofList]
        exact loosening_of_readChars_clean hread

example : ∀ text ∈ ["[,,]", "[1,,]", "[,1]", "1/**/2", "tr/**/ue", ",", "/"],
    (match read text with | .error (.notJson _) => true | _ => false) = true := by decide +kernel

/-- An empty object with a comma alone in it and a comment left open after it. -/
def loosestText : String := "\x7b,\x7d/*"

theorem loosening_loosestText : Loosening "\x7b\x7d".toList loosestText.toList := by
  refine ⟨[.mark '\x7b', .mark '\x7d'], ?_, ?_, ?_⟩
  · simp [Orderly, Piece.MayPrecede]
  · exact spells_flatMap (by simp [Piece.Proper, isMark])
  · have hopen : (Piece.mark '\x7b').Proper := by simp [Piece.Proper, isMark]
    have hclose : (Piece.mark '\x7d').Proper := by simp [Piece.Proper, isMark]
    have htrailer : Trailer ['/', '*'] := .block .nil (by decide)
    exact .comma .nil hopen (.inr rfl) .nil rfl (.cons .nil hclose (.nil htrailer))

theorem reads_loosestText :
    ¬ Hollow loosestText.toList ∧ (¬ ∃ e, read loosestText = .error (.notJson e)) ∧
    Json.read "\x7b\x7d" = .ok (.object []) ∧
    Loosening "\x7b\x7d".toList loosestText.toList ∧
    read loosestText = .ok ⟨[], [], []⟩ := by
  have hsome : ¬ Hollow loosestText.toList := by
    rw [hollow_iff]
    decide +kernel
  have hstrict : Json.read "\x7b\x7d" = .ok (.object []) := rfl
  obtain ⟨hrefused, -, hread⟩ := reads_nothing_looser loosestText
  refine ⟨hsome, fun h => ?_, hstrict, loosening_loosestText, ?_⟩
  · exact (hrefused.1 h).2 ⟨_, _, hstrict, loosening_loosestText⟩
  · rw [hread _ _ hstrict loosening_loosestText]
    rfl

theorem reads_looser_than_lenient :
    (read "\x7b,\x7d" = .ok ⟨[], [], []⟩ ∧ ¬ Hollow "\x7b,\x7d".toList ∧
      ¬ ∃ strict, Decoration strict "\x7b,\x7d".toList) ∧
    read "\x7b\x7d/*" = .ok ⟨[], [], []⟩ ∧ ¬ Hollow "\x7b\x7d/*".toList ∧
      ¬ ∃ strict, Decoration strict "\x7b\x7d/*".toList := by
  refine ⟨⟨by decide +kernel, ?_, ?_⟩, by decide +kernel, ?_, ?_⟩
  · rw [hollow_iff]
    decide +kernel
  · rintro ⟨strict, ps, hps, -, h⟩
    have h : Decorates ps ['\x7b', ',', '\x7d'] := h
    obtain ⟨ps, rfl, h | ⟨hcloser, -⟩⟩ := h.exists_mark (by decide)
    · obtain ⟨ps, rfl, h | ⟨hcloser, -⟩⟩ := h.exists_mark (by decide)
      · obtain ⟨ps, rfl, -⟩ := h.exists_mark (by decide)
        simp [Orderly, Piece.MayPrecede, Piece.IsCloser, isCloser] at hps
      · exact absurd hcloser (by decide)
    · exact absurd hcloser (by decide)
  · rw [hollow_iff]
    decide +kernel
  · rintro ⟨strict, ps, -, -, h⟩
    have h : Decorates ps ['\x7b', '\x7d', '/', '*'] := h
    obtain ⟨ps, -, h | ⟨hcloser, -⟩⟩ := h.exists_mark (by decide)
    · obtain ⟨ps, -, h | ⟨-, hcomma⟩⟩ := h.exists_mark (by decide)
      · exact not_decorates_opener ps h
      · simp at hcomma
    · exact absurd hcloser (by decide)

end Draft

end ButtonDialog
