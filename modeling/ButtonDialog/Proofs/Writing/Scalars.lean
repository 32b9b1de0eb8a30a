import Mathlib.Tactic.SplitIfs
import ButtonDialog.Json.Printer
import ButtonDialog.Proofs.Reading.Lexing

/-! Numbers and texts in writing.

    A number is read from its digits, its sign and its exponent, and a text from the escapes between
    its quotes, each as what it was written for. Neither is written with a control character. A
    number ends where no word goes on. -/

namespace ButtonDialog.Json

open Lenient

/-! ## Numbers -/

/-- The sign of a number in writing. -/
def signChars (negative : Bool) : List Char := if negative then ['-'] else []

theorem toList_toString_eq_signChars (n : Int) :
    (toString n).toList = signChars (decide (n < 0)) ++ Nat.toDigits 10 n.natAbs := by
  rw [toList_toString_int]
  split
  · rename_i h
    have habs : n.toNat = n.natAbs := by omega
    simp [signChars, h, habs]
  · rename_i h
    have habs : (-n).toNat = n.natAbs := by omega
    simp [signChars, Int.not_le.1 h, habs]

/-- The digits of a number that is not zero do not begin with a zero. -/
theorem head?_toDigits_ne_zero {k : Nat} (h : k ≠ 0) : (Nat.toDigits 10 k).head? ≠ some '0' := by
  induction k using Nat.strongRecOn with
  | ind k ih =>
    rw [Nat.toDigits_eq_if (by decide)]
    split
    · rename_i hlt
      have : ∀ d : Fin 10, d.val ≠ 0 → some d.val.digitChar ≠ some '0' := by decide
      exact this ⟨k, hlt⟩ h
    · rw [List.head?_append_of_ne_nil _ Nat.toDigits_ne_nil]
      exact ih (k / 10) (by omega) (by omega)

/-- The first digit of a number and the others, which make the number. -/
theorem exists_toDigits_eq_cons (k : Nat) :
    ∃ c ds, Nat.toDigits 10 k = c :: ds ∧ c.isDigit = true ∧ (∀ d ∈ ds, d.isDigit = true) ∧
      Nat.ofDigitChars 10 ds (c.toNat - 48) = k := by
  obtain ⟨c, ds, hdigits⟩ := List.exists_cons_of_ne_nil (Nat.toDigits_ne_nil (n := k) (b := 10))
  have hall : ∀ d ∈ c :: ds, d.isDigit = true := fun d hd =>
    Nat.isDigit_of_mem_toDigits (by decide) (by decide) (hdigits ▸ hd)
  obtain ⟨hc, hds⟩ := List.forall_mem_cons.1 hall
  have hvalue : Nat.ofDigitChars 10 (c :: ds) 0 = k := hdigits ▸ Nat.ofDigitChars_ten_toDigits
  rw [Nat.ofDigitChars_cons, Nat.mul_zero, Nat.zero_add] at hvalue
  exact ⟨c, ds, hdigits, hc, hds, hvalue⟩

section Numerals

variable {first c : Char} {start rest : List Char} {n n' : Numeral}

theorem scan_more (h : n.next c = .more n') :
    scan (.number first start n) (c :: rest) = scan (.number first start n') rest := by
  simp [scan, Mode.step, h]

/-- Digits of an integer are taken into it. -/
theorem scan_digits (hphase : n.phase = .integer) {ds : List Char}
    (hds : ∀ c ∈ ds, c.isDigit = true) :
    scan (.number first start n) (ds ++ rest) =
      scan (.number first start { n with digits := Nat.ofDigitChars 10 ds n.digits }) rest := by
  induction ds generalizing n with
  | nil => rfl
  | cons c ds ih =>
    obtain ⟨hc, hds⟩ := List.forall_mem_cons.1 hds
    have hnext : n.next c = .more (n.withDigit c) := by simp [Numeral.next, hphase, hc]
    rw [List.cons_append, scan_more hnext, ih (n := n.withDigit c) hphase hds,
      Nat.ofDigitChars_cons]
    simp only [Numeral.withDigit, Nat.mul_comm 10]
    rfl

/-- Digits of an exponent are taken into it. -/
theorem scan_exponentDigits (hphase : n.phase = .exponent) {ds : List Char}
    (hds : ∀ c ∈ ds, c.isDigit = true) :
    scan (.number first start n) (ds ++ rest) =
      scan (.number first start { n with exponent := Nat.ofDigitChars 10 ds n.exponent }) rest := by
  induction ds generalizing n with
  | nil => rfl
  | cons c ds ih =>
    obtain ⟨hc, hds⟩ := List.forall_mem_cons.1 hds
    have hnext : n.next c = .more (n.withExponentDigit c) := by simp [Numeral.next, hphase, hc]
    rw [List.cons_append, scan_more hnext, ih rfl hds, Nat.ofDigitChars_cons]
    simp only [Numeral.withExponentDigit, Nat.mul_comm 10, hphase]
    rfl

/-- A digit or a sign begins a number. -/
theorem enter_of_start? (h : Numeral.start? c = some n) (rest : List Char) :
    Mode.enter c rest = .go [] (.number c rest n) := by
  have hchar : c = '-' ∨ c.isDigit = true := by
    by_cases hminus : c = '-'
    · exact .inl hminus
    · by_cases hzero : c = '0'
      · exact .inr (hzero ▸ by decide)
      · refine .inr (Classical.byContradiction fun hdigit => ?_)
        simp [Numeral.start?, hminus, hzero, hdigit] at h
  have hne (d : Char) (hminus : d ≠ '-') (hdigit : d.isDigit = false) : c ≠ d := by
    rintro rfl
    rcases hchar with rfl | hc
    · exact hminus rfl
    · simp [hdigit] at hc
  simp [Mode.enter, isSpace, hne, h]

/-- A sign and a digit begin a number. -/
theorem exists_lexemes_signChars (negative : Bool) (hc : c.isDigit = true) (rest : List Char) :
    ∃ first start, lexemes (signChars negative ++ c :: rest) = scan (.number first start
      ⟨if c = '0' then .zero else .integer, negative, c.toNat - 48, 0, false, 0⟩) rest := by
  cases negative with
  | false =>
    have hminus : c ≠ '-' := ne_of_apply_ne Char.isDigit (by simp [hc])
    have hstart : Numeral.start? c = some
        ⟨if c = '0' then .zero else .integer, false, c.toNat - 48, 0, false, 0⟩ := by
      by_cases hzero : c = '0' <;> simp [Numeral.start?, hminus, hzero, hc]
    exact ⟨_, _, lexemes_go (enter_of_start? hstart _)⟩
  | true =>
    have hnext : Numeral.next ⟨.sign, true, 0, 0, false, 0⟩ c = .more
        ⟨if c = '0' then .zero else .integer, true, c.toNat - 48, 0, false, 0⟩ := by
      by_cases hzero : c = '0' <;> simp [Numeral.next, Numeral.withDigit, hzero, hc]
    exact ⟨_, _, (lexemes_go (enter_of_start? rfl _)).trans (scan_more hnext)⟩

/-- A number of which a sign and all digits have been taken. -/
def Numeral.whole (negative : Bool) (k : Nat) : Numeral :=
  ⟨if k = 0 then .zero else .integer, negative, k, 0, false, 0⟩

theorem exists_lexemes_whole (negative : Bool) (k : Nat) (rest : List Char) :
    ∃ first start, lexemes (signChars negative ++ (Nat.toDigits 10 k ++ rest)) =
      scan (.number first start (.whole negative k)) rest := by
  obtain ⟨c, ds, hdigits, hc, hds, hvalue⟩ := exists_toDigits_eq_cons k
  rw [hdigits, List.cons_append]
  obtain ⟨first, start, hlexemes⟩ := exists_lexemes_signChars negative hc (ds ++ rest)
  refine ⟨first, start, hlexemes.trans ?_⟩
  by_cases hk : k = 0
  · subst hk
    obtain ⟨rfl, rfl⟩ := List.cons.inj hdigits
    rfl
  · have hzero : c ≠ '0' := fun h => head?_toDigits_ne_zero hk (by rw [hdigits, h]; rfl)
    rw [if_neg hzero, scan_digits rfl hds, hvalue, Numeral.whole, if_neg hk]

/-- The exponent after its mark. -/
theorem scan_exponent (hphase : n.phase = .mark) (hsign : n.exponentNegative = false)
    (hzero : n.exponent = 0) (e : Int) :
    scan (.number first start n) ((toString e).toList ++ rest) =
      scan (.number first start { n with
        phase := .exponent, exponentNegative := decide (e < 0), exponent := e.natAbs }) rest := by
  obtain ⟨c, ds, hdigits, hc, hds, hvalue⟩ := exists_toDigits_eq_cons e.natAbs
  have hplus : c ≠ '+' := ne_of_apply_ne Char.isDigit (by simp [hc])
  have hminus : c ≠ '-' := ne_of_apply_ne Char.isDigit (by simp [hc])
  rw [toList_toString_eq_signChars, hdigits]
  by_cases he : e < 0
  · have hmark : n.next '-' =
        .more { n with phase := .exponentSign, exponentNegative := true } := by
      simp [Numeral.next, hphase]
    have hfirst : Numeral.next { n with phase := .exponentSign, exponentNegative := true } c =
        .more { n with
          phase := .exponent, exponentNegative := true, exponent := c.toNat - 48 } := by
      simp [Numeral.next, Numeral.withExponentDigit, hc, hzero]
    simp only [he, signChars, decide_true, if_true, List.cons_append, List.nil_append]
    rw [scan_more hmark, scan_more hfirst, scan_exponentDigits rfl hds, hvalue]
  · have hfirst : n.next c = .more { n with phase := .exponent, exponent := c.toNat - 48 } := by
      simp [Numeral.next, Numeral.withExponentDigit, hphase, hc, hzero, hplus, hminus]
    simp only [he, signChars, decide_false, Bool.false_eq_true, if_false, List.cons_append,
      List.nil_append]
    rw [scan_more hfirst, scan_exponentDigits rfl hds, hvalue, hsign]

/-- What is written for a number is read as this number, unless it is out of range. -/
theorem Number.contents_render {n : Number} (h : n.outOfRange = false) (hrest : WordEnds rest) :
    contents (lexemes (n.render.toList ++ rest)) =
      some (.number n) :: contents (lexemes rest) := by
  cases n with
  | integer n =>
    obtain ⟨first, start, hlexemes⟩ := exists_lexemes_whole (decide (n < 0)) n.natAbs rest
    have hcomplete : (Numeral.whole (decide (n < 0)) n.natAbs).isComplete = true := by
      by_cases hn : n.natAbs = 0 <;> simp [Numeral.whole, Numeral.isComplete, hn]
    have hvalue : (Numeral.whole (decide (n < 0)) n.natAbs).value = .integer n := by
      by_cases hn : n < 0
      · have hne : n.natAbs ≠ 0 := by omega
        have habs : -(n.natAbs : Int) = n := by omega
        simp only [Numeral.whole, Numeral.value, Numeral.isPlain, if_neg hne, hn, decide_true,
          if_true, habs]
      · have habs : (n.natAbs : Int) = n := by omega
        by_cases hne : n.natAbs = 0
        · obtain rfl : n = 0 := by omega
          rfl
        · simp only [Numeral.whole, Numeral.value, Numeral.isPlain, if_neg hne, hn, decide_false,
            Bool.false_eq_true, if_true, if_false, habs]
    rw [render, toList_toString_eq_signChars, List.append_assoc, hlexemes,
      contents_number_complete hcomplete first start hrest, hvalue, h]
    rfl
  | scaled negative digits exponent =>
    obtain ⟨first, start, hlexemes⟩ := exists_lexemes_whole negative digits
      ('e' :: ((toString exponent).toList ++ rest))
    have htext : (scaled negative digits exponent).render.toList ++ rest =
        signChars negative ++
          (Nat.toDigits 10 digits ++ 'e' :: ((toString exponent).toList ++ rest)) := by
      cases negative <;> simp [render, signChars]
    have hmark : (Numeral.whole negative digits).next 'e' =
        .more { Numeral.whole negative digits with phase := .mark } := by
      by_cases hdigits : digits = 0 <;> simp [Numeral.whole, Numeral.next, hdigits]
    have hvalue : Numeral.value { Numeral.whole negative digits with
        phase := .exponent, exponentNegative := decide (exponent < 0),
        exponent := exponent.natAbs } = .scaled negative digits exponent := by
      by_cases he : exponent < 0
      · have habs : -(exponent.natAbs : Int) = exponent := by omega
        simp only [Numeral.whole, Numeral.value, Numeral.isPlain, he, decide_true, if_true,
          Bool.false_eq_true, if_false, Int.natCast_zero, Int.sub_zero, habs]
      · have habs : (exponent.natAbs : Int) = exponent := by omega
        simp only [Numeral.whole, Numeral.value, Numeral.isPlain, he, decide_false,
          Bool.false_eq_true, if_false, Int.natCast_zero, Int.sub_zero, habs]
    rw [htext, hlexemes, scan_more hmark, scan_exponent rfl rfl rfl,
      contents_number_complete rfl first start hrest, hvalue, h]
    rfl

end Numerals

/-! ## The range of numbers -/

theorem Number.roundTo53Bits_le (n : Nat) : roundTo53Bits n ≤ 2 * n := by
  by_cases hn : n = 0
  · subst hn
    decide
  · have hunit : 2 ^ (n.log2 + 1 - 53) ≤ n :=
      Nat.le_trans (Nat.pow_le_pow_right (by decide) (by omega)) (Nat.log2_self_le hn)
    change Nat.pow 2 (n.log2 + 1 - 53) ≤ n at hunit
    unfold roundTo53Bits
    simp only
    generalize Nat.pow 2 (n.log2 + 1 - 53) = unit at hunit
    have hquotient := Nat.div_mul_le_self n unit
    split
    · omega
    · rw [Nat.add_mul, Nat.one_mul]
      omega

/-- No integer of 64 bits is out of range. -/
theorem Number.outOfRange_ofInt64 (n : Int64) : (ofInt64 n).outOfRange = false := by
  have hsize : UInt64.size = 18446744073709551616 := rfl
  have habs : n.toInt.natAbs < UInt64.size := by
    have hlow := n.le_toInt
    have hhigh := n.toInt_lt
    omega
  have hscale : Nat.pow 10 (Int.toNat 0) = 1 := rfl
  have hbound : roundTo53Bits (roundTo53Bits n.toInt.natAbs *
      roundTo53Bits (Nat.pow 10 (Int.toNat 0))) < 2 ^ 67 := by
    rw [hscale]
    have hproduct := Nat.mul_le_mul (roundTo53Bits_le n.toInt.natAbs) (roundTo53Bits_le 1)
    have hrounded := roundTo53Bits_le (roundTo53Bits n.toInt.natAbs * roundTo53Bits 1)
    omega
  rw [ofInt64, outOfRange, tooLarge, leading, if_pos habs]
  refine Bool.and_eq_false_iff.2 (.inr (Bool.or_eq_false_iff.2 ⟨rfl, decide_eq_false ?_⟩))
  -- the power of two is too large to be computed
  generalize hexponent : 1024 = exponent
  exact Nat.not_le.2 (Nat.lt_of_lt_of_le hbound (Nat.pow_le_pow_right (by decide) (by omega)))

/-! ## Texts -/

section Texts

variable {start taken rest : List Char}

theorem utf8Size_hexDigit {d : Nat} (h : d < 16) : (Text.hexDigit d).utf8Size = 1 := by
  have : ∀ m : Fin 16, (Text.hexDigit m).utf8Size = 1 := by decide
  exact this ⟨d, h⟩

/-- A digit of a unit is taken into it. -/
theorem scan_unit_digit {d width unit : Nat} (hd : d < 16) (hwidth : width + 1 < 4) :
    scan (.text start taken (.unit none width (some unit))) (Text.hexDigit d :: rest) =
      scan (.text start taken (.unit none (width + 1) (some (unit * 16 + d)))) rest := by
  simp [scan, Mode.step, Mode.textStep, Text.hexValue?_hexDigit hd, utf8Size_hexDigit hd, hwidth]

/-- The last digit of a unit below the surrogates makes its character. -/
theorem scan_unit_last {d unit : Nat} (hd : d < 16) (hunit : unit * 16 + d < 0xD800) :
    scan (.text start taken (.unit none 3 (some unit))) (Text.hexDigit d :: rest) =
      scan (.text start (Char.ofNat (unit * 16 + d) :: taken) .plain) rest := by
  have hhigh : isHigh (unit * 16 + d) = false := by
    simp [isHigh, Nat.not_le.2 hunit]
  have hlow : isLow (unit * 16 + d) = false := by
    have : ¬ 0xDC00 ≤ unit * 16 + d := by omega
    simp [isLow, this]
  simp [scan, Mode.step, Mode.textStep, Text.hexValue?_hexDigit hd, utf8Size_hexDigit hd,
    Mode.unitDone, hhigh, hlow]

/-- What is written for a character between quotes is read as this character. -/
theorem scan_escaped (c : Char) :
    scan (.text start taken .plain) (escaped c ++ rest) =
      scan (.text start (c :: taken) .plain) rest := by
  unfold escaped
  split_ifs with hquote hslash hfeed hreturn htab hback hform hcontrol
  · subst hquote
    rfl
  · subst hslash
    rfl
  · subst hfeed
    rfl
  · subst hreturn
    rfl
  · subst htab
    rfl
  · subst hback
    rfl
  · subst hform
    rfl
  · have hlow : c.toNat / 16 < 16 := by omega
    have hunit : Char.ofNat (c.toNat / 16 * 16 + c.toNat % 16) = c := by
      rw [Nat.div_add_mod', Char.ofNat_toNat]
    calc scan (.text start taken .plain)
          ('\\' :: 'u' :: Text.hexDigit 0 :: Text.hexDigit 0 :: Text.hexDigit (c.toNat / 16) ::
            Text.hexDigit (c.toNat % 16) :: rest)
        = scan (.text start taken (.unit none 0 (some 0)))
            (Text.hexDigit 0 :: Text.hexDigit 0 :: Text.hexDigit (c.toNat / 16) ::
              Text.hexDigit (c.toNat % 16) :: rest) := rfl
      _ = scan (.text start taken (.unit none 3 (some (c.toNat / 16))))
            (Text.hexDigit (c.toNat % 16) :: rest) := by
          rw [scan_unit_digit (by decide) (by decide), scan_unit_digit (by decide) (by decide),
            scan_unit_digit hlow (by decide)]
          simp
      _ = scan (.text start (c :: taken) .plain) rest := by
          rw [scan_unit_last (Nat.mod_lt _ (by decide)) (by omega), hunit]
  · have hstep : Mode.step c rest (.text start taken .plain) =
        .go [] (.text start (c :: taken) .plain) := by
      simp [Mode.step, Mode.textStep, hquote, hslash, hcontrol]
    exact scan_go hstep

theorem scan_escapes (cs : List Char) :
    scan (.text start taken .plain) (cs.flatMap escaped ++ rest) =
      scan (.text start (cs.reverse ++ taken) .plain) rest := by
  induction cs generalizing taken with
  | nil => rfl
  | cons c cs ih =>
    rw [List.flatMap_cons, List.append_assoc, scan_escaped, ih, List.reverse_cons,
      List.append_assoc, List.singleton_append]

/-- A text in writing is read as this text. -/
theorem contents_quoted (s : String) (rest : List Char) :
    contents (lexemes (quoted s ++ rest)) = some (.text s) :: contents (lexemes rest) := by
  have htext : quoted s ++ rest = '"' :: (s.toList.flatMap escaped ++ '"' :: rest) := by
    simp [quoted]
  have hopen : Mode.enter '"' (s.toList.flatMap escaped ++ '"' :: rest) =
      .go [] (.text (s.toList.flatMap escaped ++ '"' :: rest) [] .plain) := rfl
  rw [htext, lexemes_go hopen, List.nil_append, scan_escapes, scan_go rfl]
  simp [contents, Except.toOption, lexemes]

end Texts

/-! ## Control characters -/

/-- Characters that are not control characters. -/
def Visible (cs : List Char) : Prop := ∀ c ∈ cs, 0x20 ≤ c.toNat

theorem visible_append {cs cs' : List Char} : Visible (cs ++ cs') ↔ Visible cs ∧ Visible cs' :=
  List.forall_mem_append

theorem visible_cons {c : Char} {cs : List Char} :
    Visible (c :: cs) ↔ 0x20 ≤ c.toNat ∧ Visible cs :=
  List.forall_mem_cons

theorem visible_toDigits (k : Nat) : Visible (Nat.toDigits 10 k) := by
  intro c hc
  have hcode := code_of_isDigit (Nat.isDigit_of_mem_toDigits (by decide) (by decide) hc)
  omega

theorem visible_toString_int (n : Int) : Visible (toString n).toList := by
  have hsign : Visible (signChars (decide (n < 0))) := by
    cases decide (n < 0) <;> simp [Visible, signChars]
  rw [toList_toString_eq_signChars]
  exact visible_append.2 ⟨hsign, visible_toDigits _⟩

theorem Number.visible_render (n : Number) : Visible n.render.toList := by
  cases n with
  | integer n => exact visible_toString_int n
  | scaled negative digits exponent =>
    have hsign : Visible (if negative then "-" else "").toList := by
      cases negative <;> simp [Visible]
    have hmark : Visible "e".toList := by simp [Visible]
    have hdigits : Visible (toString digits).toList := by
      rw [Nat.toString_eq_ofList_toDigits, String.toList_ofList]
      exact visible_toDigits digits
    rw [render, String.toList_append, String.toList_append, String.toList_append]
    exact visible_append.2 ⟨visible_append.2 ⟨visible_append.2 ⟨hsign, hdigits⟩, hmark⟩,
      visible_toString_int exponent⟩

/-- No control character is written as it is. -/
theorem visible_escaped (c : Char) : Visible (escaped c) := by
  intro d h
  have hdigit : ∀ m : Fin 16, 0x20 ≤ (Text.hexDigit m).toNat := by decide
  have hpair : ∀ e : Char, 0x20 ≤ e.toNat → d ∈ ['\\', e] → 0x20 ≤ d.toNat := by
    intro e he hd
    rcases List.mem_pair.1 hd with rfl | rfl
    · decide
    · exact he
  unfold escaped at h
  split_ifs at h with hquote hslash hfeed hreturn htab hback hform hcontrol
  · exact hpair _ (by decide) h
  · exact hpair _ (by decide) h
  · exact hpair _ (by decide) h
  · exact hpair _ (by decide) h
  · exact hpair _ (by decide) h
  · exact hpair _ (by decide) h
  · exact hpair _ (by decide) h
  · simp only [List.mem_cons, List.not_mem_nil, or_false] at h
    rcases h with rfl | rfl | rfl | rfl | rfl | rfl
    · decide
    · decide
    · decide
    · decide
    · exact hdigit ⟨c.toNat / 16, by omega⟩
    · exact hdigit ⟨c.toNat % 16, by omega⟩
  · rw [List.mem_singleton.1 h]
    exact Nat.not_lt.1 hcontrol

theorem visible_quoted (s : String) : Visible (quoted s) := by
  refine visible_cons.2 ⟨by decide, visible_append.2 ⟨fun d hd => ?_, ?_⟩⟩
  · obtain ⟨c, -, hd⟩ := List.mem_flatMap.1 hd
    exact visible_escaped c d hd
  · exact visible_cons.2 ⟨by decide, List.forall_mem_nil _⟩

end ButtonDialog.Json
