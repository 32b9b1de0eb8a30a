/-! Bytes written in the URL-safe base64 alphabet, without padding.

    Three bytes make four symbols of six bits each. One byte left over makes two symbols, two bytes
    make three. -/

namespace ButtonDialog.Base64Url

/-- The symbol of a number below sixty-four. -/
def symbol (n : Nat) : Char :=
  if n < 26 then Char.ofNat (n + 65)
  else if n < 52 then Char.ofNat (n + 71)
  else if n < 62 then Char.ofNat (n - 4)
  else if n = 62 then '-'
  else '_'

/-- A character of the alphabet. -/
def isSymbol (c : Char) : Bool := c.isAlphanum || c == '-' || c == '_'

/-- Every number that six bits hold has its symbol in the alphabet. -/
theorem isSymbol_symbol {n : Nat} (h : n < 64) : isSymbol (symbol n) = true := by
  have : ∀ m : Fin 64, isSymbol (symbol m) = true := by decide
  exact this ⟨n, h⟩

/-- Different numbers below sixty-four have different symbols. -/
theorem symbol_injective {m n : Nat} (hm : m < 64) (hn : n < 64) (h : symbol m = symbol n) :
    m = n := by
  have : ∀ m n : Fin 64, symbol m = symbol n → m = n := by decide +kernel
  exact Fin.mk.inj (this ⟨m, hm⟩ ⟨n, hn⟩ h)

/-- The symbols of a list of bytes. -/
def symbols : List UInt8 → List Char
  | [] => []
  | [a] => [symbol (a.toNat / 4), symbol (a.toNat % 4 * 16)]
  | [a, b] =>
    [symbol (a.toNat / 4), symbol (a.toNat % 4 * 16 + b.toNat / 16), symbol (b.toNat % 16 * 4)]
  | a :: b :: c :: bytes =>
    symbol (a.toNat / 4) :: symbol (a.toNat % 4 * 16 + b.toNat / 16) ::
      symbol (b.toNat % 16 * 4 + c.toNat / 64) :: symbol (c.toNat % 64) :: symbols bytes

/-- The text of a list of bytes. -/
def encode (bytes : List UInt8) : String := String.ofList (symbols bytes)

/-- The number of symbols, four for three bytes and one more than the bytes left over. -/
theorem length_symbols (bytes : List UInt8) :
    (symbols bytes).length = (4 * bytes.length + 2) / 3 := by
  fun_induction symbols bytes with
  | case1 => rfl
  | case2 => simp
  | case3 => simp
  | case4 a b c bytes ih => simp only [List.length_cons, ih]; omega

/-- All symbols stand in the alphabet. -/
theorem isSymbol_of_mem_symbols {bytes : List UInt8} {c : Char} (h : c ∈ symbols bytes) :
    isSymbol c = true := by
  have hsymbol : ∀ n, n < 64 → c = symbol n → isSymbol c = true := fun n hn e =>
    e ▸ isSymbol_symbol hn
  fun_induction symbols bytes with
  | case1 => cases h
  | case2 a =>
    have := a.toNat_lt
    simp only [List.mem_cons, List.not_mem_nil, or_false] at h
    rcases h with h | h <;> exact hsymbol _ (by omega) h
  | case3 a b =>
    have := a.toNat_lt
    have := b.toNat_lt
    simp only [List.mem_cons, List.not_mem_nil, or_false] at h
    rcases h with h | h | h <;> exact hsymbol _ (by omega) h
  | case4 a b c bytes ih =>
    have := a.toNat_lt
    have := b.toNat_lt
    have := c.toNat_lt
    simp only [List.mem_cons] at h
    rcases h with h | h | h | h | h
    · exact hsymbol _ (by omega) h
    · exact hsymbol _ (by omega) h
    · exact hsymbol _ (by omega) h
    · exact hsymbol _ (by omega) h
    · exact ih h

/-- Bytes can be told from their symbols. -/
theorem symbols_injective : ∀ {bytes bytes' : List UInt8}, bytes.length = bytes'.length →
    symbols bytes = symbols bytes' → bytes = bytes'
  | [], [], _, _ => rfl
  | [a], [a'], _, h => by
    have ha := a.toNat_lt
    have ha' := a'.toNat_lt
    simp only [symbols, List.cons.injEq, and_true] at h
    have hhigh := symbol_injective (by omega) (by omega) h.1
    have hlow := symbol_injective (by omega) (by omega) h.2
    rw [UInt8.toNat_inj.1 (by omega : a.toNat = a'.toNat)]
  | [a, b], [a', b'], _, h => by
    have ha := a.toNat_lt
    have hb := b.toNat_lt
    have ha' := a'.toNat_lt
    have hb' := b'.toNat_lt
    simp only [symbols, List.cons.injEq, and_true] at h
    have hfirst := symbol_injective (by omega) (by omega) h.1
    have hsecond := symbol_injective (by omega) (by omega) h.2.1
    have hthird := symbol_injective (by omega) (by omega) h.2.2
    rw [UInt8.toNat_inj.1 (by omega : a.toNat = a'.toNat),
      UInt8.toNat_inj.1 (by omega : b.toNat = b'.toNat)]
  | a :: b :: c :: bytes, a' :: b' :: c' :: bytes', hlength, h => by
    have ha := a.toNat_lt
    have hb := b.toNat_lt
    have hc := c.toNat_lt
    have ha' := a'.toNat_lt
    have hb' := b'.toNat_lt
    have hc' := c'.toNat_lt
    simp only [symbols, List.cons.injEq] at h
    have hfirst := symbol_injective (by omega) (by omega) h.1
    have hsecond := symbol_injective (by omega) (by omega) h.2.1
    have hthird := symbol_injective (by omega) (by omega) h.2.2.1
    have hfourth := symbol_injective (by omega) (by omega) h.2.2.2.1
    rw [UInt8.toNat_inj.1 (by omega : a.toNat = a'.toNat),
      UInt8.toNat_inj.1 (by omega : b.toNat = b'.toNat),
      UInt8.toNat_inj.1 (by omega : c.toNat = c'.toNat),
      symbols_injective (by simpa using hlength) h.2.2.2.2]

end ButtonDialog.Base64Url
