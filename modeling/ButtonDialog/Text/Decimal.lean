/-! Integers of 64 bits, and their decimal texts. -/

namespace ButtonDialog

/-- An integer as one of 64 bits, if it fits. -/
def int64? (n : Int) : Option Int64 :=
  if Int64.minValue.toInt ≤ n ∧ n ≤ Int64.maxValue.toInt then some (Int64.ofInt n) else none

/-- Every integer of 64 bits fits. -/
@[simp] theorem int64?_toInt (n : Int64) : int64? n.toInt = some n := by
  have h : Int64.minValue.toInt ≤ n.toInt ∧ n.toInt ≤ Int64.maxValue.toInt :=
    ⟨n.minValue_le_toInt, n.toInt_le⟩
  rw [int64?, if_pos h, Int64.ofInt_toInt]

/-- A number fits as itself. -/
theorem int64?_eq_some_iff {n : Int} {m : Int64} : int64? n = some m ↔ n = m.toInt := by
  refine ⟨fun h => ?_, fun h => h ▸ int64?_toInt m⟩
  unfold int64? at h
  split at h
  · rename_i hrange
    have hle : n ≤ 9223372036854775807 := hrange.2
    rw [← Option.some.inj h, Int64.toInt_ofInt_of_le hrange.1 (by omega)]
  · nomatch h

/-- A number in decimal, with a minus sign if it is negative. -/
def decimal (n : Int64) : String := toString n.toInt

theorem toList_toString_int (n : Int) :
    (toString n).toList =
      if 0 ≤ n then Nat.toDigits 10 n.toNat else '-' :: Nat.toDigits 10 (-n).toNat := by
  rw [Int.toString_eq_repr, Int.repr_eq_if]
  split
  · exact Nat.toList_repr
  · rw [String.toList_append, Nat.toList_repr]
    rfl

theorem toList_decimal (n : Int64) :
    (decimal n).toList =
      if 0 ≤ n.toInt then Nat.toDigits 10 n.toInt.toNat
      else '-' :: Nat.toDigits 10 (-n.toInt).toNat :=
  toList_toString_int n.toInt

/-- Only digits and the minus sign stand in a decimal. -/
theorem isDigit_or_minus_of_mem_decimal {n : Int64} {c : Char} (h : c ∈ (decimal n).toList) :
    c.isDigit = true ∨ c = '-' := by
  rw [toList_decimal] at h
  split at h
  · exact .inl (Nat.isDigit_of_mem_toDigits (by decide) (by decide) h)
  · rcases List.mem_cons.1 h with h | h
    · exact .inr h
    · exact .inl (Nat.isDigit_of_mem_toDigits (by decide) (by decide) h)

theorem toDigits_injective {m n : Nat} (h : Nat.toDigits 10 m = Nat.toDigits 10 n) : m = n := by
  have hvalue := congrArg (Nat.ofDigitChars 10 · 0) h
  simpa using hvalue

/-- Different numbers have different decimals. -/
theorem decimal_injective {m n : Int64} (h : decimal m = decimal n) : m = n := by
  have hlist := congrArg String.toList h
  have hminus : ∀ k, '-' ∉ Nat.toDigits 10 k := fun k hk => by
    have := Nat.isDigit_of_mem_toDigits (by decide) (by decide) hk
    cases this
  rw [toList_decimal, toList_decimal] at hlist
  refine Int64.toInt_inj.1 ?_
  split at hlist <;> split at hlist
  · have := toDigits_injective hlist
    omega
  · exact absurd (hlist ▸ List.mem_cons_self) (hminus _)
  · exact absurd (hlist ▸ List.mem_cons_self) (hminus _)
  · have := toDigits_injective (List.cons.inj hlist).2
    omega

@[simp] theorem decimal_inj {m n : Int64} : decimal m = decimal n ↔ m = n :=
  ⟨decimal_injective, fun h => h ▸ rfl⟩

end ButtonDialog
