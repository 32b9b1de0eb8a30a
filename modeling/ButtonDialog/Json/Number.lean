import ButtonDialog.Text.Decimal

/-! Numbers of a JSON text.

    A number is an integer when it is written without a point or an exponent and is not `-0`. Any
    other number keeps its sign, its digits as one natural number, and the power of ten they are
    scaled by. A number is out of range when a 64-bit float cannot hold it: the leading digits that
    fit a 64-bit word, and the power of ten that scales them, are each rounded to 53 bits, and the
    rounded product is infinite. -/

namespace ButtonDialog.Json

/-- A number as it was written. -/
inductive Number where
  | integer (n : Int)
  | scaled (negative : Bool) (digits : Nat) (exponent : Int)
  deriving DecidableEq

namespace Number

/-- The nearest number of at most 53 bits and a power of two; a tie goes to the even neighbour. -/
def roundTo53Bits (n : Nat) : Nat :=
  let unit := Nat.pow 2 (n.log2 + 1 - 53)
  let quotient := n / unit
  let twice := 2 * (n % unit)
  if twice < unit ∨ (twice = unit ∧ quotient % 2 = 0) then quotient * unit
  else (quotient + 1) * unit

/-- The leading digits that fit a 64-bit word, and the power of ten that scales them. -/
def leading (digits : Nat) (exponent : Int) : Nat × Int :=
  if digits < UInt64.size then (digits, exponent) else leading (digits / 10) (exponent + 1)
termination_by digits
decreasing_by
  have : UInt64.size = 18446744073709551616 := rfl
  omega

/-- Whether digits scaled by a power of ten are beyond every 64-bit float. -/
def tooLarge (digits : Nat) (exponent : Int) : Bool :=
  let (head, power) := leading digits exponent
  head != 0 && 0 ≤ power &&
    (308 < power ||
      Nat.pow 2 1024 ≤ roundTo53Bits (roundTo53Bits head * roundTo53Bits (Nat.pow 10 power.toNat)))

/-- Whether a number is beyond every 64-bit float. -/
def outOfRange : Number → Bool
  | .integer n => tooLarge n.natAbs 0
  | .scaled _ digits exponent => tooLarge digits exponent

/-- The value of an integer that fits 64 bits with sign. -/
def toInt64? : Number → Option Int64
  | .integer n => int64? n
  | .scaled .. => none

/-- The number of a 64-bit integer. -/
def ofInt64 (n : Int64) : Number := .integer n.toInt

/-- Integers come back as they were put in. -/
@[simp] theorem toInt64?_ofInt64 (n : Int64) : (ofInt64 n).toInt64? = some n := int64?_toInt n

/-- A number in writing: an integer in decimal, any other as its digits and an exponent. -/
def render : Number → String
  | .integer n => toString n
  | .scaled negative digits exponent =>
    (if negative then "-" else "") ++ toString digits ++ "e" ++ toString exponent

end Number

end ButtonDialog.Json
