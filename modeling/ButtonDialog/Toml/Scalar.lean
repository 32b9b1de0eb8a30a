import ButtonDialog.Toml.Basic
import ButtonDialog.Text.Hex
import ButtonDialog.Text.Decimal

/-! Values of TOML that are written in one word: numbers, booleans, dates and times. -/

namespace ButtonDialog.Toml

/-- A character of a word. -/
def isWordChar (c : Char) : Bool :=
  c.isAlphanum || c == '_' || c == '+' || c == '-' || c == '.' || c == ':'

/-- Digits, with single underscores between them allowed. -/
def isDigits (isDigit : Char → Bool) (cs : List Char) : Bool :=
  (cs.splitOn '_').all fun group => !group.isEmpty && group.all isDigit

/-- The value of digits in a base, underscores left out. -/
def digitsValue (base : Nat) (cs : List Char) : Nat :=
  cs.foldl (fun n c => ((Text.hexValue? c).map fun digit => n * base + digit).getD n) 0

/-- A word without its sign, and whether the sign is a minus. -/
def unsigned : List Char → Bool × List Char
  | '-' :: cs => (true, cs)
  | '+' :: cs => (false, cs)
  | cs => (false, cs)

/-- Digits of a decimal number: a lone zero, or no zero in front. -/
def isDecimal (cs : List Char) : Bool :=
  cs == ['0'] || (cs.head? != some '0' && isDigits Char.isDigit cs)

/-- An integer written in a base that its prefix names. -/
def based? (base : Nat) (isDigit : Char → Bool) (cs : List Char) : Option Int64 :=
  if isDigits isDigit cs then int64? (digitsValue base cs) else none

/-- The integer of a word. -/
def integer? (word : List Char) : Option Int64 :=
  match word with
  | '0' :: 'x' :: cs => based? 16 (fun c => (Text.hexValue? c).isSome) cs
  | '0' :: 'o' :: cs => based? 8 (fun c => '0' ≤ c && c ≤ '7') cs
  | '0' :: 'b' :: cs => based? 2 (fun c => c == '0' || c == '1') cs
  | _ =>
    let (negative, cs) := unsigned word
    if isDecimal cs then
      int64? (if negative then -(digitsValue 10 cs : Int) else digitsValue 10 cs)
    else none

/-- Digits scaled by a power of ten are beyond every 64-bit float, rounded to the nearest one. -/
def isInfinite (digits : Nat) (power : Int) : Bool :=
  let magnitude := (Nat.toDigits 10 digits).length + power
  let limit := Nat.pow 2 1024 - Nat.pow 2 970
  digits != 0 && 308 ≤ magnitude &&
    (310 < magnitude ||
      if 0 ≤ power then limit ≤ digits * Nat.pow 10 power.toNat
      else limit * Nat.pow 10 (-power).toNat ≤ digits)

/-- Whether a word without its sign is a float with a point or an exponent, and whether it is too
large. -/
def float? (cs : List Char) : Option Bool :=
  let isMark (c : Char) : Bool := c == 'e' || c == 'E'
  let mantissa := cs.takeWhile fun c => !isMark c
  let whole := mantissa.takeWhile (· != '.')
  let point := mantissa.dropWhile (· != '.')
  let mark := cs.dropWhile fun c => !isMark c
  let exponent := unsigned (mark.drop 1)
  let fraction := point.drop 1
  if isDecimal whole && !(point.isEmpty && mark.isEmpty) &&
      (point.isEmpty || isDigits Char.isDigit fraction) &&
      (mark.isEmpty || isDigits Char.isDigit exponent.2) then
    let power : Int := digitsValue 10 exponent.2
    let scale : Int := (fraction.filter Char.isDigit).length
    some (isInfinite (digitsValue 10 (whole ++ fraction))
      ((if exponent.1 then -power else power) - scale))
  else none

/-- Whether a word is a float. A float that is too large is one only below zero. -/
def isFloat (word : List Char) : Bool :=
  let (negative, cs) := unsigned word
  cs == "inf".toList || cs == "nan".toList ||
    match float? cs with
    | some tooLarge => negative || !tooLarge
    | none => false

/-! ## Dates and times -/

/-- A number of two digits within bounds. -/
def isTwoDigits (least most : Nat) (cs : List Char) : Bool :=
  cs.length == 2 && cs.all Char.isDigit && least ≤ digitsValue 10 cs && digitsValue 10 cs ≤ most

/-- The number of days of a month. -/
def daysOf (year month : Nat) : Nat :=
  if month = 2 then (if year % 4 = 0 ∧ (year % 100 ≠ 0 ∨ year % 400 = 0) then 29 else 28)
  else if month = 4 ∨ month = 6 ∨ month = 9 ∨ month = 11 then 30
  else 31

/-- A date. -/
def isDate (cs : List Char) : Bool :=
  match cs.splitOn '-' with
  | [year, month, day] =>
    year.length == 4 && year.all Char.isDigit && isTwoDigits 1 12 month &&
      isTwoDigits 1 (daysOf (digitsValue 10 year) (digitsValue 10 month)) day
  | _ => false

/-- Hours and minutes. -/
def isClock (cs : List Char) : Bool :=
  match cs.splitOn ':' with
  | [hour, minute] => isTwoDigits 0 23 hour && isTwoDigits 0 59 minute
  | _ => false

/-- Seconds with a colon in front; a minute may have one second more. -/
def isSeconds : List Char → Bool
  | ':' :: second => isTwoDigits 0 60 second
  | _ => false

/-- A time of day, with or without a fraction of the second. -/
def isTime (cs : List Char) : Bool :=
  match cs.splitOn '.' with
  | [time] => isClock (time.take 5) && isSeconds (time.drop 5)
  | [time, fraction] =>
    isClock (time.take 5) && isSeconds (time.drop 5) && !fraction.isEmpty &&
      fraction.all Char.isDigit
  | _ => false

/-- A time of day with an offset, or without one. -/
def isTimeWithOffset (cs : List Char) : Bool :=
  let time := cs.takeWhile fun c => c.isDigit || c == ':' || c == '.'
  isTime time &&
    match cs.drop time.length with
    | [] => true
    | [c] => c == 'Z' || c == 'z'
    | sign :: offset => (sign == '+' || sign == '-') && isClock offset

/-- A date and a time in one word, or one of the two. -/
def isMoment (word : List Char) : Bool :=
  isDate word || isTime word ||
    (isDate (word.take 10) &&
      match word.drop 10 with
      | c :: time => (c == 'T' || c == 't') && isTimeWithOffset time
      | [] => false)

/-- The value of a word. -/
def scalar? (word : List Char) : Option Node :=
  if word = "true".toList then some (.boolean true)
  else if word = "false".toList then some (.boolean false)
  else match integer? word with
    | some n => some (.integer n)
    | none =>
      if isFloat word then some (.float (String.ofList word))
      else if isMoment word then some (.moment (String.ofList word))
      else none

/-- The value that starts a text, and what follows. A date takes the time after one space. -/
def scalarAt? (cs : List Char) : Option (Node × List Char) :=
  let word := cs.takeWhile isWordChar
  let rest := cs.dropWhile isWordChar
  match rest with
  | ' ' :: rest' =>
    let time := rest'.takeWhile isWordChar
    if isDate word && isTimeWithOffset time then
      some (.moment (String.ofList (word ++ ' ' :: time)), rest'.dropWhile isWordChar)
    else (scalar? word).map (·, rest)
  | _ => (scalar? word).map (·, rest)

end ButtonDialog.Toml
