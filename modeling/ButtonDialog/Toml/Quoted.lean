import ButtonDialog.Text.Hex

/-! Quoted texts of TOML.

    A text on one line ends at its quote. A text over several lines ends at three quotes in a row,
    of which up to two more in front belong to the text. Between double quotes a backslash escapes;
    over several lines it also takes away a line end and the blanks after it. -/

namespace ButtonDialog.Toml

/-- A blank within a line. -/
def isBlank (c : Char) : Bool := c == ' ' || c == '\t'

/-- A character that may stand in a comment or between quotes. -/
def isPrintable (c : Char) : Bool := c == '\t' || (0x20 ≤ c.toNat && c.toNat != 0x7F)

/-- The character of a number that is one. -/
def charOf? (n : Nat) : Option Char := if n.isValidChar then some (Char.ofNat n) else none

/-- The character that a letter after a backslash stands for. -/
def simpleEscape? (c : Char) : Option Char :=
  if c = '"' ∨ c = '\\' then some c
  else if c = 'b' then some '\x08'
  else if c = 'f' then some '\x0c'
  else if c = 'n' then some '\n'
  else if c = 'r' then some '\r'
  else if c = 't' then some '\t'
  else none

/-- Where between quotes a character stands. -/
inductive QuotePhase where
  /-- among characters that stand for themselves -/
  | plain
  /-- after a backslash -/
  | escape
  /-- in the digits of a character, with this many left and this value so far -/
  | digits (left value : Nat)
  /-- after a backslash and blanks, where the line must end -/
  | lineEnd
  /-- after a line end that was taken away, where blanks are taken away too -/
  | resumed
  /-- after this many quotes in a row -/
  | quotes (n : Nat)

/-- The characters taken so far, the latest first, and where the next one stands. -/
abbrev Taken : Type := List Char × QuotePhase

/-- Takes the character after a backslash. -/
def takeEscape (taken : List Char) (c : Char) : Option Taken :=
  if c = 'u' then some (taken, .digits 4 0)
  else if c = 'U' then some (taken, .digits 8 0)
  else (simpleEscape? c).map fun meant => (meant :: taken, .plain)

/-- Takes a digit of a character that is written by its number. -/
def takeDigit (taken : List Char) (left value : Nat) (c : Char) : Option Taken := do
  let value := value * 16 + (← Text.hexValue? c)
  if 1 < left then return (taken, .digits (left - 1) value)
  return ((← charOf? value) :: taken, .plain)

/-! ## On one line -/

/-- Takes a character that does not end the text. -/
def takeInLine (escapes : Bool) (taken : List Char) (c : Char) : QuotePhase → Option Taken
  | .escape => takeEscape taken c
  | .digits left value => takeDigit taken left value c
  | _ =>
    if escapes && c == '\\' then some (taken, .escape)
    else if isPrintable c then some (c :: taken, .plain)
    else none

/-- Whether a quote ends the text here. -/
def QuotePhase.isPlain : QuotePhase → Bool
  | .plain => true
  | _ => false

/-- The text up to its quote, and what follows. -/
def lineText (quote : Char) (escapes : Bool) : Taken → List Char → Option (String × List Char)
  | _, [] => none
  | (taken, phase), c :: cs =>
    if phase.isPlain && c == quote then some (String.ofList taken.reverse, cs)
    else match takeInLine escapes taken c phase with
      | some next => lineText quote escapes next cs
      | none => none

/-! ## Over several lines -/

/-- Takes a character that is not escaped. -/
def takePlain (quote : Char) (escapes : Bool) (taken : List Char) (c : Char) : Option Taken :=
  if c = quote then some (taken, .quotes 1)
  else if escapes && c == '\\' then some (taken, .escape)
  else if isPrintable c || c == '\n' then some (c :: taken, .plain)
  else none

/-- Takes a character that does not end the text. -/
def takeInLines (quote : Char) (escapes : Bool) (taken : List Char) (c : Char) :
    QuotePhase → Option Taken
  | .plain => takePlain quote escapes taken c
  | .escape =>
    if isBlank c then some (taken, .lineEnd)
    else if c = '\n' then some (taken, .resumed)
    else takeEscape taken c
  | .digits left value => takeDigit taken left value c
  | .lineEnd =>
    if isBlank c then some (taken, .lineEnd)
    else if c = '\n' then some (taken, .resumed)
    else none
  | .resumed =>
    if isBlank c || c == '\n' then some (taken, .resumed) else takePlain quote escapes taken c
  | .quotes n =>
    if c = quote then some (taken, .quotes (n + 1))
    else takePlain quote escapes (List.replicate n quote ++ taken) c

/-- The number of quotes that end the text, if it ends in front of what follows: three, and up to
two more that belong to the text. -/
def QuotePhase.ending? (quote : Char) (next : Option Char) : QuotePhase → Option Nat
  | .quotes n => if n = 5 ∨ (3 ≤ n ∧ next ≠ some quote) then some n else none
  | _ => none

/-- The text up to its three quotes, and what follows. -/
def linesText (quote : Char) (escapes : Bool) : Taken → List Char → Option (String × List Char)
  | (taken, phase), cs =>
    match phase.ending? quote cs.head? with
    | some n => some (String.ofList (List.replicate (n - 3) quote ++ taken).reverse, cs)
    | none =>
      match cs with
      | [] => none
      | c :: cs =>
        match takeInLines quote escapes taken c phase with
        | some next => linesText quote escapes next cs
        | none => none

/-- The text after its first quote, whatever its form, and what follows. -/
def quotedText (quote : Char) (escapes : Bool) (cs : List Char) : Option (String × List Char) :=
  match cs with
  | q :: q' :: '\n' :: rest =>
    if q = quote ∧ q' = quote then linesText quote escapes ([], .plain) rest
    else lineText quote escapes ([], .plain) cs
  | q :: q' :: rest =>
    if q = quote ∧ q' = quote then linesText quote escapes ([], .plain) rest
    else lineText quote escapes ([], .plain) cs
  | _ => lineText quote escapes ([], .plain) cs

end ButtonDialog.Toml
