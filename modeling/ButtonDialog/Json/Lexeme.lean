import ButtonDialog.Json.Basic
import ButtonDialog.Text.Hex

/-! The lexemes of a JSON text.

    A machine takes the text one character at a time. Between lexemes it skips blanks; within a
    text, a number or a word it collects what it has seen. A character that does not fit, or the
    end of the text in the middle of a lexeme, makes a broken lexeme, and no lexeme follows a broken
    one. A lexeme keeps its first character and what follows that character, so that a reader can
    point at it. -/

namespace ButtonDialog.Json

/-- How a text fails to be JSON: it ends where more is needed, or a character does not fit. -/
inductive Defect where
  | truncated
  | misplaced
  deriving DecidableEq

/-- A defect, and the characters after the one that shows it. -/
structure Fault where
  defect : Defect
  rest : List Char

/-- A token of JSON. -/
inductive Token where
  | openArray
  | closeArray
  | openObject
  | closeObject
  | comma
  | colon
  | null
  | bool (b : Bool)
  | number (n : Number)
  | text (s : String)

/-- A stretch of the text that is a token, or that breaks off. -/
structure Lexeme where
  first : Char
  rest : List Char
  content : Except Fault Token

/-- The blanks of JSON: space, tab, line feed and carriage return. -/
def isSpace (c : Char) : Bool := c == ' ' || c == '\t' || c == '\n' || c == '\r'

/-! ## Numbers -/

/-- Where in a number the machine stands, named for what it took last. -/
inductive NumeralPhase where
  | sign
  | zero
  | integer
  | point
  | fraction
  | mark
  | exponentSign
  | exponent
  deriving DecidableEq

/-- The part of a number taken so far. -/
structure Numeral where
  phase : NumeralPhase
  negative : Bool
  digits : Nat
  fractionDigits : Nat
  exponentNegative : Bool
  exponent : Nat

namespace Numeral

/-- The start of a number at its sign or first digit. -/
def start? (c : Char) : Option Numeral :=
  if c = '-' then some ⟨.sign, true, 0, 0, false, 0⟩
  else if c = '0' then some ⟨.zero, false, 0, 0, false, 0⟩
  else if c.isDigit then some ⟨.integer, false, c.toNat - 48, 0, false, 0⟩
  else none

/-- What a character is to a number: its next part, the end of it, or a mistake. -/
inductive Next where
  | more (n : Numeral)
  | ended
  | mistaken

/-- The number with a digit appended before the exponent. -/
def withDigit (n : Numeral) (c : Char) : Numeral :=
  { n with digits := n.digits * 10 + (c.toNat - 48) }

/-- The number with a digit of its exponent appended. -/
def withExponentDigit (n : Numeral) (c : Char) : Numeral :=
  { n with phase := .exponent, exponent := n.exponent * 10 + (c.toNat - 48) }

/-- What a character is after the part taken so far. -/
def next (n : Numeral) (c : Char) : Next :=
  let marked : Next :=
    if c = 'e' ∨ c = 'E' then .more { n with phase := .mark } else .ended
  match n.phase with
  | .sign =>
    if c = '0' then .more { n with phase := .zero }
    else if c.isDigit then .more { n.withDigit c with phase := .integer }
    else .mistaken
  | .zero =>
    if c.isDigit then .mistaken
    else if c = '.' then .more { n with phase := .point }
    else marked
  | .integer =>
    if c.isDigit then .more (n.withDigit c)
    else if c = '.' then .more { n with phase := .point }
    else marked
  | .point =>
    if c.isDigit then .more { n.withDigit c with phase := .fraction, fractionDigits := 1 }
    else .mistaken
  | .fraction =>
    if c.isDigit then .more { n.withDigit c with fractionDigits := n.fractionDigits + 1 }
    else marked
  | .mark =>
    if c = '+' ∨ c = '-' then
      .more { n with phase := .exponentSign, exponentNegative := c == '-' }
    else if c.isDigit then .more (n.withExponentDigit c)
    else .mistaken
  | .exponentSign => if c.isDigit then .more (n.withExponentDigit c) else .mistaken
  | .exponent => if c.isDigit then .more (n.withExponentDigit c) else .ended

/-- Whether the number may end where it stands. -/
def isComplete (n : Numeral) : Bool :=
  match n.phase with
  | .zero | .integer | .fraction | .exponent => true
  | .sign | .point | .mark | .exponentSign => false

/-- Whether the number has been written as an integer. -/
def isPlain (n : Numeral) : Bool :=
  match n.phase with
  | .zero => !n.negative
  | .integer => true
  | _ => false

/-- The number that was written. -/
def value (n : Numeral) : Number :=
  if n.isPlain then .integer (if n.negative then -n.digits else n.digits)
  else
    let power : Int := if n.exponentNegative then -n.exponent else n.exponent
    .scaled n.negative n.digits (power - n.fractionDigits)

/-- The token of a complete number, or the fault of one that is out of range. -/
def token (n : Numeral) (rest : List Char) : Except Fault Token :=
  if n.value.outOfRange then .error ⟨.misplaced, rest⟩ else .ok (.number n.value)

end Numeral

/-! ## The machine -/

/-- Where between the quotes the machine stands. -/
inductive TextPhase where
  /-- among characters that stand for themselves -/
  | plain
  /-- after a backslash -/
  | escape
  /-- after `\u`: `width` bytes are taken, their digits make `value`, and `high` is the first half
  of a pair -/
  | unit (high : Option Nat) (width : Nat) (value : Option Nat)
  /-- after the first half of a pair, where a backslash must follow -/
  | pair (high : Nat)
  /-- after the first half of a pair and a backslash, where `u` must follow -/
  | pairEscape (high : Nat)

/-- Where in the text the machine stands. Within a lexeme, `first` and `start` are its first
character and what follows that one. -/
inductive Mode where
  | between
  | text (start : List Char) (taken : List Char) (phase : TextPhase)
  | number (first : Char) (start : List Char) (n : Numeral)
  | word (first : Char) (start : List Char) (left : List Char) (token : Token)

/-- What a character brings about: lexemes and a place to go on from, or lexemes and an end. -/
inductive Step where
  | go (made : List Lexeme) (mode : Mode)
  | halt (made : List Lexeme)

/-- A broken text. -/
def Step.brokenText (start : List Char) (defect : Defect) (rest : List Char) : Step :=
  .halt [⟨'"', start, .error ⟨defect, rest⟩⟩]

/-- What a character between lexemes brings about. -/
def Mode.enter (c : Char) (rest : List Char) : Step :=
  let single (t : Token) : Step := .go [⟨c, rest, .ok t⟩] .between
  if isSpace c then .go [] .between
  else if c = '[' then single .openArray
  else if c = ']' then single .closeArray
  else if c = '\x7b' then single .openObject
  else if c = '\x7d' then single .closeObject
  else if c = ',' then single .comma
  else if c = ':' then single .colon
  else if c = '"' then .go [] (.text rest [] .plain)
  else if c = 'n' then .go [] (.word c rest ['u', 'l', 'l'] .null)
  else if c = 't' then .go [] (.word c rest ['r', 'u', 'e'] (.bool true))
  else if c = 'f' then .go [] (.word c rest ['a', 'l', 's', 'e'] (.bool false))
  else match Numeral.start? c with
    | some n => .go [] (.number c rest n)
    | none => .halt [⟨c, rest, .error ⟨.misplaced, rest⟩⟩]

/-- The character that a letter after a backslash stands for. -/
def simpleEscape? (c : Char) : Option Char :=
  if c = '"' ∨ c = '\\' ∨ c = '/' then some c
  else if c = 'b' then some '\x08'
  else if c = 'f' then some '\x0c'
  else if c = 'n' then some '\n'
  else if c = 'r' then some '\r'
  else if c = 't' then some '\t'
  else none

/-- The first half of a surrogate pair. -/
def isHigh (unit : Nat) : Bool := 0xD800 ≤ unit && unit ≤ 0xDBFF

/-- The second half of a surrogate pair. -/
def isLow (unit : Nat) : Bool := 0xDC00 ≤ unit && unit ≤ 0xDFFF

/-- The character of a surrogate pair. -/
def paired (high low : Nat) : Char := Char.ofNat (0x10000 + (high - 0xD800) * 1024 + (low - 0xDC00))

/-- What a finished unit brings about, after the first half of a pair or alone. -/
def Mode.unitDone (start taken : List Char) (rest : List Char) : Option Nat → Nat → Step
  | none, unit =>
    if isLow unit then .brokenText start .misplaced rest
    else if isHigh unit then .go [] (.text start taken (.pair unit))
    else .go [] (.text start (Char.ofNat unit :: taken) .plain)
  | some high, unit =>
    if isLow unit then .go [] (.text start (paired high unit :: taken) .plain)
    else .brokenText start .misplaced rest

/-- What a character between quotes brings about. The digits of a unit fill four bytes; a character
that is no digit spoils the unit, which is found once the four bytes are taken. -/
def Mode.textStep (start taken : List Char) (c : Char) (rest : List Char) : TextPhase → Step
  | .plain =>
    if c = '"' then .go [⟨'"', start, .ok (.text (String.ofList taken.reverse))⟩] .between
    else if c = '\\' then .go [] (.text start taken .escape)
    else if c.toNat < 0x20 then .brokenText start .misplaced rest
    else .go [] (.text start (c :: taken) .plain)
  | .escape =>
    if c = 'u' then .go [] (.text start taken (.unit none 0 (some 0)))
    else match simpleEscape? c with
      | some meant => .go [] (.text start (meant :: taken) .plain)
      | none => .brokenText start .misplaced rest
  | .unit high width value =>
    let value := do return (← value) * 16 + (← Text.hexValue? c)
    let width := width + c.utf8Size
    if width < 4 then .go [] (.text start taken (.unit high width value))
    else match value with
      | some unit => Mode.unitDone start taken rest high unit
      | none => .brokenText start .misplaced rest
  | .pair high =>
    if c = '\\' then .go [] (.text start taken (.pairEscape high))
    else .brokenText start .misplaced rest
  | .pairEscape high =>
    if c = 'u' then .go [] (.text start taken (.unit (some high) 0 (some 0)))
    else .brokenText start .misplaced rest

/-- A lexeme in front of what a step makes. -/
def Step.after (made : Lexeme) : Step → Step
  | .go more mode => .go (made :: more) mode
  | .halt more => .halt (made :: more)

/-- What a character brings about. -/
def Mode.step (c : Char) (rest : List Char) : Mode → Step
  | .between => Mode.enter c rest
  | .text start taken phase => Mode.textStep start taken c rest phase
  | .number first start n =>
    match n.next c with
    | .more n => .go [] (.number first start n)
    | .mistaken => .halt [⟨first, start, .error ⟨.misplaced, rest⟩⟩]
    | .ended =>
      match n.token (c :: rest) with
      | .ok token => (Mode.enter c rest).after ⟨first, start, .ok token⟩
      | .error fault => .halt [⟨first, start, .error fault⟩]
  | .word first start left token =>
    match left with
    | [last] =>
      if c = last then .go [⟨first, start, .ok token⟩] .between
      else .halt [⟨first, start, .error ⟨.misplaced, rest⟩⟩]
    | wanted :: left =>
      if c = wanted then .go [] (.word first start left token)
      else .halt [⟨first, start, .error ⟨.misplaced, rest⟩⟩]
    | [] => .halt [⟨first, start, .error ⟨.misplaced, rest⟩⟩]

/-- What the end of the text brings about. -/
def Mode.finish : Mode → List Lexeme
  | .between => []
  | .text start _ _ => [⟨'"', start, .error ⟨.truncated, []⟩⟩]
  | .number first start n =>
    [⟨first, start, if n.isComplete then n.token [] else .error ⟨.truncated, []⟩⟩]
  | .word first start _ _ => [⟨first, start, .error ⟨.truncated, []⟩⟩]

/-- The lexemes of a text, from a place within it. -/
def scan : Mode → List Char → List Lexeme
  | mode, [] => mode.finish
  | mode, c :: rest =>
    match mode.step c rest with
    | .go made mode => made ++ scan mode rest
    | .halt made => made

/-- The lexemes of a text. -/
def lexemes (text : List Char) : List Lexeme := scan .between text

end ButtonDialog.Json
