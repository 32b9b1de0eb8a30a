import ButtonDialog.Toml.Quoted
import ButtonDialog.Toml.Scalar

/-! Reading TOML documents.

    A document is a list of lines: keys with values, and headers of tables. Values between brackets
    may go over several lines, tables between braces may not. How deep brackets and braces nest, and
    how many parts a key has, is bounded. -/

namespace ButtonDialog.Toml

/-- The bound on nesting and on the parts of a key. -/
def maxDepth : Nat := 80

/-- What a reader takes from the front of a text, and the rest. -/
abbrev Part (α : Type) : Type := α × List Char

/-- Line ends of two characters made one character. -/
def unifyLineEnds : List Char → List Char
  | '\r' :: '\n' :: cs => '\n' :: unifyLineEnds cs
  | c :: cs => c :: unifyLineEnds cs
  | [] => []

/-- The text without blanks at its front. -/
def skipBlanks (cs : List Char) : List Char := cs.dropWhile isBlank

/-- The text after a comment. -/
def skipComment : List Char → List Char
  | '#' :: cs => cs.dropWhile isPrintable
  | cs => cs

/-- The text after the end of a line, with blanks and a comment in front of it. -/
def lineEnd? (cs : List Char) : Option (List Char) :=
  match skipComment (skipBlanks cs) with
  | [] => some []
  | '\n' :: cs => some cs
  | _ => none

/-- The text without blanks, line ends and comments at its front. -/
def skipLines : (inComment : Bool) → List Char → Option (List Char)
  | true, [] => none
  | false, [] => some []
  | true, c :: cs =>
    if c = '\n' then skipLines false cs else if isPrintable c then skipLines true cs else none
  | false, c :: cs =>
    if isBlank c || c == '\n' then skipLines false cs
    else if c = '#' then skipLines true cs
    else some (c :: cs)

/-- A character of a key that is not quoted. -/
def isKeyChar (c : Char) : Bool := c.isAlphanum || c == '_' || c == '-'

/-- One part of a key. -/
def keyPart : List Char → Option (Part String)
  | '"' :: cs => lineText '"' true ([], .plain) cs
  | '\'' :: cs => lineText '\'' false ([], .plain) cs
  | cs =>
    let word := cs.takeWhile isKeyChar
    if word.isEmpty then none else some (String.ofList word, cs.drop word.length)

/-- The parts of a key, with blanks around each. -/
def keyParts : (fuel : Nat) → List Char → Option (Part (List String))
  | 0, _ => none
  | fuel + 1, cs => do
    let (name, rest) ← keyPart (skipBlanks cs)
    match skipBlanks rest with
    | '.' :: rest =>
      let (names, rest) ← keyParts fuel rest
      return (name :: names, rest)
    | rest => return ([name], rest)

/-- A key, which has fewer parts than the bound. -/
def key (cs : List Char) : Option (Part (List String)) := keyParts (maxDepth - 1) cs

mutual

/-- A value. -/
def value : (fuel depth : Nat) → List Char → Option (Part Node)
  | 0, _, _ => none
  | fuel + 1, depth, cs =>
    match cs with
    | '"' :: cs => do
      let (s, rest) ← quotedText '"' true cs
      return (.text s, rest)
    | '\'' :: cs => do
      let (s, rest) ← quotedText '\'' false cs
      return (.text s, rest)
    | '[' :: cs =>
      if depth + 1 < maxDepth then do
        let (elements, rest) ← elements fuel (depth + 1) cs
        return (.array elements, rest)
      else none
    | '\x7b' :: cs =>
      if depth + 1 < maxDepth then
        match skipBlanks cs with
        | '\x7d' :: rest => some (.table .braced [], rest)
        | _ => do
          let (rows, rest) ← pairs fuel (depth + 1) [] cs
          return (.table .braced rows, rest)
      else none
    | cs => scalarAt? cs

/-- The elements of an array up to its closing bracket. -/
def elements : (fuel depth : Nat) → List Char → Option (Part (List Node))
  | 0, _, _ => none
  | fuel + 1, depth, cs => do
    match ← skipLines false cs with
    | ']' :: rest => return ([], rest)
    | cs =>
      let (v, rest) ← value fuel depth cs
      match ← skipLines false rest with
      | ']' :: rest => return ([v], rest)
      | ',' :: rest =>
        let (vs, rest) ← elements fuel depth rest
        return (v :: vs, rest)
      | _ => none

/-- The pairs of a table between braces up to its closing brace. -/
def pairs : (fuel depth : Nat) → Rows → List Char → Option (Part Rows)
  | 0, _, _, _ => none
  | fuel + 1, depth, rows, cs => do
    let (name, rest) ← key cs
    match rest with
    | '=' :: rest =>
      let (v, rest) ← value fuel depth (skipBlanks rest)
      let rows ← rows.assign v name true
      match skipBlanks rest with
      | '\x7d' :: rest => return (rows, rest)
      | ',' :: rest => pairs fuel depth rows rest
      | _ => none
    | _ => none

end

/-- A header after its first bracket, and the text of the lines after it. -/
def header (b : Builder) : List Char → Option (Part Builder)
  | '[' :: cs => do
    let (name, rest) ← key cs
    match rest with
    | ']' :: ']' :: rest => return (← b.underRepeated name, ← lineEnd? rest)
    | _ => none
  | cs => do
    let (name, rest) ← key cs
    match rest with
    | ']' :: rest => return (← b.underHeader name, ← lineEnd? rest)
    | _ => none

/-- A key with its value, and the text of the lines after it. -/
def pair (fuel : Nat) (b : Builder) (cs : List Char) : Option (Part Builder) := do
  let (name, rest) ← key cs
  match rest with
  | '=' :: rest =>
    let (v, rest) ← value fuel 0 (skipBlanks rest)
    return (← b.assign name v, ← lineEnd? rest)
  | _ => none

/-- The lines of a document. -/
def lines : (fuel : Nat) → Builder → List Char → Option Builder
  | 0, _, _ => none
  | fuel + 1, b, cs =>
    match skipBlanks cs with
    | [] => some b
    | '\n' :: rest => lines fuel b rest
    | '#' :: rest => do lines fuel b (← lineEnd? ('#' :: rest))
    | '[' :: rest => do
      let (b, rest) ← header b rest
      lines fuel b rest
    | cs => do
      let (b, rest) ← pair (2 * cs.length + 2) b cs
      lines fuel b rest

/-- The table of a document; a byte order mark in front does not count. -/
def read? (text : String) : Option Rows := do
  let cs := unifyLineEnds text.toList
  let cs := if cs.head? = some '\ufeff' then cs.drop 1 else cs
  (← lines (cs.length + 1) .start cs).close

end ButtonDialog.Toml
