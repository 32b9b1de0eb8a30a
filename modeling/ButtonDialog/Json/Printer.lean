import ButtonDialog.Json.Basic
import ButtonDialog.Text.Hex

/-! JSON values in writing.

    The compact form has no blanks. The indented form puts every element and member on a line of
    its own, two spaces deeper than the brackets around it; empty brackets stay together. In both
    a text is written with its quotes, backslashes and control characters escaped and all else as
    it is. -/

namespace ButtonDialog.Json

/-- A character between quotes. -/
def escaped (c : Char) : List Char :=
  if c = '"' then ['\\', '"']
  else if c = '\\' then ['\\', '\\']
  else if c = '\n' then ['\\', 'n']
  else if c = '\r' then ['\\', 'r']
  else if c = '\t' then ['\\', 't']
  else if c = '\x08' then ['\\', 'b']
  else if c = '\x0c' then ['\\', 'f']
  else if c.toNat < 0x20 then
    ['\\', 'u', '0', '0', Text.hexDigit (c.toNat / 16), Text.hexDigit (c.toNat % 16)]
  else [c]

/-- A text between quotes. -/
def quoted (s : String) : List Char := '"' :: (s.toList.flatMap escaped ++ ['"'])

/-- Pieces with `separator` between them. -/
def separated (separator : List Char) (pieces : List (List Char)) : List Char :=
  separator.intercalate pieces

mutual

/-- The characters of the compact form. -/
def compact : Json → List Char
  | .null => "null".toList
  | .bool true => "true".toList
  | .bool false => "false".toList
  | .number n => n.render.toList
  | .text s => quoted s
  | .array elements => '[' :: (separated [','] (compactElements elements) ++ [']'])
  | .object members => '\x7b' :: (separated [','] (compactMembers members) ++ ['\x7d'])

/-- The elements, each in the compact form. -/
def compactElements : List Json → List (List Char)
  | [] => []
  | v :: elements => compact v :: compactElements elements

/-- The members, each with its name in front. -/
def compactMembers : List (String × Json) → List (List Char)
  | [] => []
  | (name, v) :: members => (quoted name ++ ':' :: compact v) :: compactMembers members

end

/-- The compact form. -/
def render (v : Json) : String := String.ofList (compact v)

/-- A line end and the indentation of a depth. -/
def lineStart (depth : Nat) : List Char := '\n' :: List.replicate (2 * depth) ' '

/-- Lines at `depth + 1` between brackets at `depth`; brackets around no lines stay together. -/
def bracketed (opening closing : Char) (depth : Nat) (lines : List (List Char)) : List Char :=
  if lines.isEmpty then [opening, closing]
  else opening :: (lineStart (depth + 1) ++ separated (',' :: lineStart (depth + 1)) lines ++
    lineStart depth ++ [closing])

mutual

/-- The characters of the indented form at a depth. -/
def indented (depth : Nat) : Json → List Char
  | .array elements => bracketed '[' ']' depth (indentedElements (depth + 1) elements)
  | .object members => bracketed '\x7b' '\x7d' depth (indentedMembers (depth + 1) members)
  | .null => compact .null
  | .bool b => compact (.bool b)
  | .number n => compact (.number n)
  | .text s => compact (.text s)

/-- The elements, each in the indented form. -/
def indentedElements (depth : Nat) : List Json → List (List Char)
  | [] => []
  | v :: elements => indented depth v :: indentedElements depth elements

/-- The members, each with its name and a space in front. -/
def indentedMembers (depth : Nat) : List (String × Json) → List (List Char)
  | [] => []
  | (name, v) :: members =>
    (quoted name ++ ':' :: ' ' :: indented depth v) :: indentedMembers depth members

end

/-- The indented form. -/
def renderIndented (v : Json) : String := String.ofList (indented 0 v)

end ButtonDialog.Json
