import ButtonDialog.Text.Blank

/-! Cleaning a lenient text.

    A lenient text is JSON with comments and with commas before closing brackets. Cleaning takes
    these out and keeps every line end, so that a line of the cleaned text is the same line of the
    text. A line comment leaves its line end, a block comment the line ends inside it and one
    space. Nothing between quotes is touched. -/

namespace ButtonDialog.Json.Lenient

/-- Where in a lenient text a character stands. -/
inductive Place where
  /-- outside quotes and comments -/
  | code
  /-- between quotes -/
  | text
  /-- between quotes, after a backslash -/
  | escape
  /-- in a comment that ends with the line -/
  | line
  /-- in a comment that ends with a star and a slash; `star` tells whether a star came last -/
  | block (star : Bool)
  deriving DecidableEq

/-- The characters from a place on, without comments. -/
def dropComments : Place → List Char → List Char
  | .block _, [] => [' ']
  | _, [] => []
  | .code, '/' :: '/' :: cs => dropComments .line cs
  | .code, '/' :: '*' :: cs => dropComments (.block false) cs
  | .code, c :: cs => c :: dropComments (if c = '"' then .text else .code) cs
  | .text, c :: cs =>
    c :: dropComments (if c = '\\' then .escape else if c = '"' then .code else .text) cs
  | .escape, c :: cs => c :: dropComments .text cs
  | .line, c :: cs => if c = '\n' then c :: dropComments .code cs else dropComments .line cs
  | .block star, c :: cs =>
    if star = true ∧ c = '/' then ' ' :: dropComments .code cs
    else if c = '\n' then c :: dropComments (.block false) cs
    else dropComments (.block (c == '*')) cs

/-- Whether the first character that is not blank closes an array or object. -/
def closes (cs : List Char) : Bool :=
  match Text.trimStart cs with
  | c :: _ => c == '\x7d' || c == ']'
  | [] => false

/-- The characters from a place on, without the commas before closing brackets. -/
def dropCommas : Place → List Char → List Char
  | _, [] => []
  | .text, c :: cs =>
    c :: dropCommas (if c = '\\' then .escape else if c = '"' then .code else .text) cs
  | .escape, c :: cs => c :: dropCommas .text cs
  | place, c :: cs =>
    if c = ',' ∧ closes cs = true then dropCommas place cs
    else c :: dropCommas (if c = '"' then .text else place) cs

/-- The strict text of a lenient one. -/
def clean (text : List Char) : List Char := dropCommas .code (dropComments .code text)

end ButtonDialog.Json.Lenient
