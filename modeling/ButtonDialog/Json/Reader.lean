import ButtonDialog.Json.Lexeme

/-! Reading JSON strictly.

    The reader takes the lexemes in order and keeps a stack of the arrays and objects that are
    open. It stops at the first lexeme that does not fit. The fault it reports lies at the first
    character of a lexeme that is out of place, and within a lexeme that is broken where one of its
    kind was wanted. -/

namespace ButtonDialog.Json

/-- How many arrays and objects may be open at once. -/
def maxDepth : Nat := 127

/-- What waits for a value to be complete: an array with its elements so far, the latest first, or
an object with its members so far, the latest first, and the name the value is for. -/
inductive Frame where
  | array (elements : List Json)
  | object (members : List (String × Json)) (name : String)

/-- What the reader wants next. -/
inductive Wanted where
  /-- a value -/
  | value
  /-- a value, or the end of an array that has no element yet -/
  | firstElement
  /-- a name, in an object with these members -/
  | name (members : List (String × Json))
  /-- a name, or the end of an object that has no member yet -/
  | firstName
  /-- the colon after a name, in an object with these members -/
  | colon (members : List (String × Json)) (name : String)
  /-- a comma or the closing bracket, once a value is complete -/
  | separator (v : Json)

/-- The reader between two lexemes: the arrays and objects around, the innermost first. -/
structure Reading where
  stack : List Frame
  wanted : Wanted

/-- The reader at the start of a text. -/
def Reading.start : Reading := ⟨[], .value⟩

/-- The fault of a lexeme out of place. -/
def Lexeme.misplaced (l : Lexeme) : Fault := ⟨.misplaced, l.rest⟩

/-- The reader inside an array or object that starts here, unless too many are open. -/
def Reading.nest (r : Reading) (l : Lexeme) (inside : Reading) : Except Fault Reading :=
  if r.stack.length < maxDepth then .ok inside else .error l.misplaced

/-- Takes a lexeme where a value may start. -/
def Reading.takeValue (r : Reading) (l : Lexeme) : Except Fault Reading :=
  let whole (v : Json) : Except Fault Reading := .ok ⟨r.stack, .separator v⟩
  match l.content with
  | .error fault => .error fault
  | .ok .null => whole .null
  | .ok (.bool b) => whole (.bool b)
  | .ok (.number n) => whole (.number n)
  | .ok (.text s) => whole (.text s)
  | .ok .openArray => r.nest l ⟨.array [] :: r.stack, .firstElement⟩
  | .ok .openObject => r.nest l ⟨r.stack, .firstName⟩
  | .ok _ => .error l.misplaced

/-- Takes a lexeme where a name must start. -/
def Reading.takeName (r : Reading) (members : List (String × Json)) (l : Lexeme) :
    Except Fault Reading :=
  match l.content with
  | .ok (.text name) => .ok { r with wanted := .colon members name }
  | .error fault => .error (if l.first = '"' then fault else l.misplaced)
  | .ok _ => .error l.misplaced

/-- Takes a lexeme. -/
def Reading.take (r : Reading) (l : Lexeme) : Except Fault Reading :=
  match r.wanted with
  | .value => r.takeValue l
  | .firstElement =>
    match l.content, r.stack with
    | .ok .closeArray, .array _ :: outer => .ok ⟨outer, .separator (.array [])⟩
    | _, _ => r.takeValue l
  | .firstName =>
    match l.content with
    | .ok .closeObject => .ok ⟨r.stack, .separator (.object [])⟩
    | _ => r.takeName [] l
  | .name members => r.takeName members l
  | .colon members name =>
    match l.content with
    | .ok .colon => .ok ⟨.object members name :: r.stack, .value⟩
    | _ => .error l.misplaced
  | .separator v =>
    match l.content, r.stack with
    | .ok .comma, .array elements :: outer => .ok ⟨.array (v :: elements) :: outer, .value⟩
    | .ok .closeArray, .array elements :: outer =>
      .ok ⟨outer, .separator (.array (v :: elements).reverse)⟩
    | .ok .comma, .object members name :: outer =>
      .ok ⟨outer, .name ((name, v) :: members)⟩
    | .ok .closeObject, .object members name :: outer =>
      .ok ⟨outer, .separator (.object ((name, v) :: members).reverse)⟩
    | _, _ => .error l.misplaced

/-- The value of a reader at the end of the text. -/
def Reading.finish (r : Reading) : Except Fault Json :=
  match r.wanted, r.stack with
  | .separator v, [] => .ok v
  | _, _ => .error ⟨.truncated, []⟩

/-- Takes lexemes to the end. -/
def Reading.run (r : Reading) (ls : List Lexeme) : Except Fault Json :=
  (ls.foldlM Reading.take r).bind Reading.finish

/-- What is wrong with a text that is not JSON, and on which line. -/
structure ReadError where
  defect : Defect
  line : Nat
  deriving DecidableEq

/-- The line of a fault: one more than the line ends up to the character that shows it. -/
def Fault.locate (text : List Char) (fault : Fault) : ReadError :=
  ⟨fault.defect, 1 + (text.count '\n' - fault.rest.count '\n')⟩

/-- Reads the characters of a text. -/
def readChars (text : List Char) : Except ReadError Json :=
  (Reading.start.run (lexemes text)).mapError (Fault.locate text)

/-- Reads a text. -/
def read (text : String) : Except ReadError Json := readChars text.toList

end ButtonDialog.Json
