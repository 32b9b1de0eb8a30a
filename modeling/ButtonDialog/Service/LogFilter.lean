import ButtonDialog.Log
import ButtonDialog.Text.AsciiCase
import ButtonDialog.Text.Blank

/-! Which records are kept.

    A filter is written as directives with commas between. A directive names a target, a span in
    brackets with fields in braces, and a level after an equals sign; every part may be missing, and
    a level may stand alone. A level is a name in any letter case or a number up to five. The
    records of this program have no targets, so what is said of a target concerns none of them. -/

namespace ButtonDialog

namespace LogFilter

/-- The names of the levels, from none to everything. -/
def levelNames : List String := ["off", "error", "warn", "info", "debug", "trace"]

/-- The number of levels that are kept where everything is. -/
def everything : Nat := 5

/-- The number of levels that a level keeps. -/
def level? (s : String) : Option Nat :=
  match levelNames.findIdx? (Text.sameLetters s) with
  | some n => some n
  | none =>
    match s.toList with
    | [c] => if '0' ≤ c ∧ c ≤ '5' then some (c.toNat - '0'.toNat) else none
    | _ => none

/-- A directive: what it is about, and how many levels are kept there. -/
structure Directive where
  target : Option String
  span : Option String
  fields : List String
  kept : Nat
  deriving DecidableEq

namespace Directive

/-- The level at the end of a directive. Where none is given, everything is kept. -/
def kept? : List Char → Option Nat
  | [] | ['='] => some everything
  | '=' :: level => level? (String.ofList level)
  | _ => none

/-- The span and the fields of a directive, from after the bracket on, and what follows the
closing one. -/
def brackets? (cs : List Char) : Option (String × List String × List Char) :=
  let (span, rest) := cs.span fun c => c != ']' && c != '\x7b'
  match rest with
  | ']' :: rest => some (String.ofList span, [], rest)
  | '\x7b' :: rest =>
    let (inside, rest) := rest.span fun c => c != '\x7d'
    let fields := (inside.splitOn ',').map String.ofList
    match rest with
    | '\x7d' :: ']' :: rest =>
      if fields.contains "" then none else some (String.ofList span, fields, rest)
    | _ => none
  | _ => none

/-- A text, unless it is empty. -/
def named? (s : String) : Option String := if s.isEmpty then none else some s

/-- Whether a directive may start with a character. -/
def isStart (c : Char) : Bool := c.isAlphanum || 0x80 ≤ c.toNat || "-:_".toList.contains c

/-- Reads a directive. -/
def ofText? (s : String) : Option Directive := do
  let (front, rest) := (Text.trim s).toList.span fun c => c != '=' && c != '['
  guard (front.head?.all isStart)
  let target := named? (String.ofList front)
  match rest with
  | [] =>
    let name ← target
    match level? name with
    | some kept => return ⟨none, none, [], kept⟩
    | none => return ⟨name, none, [], everything⟩
  | '[' :: rest =>
    let (span, fields, rest) ← brackets? rest
    return ⟨target, named? span, fields, ← kept? rest⟩
  | rest => return ⟨← target, none, [], ← kept? rest⟩

/-- Whether a directive stands alone, as a level. -/
def isLevel (d : Directive) : Bool := d.target.isNone && d.span.isNone && d.fields.isEmpty

/-- Whether a directive is about a span: it has the name and all the fields, with the values that
are given. -/
def concerns (d : Directive) (s : Span) : Bool :=
  d.target.isNone && !d.isLevel && d.span.all (· == s.name) && d.fields.all fun field =>
    s.fields.any fun f => field == f.1 || field == f.1 ++ "=" ++ f.2

end Directive

/-- What stands between the commas of a filter, some characters being taken already. A comma in
braces belongs to a directive. -/
def pieces (inBraces : Bool) (taken : List Char) : List Char → List String
  | [] => [String.ofList taken.reverse]
  | c :: cs =>
    if c = ',' && !inBraces then String.ofList taken.reverse :: pieces false [] cs
    else pieces (c == '\x7b' || inBraces && c != '\x7d') (c :: taken) cs

/-- The directives of a filter. -/
def directives? (s : String) : Option (List Directive) :=
  ((pieces false [] s.toList).filter (!·.isEmpty)).mapM Directive.ofText?

/-- The number of levels that must be kept for a record of a level to be kept. -/
def needed : Level → Nat
  | .error => 1
  | .warn => 2
  | .info => 3
  | .debug => 4

/-- How many levels are kept everywhere: the last level that stands alone counts. Where there is no
directive at all, errors are kept. -/
def general (ds : List Directive) : Nat :=
  if ds.isEmpty then 1 else ((ds.filter Directive.isLevel).map Directive.kept).getLastD 0

/-- Whether a record is kept: for its level, or for a span that it is in. -/
def keeps (ds : List Directive) (r : LogRecord) : Bool :=
  needed r.level ≤ general ds ||
    ds.any fun d => needed r.level ≤ d.kept && r.spans.any d.concerns

/-- Reads a filter. -/
def read (s : String) : Except String (LogRecord → Bool) :=
  match directives? s with
  | none => .error "invalid filter directive"
  | some ds => .ok (keeps ds)

end LogFilter

/-- Names with their values, in writing. -/
def fieldsText (fields : List (String × String)) : String :=
  String.join (fields.map fun field => " " ++ field.1 ++ "=" ++ field.2)

/-- A record in writing: its level, its spans, its message and its values. -/
def LogRecord.line (r : LogRecord) : String :=
  r.level.name ++ " " ++
    String.join (r.spans.map fun s => s.name ++ " \x7b" ++ fieldsText s.fields ++ " \x7d ") ++
    r.message ++ fieldsText r.fields

end ButtonDialog
