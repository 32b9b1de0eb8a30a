/-! TOML values, and how the lines of a document build its table.

    A table remembers how it came about, since that decides what may still be put into it. A table
    between braces is closed. A table under a header may get further tables, but no dotted keys from
    outside. A table that a header only passed through may still get a header of its own, and one
    that dotted keys made may get more dotted keys. -/

namespace ButtonDialog.Toml

/-- How a table came about. -/
inductive TableKind where
  /-- written between braces -/
  | braced
  /-- under a header of its own -/
  | headed
  /-- passed through by the header of another table -/
  | implied
  /-- made by dotted keys -/
  | dotted
  deriving DecidableEq

/-- A value of a document. -/
inductive Node where
  | text (s : String)
  | integer (n : Int64)
  | float (written : String)
  | boolean (b : Bool)
  | moment (written : String)
  | array (elements : List Node)
  | table (kind : TableKind) (rows : List (String × Node))
  /-- the tables of one repeated header, the latest first -/
  | tables (all : List (List (String × Node)))

/-- The rows of a table, in the order of the text. -/
abbrev Rows : Type := List (String × Node)

namespace Rows

/-- The value of a name. -/
def get? (rows : Rows) (name : String) : Option Node :=
  (rows.find? fun row => row.1 == name).map (·.2)

/-- The rows with another value under a name that they have. -/
def replace (rows : Rows) (name : String) (v : Node) : Rows :=
  rows.map fun row => if row.1 == name then (name, v) else row

/-- The rows after a key, dotted or not, got a value; nothing if they may not be put there. `direct`
tells whether the last part of the key may be put right here. -/
def assign (v : Node) : List String → Bool → Rows → Option Rows
  | [], _, _ => none
  | [name], direct, rows =>
    if direct && (rows.get? name).isNone then some (rows ++ [(name, v)]) else none
  | name :: path, _, rows =>
    match rows.get? name with
    | none => do return rows ++ [(name, .table .dotted (← assign v path true []))]
    | some (.table .dotted inner) => do
      return rows.replace name (.table .dotted (← assign v path true inner))
    | some (.table .implied inner) => do
      return rows.replace name (.table .implied (← assign v path false inner))
    | some (.tables (latest :: before)) => do
      return rows.replace name (.tables ((← assign v path false latest) :: before))
    | some _ => none

/-- The rows after a change to the table that a header passes through to. -/
def changeAt (rows : Rows) (change : Rows → Option Rows) : List String → Option Rows
  | [] => change rows
  | name :: path =>
    match rows.get? name with
    | none => do return rows ++ [(name, .table .implied (← changeAt [] change path))]
    | some (.table .braced _) => none
    | some (.table kind inner) => do
      return rows.replace name (.table kind (← changeAt inner change path))
    | some (.tables (latest :: before)) => do
      return rows.replace name (.tables ((← changeAt latest change path) :: before))
    | some _ => none

/-- The table that a header passes through to, empty if it is not there yet. -/
def tableAt (rows : Rows) : List String → Option Rows
  | [] => some rows
  | name :: path =>
    match rows.get? name with
    | none => some []
    | some (.table .braced _) => none
    | some (.table _ inner) => tableAt inner path
    | some (.tables (latest :: _)) => tableAt latest path
    | some _ => none

/-- The rows with a table under a header of its own. -/
def putHeaded (name : String) (body rows : Rows) : Option Rows :=
  match rows.get? name with
  | none => some (rows ++ [(name, .table .headed body)])
  | some (.table .implied _) => some (rows.replace name (.table .headed body))
  | some _ => none

/-- The rows with one more table under a repeated header. -/
def putRepeated (name : String) (body rows : Rows) : Option Rows :=
  match rows.get? name with
  | none => some (rows ++ [(name, .tables [body])])
  | some (.tables before) => some (rows.replace name (.tables (body :: before)))
  | some _ => none

end Rows

/-- A document that is being built: what is finished, and the table that keys go into now. -/
structure Builder where
  finished : Rows
  header : List String
  repeated : Bool
  rows : Rows

namespace Builder

/-- The start of a document. -/
def start : Builder := ⟨[], [], false, []⟩

/-- The finished rows with the current table put into its place. -/
def close (b : Builder) : Option Rows :=
  match b.header.getLast? with
  | none => some b.rows
  | some name =>
    let put := if b.repeated then Rows.putRepeated name b.rows else Rows.putHeaded name b.rows
    b.finished.changeAt put b.header.dropLast

/-- Goes on under a header. A table that headers passed through keeps what it has. -/
def underHeader (b : Builder) (header : List String) : Option Builder := do
  let finished ← b.close
  let around ← finished.tableAt header.dropLast
  match around.get? (header.getLastD "") with
  | none => return ⟨finished, header, false, []⟩
  | some (.table .implied inner) => return ⟨finished, header, false, inner⟩
  | some _ => none

/-- Goes on in a new table under a repeated header. -/
def underRepeated (b : Builder) (header : List String) : Option Builder := do
  return ⟨← b.close, header, true, []⟩

/-- Gives a key a value in the current table. -/
def assign (b : Builder) (key : List String) (v : Node) : Option Builder := do
  return { b with rows := ← b.rows.assign v key true }

end Builder

end ButtonDialog.Toml
