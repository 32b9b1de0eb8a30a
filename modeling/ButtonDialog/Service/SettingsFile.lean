import ButtonDialog.Service.Settings
import ButtonDialog.Toml.Reader

/-! Settings from a TOML document.

    Names that are no settings are passed over, settings that are missing have their standard
    values, and a value of the wrong type is an error. Where a table is wanted, an array of its
    values in order will do; values missing at its end are then the standard ones, as far as there
    are any. -/

namespace ButtonDialog

namespace Toml.Node

def toText? : Node → Option String
  | text s => some s
  | _ => none

def toBool? : Node → Option Bool
  | boolean b => some b
  | _ => none

/-- The elements of an array, or the tables of a repeated header. -/
def toList? : Node → Option (List Node)
  | array elements => some elements
  | tables all => some (all.reverse.map (table .headed))
  | _ => none

/-- A value that may be missing. -/
def optional? {α : Type} (f : Node → Option α) : Option Node → Option (Option α)
  | none => some none
  | some v => (f v).map some

/-- A value that may be missing, or the standard one. -/
def orElse? {α : Type} (standard : α) (f : Node → Option α) : Option Node → Option α
  | none => some standard
  | some v => f v

/-- A value that must be there. -/
def required? {α : Type} (f : Node → Option α) (v : Option Node) : Option α := v.bind f

/-- The values of names, from a table, or from an array that has them in order. A date or a time is
a table in which none of the names is found. -/
def fields? (names : List String) : Node → Option (List (Option Node))
  | table _ rows => some (names.map (Rows.get? rows))
  | moment _ => some (names.map fun _ => none)
  | v => do
    let given ← v.toList?
    return (given.map some ++ List.replicate (names.length - given.length) none).take names.length

end Toml.Node

open Toml (Node Rows)

/-- Reads an action: its name, or a table with its name over an empty table or array. -/
def HandlerAction.ofToml? : Node → Option HandlerAction
  | .text s => ofName? s
  | .table _ [(name, .table _ [])] => ofName? name
  | .table _ [(name, .array [])] => ofName? name
  | _ => none

/-- Reads the start settings. -/
def StartSettings.ofToml? (v : Node) : Option StartSettings := do
  match ← v.fields? ["procedure", "stage", "fallback_text"] with
  | [procedure, stage, fallback] =>
    return {
      procedure := ← Node.orElse? standard.procedure Node.toText? procedure
      stage := ← Node.orElse? standard.stage Node.toText? stage
      fallback := ← Node.orElse? standard.fallback Node.toText? fallback }
  | _ => none

/-- Whether the text of a handler row may be missing: in a table it may, in an array it may not. -/
def HandlerRow.mayLackText : Node → Bool
  | .table .. => true
  | _ => false

/-- Reads a handler row. -/
def HandlerRow.ofToml? (v : Node) : Option HandlerRow := do
  match ← v.fields? ["procedure", "stage", "option", "action", "text", "stay"] with
  | [procedure, stage, choice, action, text, stay] =>
    if text.isNone && !mayLackText v then none
    else return {
      procedure := ← Node.required? Node.toText? procedure
      stage := ← Node.required? Node.toText? stage
      choice := ← Node.required? Node.toText? choice
      action := ← Node.orElse? .log HandlerAction.ofToml? action
      text := ← Node.optional? Node.toText? text
      stay := ← Node.orElse? false Node.toBool? stay }
  | _ => none

namespace Settings

/-- Reads settings from the table of a document. -/
def ofToml? (rows : Rows) : Option Settings := do
  return {
    procedures := ← Node.optional? Node.toText? (rows.get? "procedures")
    logLevel := ← Node.orElse? standard.logLevel Node.toText? (rows.get? "log_level")
    logPath := ← Node.optional? Node.toText? (rows.get? "log_path")
    start := ← Node.orElse? standard.start StartSettings.ofToml? (rows.get? "start")
    handlers := ← (rows.get? "handlers").elim (some []) fun v => do
      (← v.toList?).mapM HandlerRow.ofToml? }

/-- The settings of a text. -/
def ofText (text : String) : Except ServiceError Settings :=
  match (Toml.read? text).bind ofToml? with
  | some s => .ok s
  | none => .error .badSettings

/-- The settings of what reading a file gave, with paths taken from the directory of the file. -/
def ofFile (path : String) (contents : Except FileError String) : Except ServiceError Settings := do
  let text ← contents.mapError (.unreadable path)
  return (← ofText text).relativeTo path

end Settings

end ButtonDialog
