import ButtonDialog.Service.Summary

/-! The command line.

    The program has two commands, and options that may stand before or after the command; one given
    at both places counts where it stands after. No option may be given twice at one place. A value
    follows its option, after an equals sign or as the next argument, which then may not look like
    an option. -/

namespace ButtonDialog.Arguments

/-- The commands. -/
inductive Task where
  | check
  | serve
  deriving DecidableEq

/-- Options that have been given. -/
structure Given where
  settings : Option String
  procedures : Option String
  format : Option SummaryFormat
  deriving DecidableEq

/-- No options. -/
def Given.nothing : Given := ⟨none, none, none⟩

/-- What the program is asked to do. -/
inductive Request where
  | run (task : Task) (given : Given)
  | version
  | help
  /-- The arguments make no sense. -/
  | misuse
  deriving DecidableEq

/-- What an argument looks like: an option, with or without a value in it, the mark after which no
options follow, or a plain word. -/
inductive Look where
  | option (name : String) (value : Option String)
  | endOfOptions
  | word (w : String)

/-- The value after an option letter, without an equals sign in front. -/
def valueInside : List Char → Option String
  | [] => none
  | '=' :: cs => some (String.ofList cs)
  | cs => some (String.ofList cs)

/-- What an argument looks like. -/
def look (arg : String) : Look :=
  match arg.toList with
  | ['-', '-'] => .endOfOptions
  | '-' :: '-' :: cs =>
    let name := cs.takeWhile (· != '=')
    .option (String.ofList name)
      (if name.length = cs.length then none else some (String.ofList (cs.drop (name.length + 1))))
  | ['-'] => .word arg
  | '-' :: 'c' :: cs => .option "config" (valueInside cs)
  | '-' :: 'V' :: _ => .option "version" none
  | '-' :: 'h' :: _ => .option "help" none
  | '-' :: cs => .option (String.ofList ('-' :: cs)) none
  | _ => .word arg

/-- Whether an argument may be the value of the option in front of it. -/
def isValue (arg : String) : Bool :=
  match look arg with
  | .word _ => true
  | _ => false

/-- The options with one more; nothing if it is given already or cannot have this value. -/
def Given.put (g : Given) (task : Option Task) (name value : String) : Option Given :=
  if name = "config" then
    if g.settings.isSome || value.isEmpty then none else some { g with settings := some value }
  else if name = "procedures" then
    if g.procedures.isSome || value.isEmpty then none else some { g with procedures := some value }
  else if name = "format" then
    match SummaryFormat.ofName? value with
    | none => none
    | some format =>
      if g.format.isSome || task != some .check then none
      else some { g with format := some format }
  else none

/-- Whether an option takes a value. -/
def takesValue (name : String) : Bool := ["config", "procedures", "format"].contains name

/-- Options before a command, and those after it. -/
def Given.orElse (outer inner : Given) : Given :=
  ⟨inner.settings <|> outer.settings, inner.procedures <|> outer.procedures, inner.format⟩

/-- What is asked for when help is wanted: about everything, or about one command. -/
def helpFor : List String → Request
  | [] => .help
  | [w] => if ["check", "serve", "help"].contains w then .help else .misuse
  | _ => .misuse

/-- What is asked for once all arguments are read. -/
def finish (outer inner : Given) : Option Task → Request
  | none => .misuse
  | some task => .run task (outer.orElse inner)

/-- The command of a word. -/
def task? (w : String) : Option Task :=
  if w = "check" then some .check else if w = "serve" then some .serve else none

/-- Reads arguments, with what was given before the command and what was given since. -/
def read (task : Option Task) (outer inner : Given) : List String → Request
  | [] => finish outer inner task
  | arg :: args =>
    match look arg with
    | .endOfOptions => if args.isEmpty then finish outer inner task else .misuse
    | .word w =>
      match task, task? w with
      | none, some task => read (some task) inner .nothing args
      | none, none => if w = "help" then helpFor args else .misuse
      | some _, _ => .misuse
    | .option name value =>
      if name = "help" ∧ value = none then .help
      else if name = "version" ∧ value = none ∧ task = none then .version
      else if !takesValue name then .misuse
      else match value, args with
        | some value, args =>
          match inner.put task name value with
          | some inner => read task outer inner args
          | none => .misuse
        | none, next :: args =>
          if !isValue next then .misuse
          else match inner.put task name next with
            | some inner => read task outer inner args
            | none => .misuse
        | none, [] => .misuse

/-- What arguments ask for. -/
def parse (args : List String) : Request := read none .nothing .nothing args

end ButtonDialog.Arguments
