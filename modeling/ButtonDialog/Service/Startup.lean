import ButtonDialog.Graph.Compile
import ButtonDialog.Service.Arguments
import ButtonDialog.Service.HandlerTable
import ButtonDialog.Service.LogFilter
import ButtonDialog.Service.Serve
import ButtonDialog.Service.SettingsFile

/-! From the command line to a router.

    The settings are read first, then the log is opened, then the document is found and read. Both
    commands do this in the same way, and then compile the document and register the handlers. The
    first step that fails ends the program. Which records the log keeps is said by the variable
    `RUST_LOG` of the environment, and by the settings only where that is missing or no filter. -/

namespace ButtonDialog

/-- What the program asks of the machine it runs on. -/
structure Machine (m : Type → Type) where
  /-- the text of a variable of the environment, if there is one -/
  environment : String → m (Option String)
  /-- the records that a filter keeps, or why the text is no filter -/
  readFilter : String → Except String (LogRecord → Bool)
  /-- the text of a file -/
  readText : String → m (Except FileError String)
  /-- makes a directory and those around it -/
  makeDirectories : String → m (Except FileError Unit)
  /-- opens a file for appending -/
  openLog : String → m (Except FileError Unit)
  /-- the bytes of the input, to its end -/
  readInput : m (List UInt8)
  /-- how dealing with updates keeps pace with reading -/
  pace : Serve.Pace

/-- Changes a tree of files, unless the change fails. -/
def FileTree.change (f : FileTree → Except FileError FileTree) :
    StateM FileTree (Except FileError Unit) := do
  match f (← get) with
  | .ok t =>
    set t
    return .ok ()
  | .error e => return .error e

/-- The machine whose files are a tree and whose input is known. Its environment is empty, and it
reads its input to the end before it deals with an update. -/
def FileTree.machine (input : List UInt8) : Machine (StateM FileTree) where
  environment _ := return none
  readFilter := LogFilter.read
  readText path := do return (← get).readText path
  makeDirectories path := change fun t => t.makeDirectories path
  openLog path := change fun t => t.touch path
  readInput := return input
  pace := .afterwards

/-- Why the program ends before its work is done. -/
inductive Trouble where
  | service (e : ServiceError)
  | document (path : String) (e : FileError)
  | load (e : LoadError)
  | compile (e : CompileError)
  | input (e : FileError)
  /-- The log file cannot be opened. -/
  | logFile (e : FileError)

namespace Trouble

/-- The text of a trouble. -/
def message : Trouble → String
  | service e => e.message
  | document path _ => "failed to read " ++ path
  | load e => e.message
  | compile e => e.message
  | input e => e.text
  | logFile e => "the log file cannot be opened: " ++ e.text

/-- The text of what is behind a trouble, if there is more to say. -/
def cause? : Trouble → Option String
  | service (.unreadable _ e) => some e.text
  | document _ e => some e.text
  | load (.unreadable _ e) => some e.text
  | load (.malformed e) => some e.message
  | load (.invalid v) => some v.message
  | _ => none

/-- A text with its lines set in by four spaces. -/
def setIn (s : String) : String :=
  "    " ++ String.ofList (s.toList.flatMap fun c => if c = '\n' then "\n    ".toList else [c])

/-- The report of a trouble: its text, and what is behind it. -/
def report (t : Trouble) : String :=
  t.message ++ (t.cause?.map fun cause => "\n\nCaused by:\n" ++ setIn cause).getD ""

/-- The exit code of a trouble. -/
def exitCode : Trouble → Nat
  | logFile _ => 101
  | _ => 1

end Trouble

namespace Startup

variable {m : Type → Type} [Monad m] {σ : Type}

/-- The settings, as far as the command line does not overrule them. -/
def settings (machine : Machine m) (given : Arguments.Given) : ExceptT Trouble m Settings := do
  let s ← match given.settings with
    | none => pure Settings.standard
    | some path =>
      let contents ← machine.readText path
      ((Settings.ofFile path contents).mapError Trouble.service : Except Trouble Settings)
  return { s with procedures := given.procedures <|> s.procedures }

/-- The name of the variable that says which records are kept. -/
def filterVariable : String := "RUST_LOG"

/-- The records that are kept: those of the filter in the environment, if there is one that can be
read, and else those of the settings. -/
def logFilter (machine : Machine m) (s : Settings) : ExceptT Trouble m (LogRecord → Bool) := do
  match (← machine.environment filterVariable).map machine.readFilter with
  | some (.ok keeps) => return keeps
  | _ =>
    match machine.readFilter s.logLevel with
    | .ok keeps => return keeps
    | .error e => throw (.service (.logging e))

/-- Opens the log. The result is which records are kept. -/
def openLog (machine : Machine m) (s : Settings) : ExceptT Trouble m (LogRecord → Bool) := do
  let keeps ← logFilter machine s
  match s.logPath with
  | none => return keeps
  | some path =>
    match PathText.parent? path, PathText.fileName? path with
    | some directory, some name =>
      if !directory.isEmpty then
        match ← machine.makeDirectories directory with
        | .ok () => pure ()
        | .error e => throw (.service (.unreadable directory e))
      match ← machine.openLog (PathText.join directory name) with
      | .ok () => return keeps
      | .error e => throw (.logFile e)
    | _, _ => throw (.service (.logging ("invalid log path: " ++ path)))

/-- What is known when the document has been read, with the log open: the settings, which records
the log keeps, and the text of the document. -/
structure Prepared where
  settings : Settings
  keeps : LogRecord → Bool
  document : String

/-- Reads the settings, opens the log and reads the document. -/
def prepare (machine : Machine m) (given : Arguments.Given) : ExceptT Trouble m Prepared := do
  let s ← settings machine given
  let keeps ← openLog machine s
  let path ← (s.procedures?.mapError Trouble.service : Except Trouble String)
  match ← machine.readText path with
  | .error e => throw (.document path e)
  | .ok text => return ⟨s, keeps, text⟩

/-- The router of a document text, as yet without handlers, and the records of the way there, also
where the way ends in trouble. -/
def bareRouter (transport : Transport σ) (text : String) :
    List LogRecord × Except Trouble (Router σ) :=
  match Document.ofText text with
  | .error e => ([], .error (.load e))
  | .ok document =>
    match Graph.compile document with
    | .error e => ([document.loadRecord], .error (.compile e))
    | .ok graph => ([document.loadRecord, graph.compileRecord], .ok (.new transport graph))

/-- The router of a document text and handler rows, and the records of the way there, also where
the way ends in trouble. -/
def router (transport : Transport σ) (s : Settings) (text : String) :
    List LogRecord × Except Trouble (Router σ) :=
  match bareRouter transport text with
  | (records, .error e) => (records, .error e)
  | (records, .ok bare) =>
    let (r, more, applied) := bare.applyTable s.handlers
    (records ++ more,
      match applied with
      | .error e => .error (.service e)
      | .ok _ => .ok r)

end Startup

end ButtonDialog
