import ButtonDialog.Service.Serve
import ButtonDialog.Service.Startup
import ButtonDialog.Transport.Console
import ButtonDialog.Transport.Logged
import ButtonDialog.Transport.Silent

/-! The program: what it writes and how it ends, for a command line and a machine.

    The log has its own file if the settings name one, and never mixes with the output. -/

namespace ButtonDialog

/-- What a run of the program leaves: its exit code, what it wrote, the report of its trouble, and
its notes, which are the log or a word on how the program is used. The notes go to the log file, if
there is one. -/
structure Finished where
  exitCode : Nat
  output : String
  error : Option String
  notes : List String
  logPath : Option String
  deriving DecidableEq

namespace Program

/-- The line that tells the version. -/
def versionLine : String := "procd 0.1.0\n"

/-- The text that tells how the program is used. -/
def usage : String :=
  "Conversation procedure host\n\n" ++
  "Usage: procd [OPTIONS] <COMMAND>\n\n" ++
  "Commands:\n" ++
  "  check  Validate and compile the procedure document\n" ++
  "  serve  Route updates read from stdin, one JSON object per line\n\n" ++
  "Options:\n" ++
  "  -c, --config <CONFIG>          Host configuration file (procd.toml)\n" ++
  "      --procedures <PROCEDURES>  Procedure document, overrides the config file\n" ++
  "  -h, --help                     Print help\n" ++
  "  -V, --version                  Print version\n"

/-- A run that has only something to tell. -/
def told (output : String) : Finished := ⟨0, output, none, [], none⟩

/-- A run whose arguments make no sense. -/
def misused : Finished := ⟨2, "", none, [usage], none⟩

/-- A run that ends in trouble before the log is open. -/
def stopped (t : Trouble) : Finished :=
  ⟨t.exitCode, "", match t with
    | .logFile _ => none
    | t => some t.report, [], none⟩

/-- The records that are kept, in writing. -/
def notes (p : Startup.Prepared) (records : List LogRecord) : List String :=
  (records.filter p.keeps).map LogRecord.line

/-- The name of the log file, if there is one. -/
def logName? (p : Startup.Prepared) : Option String := p.settings.logPath.bind PathText.toName?

/-- A run that ends in trouble after these records. -/
def failed (p : Startup.Prepared) (records : List LogRecord) (t : Trouble) : Finished :=
  { stopped t with notes := notes p records, logPath := logName? p }

/-- A run that ends well after these records. -/
def done (p : Startup.Prepared) (records : List LogRecord) (output : String) : Finished :=
  ⟨0, output, none, notes p records, logName? p⟩

/-- Checks a document: a run that writes its summary. -/
def check (p : Startup.Prepared) (format : SummaryFormat) : Finished :=
  let (records, opened) :=
    Startup.router (silentTransport : Transport Unit) p.settings p.document
  match opened with
  | .error t => failed p records t
  | .ok r => done p records (r.summary.render format ++ "\n")

/-- The transport of the update loop. -/
def loopTransport : Transport Console := Console.transport.logged

/-- The lines of a console, each with its end. -/
def outputOf (c : Console) : String := String.join (c.lines.map (· ++ "\n"))

/-- The record of a loop that starts. -/
def serveRecord (s : Settings) {σ : Type} (r : Router σ) : LogRecord :=
  ⟨.info, "serving",
    [("procedures", s.procedures.getD ""), ("stages", toString r.graph.stages.size),
      ("options", toString r.graph.choices.size), ("handlers", toString r.handlers.size)], []⟩

/-- A run of the update loop over an input, after these records. What has been written when the
loop ends early stays written. -/
def loop (p : Startup.Prepared) (pace : Serve.Pace) (records : List LogRecord)
    (r : Router Console) (input : List UInt8) : Finished :=
  let ran := (Serve.serve r p.settings.start input pace).run .fresh
  let records := records ++ serveRecord p.settings r :: ran.records
  match ran.result with
  | some _ => done p records (outputOf ran.world)
  | none => { failed p records (.input .notText) with output := outputOf ran.world }

/-- Serves a document: the input is read once the router stands. -/
def serve {m : Type → Type} [Monad m] (machine : Machine m) (p : Startup.Prepared) :
    m Finished := do
  let (records, opened) := Startup.router loopTransport p.settings p.document
  match opened with
  | .error t => return failed p records t
  | .ok r => return loop p machine.pace records r (← machine.readInput)

/-- Runs the program. -/
def run {m : Type → Type} [Monad m] (machine : Machine m) (args : List String) : m Finished := do
  match Arguments.parse args with
  | .misuse => return misused
  | .version => return told versionLine
  | .help => return told usage
  | .run task given =>
    match ← (Startup.prepare machine given).run with
    | .error t => return stopped t
    | .ok p =>
      match task with
      | .check => return check p (given.format.getD .text)
      | .serve => serve machine p

end Program

end ButtonDialog
