import ButtonDialog.Service.Program

/-! The program on the files and streams of the machine it runs on. -/

namespace ButtonDialog

/-- Why a file operation of the machine fails. -/
def FileError.ofFailure : IO.Error → FileError
  | .noFileOrDirectory .. => .notFound
  | .alreadyExists .. => .alreadyExists
  | .inappropriateType _ 20 _ => .notDirectory
  | .inappropriateType _ 21 _ => .isDirectory
  | .invalidArgument _ 36 _ => .nameTooLong
  | .invalidArgument _ 22 _ => .badPath
  | e => .other (toString e)

/-- What an operation of the machine gives, or why it fails. -/
def attempt {α : Type} (act : IO α) : IO (Except FileError α) := do
  match ← act.toBaseIO with
  | .ok a => return .ok a
  | .error e => return .error (.ofFailure e)

/-- The machine that the program runs on. -/
def thisMachine : Machine IO where
  environment name := IO.getEnv name
  readFilter := LogFilter.read
  readText path := do
    return (← attempt (IO.FS.readBinFile path)).bind fun bytes =>
      match textOfBytes? bytes.data.toList with
      | some text => .ok text
      | none => .error .notText
  makeDirectories path := attempt (IO.FS.createDirAll path)
  openLog path := do
    return (← attempt (IO.FS.Handle.mk path .append)).map fun _ => ()
  readInput := do
    return (← (← IO.getStdin).readBinToEnd).data.toList
  pace := .atOnce

/-- Writes what a run leaves. -/
def Finished.write (finished : Finished) : IO Unit := do
  match finished.logPath with
  | none => finished.notes.forM fun line => IO.eprintln line
  | some path =>
    let handle ← IO.FS.Handle.mk path .append
    finished.notes.forM fun line => handle.putStrLn line
  IO.print finished.output
  match finished.error with
  | none => return ()
  | some report => IO.eprintln ("Error: " ++ report)

end ButtonDialog

/-- Runs the program on this machine and ends with its exit code. -/
def main (args : List String) : IO UInt32 := do
  let finished ← ButtonDialog.Program.run ButtonDialog.thisMachine args
  finished.write
  return finished.exitCode.toUInt32
