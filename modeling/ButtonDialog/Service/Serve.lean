import ButtonDialog.Service.Command

/-! The update loop.

    The input is read line by line. A blank line says nothing, a line that is an update counts as
    one, and any other line is skipped. Updates are dealt with in order while the reading goes on:
    a pace says how many of those that wait are dealt with once a line has been read, and the rest
    are dealt with when the input is closed. What goes wrong with one is logged and does not touch
    the next. A line that is not UTF-8 ends the loop, and the updates that still wait are
    dropped. -/

namespace ButtonDialog.Serve

/-- The byte that ends a line. -/
def lineEnd : UInt8 := 10

/-- The lines of an input of which a line has been taken in part, its latest byte first. What
follows the last line end is a line unless it is empty. -/
def linesAfter (taken : List UInt8) : List UInt8 → List (List UInt8)
  | [] => if taken.isEmpty then [] else [taken.reverse]
  | b :: bytes =>
    if b = lineEnd then taken.reverse :: linesAfter [] bytes else linesAfter (b :: taken) bytes

/-- The lines of an input. -/
def lines (input : List UInt8) : List (List UInt8) := linesAfter [] input

theorem linesAfter_append (taken first rest : List UInt8) :
    linesAfter taken (first ++ lineEnd :: rest) =
      linesAfter taken (first ++ [lineEnd]) ++ lines rest := by
  induction first generalizing taken with
  | nil => simp [linesAfter, lines]
  | cons b first ih =>
    by_cases h : b = lineEnd <;> simp [linesAfter, h, ih]

/-- Cutting an input after a line end cuts its lines there. -/
theorem lines_append (first rest : List UInt8) :
    lines (first ++ lineEnd :: rest) = lines (first ++ [lineEnd]) ++ lines rest :=
  linesAfter_append [] first rest

/-- How many updates there were, and how many lines were skipped. -/
structure Stats where
  updates : Nat
  skipped : Nat
  deriving DecidableEq

/-- What a line is. -/
inductive Line where
  | blank
  | malformed
  | update (u : Update)
  deriving DecidableEq

/-- What a text is as a line. -/
def Line.ofText (text : String) : Line :=
  if Text.isBlankText text then .blank
  else match Update.decode? text with
    | none => .malformed
    | some u => .update u

/-- The update of a line. -/
def Line.update? : Line → Option Update
  | .update u => some u
  | _ => none

/-- The counts of lines. -/
def statsOf (ls : List Line) : Stats := ⟨(ls.filterMap Line.update?).length, ls.count .malformed⟩

variable {σ : Type}

/-- Writes what reading a line leaves in the log. -/
def logLine : Line → Act σ Unit
  | .malformed => Act.log .warn "skipping malformed update" []
  | _ => return ()

/-- Deals with an update. -/
def dispatch (r : Router σ) (start : StartSettings) : Update → Act σ Unit
  | .message chat text => do
    match ← r.onMessage start chat text with
    | .ok _ => return ()
    | .error e =>
      Act.log .error "failed to answer message" [("chat_id", decimal chat), ("error", e.message)]
  | u@(.click id _ _ _) => do
    match ← r.onUpdate u with
    | .ok outcome =>
      Act.log .debug "callback routed" [("callback", id), ("outcome", outcome.label)]
    | .error e =>
      Act.log .error "callback routing failed" [("callback", id), ("error", e.message)]

/-- Deals with updates in order. -/
def dispatchAll (r : Router σ) (start : StartSettings) : List Update → Act σ Unit
  | [] => return ()
  | u :: us => do
    dispatch r start u
    dispatchAll r start us

/-- How dealing with updates keeps pace with reading: how many of the updates that wait are dealt
with once a line has been read, by the number of lines before it. -/
def Pace : Type := Nat → Nat

namespace Pace

/-- Every update is dealt with as soon as its line has been read. -/
def atOnce : Pace := fun _ => 1

/-- No update is dealt with before the input is closed. -/
def afterwards : Pace := fun _ => 0

end Pace

/-- Takes in lines after the first `read` ones, while these updates wait. Tells what the lines are;
nothing if one of them is not UTF-8. -/
def takeIn (r : Router σ) (start : StartSettings) (pace : Pace) (read : Nat)
    (waiting : List Update) : List (List UInt8) → Act σ (Option (List Line))
  | [] => do
    Act.log .debug "input closed" []
    dispatchAll r start waiting
    return some []
  | bytes :: rest =>
    match textOfBytes? bytes with
    | none => return none
    | some text => do
      let line := Line.ofText text
      logLine line
      let waiting := waiting ++ line.update?.toList
      dispatchAll r start (waiting.take (pace read))
      let ls ← takeIn r start pace (read + 1) (waiting.drop (pace read)) rest
      return ls.map (line :: ·)

/-- Serves an input; no counts if a line is not UTF-8. -/
def serve (r : Router σ) (start : StartSettings) (input : List UInt8)
    (pace : Pace := .afterwards) : Act σ (Option Stats) := do
  match ← takeIn r start pace 0 [] (lines input) with
  | none => return none
  | some ls =>
    let stats := statsOf ls
    Act.log .info "update loop stopped"
      [("updates", toString stats.updates), ("skipped", toString stats.skipped)]
    return some stats

end ButtonDialog.Serve
