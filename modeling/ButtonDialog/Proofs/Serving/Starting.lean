import ButtonDialog.Proofs.Serving.Likeness
import ButtonDialog.Service.Program

/-! To check a document is to start serving it.

    Both commands read the settings, open the log and read the document in one way, and the way from
    there to a router does not depend on the transport. So what ends one of them before any input is
    read ends the other, with the same report and the same files left; and a document that passes
    the check can be served. -/

namespace ButtonDialog

/-! ## The way to a router -/

namespace Startup

variable {σ τ : Type}

/-- Over two transports, the way to a router without handlers leaves the same records. It ends in
the same trouble, or in routers of one graph. -/
theorem bareRouter_cases (t : Transport σ) (t' : Transport τ) (text : String) :
    (∃ records e, bareRouter t text = (records, .error e) ∧
        bareRouter t' text = (records, .error e)) ∨
      ∃ records g, bareRouter t text = (records, .ok (.new t g)) ∧
        bareRouter t' text = (records, .ok (.new t' g)) := by
  unfold bareRouter
  cases Document.ofText text with
  | error e => exact .inl ⟨_, _, rfl, rfl⟩
  | ok d =>
    simp only
    cases Graph.compile d with
    | error e => exact .inl ⟨_, _, rfl, rfl⟩
    | ok g => exact .inr ⟨_, _, rfl, rfl⟩

/-- With handlers, the routers at the end are alike. -/
theorem router_cases (t : Transport σ) (t' : Transport τ) (s : Settings) (text : String) :
    (∃ records e, router t s text = (records, .error e) ∧
        router t' s text = (records, .error e)) ∨
      ∃ records r r', router t s text = (records, .ok r) ∧ router t' s text = (records, .ok r') ∧
        r.Alike r' := by
  unfold router
  rcases bareRouter_cases t t' text with ⟨records, e, hbare, hbare'⟩ | ⟨records, g, hbare, hbare'⟩
  · rw [hbare, hbare']
    exact .inl ⟨_, _, rfl, rfl⟩
  · obtain ⟨halike, hrest⟩ := (Router.alike_new t t' g).applyTable s.handlers
    rw [hbare, hbare']
    simp only [← hrest]
    cases ((Router.new t g).applyTable s.handlers).2.2 with
    | error e => exact .inl ⟨_, _, rfl, rfl⟩
    | ok n => exact .inr ⟨_, _, _, rfl, rfl, halike⟩

end Startup

/-! ## Runs on a machine -/

variable {World : Type}

/-- The machine with its input read by this action, which may change the files as well. -/
def Machine.reading (machine : Machine (StateM World)) (read : StateM World (List UInt8)) :
    Machine (StateM World) :=
  { machine with readInput := read }

namespace Startup

/-- The settings, the log and the text of the document, or the trouble on the way there, and what is
left of the files. -/
def prepared (machine : Machine (StateM World)) (given : Arguments.Given) (files : World) :
    Except Trouble Prepared × World :=
  (prepare machine given).run.run files

/-- The first trouble on the way from the command line to a router, if there is any: in reading the
settings, opening the log, finding the document, reading it, parsing, validating or compiling it, or
registering the handlers. -/
def trouble? (machine : Machine (StateM World)) (given : Arguments.Given) (files : World) :
    Option Trouble :=
  match (prepared machine given files).1 with
  | .error e => some e
  | .ok p =>
    match (router (silentTransport : Transport Unit) p.settings p.document).2 with
    | .error e => some e
    | .ok _ => none

/-- Of what is given, only the paths count. -/
theorem prepared_congr {given given' : Arguments.Given}
    (hsettings : given'.settings = given.settings)
    (hprocedures : given'.procedures = given.procedures) (machine : Machine (StateM World))
    (files : World) : prepared machine given' files = prepared machine given files := by
  have hsame : settings machine given' = settings machine given := by
    unfold settings
    rw [hsettings, hprocedures]
  rw [prepared, prepared, prepare, prepare, hsame]

end Startup

namespace Program

/-- A run ends like this, and leaves these files, without a look at the input: whatever reading it
would give, and whatever that would do to the files, the run is this one. -/
def EndsUnread (machine : Machine (StateM World)) (args : List String) (files : World)
    (finished : Finished) (left : World) : Prop :=
  ∀ read, (run (machine.reading read) args).run files = (finished, left)

variable {machine : Machine (StateM World)} {files left : World} {args : List String}
  {given : Arguments.Given}

/-- A run ends in one way. -/
theorem EndsUnread.unique {finished finished' : Finished} {left' : World}
    (h : EndsUnread machine args files finished left)
    (h' : EndsUnread machine args files finished' left') : finished = finished' ∧ left = left' :=
  Prod.mk.inj ((h (return [])).symm.trans (h' (return [])))

/-- What is left of a command once the document is read, or trouble has come up before that. -/
def rest {m : Type → Type} [Monad m] (machine : Machine m) (task : Arguments.Task)
    (given : Arguments.Given) : Except Trouble Startup.Prepared → m Finished
  | .error e => return stopped e
  | .ok p =>
    match task with
    | .check => return check p (given.format.getD .text)
    | .serve => serve machine p

/-- Up to there, the input plays no part. -/
theorem run_of_prepared {task : Arguments.Task} (hparse : Arguments.parse args = .run task given)
    {result : Except Trouble Startup.Prepared}
    (hprepared : Startup.prepared machine given files = (result, left))
    (read : StateM World (List UInt8)) :
    (run (machine.reading read) args).run files =
      (rest (machine.reading read) task given result).run left := by
  have hrun : (Startup.prepare (machine.reading read) given).run.run files = (result, left) :=
    hprepared
  rw [run, hparse]
  simp only [StateT.run_bind, hrun]
  cases result with
  | error e => rfl
  | ok opened => rfl

/-! ## How the two commands end -/

/-- A run ends in a trouble: with its exit code and its report, and without any output. -/
structure Reports (finished : Finished) (e : Trouble) : Prop where
  exitCode : finished.exitCode = e.exitCode
  error : finished.error = (stopped e).error
  output : finished.output = ""

theorem reports_stopped (e : Trouble) : Reports (stopped e) e := ⟨rfl, rfl, rfl⟩

theorem reports_failed (p : Startup.Prepared) (records : List LogRecord) (e : Trouble) :
    Reports (failed p records e) e := ⟨rfl, rfl, rfl⟩

/-- A run ends well, without any output. -/
structure EndsQuietly (finished : Finished) : Prop where
  exitCode : finished.exitCode = 0
  error : finished.error = none
  output : finished.output = ""

/-- An input without lines is served without output. -/
theorem endsQuietly_loop (p : Startup.Prepared) (pace : Serve.Pace) (records : List LogRecord)
    (r : Router Console) : EndsQuietly (loop p pace records r []) := ⟨rfl, rfl, rfl⟩

theorem exitCode_ne_zero (e : Trouble) : e.exitCode ≠ 0 := by
  cases e <;> exact Nat.succ_ne_zero _

variable {p : Startup.Prepared} {records : List LogRecord}

theorem check_of_error {e : Trouble} (format : SummaryFormat)
    (h : Startup.router (silentTransport : Transport Unit) p.settings p.document =
      (records, .error e)) :
    check p format = failed p records e := by
  rw [check, h]

theorem check_of_ok {r : Router Unit} (format : SummaryFormat)
    (h : Startup.router silentTransport p.settings p.document = (records, .ok r)) :
    check p format = done p records (r.summary.render format ++ "\n") := by
  rw [check, h]

theorem serve_of_error {e : Trouble}
    (h : Startup.router loopTransport p.settings p.document = (records, .error e)) :
    serve machine p = return failed p records e := by
  rw [serve, h]

theorem serve_of_ok {r : Router Console}
    (h : Startup.router loopTransport p.settings p.document = (records, .ok r)) :
    serve machine p = do return loop p machine.pace records r (← machine.readInput) := by
  rw [serve, h]

variable {checkArgs serveArgs : List String} {given' : Arguments.Given}

/-- With the same paths given, both commands end in the first trouble, in one and the same way and
without a look at the input; or there is none, the check succeeds, and an empty input is served. -/
theorem start_cases (hcheck : Arguments.parse checkArgs = .run .check given)
    (hserve : Arguments.parse serveArgs = .run .serve given')
    (hsettings : given'.settings = given.settings)
    (hprocedures : given'.procedures = given.procedures) (machine : Machine (StateM World))
    (files : World) :
    (∃ e finished left, Startup.trouble? machine given files = some e ∧ Reports finished e ∧
        EndsUnread machine checkArgs files finished left ∧
          EndsUnread machine serveArgs files finished left) ∨
      ∃ finished served left, Startup.trouble? machine given files = none ∧
        finished.exitCode = 0 ∧ EndsUnread machine checkArgs files finished left ∧
          EndsQuietly served ∧
            (run (machine.reading (return [])) serveArgs).run files = (served, left) := by
  have hsame := Startup.prepared_congr hsettings hprocedures machine files
  unfold Startup.trouble?
  rcases hprepared : Startup.prepared machine given files with ⟨e | p, left⟩
  · exact .inl ⟨e, stopped e, left, rfl, reports_stopped e, run_of_prepared hcheck hprepared,
      run_of_prepared hserve (hsame.trans hprepared)⟩
  · have hchecks : EndsUnread machine checkArgs files (check p (given.format.getD .text)) left :=
      run_of_prepared hcheck hprepared
    have hserves : ∀ read, (run (machine.reading read) serveArgs).run files =
        (serve (machine.reading read) p).run left :=
      run_of_prepared hserve (hsame.trans hprepared)
    simp only
    rcases Startup.router_cases (silentTransport : Transport Unit) loopTransport p.settings
        p.document with
      ⟨records, e, hrouter, hrouter'⟩ | ⟨records, r, r', hrouter, hrouter', -⟩
    · rw [check_of_error _ hrouter] at hchecks
      refine .inl ⟨e, failed p records e, left, by rw [hrouter], reports_failed p records e,
        hchecks, fun read => ?_⟩
      rw [hserves, serve_of_error hrouter']
      rfl
    · rw [check_of_ok _ hrouter] at hchecks
      refine .inr ⟨_, loop p machine.pace records r' [], left, by rw [hrouter], rfl, hchecks,
        endsQuietly_loop p machine.pace records r', ?_⟩
      rw [hserves, serve_of_ok hrouter']
      rfl

/-- To check and to serve start alike. A check never looks at the input. It fails exactly if serving
fails without a look at the input, with the same exit code, report and notes, and the same files
left; what is reported is the first trouble on the way to a router, and there is no output. Where
the check succeeds, an empty input is served without output. -/
structure StartAlike (machine : Machine (StateM World)) (given : Arguments.Given)
    (checkArgs serveArgs : List String) (files : World) : Prop where
  unread : ∃ finished left, EndsUnread machine checkArgs files finished left
  fails : ∀ finished left, finished.exitCode ≠ 0 →
    (EndsUnread machine checkArgs files finished left ↔
      EndsUnread machine serveArgs files finished left)
  reports : ∀ finished left, finished.exitCode ≠ 0 →
    EndsUnread machine serveArgs files finished left →
      ∃ e, Startup.trouble? machine given files = some e ∧ Reports finished e
  serves : ∀ finished left, finished.exitCode = 0 →
    EndsUnread machine checkArgs files finished left →
      ∃ served, (run (machine.reading (return [])) serveArgs).run files = (served, left) ∧
        EndsQuietly served

/-- Whatever the machine, its environment and the files on it are, and whichever texts it takes for
filters, to check and to serve start alike, if the command lines give the same paths. -/
theorem starts_alike (hcheck : Arguments.parse checkArgs = .run .check given)
    (hserve : Arguments.parse serveArgs = .run .serve given')
    (hsettings : given'.settings = given.settings)
    (hprocedures : given'.procedures = given.procedures) (machine : Machine (StateM World))
    (files : World) : StartAlike machine given checkArgs serveArgs files := by
  rcases start_cases hcheck hserve hsettings hprocedures machine files with
    ⟨e, finished, left, htrouble, hreports, hchecks, hserves⟩ |
    ⟨finished, served, left, htrouble, hcode, hchecks, hquiet, hserves⟩
  · have hfailed : finished.exitCode ≠ 0 := hreports.exitCode ▸ exitCode_ne_zero e
    refine ⟨⟨finished, left, hchecks⟩, fun other left' _ => ⟨fun h => ?_, fun h => ?_⟩,
      fun other left' _ h => ?_, fun other left' hother h => ?_⟩
    · obtain ⟨rfl, rfl⟩ := h.unique hchecks
      exact hserves
    · obtain ⟨rfl, rfl⟩ := h.unique hserves
      exact hchecks
    · obtain ⟨rfl, rfl⟩ := h.unique hserves
      exact ⟨e, htrouble, hreports⟩
    · obtain ⟨rfl, rfl⟩ := h.unique hchecks
      exact absurd hother hfailed
  · -- serving could only fail for an input that is not empty
    have hsucceeds : ∀ other left', other.exitCode ≠ 0 →
        ¬ EndsUnread machine serveArgs files other left' := by
      intro other left' hother h
      obtain ⟨rfl, -⟩ := Prod.mk.inj ((h (return [])).symm.trans hserves)
      exact hother hquiet.exitCode
    refine ⟨⟨finished, left, hchecks⟩, fun other left' hother => ⟨fun h => ?_, fun h => ?_⟩,
      fun other left' hother h => ?_, fun other left' _ h => ?_⟩
    · obtain ⟨rfl, -⟩ := h.unique hchecks
      exact absurd hcode hother
    · exact absurd h (hsucceeds other left' hother)
    · exact absurd h (hsucceeds other left' hother)
    · obtain ⟨rfl, rfl⟩ := h.unique hchecks
      exact ⟨served, hserves, hquiet⟩

/-- Where a check and serving start alike and the check ends in trouble, serving ends in the same
way. -/
theorem StartAlike.exists_ends (h : StartAlike machine given checkArgs serveArgs files)
    {code : Nat} {report : String} (hcode : code ≠ 0)
    (hends : (fun f : Finished => (f.exitCode, f.error)) ((run machine checkArgs).run files).1 =
      (code, some report)) :
    ∃ finished left, finished.exitCode = code ∧ finished.error = some report ∧
      EndsUnread machine checkArgs files finished left ∧
      EndsUnread machine serveArgs files finished left := by
  obtain ⟨finished, left, hchecks⟩ := h.unread
  have hrun : (run machine checkArgs).run files = (finished, left) := hchecks machine.readInput
  rw [hrun] at hends
  obtain ⟨rfl, herror⟩ := Prod.mk.inj hends
  exact ⟨finished, left, rfl, herror, hchecks, (h.fails finished left hcode).1 hchecks⟩

/-- A document whose procedure has no root stage, and two files of settings that lead to it. One of
them has a log level that is no filter. -/
def rootlessTree : FileTree where
  files := [
    (["work", "procd.toml"], Key.bytes "procedures = \"rootless.json\"\n"),
    (["work", "bogus.toml"], Key.bytes
      "procedures = \"rootless.json\"\nlog_level = \"!\"\n"),
    (["work", "rootless.json"], Key.bytes
      "\x7b\"procedures\":[\x7b\"id\":1,\"stages\":[\x7b\"id\":1\x7d]\x7d]\x7d")]
  directories := []
  here := ["work"]

/-- The report on this document. -/
def rootlessReport : String :=
  "invalid procedure config: rootStageId <none> does not exist in procedure 1\n\n" ++
  "Caused by:\n    rootStageId <none> does not exist in procedure 1"

/-- The machine of a tree of files with a variable of the environment that says what to keep. -/
def debugging : Machine (StateM FileTree) :=
  { FileTree.machine [] with
    environment := fun name => return if name = "RUST_LOG" then some "debug" else none }

/-- Neither command gets past the document. With the log level that is no filter they do not get
that far, unless the environment has a filter in its place. -/
theorem start_alike_rootless :
    (∃ finished left, finished.exitCode = 1 ∧ finished.error = some rootlessReport ∧
      EndsUnread (FileTree.machine []) ["check", "-c", "procd.toml"] rootlessTree finished left ∧
      EndsUnread (FileTree.machine []) ["--config=procd.toml", "serve"] rootlessTree finished
        left) ∧
    (∃ finished left, finished.exitCode = 1 ∧
      finished.error = some "logging setup failed: invalid filter directive" ∧
      EndsUnread (FileTree.machine []) ["check", "-c", "bogus.toml"] rootlessTree finished left ∧
      EndsUnread (FileTree.machine []) ["serve", "-c", "bogus.toml"] rootlessTree finished left) ∧
    ∃ finished left, finished.exitCode = 1 ∧ finished.error = some rootlessReport ∧
      EndsUnread debugging ["check", "-c", "bogus.toml"] rootlessTree finished left ∧
      EndsUnread debugging ["serve", "-c", "bogus.toml"] rootlessTree finished left := by
  have hcheck : Arguments.parse ["check", "-c", "procd.toml"] =
      .run .check ⟨some "procd.toml", none, none⟩ := by decide +kernel
  have hserve : Arguments.parse ["--config=procd.toml", "serve"] =
      .run .serve ⟨some "procd.toml", none, none⟩ := by decide +kernel
  have hcheckBogus : Arguments.parse ["check", "-c", "bogus.toml"] =
      .run .check ⟨some "bogus.toml", none, none⟩ := by decide +kernel
  have hserveBogus : Arguments.parse ["serve", "-c", "bogus.toml"] =
      .run .serve ⟨some "bogus.toml", none, none⟩ := by decide +kernel
  exact ⟨(starts_alike hcheck hserve rfl rfl _ _).exists_ends Nat.one_ne_zero (by decide +kernel),
    (starts_alike hcheckBogus hserveBogus rfl rfl _ _).exists_ends Nat.one_ne_zero
      (by decide +kernel),
    (starts_alike hcheckBogus hserveBogus rfl rfl _ _).exists_ends Nat.one_ne_zero
      (by decide +kernel)⟩

end Program

end ButtonDialog
