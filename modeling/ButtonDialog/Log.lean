/-! The log, and actions that write to it.

    A record has a level, a message and named values, and stands in the spans that were open when it
    was written, the outermost first. An action runs in a world: it gives a result, changes the
    world and writes records. One action after another runs in the world the first one left, and
    its records follow those of the first. -/

namespace ButtonDialog

/-- How much a record matters. -/
inductive Level where
  | debug
  | info
  | warn
  | error
  deriving DecidableEq

/-- The name of a level. -/
def Level.name : Level → String
  | .debug => "debug"
  | .info => "info"
  | .warn => "warn"
  | .error => "error"

/-- A stretch of work that records belong to. -/
structure Span where
  name : String
  fields : List (String × String)
  deriving DecidableEq

/-- A record of the log. -/
structure LogRecord where
  level : Level
  message : String
  fields : List (String × String)
  spans : List Span
  deriving DecidableEq

/-- A record in one more span, around those it is in. -/
def LogRecord.within (s : Span) (r : LogRecord) : LogRecord := { r with spans := s :: r.spans }

/-- What an action leaves: its result, the world, and the records in order. -/
structure Ran (σ α : Type) where
  result : α
  world : σ
  records : List LogRecord

/-- An action in worlds of type `σ`. -/
def Act (σ α : Type) : Type := σ → Ran σ α

namespace Act

variable {σ α β : Type}

/-- Runs an action in a world. -/
def run (a : Act σ α) (world : σ) : Ran σ α := a world

instance : Monad (Act σ) where
  pure a := fun world => ⟨a, world, []⟩
  bind a f := fun world =>
    let first := a world
    let second := f first.result first.world
    ⟨second.result, second.world, first.records ++ second.records⟩

/-- Actions that leave the same in every world are equal. -/
@[ext] theorem ext {a b : Act σ α} (h : ∀ world, a.run world = b.run world) : a = b := funext h

/-- Reads and changes the world. -/
def modifyWorld (f : σ → α × σ) : Act σ α := fun world => ⟨(f world).1, (f world).2, []⟩

/-- Writes a record in no span. -/
def log (level : Level) (message : String) (fields : List (String × String)) : Act σ Unit :=
  fun world => ⟨(), world, [⟨level, message, fields, []⟩]⟩

/-- The action with all its records in a span. -/
def within (s : Span) (a : Act σ α) : Act σ α := fun world =>
  let ran := a world
  { ran with records := ran.records.map (LogRecord.within s) }

/-- The action on a part of a larger world. -/
def onPart {τ : Type} (get : τ → σ) (set : σ → τ → τ) (a : Act σ α) : Act τ α := fun world =>
  let ran := a (get world)
  ⟨ran.result, set ran.world world, ran.records⟩

@[simp] theorem run_pure (a : α) (world : σ) : (pure a : Act σ α).run world = ⟨a, world, []⟩ := rfl

@[simp] theorem run_bind (a : Act σ α) (f : α → Act σ β) (world : σ) :
    (a >>= f).run world =
      ⟨((f (a.run world).result).run (a.run world).world).result,
        ((f (a.run world).result).run (a.run world).world).world,
        (a.run world).records ++ ((f (a.run world).result).run (a.run world).world).records⟩ :=
  rfl

instance : LawfulMonad (Act σ) :=
  LawfulMonad.mk' (Act σ)
    (fun a => Act.ext fun world => by
      change Ran.mk (a world).result (a world).world ((a world).records ++ []) = a world
      rw [List.append_nil])
    (fun a f => by ext world : 1; simp)
    (fun a f g => by ext world : 1; simp [List.append_assoc])

@[simp] theorem run_log (level : Level) (message : String) (fields : List (String × String))
    (world : σ) :
    (log level message fields : Act σ Unit).run world =
      ⟨(), world, [⟨level, message, fields, []⟩]⟩ :=
  rfl

@[simp] theorem run_within (s : Span) (a : Act σ α) (world : σ) :
    (a.within s).run world =
      ⟨(a.run world).result, (a.run world).world, (a.run world).records.map (LogRecord.within s)⟩ :=
  rfl

end Act

end ButtonDialog
