import LineHandshake.Fault

/-!
Log records, and computations on a state that log as they go. When such a computation fails, the
state and the log up to the failure stay.
-/

namespace LineHandshake

inductive Level
  | trace
  | debug
  | info
  | warning
deriving DecidableEq, Repr

def Level.name : Level → Text
  | .trace => text "TRACE"
  | .debug => text "DEBUG"
  | .info => text "INFO"
  | .warning => text "WARNING"

/-- Levels of lower rank are more verbose. -/
def Level.rank : Level → Nat
  | .trace => 5
  | .debug => 10
  | .info => 20
  | .warning => 30

structure Record where
  level : Level
  source : Text
  message : Text
deriving DecidableEq, Repr

def Record.toText (r : Record) : Text :=
  r.level.name ++ text " " ++ r.source ++ text ": " ++ r.message

abbrev Log := List Record

/-- A computation on `σ` that logs and may fail with `ε`. -/
abbrev Task (ε σ : Type) := ExceptT ε (StateM (σ × Log))

namespace Task

variable {ε σ τ α : Type}

def perform (task : Task ε σ α) (s : σ) : Except ε α × σ × Log := task.run.run (s, [])

def log (level : Level) (source : String) (message : Text) : Task ε σ Unit :=
  modify fun (s, l) => (s, l ++ [⟨level, text source, message⟩])

def step (f : σ → Except ε α × σ) : Task ε σ α := fun (s, l) => let r := f s; (r.1, r.2, l)

def lift (r : Except ε α) : Task ε σ α := step fun s => (r, s)

def fail (e : ε) : Task ε σ α := lift (.error e)

def mapError {ε' : Type} (f : ε → ε') (task : Task ε σ α) : Task ε' σ α := fun s =>
  let r := task.run.run s
  (r.1.mapError f, r.2)

end Task

end LineHandshake
