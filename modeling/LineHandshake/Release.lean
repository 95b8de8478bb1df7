import LineHandshake.Connection

/-!
Releasing resources. Each is closed once, in order. Failures that only mean that a resource was
gone already are logged, so that they do not hide why a run ended; one that cannot be shown in
the log is a failure of the release.
-/

namespace LineHandshake

/-- A resource under the name that a warning gives it, with what closing it does to `σ`. -/
structure Resource (σ : Type) where
  name : Text
  close : σ → Except Fault Unit × σ

namespace Resource

variable {σ : Type}

def closeQuietly (tag : Text) (r : Resource σ) : Task Fault σ Unit := do
  match ← Task.step fun s => let c := r.close s; (.ok c.1, c.2) with
  | .ok () => return
  | .error f =>
    if f.isForgivable then
      let shown ← Task.lift f.shown
      Task.log .warning "server.shutdown"
        (tag ++ text ": error closing " ++ r.name ++ text ": " ++ shown)
    else Task.fail f

def closeEach (tag : Text) : List (Resource σ) → Task Fault σ Unit
  | [] => return
  | r :: rs => do
    r.closeQuietly tag
    closeEach tag rs

def release (tag : Text) (rs : List (Resource σ)) : Task Fault σ Unit := do
  closeEach tag rs
  Task.log .debug "server.shutdown" (tag ++ text ": resources released")

end Resource

/-- A resource that only notes that it was closed, and fails as told. -/
def Resource.listed (name : Text) (fault : Option Fault) : Resource (List Text) :=
  ⟨name, fun closed => (match fault with | none => .ok () | some f => .error f, closed ++ [name])⟩

namespace Connection

def writer : Resource Connection :=
  ⟨text "writer", fun c => let r := c.sink.close; (r.1, { c with sink := r.2 })⟩

def reader : Resource Connection :=
  ⟨text "reader", fun c => (.ok (), { c with source := c.source.close })⟩

def socket : Resource Connection := ⟨text "socket", fun c => (.ok (), { c with isOpen := false })⟩

def resources : List (Resource Connection) := [writer, reader, socket]

def release (tag : Text) : Task Fault Connection Unit := Resource.release tag resources

inductive Call
  | readLine
  | awaitConnect
  | awaitPing
  | sendInfo
  | sendPong
  | writeLine (line : Text)
  | release

def call : Call → Exchange (Option Text)
  | .readLine => return some (← readLine)
  | .awaitConnect => return some (← awaitConnect)
  | .awaitPing => return some (← awaitPing)
  | .sendInfo => do sendInfo; return none
  | .sendPong => do sendPong; return none
  | .writeLine line => do writeLine line; return none
  | .release => do Task.mapError .fault (release (text "Server")); return none

end Connection

end LineHandshake
