import LineHandshake.Line
import LineHandshake.Milestone
import LineHandshake.TextSource

/-!
What a server is to do, as a list of instructions: the handshake with its exit points, and then a
script, if there is one. A script acts on its reader, its writer and its server. What it does next
may depend on what its last action came to, so it may also carry on after a fault. With a read it
is said for which of its requests the machine has no memory.
-/

namespace LineHandshake

inductive Note
  | got (t : Text)
  | status (p : Progress) (o : Outcome)
deriving DecidableEq

inductive Action
  | readLine
  | read (count : Int) (refuses : TextSource.Refusal)
  | write (t : Text)
  | flush
  | observe
  | note (n : Note)
  | shutDown
  | join
  | closeReader
  | closeWriter

inductive Gain
  | nothing
  | text (t : Text)
  | status (p : Progress) (o : Outcome)
deriving DecidableEq

/-- A script: it ends, by itself or with a fault, or acts and goes on with what came of it. -/
inductive Script
  | done
  | raise (f : Fault)
  | act (a : Action) (next : Except Fault Gain → Script)

/-- One line of a script that goes straight through and ends at its first fault. -/
inductive Cue
  | readLine
  | read (count : Int)
  | expect (keyword : Text)
  | write (t : Text) (flush : Bool)
  | observe
  | shutDown
  | join
  | closeReader
  | closeWriter
  | raise (f : Fault)
deriving DecidableEq

namespace Script

def andThen (a : Action) (next : Gain → Script) : Script :=
  .act a fun
    | .ok g => next g
    | .error f => .raise f

def thenOn (a : Action) (next : Script) : Script := andThen a fun _ => next

def noting (read : Action) (make : Text → Except Fault Text) (next : Script) : Script :=
  andThen read fun
    | .text t =>
      match make t with
      | .ok t => thenOn (.note (.got t)) next
      | .error f => .raise f
    | _ => next

/-- The bytes that a machine is taken to refuse at once where nothing else is said. -/
def standardMemory : Nat := Nat.pow 2 35

def ofCue (next : Script) : Cue → Script
  | .readLine => noting .readLine .ok next
  | .read count => noting (.read count (.beyond standardMemory count)) .ok next
  | .expect keyword => noting .readLine (Line.expect keyword) next
  | .write t true => thenOn (.write t) (thenOn .flush next)
  | .write t false => thenOn (.write t) next
  | .observe => andThen .observe fun
    | .status p o => thenOn (.note (.status p o)) next
    | _ => next
  | .shutDown => thenOn .shutDown next
  | .join => thenOn .join next
  | .closeReader => thenOn .closeReader next
  | .closeWriter => thenOn .closeWriter next
  | .raise f => .raise f

def ofCues : List Cue → Script := List.foldr (fun cue next => ofCue next cue) .done

end Script

inductive Instruction
  | reach (p : Progress)
  | exitAt (e : ExitPoint)
  | sendInfo
  | awaitConnect
  | awaitPing
  | sendPong
  | play (k : Script)

def handshake : List Instruction :=
  [.reach .clientConnected,
    .exitAt .beforeInfo, .sendInfo, .reach .sentInfo,
    .exitAt .afterInfo, .awaitConnect, .reach .gotConnect,
    .exitAt .afterConnect, .awaitPing, .reach .gotPing,
    .exitAt .afterPing, .sendPong, .reach .sentPong]

def scripted : Option Script → List Instruction
  | none => []
  | some k => [.reach .startedCustomCode, .play k, .reach .completedCustomCode]

end LineHandshake
