import LineHandshake.Release
import LineHandshake.Server.Program
import LineHandshake.Summary

/-!
A fake server. It serves one client: it greets, waits for CONNECT and PING, answers PONG, runs a
script if it has one, and then holds the connection until it is told to shut down. At its exit
point it leaves early.

A run is a list of instructions still to do. It goes on until an instruction waits for the
client, and is resumed from there whenever something has happened.
-/

namespace LineHandshake

inductive Phase
  | accepting
  | serving (todo : List Instruction)
  | ended

/-- A server listens on `port`, and goes by the number that it was `asked` to listen on. -/
structure ServerSpec where
  port : Int
  asked : Int := port
  exitPoint : ExitPoint := .noExit
  script : Option Script := none
  acceptTimeout : Duration := .acceptLimit

/-- Before a client is accepted the connection carries nothing and `peer` is absent. -/
structure Server where
  spec : ServerSpec
  progress : Progress := .noClient
  outcome : Outcome := .running
  error : Option Fault := none
  isShutDown : Bool := false
  ticks : Nat := 0
  phase : Phase := .accepting
  peer : Option Nat := none
  connection : Connection := {}
  log : Log := []
  notes : List Note := []

namespace Server

def tagOf (port : Int) : Text := text "Fake server @" ++ Text.ofInt port

def tag (s : Server) : Text := tagOf s.spec.asked

def say (level : Level) (what : Text) (s : Server) : Server :=
  { s with log := s.log ++ [⟨level, text "server.fake", s.tag ++ text ": " ++ what⟩] }

def onConnection {ε α : Type} (task : Task ε Connection α) (s : Server) : Except ε α × Server :=
  let r := task.perform s.connection
  (r.1, { s with connection := r.2.1, log := s.log ++ r.2.2 })

def isListening (s : Server) : Bool :=
  match s.phase with
  | .ended => false
  | _ => true

def isServing (s : Server) : Bool :=
  match s.phase with
  | .serving _ => true
  | _ => false

def sent (s : Server) : Bytes := s.connection.sink.sent

def outcomeOf (f : Fault) : Outcome :=
  match f.family with
  | .unexpectedLine | .format => .protocolViolation
  | .transport | .system => .ioError
  | _ => .error

def failureHeadline (f : Fault) : Text :=
  match outcomeOf f with
  | .protocolViolation => text "protocol violation: "
  | .ioError => text "I/O failure: "
  | _ => text "unexpected error: "

def release (s : Server) : Except Fault Unit × Server :=
  s.onConnection (Resource.release s.tag (if s.peer.isSome then Connection.resources else []))

def finish (s : Server) (o : Outcome) : Server :=
  match release { s with outcome := o, phase := .ended } with
  | (.ok (), s) => s.say .info (text "completed (" ++ s.outcome.name ++ text ")")
  | (.error _, s) => s

def abandon (s : Server) : Server := (release { s with phase := .ended }).2

def noteFault (f : Fault) (s : Server) : Server := { s with error := some f }

/-- A fault is shown in the log first. One that is not handled, or cannot be shown, goes no
further than the release. -/
def fail (s : Server) (f : Fault) : Server :=
  if f.family = .fatal then s.abandon
  else
    match f.shown with
    | .error _ => s.abandon
    | .ok shown =>
      ((s.say .warning (failureHeadline f ++ shown)).noteFault f).finish (outcomeOf f)

inductive Performed
  | done
  | leave
  | wait (left : Instruction)
  | failed (f : Fault)

def note (n : Note) (s : Server) : Server := { s with notes := s.notes ++ [n] }

def reach (p : Progress) (s : Server) : Server :=
  { s with progress := s.progress.furthest p }.say .info p.name

def exchange {α : Type} (i : Instruction) (x : Connection.Exchange α) (s : Server) :
    Performed × Server :=
  match s.onConnection x with
  | (.ok _, s) => (.done, s)
  | (.error .waiting, _) => (.wait i, s)
  | (.error (.fault f), s) => (.failed f, s)

def gaining {α : Type} (gain : α → Gain) (x : Connection.Exchange α) (s : Server) :
    Except Interrupt Gain × Server :=
  let r := s.onConnection x
  (r.1.map gain, r.2)

def act (s : Server) : Action → Except Interrupt Gain × Server
  | .readLine => s.gaining .text (Connection.onSource TextSource.readLine)
  | .read count refuses =>
    s.gaining .text (Connection.onSource (TextSource.read · count refuses))
  | .write t => s.gaining (fun _ => .nothing) (Connection.onSink (TextSink.write t))
  | .flush => s.gaining (fun _ => .nothing) (Connection.onSink TextSink.flush)
  | .observe => (.ok (.status s.progress s.outcome), s)
  | .note n => (.ok .nothing, s.note n)
  | .shutDown =>
    (.ok .nothing, { s with isShutDown := true }.say .debug (text "shutdown signalled"))
  | .join => (.error (.fault .joinsItself), s)
  | .closeReader =>
    (.ok .nothing, { s with connection.source := s.connection.source.close })
  | .closeWriter => s.gaining (fun _ => .nothing) (Connection.onSink TextSink.close)

def play (s : Server) : Script → Performed × Server
  | .done => (.done, s)
  | .raise f => (.failed f, s)
  | .act a next =>
    match s.act a with
    | (.ok g, s) => s.play (next (.ok g))
    | (.error .waiting, _) => (.wait (.play (.act a next)), s)
    | (.error (.fault f), s) => s.play (next (.error f))

def perform (s : Server) : Instruction → Performed × Server
  | .reach p => (.done, s.reach p)
  | .exitAt e =>
    if s.spec.exitPoint = e then (.leave, s.say .info (text "exiting at " ++ e.name))
    else (.done, s)
  | .sendInfo => s.exchange .sendInfo Connection.sendInfo
  | .awaitConnect => s.exchange .awaitConnect Connection.awaitConnect
  | .awaitPing => s.exchange .awaitPing Connection.awaitPing
  | .sendPong => s.exchange .sendPong Connection.sendPong
  | .play k => s.play k

/-- Goes on as far as possible. With nothing left to do it waits for the shutdown. -/
def run (s : Server) : List Instruction → Server
  | [] => if s.isShutDown then s.finish .completed else { s with phase := .serving [] }
  | i :: todo =>
    match s.perform i with
    | (.done, s) => s.run todo
    | (.leave, s) => s.finish .exited
    | (.wait left, s) => { s with phase := .serving (left :: todo) }
    | (.failed f, s) => s.fail f

def resume (s : Server) : Server :=
  match s.phase with
  | .serving todo => s.run todo
  | _ => s

def clock (s : Server) : Binary64 :=
  Duration.thousandths (Duration.acceptTurnThousandths * s.ticks)

/-- One turn of waiting for a client: the time limit is looked at first. -/
def wait (s : Server) : Server :=
  if !s.spec.acceptTimeout.isAfter s.clock then
    s.fail (.acceptTimeout s.spec.acceptTimeout)
  else if s.isShutDown then
    (s.say .info (text "closed before any client connected")).finish .cancelled
  else s

def start (spec : ServerSpec) (bound : Except Fault Unit) : Server :=
  match bound with
  | .error f => fail { spec } f
  | .ok () => (say .info (text "started") { spec }).wait

def tick (s : Server) : Server :=
  match s.phase with
  | .accepting => wait { s with ticks := s.ticks + 1 }
  | _ => s

def peerName (peer : Nat) : Text :=
  text "(\x27127.0.0.1\x27, " ++ Text.ofNat (40000 + peer) ++ text ")"

/-- A client connects. It is served if the server waits for one, and queues otherwise. -/
def accept (s : Server) (peer : Nat) (c : Connection) : Server :=
  match s.phase with
  | .accepting =>
    let s := { s with peer := some peer, connection := c }
    (s.say .info (text "got client " ++ peerName peer)).run (handshake ++ scripted s.spec.script)
  | _ => s

def onClient (s : Server) (change : Connection → Connection) : Server :=
  if s.isServing then resume { s with connection := change s.connection } else s

def shutDown (s : Server) : Server := resume { s with isShutDown := true }

def shutDownRecord (s : Server) : Record :=
  ⟨.debug, text "server.fake", s.tag ++ text ": shutdown signalled"⟩

def summary (s : Server) : Summary := ⟨s.spec.asked, s.progress, s.outcome, s.error⟩

def describe (s : Server) : Text :=
  text "HandshakeFakeServer(port=" ++ Text.ofInt s.spec.asked ++ text ", exit_at=" ++
    s.spec.exitPoint.name ++ text ", progress=" ++ s.progress.name ++ text ", outcome=" ++
    s.outcome.name ++ text ")"

end Server

end LineHandshake
