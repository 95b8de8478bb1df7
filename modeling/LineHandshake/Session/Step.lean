import LineHandshake.Session.Dialled

/-!
The steps of a session and their answers. An answer has the records that the step itself logged;
`Watch` tells what a server has done since it was last looked at.
-/

namespace LineHandshake.Session

inductive ServerStep
  | shutDown
  | join
  | summarize
  | describe
  | tick (count : Nat)
  | connect (chunks : List Bytes) (ending : Option Ending)
  | dial (host : Text) (limit : Duration)

inductive GuestStep
  | send (chunks : List Bytes)
  | hangUp (e : Ending)
  | receive
  | isReadable
  | dropUnread
  | isOpen
  | write (bs : Bytes)
  | readThrough (pattern : Bytes)
  | call (c : Client.Call)

/-- What a server is made with, but for the port, which an allocator may give. If it is zero, the
host gives the server its `spare` port in place of it. -/
structure ServerRequest where
  port : Option Int := none
  allocator : Option Nat := none
  spare : Int := 0
  exitPoint : ExitPoint := .noExit
  script : Option Script := none
  acceptTimeout : Duration := .acceptLimit

def ServerRequest.boundTo (request : ServerRequest) (asked : Int) : Int :=
  if asked = 0 then request.spare else asked

def ServerRequest.specAt (request : ServerRequest) (asked : Int) : ServerSpec :=
  { port := request.boundTo asked
    asked
    exitPoint := request.exitPoint
    script := request.script
    acceptTimeout := request.acceptTimeout }

inductive Step
  | allocate (first last : Int)
  | nextPorts (allocator : Option Nat) (count : Nat)
  | probe (port : Int)
  | occupy (ports : List Int)
  | vacate (ports : List Int)
  | dialAlone (host : Text) (port : Int) (limit : Duration)
  | start (request : ServerRequest)
  | server (i : Nat) (step : ServerStep)
  | guest (g : Nat) (step : GuestStep)

inductive Reply
  | done
  | flag (b : Bool)
  | number (n : Int)
  | numbers (ns : List Int)
  | bytes (bs : Bytes)
  | line (t : Text)
  | summary (s : Summary)
  | client (r : Client.Result)
deriving DecidableEq

structure Answer where
  reply : Except Fault Reply
  log : Log := []

def tick (i : Nat) (used : Nat) : (count : Nat) → Session → Nat × Session
  | 0, s => (used, s)
  | count + 1, s =>
    if (s.servers[i]?).any isAccepting then tick i (used + 1) count (s.modifyServer i Server.tick)
    else (used, s)

def serverStep (i : Nat) (v : Server) (s : Session) : ServerStep → Answer × Session
  | .shutDown => (⟨.ok .done, [v.shutDownRecord]⟩, s.modifyServer i Server.shutDown)
  | .join => (⟨.ok (.flag !v.isListening), []⟩, s)
  | .summarize => (⟨.ok (.summary v.summary), []⟩, s)
  | .describe => (⟨.ok (.line v.describe), []⟩, s)
  | .tick count => let r := tick i 0 count s; (⟨.ok (.number r.1), []⟩, r.2)
  | .connect chunks ending =>
    let c := chunks.foldl (fun c bs => c.deliver bs) ({} : Connection)
    let c := ending.elim c c.hangUp
    let r := s.connect i v.spec.port c none
    (⟨(r.1.mapError .system).map fun _ => .number s.guests.length, []⟩, r.2)
  | .dial host limit =>
    let r := s.dial i host v.spec.port limit
    (⟨r.1.map fun _ => .number s.guests.length, r.2.2⟩, r.2.1)

def onPort {α : Type} (r : Except Fault α × Session) (make : α → Reply) : Answer × Session :=
  (⟨r.1.map make, []⟩, r.2)

def guestStep [Json.Stack] (g : Nat) (guest : Guest) (s : Session) : GuestStep → Answer × Session
  | .send chunks => (⟨.ok .done, []⟩, chunks.foldl (fun s bs => s.send g bs) s)
  | .hangUp e => (⟨.ok .done, []⟩, s.hangUp g e)
  | .receive =>
    let bs := s.unread guest
    (⟨.ok (.bytes bs), []⟩, s.take g bs.length)
  | .isReadable => onPort (isReadable g s) fun b => .number b.toNat
  | .dropUnread => onPort (dropUnread g s) fun _ => .done
  | .isOpen => (⟨.ok (.flag (s.isLineOpen g)), []⟩, s)
  | .write bs => onPort (writeLine g bs s) fun _ => .number bs.length
  | .readThrough pattern => onPort (readThrough pattern g s) .bytes
  | .call c =>
    let r := (Client.call (linePort g) c).perform s
    (⟨r.1.map .client, r.2.2⟩, r.2.1)

def startStep (request : ServerRequest) (s : Session) : Answer × Session :=
  let chosen : Except Fault Int × Session × Log := match request.port with
    | some port => (.ok port, s, [])
    | none => s.nextPort request.allocator
  match chosen with
  | (.error f, s, log) => (⟨.error f, log⟩, s)
  | (.ok port, s, log) => (⟨.ok (.number port), log⟩, s.startServer (request.specAt port))

def step [Json.Stack] (s : Session) : Step → Answer × Session
  | .allocate first last =>
    match Allocator.create first last with
    | .error f => (⟨.error f, []⟩, s)
    | .ok a => (⟨.ok .done, []⟩, { s with allocators := s.allocators ++ [a] })
  | .nextPorts allocator count =>
    let r := nextPorts allocator count s
    (⟨r.1.map .numbers, r.2.2⟩, r.2.1)
  | .probe port => (⟨(s.probe port).map .flag, []⟩, s)
  | .occupy ports => (⟨.ok .done, []⟩, { s with occupied := s.occupied ++ ports })
  | .vacate ports =>
    (⟨.ok .done, []⟩, { s with occupied := s.occupied.filter fun p => !ports.contains p })
  | .dialAlone host port limit =>
    let r := s.dial s.servers.length host port limit
    (⟨r.1.map fun _ => .done, r.2.2⟩, { r.2.1 with guests := s.guests })
  | .start request => startStep request s
  | .server i step =>
    match s.servers[i]? with
    | none => (⟨.ok .done, []⟩, s)
    | some v => serverStep i v s step
  | .guest g step =>
    match s.guests[g]? with
    | none => (⟨.ok .done, []⟩, s)
    | some guest => guestStep g guest s step

def concerned (before after : Session) : Step → Option Nat
  | .start _ => if before.servers.length < after.servers.length then some before.servers.length
    else none
  | .server i _ => some i
  | .guest g _ => (after.guests[g]?).map (·.target)
  | _ => none

structure Watch where
  sent : Nat := 0
  log : Nat := 0
  notes : Nat := 0

structure View where
  server : Server
  sent : Bytes
  log : Log
  notes : List Note

def Watch.look (w : Watch) (v : Server) : View × Watch :=
  (⟨v, v.sent.drop w.sent, v.log.drop w.log, v.notes.drop w.notes⟩,
    ⟨v.sent.length, v.log.length, v.notes.length⟩)

inductive Awaited
  | client
  | bytes
  | shutDown
  | nothing
deriving DecidableEq, Repr

def awaited (v : Server) : Awaited :=
  match v.phase with
  | .accepting => .client
  | .serving [] => .shutDown
  | .serving _ => .bytes
  | .ended => .nothing

def runSteps [Json.Stack] (watches : List Watch) (s : Session) :
    List Step → List (Answer × Option View)
  | [] => []
  | step :: steps =>
    let (answer, s') := s.step step
    let watches := watches ++ List.replicate (s'.servers.length - watches.length) {}
    match s.concerned s' step with
    | none => (answer, none) :: runSteps watches s' steps
    | some i =>
      match s'.servers[i]?, watches[i]? with
      | some v, some w =>
        let (view, w) := w.look v
        (answer, some view) :: runSteps (watches.set i w) s' steps
      | _, _ => (answer, none) :: runSteps watches s' steps

def run [Json.Stack] (steps : List Step) : List (Answer × Option View) := runSteps [] {} steps

end LineHandshake.Session
