import LineHandshake.Allocator
import LineHandshake.Server

/-!
Servers and their clients on one host. A port is taken while somebody else holds it or a server
listens on it, and a server listens from its start to its end. The first client that reaches a
waiting server is served; later ones queue until the server ends.
-/

namespace LineHandshake

structure Dialled where
  limit : Duration
  isOpen : Bool := true
deriving DecidableEq

/-- A client: the server that it was made for, the one that listened, and what it has read. -/
structure Guest where
  target : Nat
  host : Nat
  isServed : Bool
  hasEnded : Bool := false
  taken : Nat := 0
  line : Option Dialled := none
deriving DecidableEq

structure Session where
  standard : Allocator := .standard
  allocators : List Allocator := []
  occupied : List Int := []
  servers : List Server := []
  guests : List Guest := []
  connections : Nat := 0

namespace Session

def hasListener (s : Session) (port : Int) : Bool :=
  s.servers.any fun v => v.spec.port = port && v.isListening

def isFree (s : Session) (port : Int) : Bool := !(s.occupied.contains port || s.hasListener port)

def bind (s : Session) (port : Int) : Except Fault Unit :=
  if port < 0 ∨ Address.maxPort < port then .error .portNumber
  else if s.isFree port then .ok ()
  else .error (.system .addressInUse)

def probe (s : Session) (port : Int) : Except Fault Bool :=
  match s.bind port with
  | .ok () => .ok true
  | .error (.system _) => .ok false
  | .error f => .error f

def modifyServer (s : Session) (i : Nat) (f : Server → Server) : Session :=
  { s with servers := s.servers.modify i f }

def modifyGuest (s : Session) (g : Nat) (f : Guest → Guest) : Session :=
  { s with guests := s.guests.modify g f }

def tryPort (port : Int) (s : Session) : Bool × Session := (s.isFree port, s)

def nextPort (s : Session) : Option Nat → Except Fault Int × Session × Log
  | none =>
    let r := s.standard.nextPort tryPort s
    (r.1.result, { r.2.2 with standard := r.2.1 }, r.1.log)
  | some i =>
    let r := ((s.allocators[i]?).getD s.standard).nextPort tryPort s
    (r.1.result, { r.2.2 with allocators := r.2.2.allocators.set i r.2.1 }, r.1.log)

def nextPorts (allocator : Option Nat) :
    (count : Nat) → Session → Except Fault (List Int) × Session × Log
  | 0, s => (.ok [], s, [])
  | count + 1, s =>
    match s.nextPort allocator with
    | (.error f, s, log) => (.error f, s, log)
    | (.ok port, s, log) =>
      let r := nextPorts allocator count s
      (r.1.map (port :: ·), r.2.1, log ++ r.2.2)

def startServer (s : Session) (spec : ServerSpec) : Session :=
  { s with servers := s.servers ++ [Server.start spec (s.bind spec.port)] }

def listener? (s : Session) (port : Int) : Option Nat :=
  s.servers.findIdx? fun v => v.spec.port = port && v.isListening

def isAccepting (v : Server) : Bool :=
  match v.phase with
  | .accepting => true
  | _ => false

/-- A client for the server `target` reaches whoever listens on a port, with what it has already
sent. Its number is the count of the connections before it. -/
def connect (s : Session) (target : Nat) (port : Int) (c : Connection) (line : Option Dialled) :
    Except SystemError Unit × Session :=
  match s.listener? port with
  | none => (.error .connectionRefused, s)
  | some host =>
    let isServed := (s.servers[host]?).any isAccepting
    let hasEnded := c.source.ending.isSome
    let s' := s.modifyServer host fun v => v.accept s.connections c
    (.ok (),
      { s' with
        guests := s'.guests ++ [{ target, host, isServed, hasEnded, line }]
        connections := s.connections + 1 })

def unread (s : Session) (g : Guest) : Bytes :=
  if g.isServed then ((s.servers[g.host]?).elim [] Server.sent).drop g.taken else []

def isCut (s : Session) (g : Guest) : Bool := !(s.servers[g.host]?).any Server.isListening

def take (s : Session) (g : Nat) (count : Nat) : Session :=
  s.modifyGuest g fun g => { g with taken := g.taken + count }

def send (s : Session) (g : Nat) (bs : Bytes) : Session :=
  match s.guests[g]? with
  | none => s
  | some guest =>
    if guest.isServed then s.modifyServer guest.host (·.onClient (Connection.deliver bs)) else s

def hangUp (s : Session) (g : Nat) (e : Ending) : Session :=
  match s.guests[g]? with
  | none => s
  | some guest =>
    let s := s.modifyGuest g fun g => { g with hasEnded := true }
    if guest.isServed then s.modifyServer guest.host (·.onClient (Connection.hangUp e)) else s

end Session

end LineHandshake
