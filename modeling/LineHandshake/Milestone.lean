import LineHandshake.Fault

/-!
How far a server run got (`Progress`), how it ended (`Outcome`), and where it was told to stop
(`ExitPoint`). Each has a name, for messages, and a value by which it can be looked up.
-/

namespace LineHandshake

inductive ExitPoint
  | beforeInfo
  | afterInfo
  | afterConnect
  | afterPing
  | noExit
deriving DecidableEq, Repr

inductive Progress
  | noClient
  | clientConnected
  | sentInfo
  | gotConnect
  | gotPing
  | sentPong
  | startedCustomCode
  | completedCustomCode
deriving DecidableEq, Repr

inductive Outcome
  | running
  | exited
  | cancelled
  | completed
  | protocolViolation
  | ioError
  | error
deriving DecidableEq, Repr

namespace ExitPoint

def all : List ExitPoint := [.beforeInfo, .afterInfo, .afterConnect, .afterPing, .noExit]

def name : ExitPoint → Text
  | .beforeInfo => text "BEFORE_INFO"
  | .afterInfo => text "AFTER_INFO"
  | .afterConnect => text "AFTER_CONNECT"
  | .afterPing => text "AFTER_PING"
  | .noExit => text "NO_EXIT"

def value : ExitPoint → Text
  | .beforeInfo => text "before_info"
  | .afterInfo => text "after_info"
  | .afterConnect => text "after_connect"
  | .afterPing => text "after_ping"
  | .noExit => text "no_exit"

def ofName? (n : Text) : Option ExitPoint := all.find? (·.name = n)

def ofValue? : Json → Option ExitPoint
  | .str s => all.find? (·.value = s)
  | _ => none

def lookUp (v : Json) : Except Fault ExitPoint :=
  (ofValue? v).elim (.error (.notAMember v (text "ExitAt"))) .ok

end ExitPoint

namespace Progress

def all : List Progress :=
  [.noClient, .clientConnected, .sentInfo, .gotConnect, .gotPing, .sentPong, .startedCustomCode,
    .completedCustomCode]

def rank : Progress → Nat
  | .noClient => 0
  | .clientConnected => 1
  | .sentInfo => 2
  | .gotConnect => 3
  | .gotPing => 4
  | .sentPong => 5
  | .startedCustomCode => 6
  | .completedCustomCode => 7

def name : Progress → Text
  | .noClient => text "NO_CLIENT"
  | .clientConnected => text "CLIENT_CONNECTED"
  | .sentInfo => text "SENT_INFO"
  | .gotConnect => text "GOT_CONNECT"
  | .gotPing => text "GOT_PING"
  | .sentPong => text "SENT_PONG"
  | .startedCustomCode => text "STARTED_CUSTOM_CODE"
  | .completedCustomCode => text "COMPLETED_CUSTOM_CODE"

def ofName? (n : Text) : Option Progress := all.find? (·.name = n)

/-- A rank may be given as any number equal to it, a truth value counting as one or zero. -/
def ofValue? : Json → Option Progress
  | .int n => all.find? fun p => (p.rank : Int) = n
  | .bool b => all.find? fun p => p.rank = b.toNat
  | .real x => all.find? fun p => x.isInt p.rank
  | _ => none

def furthest (p q : Progress) : Progress := if p.rank < q.rank then q else p

def lookUp (v : Json) : Except Fault Progress :=
  (ofValue? v).elim (.error (.notAMember v (text "Progress"))) .ok

end Progress

namespace Outcome

def all : List Outcome :=
  [.running, .exited, .cancelled, .completed, .protocolViolation, .ioError, .error]

def name : Outcome → Text
  | .running => text "RUNNING"
  | .exited => text "EXITED"
  | .cancelled => text "CANCELLED"
  | .completed => text "COMPLETED"
  | .protocolViolation => text "PROTOCOL_VIOLATION"
  | .ioError => text "IO_ERROR"
  | .error => text "ERROR"

def value : Outcome → Text
  | .running => text "running"
  | .exited => text "exited"
  | .cancelled => text "cancelled"
  | .completed => text "completed"
  | .protocolViolation => text "protocol_violation"
  | .ioError => text "io_error"
  | .error => text "error"

def ofName? (n : Text) : Option Outcome := all.find? (·.name = n)

def ofValue? : Json → Option Outcome
  | .str s => all.find? (·.value = s)
  | _ => none

def lookUp (v : Json) : Except Fault Outcome :=
  (ofValue? v).elim (.error (.notAMember v (text "Outcome"))) .ok

/-- Whether the client or the connection is to blame. -/
def isProtocolFailure (o : Outcome) : Bool := o = .protocolViolation || o = .ioError

end Outcome

end LineHandshake
