import LineHandshake.Client
import LineHandshake.Session

/-!
A client's line port, once it has dialled into a session. A read gives what is there when no more
comes, and fails if a connection that was cut ends before the pattern; what it had read by then is
lost. With a limit that is over at once a read sees one byte at a time.
-/

namespace LineHandshake.Session

def openedRecord (url : Text) (limit : Duration) : Record :=
  ⟨.debug, text "common.device",
    text "Opened " ++ url ++ text " (timeout=" ++ limit.toText ++ text "s)"⟩

def dial (s : Session) (target : Nat) (host : Text) (port : Int) (limit : Duration) :
    Except Fault Unit × Session × Log :=
  let url := Address.url host port
  let refused (e : DialError) : Except Fault Unit := .error (.port (.cannotOpen url e))
  if limit.isNegative then (.error (.invalidTimeout limit), s, [])
  else
    match Address.dialled host port with
    | .error e => (refused (.address e), s, [])
    | .ok port =>
      match s.connect target port {} (some { limit }) with
      | (.error e, s) => (refused (.system e), s, [])
      | (.ok (), s) => (.ok (), s, [openedRecord url limit])

variable {α : Type}

def onLine (s : Session) (g : Nat) (f : Guest → Dialled → Session → Except Fault α × Session) :
    Except Fault α × Session :=
  match s.guests[g]? with
  | none => (.error (.port .notOpen), s)
  | some guest =>
    match guest.line with
    | none => (.error (.port .notOpen), s)
    | some line => if line.isOpen then f guest line s else (.error (.port .notOpen), s)

def lineLimit? (s : Session) (g : Nat) : Option Duration :=
  ((s.guests[g]?).bind (·.line)).map (·.limit)

def reach (pattern : Bytes) (limit : Duration) (unread : Bytes) : Bytes × Bool :=
  if limit.isInstant then (unread.take 1, unread != [])
  else if pattern = [] then (unread, false)
  else
    match Bytes.cutThrough pattern unread with
    | some (found, _) => (found, true)
    | none => (unread, false)

/-- The time that a read may take is reckoned first, even if the line is closed. -/
def readThrough (pattern : Bytes) (g : Nat) (s : Session) : Except Fault Bytes × Session :=
  if (s.lineLimit? g).any (·.isTooLarge) then (.error .limitTooLarge, s)
  else s.onLine g fun guest line s =>
    let (got, isEnough) := reach pattern line.limit (s.unread guest)
    let r := if isEnough || !s.isCut guest then .ok got else .error (.port .endOfStream)
    (r, s.take g got.length)

/-- What is written is sent even if it takes too long; with no time at all there is no waiting. -/
def writeLine (g : Nat) (bs : Bytes) (s : Session) : Except Fault Unit × Session :=
  s.onLine g fun guest line s =>
    if line.limit.isTooLarge then (.error .limitTooLarge, s)
    else if bs = [] then (.ok (), s)
    else if guest.hasEnded || s.isCut guest then (.error (.port (.writeRefused .brokenPipe)), s)
    else
      let isTooSlow := line.limit.isInstant && !line.limit.isZero
      (if isTooSlow then .error (.port .writeTimeout) else .ok (), s.send g bs)

def isReadable (g : Nat) (s : Session) : Except Fault Bool × Session :=
  s.onLine g fun guest _ s => (.ok (s.unread guest != [] || s.isCut guest), s)

def dropUnread (g : Nat) (s : Session) : Except Fault Unit × Session :=
  s.onLine g fun guest _ s => (.ok (), s.take g (s.unread guest).length)

def isLineOpen (s : Session) (g : Nat) : Bool :=
  ((s.guests[g]?).bind (·.line)).any (·.isOpen)

def closeLine (g : Nat) (s : Session) : Except Fault Unit × Session :=
  if s.isLineOpen g then
    (.ok (), (s.hangUp g .endOfStream).modifyGuest g fun guest =>
      { guest with line := guest.line.map fun l => { l with isOpen := false } })
  else (.ok (), s)

def linePort (g : Nat) : LinePort Session where
  readLine := readThrough Line.crlfBytes g
  write := writeLine g
  close := closeLine g

end LineHandshake.Session
