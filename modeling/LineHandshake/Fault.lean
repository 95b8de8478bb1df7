import LineHandshake.Address
import LineHandshake.Duration
import LineHandshake.Json.Display
import LineHandshake.Json.Reader
import LineHandshake.Utf8

/-!
Everything that can go wrong, by cause. A fault has a kind, which reports name, a message, and a
family, which decides how a server run that it ends is classed and whether releasing a resource
may pass over it. Faults that come from outside are known by kind, family and message, and some of
these have no message: showing them is a fault of its own.
-/

namespace LineHandshake

inductive FormatError
  | notUtf8 (e : Utf8.DecodeError)
  | emptyLine
  | badInfo (e : Json.SyntaxError)
  | infoNotObject (type : Text)
  | badCounts (e : Json.SyntaxError)
  | countsNotObject (type : Text)
  | countNotWhole (name : Text) (count : Json)
deriving DecidableEq

def FormatError.message : FormatError → Text
  | .notUtf8 e => text "Line is not valid UTF-8: " ++ e.message
  | .emptyLine => text "Empty line"
  | .badInfo e => text "Invalid INFO payload: " ++ e.message
  | .infoNotObject type => text "INFO payload is not an object: " ++ type
  | .badCounts e => text "Invalid subject counts: " ++ e.message
  | .countsNotObject type => text "Subject counts must be an object, got " ++ type
  | .countNotWhole name count =>
    text "Count for " ++ name.quoted ++ text " is not an integer: " ++ count.shown

inductive SystemError
  | brokenPipe
  | addressInUse
  | connectionReset
  | connectionRefused
deriving DecidableEq, Repr

def SystemError.kind : SystemError → Text
  | .brokenPipe => text "BrokenPipeError"
  | .addressInUse => text "OSError"
  | .connectionReset => text "ConnectionResetError"
  | .connectionRefused => text "ConnectionRefusedError"

def SystemError.message : SystemError → Text
  | .brokenPipe => text "[Errno 32] Broken pipe"
  | .addressInUse => text "[Errno 98] Address already in use"
  | .connectionReset => text "[Errno 104] Connection reset by peer"
  | .connectionRefused => text "[Errno 111] Connection refused"

inductive DialError
  | address (e : AddressError)
  | system (e : SystemError)
deriving DecidableEq, Repr

def DialError.message : DialError → Text
  | .address e => e.message
  | .system e => e.message

inductive PortError
  | disconnected
  | connectionFailed
  | endOfStream
  | writeRefused (e : SystemError)
  | writeTimeout
  | notOpen
  | cannotOpen (url : Text) (e : DialError)
deriving DecidableEq, Repr

def PortError.kind : PortError → Text
  | .notOpen => text "PortNotOpenError"
  | .writeTimeout => text "SerialTimeoutException"
  | _ => text "SerialException"

def PortError.message : PortError → Text
  | .disconnected => text "socket disconnected"
  | .connectionFailed => text "socket connection failed"
  | .endOfStream => text "read failed: socket disconnected"
  | .writeRefused e => text "write failed: " ++ e.message
  | .writeTimeout => text "Write timeout"
  | .notOpen => text "Attempting to use a port that is not open"
  | .cannotOpen url e => text "Could not open port " ++ url ++ text ": " ++ e.message

inductive HandshakeError
  | connectionLost (e : PortError)
  | timeout (got : Bytes)
  | undecodable (e : Utf8.DecodeError)
  | writeFailed (e : PortError)
  | unexpectedKeyword (expected got : Text)
  | badGreeting (e : FormatError)
  | badReply (e : FormatError)
deriving DecidableEq

def HandshakeError.message : HandshakeError → Text
  | .connectionLost e => text "Client: connection lost: " ++ e.message
  | .timeout got => text "Client: timeout waiting for line (got " ++ Bytes.quoted got ++ text ")"
  | .undecodable e => text "Client: undecodable line: " ++ e.message
  | .writeFailed e => text "Client: write failed: " ++ e.message
  | .unexpectedKeyword expected got =>
    text "Client: expected " ++ expected ++ text ", got " ++ got.quoted
  | .badGreeting e => text "Client: bad greeting: " ++ e.message
  | .badReply e => text "Client: bad reply to PING: " ++ e.message

def shownLength : Nat := 64

def cutToShow (line : Text) : Text :=
  if line.length ≤ shownLength then line else line.take shownLength ++ text "..."

/-- What a fault counts as where it is handled. A fatal one, such as a request to leave the whole
program, is handled nowhere. -/
inductive Family
  | unexpectedLine
  | format
  | transport
  | system
  | value
  | other
  | fatal
deriving DecidableEq, Repr

inductive Fault
  | format (e : FormatError)
  | unexpectedLine (keyword line : Text)
  | clientGone
  | acceptTimeout (limit : Duration)
  | handshake (e : HandshakeError)
  | undecodable (e : Utf8.DecodeError)
  | unencodable (e : Utf8.EncodeError)
  | unreadable (e : Json.ReadError)
  | countTooLarge
  | outOfMemory
  | streamClosed
  | system (e : SystemError)
  | port (e : PortError)
  | portNumber
  | invalidRange (first last : Int)
  | portsExhausted (last : Int)
  | invalidTimeout (limit : Duration)
  | limitTooLarge
  | notAMember (value : Json) (type : Text)
  | joinsItself
  | raised (kind : Text) (family : Family) (message : Text) (number : Option Int)
  | mute (kind : Text) (family : Family) (why : Fault)
deriving DecidableEq

def systemKinds : List (Int × Text) :=
  [(1, text "PermissionError"), (2, text "FileNotFoundError"), (3, text "ProcessLookupError"),
    (4, text "InterruptedError"), (10, text "ChildProcessError"), (11, text "BlockingIOError"),
    (13, text "PermissionError"), (17, text "FileExistsError"), (20, text "NotADirectoryError"),
    (21, text "IsADirectoryError"), (32, text "BrokenPipeError"),
    (103, text "ConnectionAbortedError"), (104, text "ConnectionResetError"),
    (108, text "BrokenPipeError"), (110, text "TimeoutError"),
    (111, text "ConnectionRefusedError"), (114, text "BlockingIOError"),
    (115, text "BlockingIOError")]

def systemKindNames : List Text :=
  [text "OSError", text "ConnectionError", text "SerialException", text "PortNotOpenError",
    text "SerialTimeoutException"] ++ systemKinds.map (·.2)

def valueKindNames : List Text :=
  [text "ValueError", text "UnicodeError", text "UnicodeDecodeError", text "UnicodeEncodeError",
    text "UnicodeTranslateError", text "JSONDecodeError"]

def fatalKindNames : List Text :=
  [text "SystemExit", text "KeyboardInterrupt", text "GeneratorExit", text "BaseException",
    text "BaseExceptionGroup"]

def Family.ofKind (kind : Text) : Family :=
  if kind = text "UnexpectedMessageError" then .unexpectedLine
  else if kind = text "EncodingError" then .format
  else if kind = text "TransportError" then .transport
  else if kind ∈ systemKindNames then .system
  else if kind ∈ valueKindNames then .value
  else if kind ∈ fatalKindNames then .fatal
  else .other

namespace Fault

/-- A fault from outside of which nothing but its kind tells the family. -/
def named (kind message : Text) (number : Option Int) : Fault :=
  .raised kind (Family.ofKind kind) message number

def kind : Fault → Text
  | .format _ => text "EncodingError"
  | .unexpectedLine _ _ => text "UnexpectedMessageError"
  | .clientGone => text "TransportError"
  | .acceptTimeout _ => text "TransportError"
  | .handshake _ => text "HandshakeError"
  | .undecodable _ => text "UnicodeDecodeError"
  | .unencodable _ => text "UnicodeEncodeError"
  | .unreadable (.malformed _) => text "JSONDecodeError"
  | .unreadable (.tooManyDigits _) => text "ValueError"
  | .unreadable (.tooDeep _) => text "RecursionError"
  | .countTooLarge => text "OverflowError"
  | .outOfMemory => text "MemoryError"
  | .streamClosed => text "ValueError"
  | .system e => e.kind
  | .port e => e.kind
  | .portNumber => text "OverflowError"
  | .invalidRange _ _ => text "ValueError"
  | .portsExhausted _ => text "PortExhaustedError"
  | .invalidTimeout _ => text "ValueError"
  | .limitTooLarge => text "OverflowError"
  | .notAMember _ _ => text "ValueError"
  | .joinsItself => text "RuntimeError"
  | .raised kind _ _ number =>
    match number with
    | some n => if kind = text "OSError" then (systemKinds.lookup n).getD kind else kind
    | none => kind
  | .mute kind _ _ => kind

def message : Fault → Text
  | .format e => e.message
  | .unexpectedLine keyword line =>
    text "Expected " ++ keyword ++ text ", got " ++ (cutToShow line).quoted
  | .clientGone => text "Client closed the connection"
  | .acceptTimeout limit =>
    text "Server: timeout (" ++ limit.toText ++ text "s) waiting for client"
  | .handshake e => e.message
  | .undecodable e => e.message
  | .unencodable e => e.message
  | .unreadable e => e.message
  | .countTooLarge => text "cannot fit \x27int\x27 into an index-sized integer"
  | .outOfMemory => []
  | .streamClosed => text "I/O operation on closed file."
  | .system e => e.message
  | .port e => e.message
  | .portNumber => text "bind(): port must be 0-65535."
  | .invalidRange first last =>
    text "Invalid port range " ++ Text.ofInt first ++ text "-" ++ Text.ofInt last
  | .portsExhausted last => text "No free port left up to " ++ Text.ofInt last
  | .invalidTimeout limit => text "Not a valid timeout: " ++ limit.toText
  | .limitTooLarge => text "int too large to convert to float"
  | .notAMember value type => value.shown ++ text " is not a valid " ++ type
  | .joinsItself => text "cannot join current thread"
  | .raised kind _ message number =>
    match number with
    | some n => text "[Errno " ++ Text.ofInt n ++ text "] " ++ message
    | none => if kind = text "KeyError" then message.quoted else message
  | .mute _ _ _ => []

def shown : Fault → Except Fault Text
  | .mute _ _ why => .error why
  | f => .ok f.message

def family : Fault → Family
  | .format _ => .format
  | .unexpectedLine _ _ => .unexpectedLine
  | .clientGone => .transport
  | .acceptTimeout _ => .transport
  | .system _ => .system
  | .port _ => .system
  | .undecodable _ => .value
  | .unencodable _ => .value
  | .unreadable (.malformed _) => .value
  | .unreadable (.tooManyDigits _) => .value
  | .streamClosed => .value
  | .invalidRange _ _ => .value
  | .invalidTimeout _ => .value
  | .notAMember _ _ => .value
  | .raised _ family _ _ => family
  | .mute _ family _ => family
  | _ => .other

/-- Whether closing a resource may fail so without more than a warning. -/
def isForgivable (f : Fault) : Bool := f.family = .system || f.family = .value

/-- Whether a run that the fault ends can tell of it: it is handled, and it can be shown. -/
def isRecorded (f : Fault) : Bool := f.family != .fatal && f.shown.isOk

def isOwn : Fault → Bool
  | .raised .. => false
  | .mute .. => false
  | _ => true

theorem shown_of_isOk {f : Fault} (h : f.shown.isOk = true) : f.shown = .ok f.message := by
  unfold shown at h ⊢
  split at h
  · cases h
  · rfl

theorem isRecorded_iff {f : Fault} :
    f.isRecorded = true ↔ f.family ≠ .fatal ∧ f.shown = .ok f.message := by
  rw [isRecorded, Bool.and_eq_true, bne_iff_ne]
  refine and_congr_right fun _ => ⟨shown_of_isOk, fun h => ?_⟩
  rw [h]
  rfl

theorem isRecorded_of_isOwn {f : Fault} (h : f.isOwn = true) : f.isRecorded = true := by
  cases f with
  | raised => cases h
  | mute => cases h
  | unreadable e => cases e <;> rfl
  | _ => rfl

end Fault

end LineHandshake
