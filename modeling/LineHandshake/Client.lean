import LineHandshake.Greeting
import LineHandshake.LinePort
import LineHandshake.Log
import LineHandshake.Text.Blank

/-!
The client's side of the handshake, on any line port: read INFO, send CONNECT and PING, wait for
PONG. What the server does wrong is reported as a handshake error.
-/

namespace LineHandshake

structure ServerInfo where
  serverId : Json
  members : Json.Members
deriving DecidableEq

namespace Client

variable {σ : Type}

def source : String := "client.handshake"

def giveUp {α : Type} (e : HandshakeError) : Task Fault σ α := Task.fail (.handshake e)

def readLine (port : LinePort σ) : Task Fault σ Text := do
  match ← Task.step fun s => let r := port.readLine s; (.ok r.1, r.2) with
  | .error (.port e) => giveUp (.connectionLost e)
  | .error f => Task.fail f
  | .ok got =>
    if !Line.crlfBytes.isSuffixOf got then giveUp (.timeout got)
    else
      match Utf8.decode got with
      | .error e => giveUp (.undecodable e)
      | .ok line =>
        Task.log .trace source (text "Client: received " ++ line.trimBlank.quoted)
        return line

def writeLine (port : LinePort σ) (line : Text) : Task Fault σ Unit := do
  match Utf8.encode line with
  | .error e => Task.fail (.unencodable e)
  | .ok bs =>
    match ← Task.step fun s => let r := port.write bs s; (.ok r.1, r.2) with
    | .error (.port e) => giveUp (.writeFailed e)
    | .error f => Task.fail f
    | .ok () => Task.log .trace source (text "Client: sent " ++ line.trimBlank.quoted)

def serverId (info : Json.Members) : Json := (info.get? (text "server_id")).getD .null

def greeting [Json.Stack] (line : Text) : Except Fault Json.Members :=
  match Line.decode line with
  | .error e => .error (.handshake (.badGreeting e))
  | .ok (keyword, payload) =>
    if keyword ≠ Keyword.info then
      .error (.handshake (.unexpectedKeyword Keyword.info keyword))
    else
      match Greeting.decodeInfo payload with
      | .error (.format e) => .error (.handshake (.badGreeting e))
      | r => r

def readInfo [Json.Stack] (port : LinePort σ) : Task Fault σ Json.Members := do
  let line ← readLine port
  let info ← Task.lift (greeting line)
  Task.log .info source
    (text "Client: received INFO (server_id=" ++ (serverId info).plain ++ text ")")
  return info

def sendConnect (port : LinePort σ) (options : Option Json) : Task Fault σ Unit := do
  writeLine port
    (Line.encode Keyword.connect (some (options.getD Greeting.defaultOptions).print))
  Task.log .info source (text "Client: sent CONNECT")

def sendPing (port : LinePort σ) : Task Fault σ Unit :=
  writeLine port (Line.encode Keyword.ping none)

def reply (line : Text) : Except Fault Unit :=
  match Line.decode line with
  | .error e => .error (.handshake (.badReply e))
  | .ok (keyword, _) =>
    if keyword ≠ Keyword.pong then
      .error (.handshake (.unexpectedKeyword Keyword.pong keyword))
    else .ok ()

def waitPong (port : LinePort σ) : Task Fault σ Unit := do
  let line ← readLine port
  Task.lift (reply line)
  Task.log .info source (text "Client: received PONG, connection established")

def handshake [Json.Stack] (port : LinePort σ) (options : Option Json) :
    Task Fault σ ServerInfo := do
  let info ← readInfo port
  sendConnect port options
  sendPing port
  waitPong port
  return ⟨serverId info, info⟩

def close (port : LinePort σ) : Task Fault σ Unit := do
  match ← Task.step fun s => let r := port.close s; (.ok r.1, r.2) with
  | .ok () => Task.log .debug "client.shutdown" (text "Client: port closed")
  | .error f =>
    if f.family = .system then
      let shown ← Task.lift f.shown
      Task.log .warning "client.shutdown" (text "Client: error closing port: " ++ shown)
    else Task.fail f

inductive Call
  | readLine
  | writeLine (line : Text)
  | readInfo
  | sendConnect (options : Option Json)
  | sendPing
  | waitPong
  | handshake (options : Option Json)
  | close

inductive Result
  | done
  | line (t : Text)
  | info (members : Json.Members)
  | established (info : ServerInfo)
deriving DecidableEq

def call [Json.Stack] (port : LinePort σ) : Call → Task Fault σ Result
  | .readLine => return .line (← readLine port)
  | .writeLine line => do writeLine port line; return .done
  | .readInfo => return .info (← readInfo port)
  | .sendConnect options => do sendConnect port options; return .done
  | .sendPing => do sendPing port; return .done
  | .waitPong => do waitPong port; return .done
  | .handshake options => return .established (← handshake port options)
  | .close => do close port; return .done

end Client

end LineHandshake
