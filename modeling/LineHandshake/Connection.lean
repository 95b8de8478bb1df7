import LineHandshake.Greeting
import LineHandshake.Log
import LineHandshake.Text.Blank
import LineHandshake.TextSink
import LineHandshake.TextSource

/-!
A server's connection to its client, and the four exchanges of the handshake on it.
-/

namespace LineHandshake

structure Connection where
  source : TextSource := {}
  sink : TextSink := {}
  isOpen : Bool := true
deriving DecidableEq

namespace Connection

def deliver (bs : Bytes) (c : Connection) : Connection :=
  { c with source := c.source.deliver bs }

/-- The client ends its side. A reset, if it is the first end, breaks the other side too. -/
def hangUp (e : Ending) (c : Connection) : Connection :=
  { c with
    source := c.source.hangUp e
    sink := { c.sink with
      isBroken := c.sink.isBroken || (c.source.ending.isNone && e = .reset) } }

abbrev Exchange (α : Type) := Task Interrupt Connection α

def onSource {α : Type} (f : TextSource → Except Interrupt α × TextSource) : Exchange α :=
  Task.step fun c => let r := f c.source; (r.1, { c with source := r.2 })

def onSink {α : Type} (f : TextSink → Except Fault α × TextSink) : Exchange α :=
  Task.step fun c => let r := f c.sink; (r.1.mapError .fault, { c with sink := r.2 })

def trace (message : Text) : Exchange Unit := Task.log .trace "server.handshake" message

def writeLine (line : Text) : Exchange Unit := do
  onSink (TextSink.write line)
  onSink TextSink.flush
  trace (text "Server: sent " ++ line.trimBlank.quoted)

def lineFault : Interrupt → Interrupt
  | .fault (.undecodable e) => .fault (.format (.notUtf8 e))
  | i => i

def readLine : Exchange Text := do
  let line ← Task.mapError lineFault (onSource TextSource.readLine)
  if line = [] then Task.fail (.fault .clientGone)
  else
    trace (text "Server: received " ++ line.trimBlank.quoted)
    return line

def await (keyword : Text) : Exchange Text := do
  let line ← readLine
  Task.lift ((Line.expect keyword line).mapError .fault)

def sendInfo : Exchange Unit := writeLine (Greeting.encodeInfo Greeting.serverInfo)
def awaitConnect : Exchange Text := await Keyword.connect
def awaitPing : Exchange Text := await Keyword.ping
def sendPong : Exchange Unit := writeLine (Line.encode Keyword.pong none)

end Connection

end LineHandshake
