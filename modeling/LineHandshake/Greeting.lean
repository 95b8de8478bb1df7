import LineHandshake.Json.Printer
import LineHandshake.Line

/-!
The payloads of INFO and CONNECT: JSON objects in compact form.
-/

namespace LineHandshake.Greeting

def serverInfo : Json := .obj [(text "server_id", .str (text "test"))]

def defaultOptions : Json :=
  .obj [(text "verbose", .bool false), (text "pedantic", .bool false),
    (text "name", .str (text "handshake-testkit"))]

def encodeInfo (info : Json) : Text := Line.encode Keyword.info (some info.print)

def decodeInfo [Json.Stack] (payload : Text) : Except Fault Json.Members :=
  match Json.read payload with
  | .error (.malformed e) => .error (.format (.badInfo e))
  | .error e => .error (.unreadable e)
  | .ok (.obj members) => .ok members
  | .ok v => .error (.format (.infoNotObject v.typeName))

end LineHandshake.Greeting
