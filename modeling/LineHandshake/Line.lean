import LineHandshake.Fault
import LineHandshake.Utf8

/-!
Protocol lines: a keyword, after a space perhaps a payload, and CRLF. Reading a line takes every
CR and LF off its end and cuts at the first space. A server is content with a line that starts
with the keyword it waits for.
-/

namespace LineHandshake

namespace Keyword

def info : Text := text "INFO"
def connect : Text := text "CONNECT"
def ping : Text := text "PING"
def pong : Text := text "PONG"

def all : List Text := [info, connect, ping, pong]

end Keyword

namespace Line

def crlf : Text := [CodePoint.cr, CodePoint.lf]
def crlfBytes : Bytes := [13, 10]

/-- An empty payload is written like none at all. -/
def encode (keyword : Text) (payload : Option Text) : Text :=
  match payload with
  | none | some [] => keyword ++ crlf
  | some payload => keyword ++ CodePoint.space :: payload ++ crlf

def decode (line : Text) : Except FormatError (Text × Text) :=
  if line.chomp = [] then .error .emptyLine
  else .ok (line.chomp.beforeSpace, line.chomp.afterSpace)

def decodeBytes (bs : Bytes) : Except FormatError (Text × Text) :=
  match Utf8.decode bs with
  | .error e => .error (.notUtf8 e)
  | .ok line => decode line

def expect (keyword line : Text) : Except Fault Text :=
  if keyword.isPrefixOf line.chomp then .ok line.chomp
  else .error (.unexpectedLine keyword line.chomp)

end Line

end LineHandshake
