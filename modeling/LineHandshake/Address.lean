import LineHandshake.Address.Numeric
import LineHandshake.Text.Percent
import LineHandshake.Text.Quoted

/-!
Addresses of raw connections, `socket://host:port`, and what a dialler makes of one. The host is
taken as it is given, so it may bring user information, brackets, a path, options or a fragment of
its own, and even hide the port that was meant.
-/

namespace LineHandshake

inductive AddressError
  | badBrackets
  | badVersionedHost
  | bracketedQuad
  | notNumeric (host : Text)
  | disguisedDelimiter (authority : Text)
  | unknownLevel (value : Text)
  | misused
  | portMissing
deriving DecidableEq, Repr

def AddressError.message : AddressError → Text
  | .badBrackets => text "Invalid IPv6 URL"
  | .badVersionedHost => text "IPvFuture address is invalid"
  | .bracketedQuad => text "An IPv4 address cannot be in brackets"
  | .notNumeric host => host.quoted ++ text " does not appear to be an IPv4 or IPv6 address"
  | .disguisedDelimiter authority =>
    text "netloc \x27" ++ authority ++
      text "\x27 contains invalid characters under NFKC normalization"
  | .unknownLevel value => value.quoted
  | .misused => text "\x27debug|info|warning|error\x27"
  | .portMissing =>
    text "\x27<=\x27 not supported between instances of \x27int\x27 and \x27NoneType\x27"

namespace Address

def defaultHost : Text := text "127.0.0.1"
def maxPort : Int := 65535

def url (host : Text) (port : Int) : Text :=
  text "socket://" ++ host ++ text ":" ++ Text.ofInt port

def slash : CodePoint := 47
def questionMark : CodePoint := 63
def hash : CodePoint := 35
def atSign : CodePoint := 64

/-- Code points whose compatibility form holds a delimiter. -/
def disguised : List CodePoint :=
  [0x2047, 0x2048, 0x2049, 0x2100, 0x2101, 0x2105, 0x2106, 0x2A74, 0xFE13, 0xFE16, 0xFE55, 0xFE56,
    0xFE5F, 0xFE6B, 0xFF03, 0xFF0F, 0xFF1A, 0xFF1F, 0xFF20]

def cleaned (host : Text) (port : Int) : Text :=
  (host ++ CodePoint.colon :: Text.ofInt port).filter fun c => c.val ≠ 9 ∧ ¬ c.IsLineBreak

def isInAuthority (c : CodePoint) : Bool := c ≠ slash && c ≠ questionMark && c ≠ hash

def authority (t : Text) : Text := t.takeWhile isInAuthority

def query (t : Text) : Text :=
  let afterAuthority : Text := t.dropWhile isInAuthority
  ((afterAuthority.cut hash).1.cut questionMark).2.getD []

def place (authority : Text) : Text := (authority.reverse.takeWhile (· ≠ atSign)).reverse

def checkBracketed (host : Text) : Except AddressError Unit :=
  if host.head? = some 118 then
    if isVersioned host.tail then .ok () else .error .badVersionedHost
  else if isDottedQuad host then .error .bracketedQuad
  else if isGroupedWithZone host then .ok ()
  else .error (.notNumeric host)

/-- Brackets come in both kinds and hold all of the host. If they stand in the user information
only, the host has to be numeric all the same. -/
def checkBrackets (authority : Text) : Except AddressError Unit :=
  if CodePoint.openBracket ∈ authority ∧ CodePoint.closeBracket ∈ authority then
    match (place authority).cut CodePoint.openBracket with
    | (host, none) => checkBracketed (host.cut CodePoint.colon).1
    | (before, some bracketed) =>
      let (host, after) := bracketed.cut CodePoint.closeBracket
      let after := after.getD []
      if before ≠ [] then .error .badBrackets
      else if after = [] ∨ after.head? = some CodePoint.colon then checkBracketed host
      else .error .badBrackets
  else if CodePoint.openBracket ∈ authority ∨ CodePoint.closeBracket ∈ authority then
    .error .badBrackets
  else .ok ()

def checkAuthority (authority : Text) : Except AddressError Unit :=
  match checkBrackets authority with
  | .error e => .error e
  | .ok () =>
    if authority.any disguised.contains then .error (.disguisedDelimiter authority) else .ok ()

def options (query : Text) : List (Text × Text) :=
  ((query.pieces 38).filter (· ≠ [])).map fun (o : Text) =>
    let (name, value) := o.cut 61
    (name.unescaped, (value.getD []).unescaped)

def levels : List Text := [text "debug", text "info", text "warning", text "error"]

/-- The only option is the level from which on the connection logs; if it is given again, only the
first value counts. -/
def checkOptions (isLevelGiven : Bool) : List (Text × Text) → Except AddressError Unit
  | [] => .ok ()
  | (name, value) :: rest =>
    if name ≠ text "logging" then .error .misused
    else if isLevelGiven ∨ value ∈ levels then checkOptions true rest
    else .error (.unknownLevel value)

def portDigits (authority : Text) : Option Text :=
  let afterHost := match ((place authority).cut CodePoint.openBracket).2 with
    | some bracketed => (bracketed.cut CodePoint.closeBracket).2.getD []
    | none => place authority
  match (afterHost.cut CodePoint.colon).2 with
  | some [] => none
  | digits => digits

def portOf (authority : Text) : Except AddressError Int :=
  match portDigits authority with
  | none => .error .portMissing
  | some digits =>
    if digits.all (fun c => decide c.IsDigit) ∧ digits.length ≤ Text.maxDigits ∧
        (digits.ofDigits : Int) ≤ maxPort then
      .ok digits.ofDigits
    else .error .misused

def dialled (host : Text) (port : Int) : Except AddressError Int :=
  let t := cleaned host port
  match checkAuthority (authority t) with
  | .error e => .error e
  | .ok () =>
    match checkOptions false (options (query t)) with
    | .error e => .error e
    | .ok () => portOf (authority t)

end Address

end LineHandshake
