import LineHandshake.Json

/-!
Reading JSON. A reader takes what is left of the text and gives a value with what is left after
it. A flaw is located by how much of the text is left at it, which turns into an offset, a line
and a column only when the whole text is known.

Beyond the standard, `NaN`, `Infinity` and `-Infinity` are numbers, and an escaped surrogate that
has no partner is kept. Two limits are no matter of syntax: the digits of a whole number and the
depth, which is what the stack allows.
-/

namespace LineHandshake.Json

inductive Flaw
  | byteOrderMark
  | valueMissing
  | nameMissing
  | colonMissing
  | commaMissing
  | unterminatedString
  | controlCharacter
  | badEscape
  | badHexEscape
  | extraData
deriving DecidableEq, Repr

def Flaw.message : Flaw → Text
  | .byteOrderMark => text "Unexpected UTF-8 BOM (decode using utf-8-sig)"
  | .valueMissing => text "Expecting value"
  | .nameMissing => text "Expecting property name enclosed in double quotes"
  | .colonMissing => text "Expecting \x27:\x27 delimiter"
  | .commaMissing => text "Expecting \x27,\x27 delimiter"
  | .unterminatedString => text "Unterminated string starting at"
  | .controlCharacter => text "Invalid control character at"
  | .badEscape => text "Invalid \\escape"
  | .badHexEscape => text "Invalid \\uXXXX escape"
  | .extraData => text "Extra data"

structure SyntaxError where
  flaw : Flaw
  line : Nat
  column : Nat
  offset : Nat
deriving DecidableEq, Repr

def SyntaxError.message (e : SyntaxError) : Text :=
  e.flaw.message ++ text ": line " ++ Text.ofNat e.line ++ text " column " ++
    Text.ofNat e.column ++ text " (char " ++ Text.ofNat e.offset ++ text ")"

inductive Container
  | array
  | object
deriving DecidableEq, Repr

inductive ReadError
  | malformed (e : SyntaxError)
  | tooManyDigits (count : Nat)
  | tooDeep (container : Container)
deriving DecidableEq, Repr

/-- What is left of the stack when a text is read: how deep containers may stand in each other. It
depends on the machine and on who reads. -/
class Stack where
  depth : Nat

/-- That of a program which does nothing else. -/
instance Stack.standard : Stack := ⟨993⟩

def maxDepth [Stack] : Nat := Stack.depth

def ReadError.message : ReadError → Text
  | .malformed e => e.message
  | .tooManyDigits count =>
    text "Exceeds the limit (" ++ Text.ofNat Text.maxDigits ++
      text " digits) for integer string conversion: value has " ++ Text.ofNat count ++
      text " digits; use sys.set_int_max_str_digits() to increase the limit"
  | .tooDeep container =>
    text "maximum recursion depth exceeded while decoding a JSON " ++
      text (match container with | .array => "array" | .object => "object") ++
      text " from a unicode string"

/-- Why reading stops: a flaw with what is left of the text at it, or a limit. -/
inductive Stop
  | flaw (f : Flaw) (left : Nat)
  | tooManyDigits (count : Nat)
  | tooDeep (container : Container)
deriving DecidableEq, Repr

abbrev Reading (α : Type) := Except Stop (α × Text)

def isSpace (c : CodePoint) : Bool := c.val == 32 || c.val == 9 || c.val == 10 || c.val == 13

def skipSpace (s : Text) : Text := s.dropWhile isSpace

def hexQuad (a b c d : CodePoint) : Option CodePoint :=
  match a.hexValue, b.hexValue, c.hexValue, d.hexValue with
  | some a, some b, some c, some d => some (Fin.ofNat _ (((a * 16 + b) * 16 + c) * 16 + d))
  | _, _, _, _ => none

def joinSurrogates (high low : CodePoint) : CodePoint :=
  Fin.ofNat _ (0x10000 + (high.val - 0xD800) * 0x400 + (low.val - 0xDC00))

def unescape (c : CodePoint) : Option CodePoint :=
  if c = CodePoint.quote ∨ c = CodePoint.backslash ∨ c.val = 47 then some c
  else if c.val = 98 then some 8
  else if c.val = 102 then some 12
  else if c.val = 110 then some 10
  else if c.val = 114 then some 13
  else if c.val = 116 then some 9
  else none

def letterU : CodePoint := 117

structure Piece where
  point : CodePoint
  numbered : Bool
deriving DecidableEq, Repr

def Piece.pairsWith (p q : Piece) : Prop :=
  p.numbered = true ∧ q.numbered = true ∧ p.point.IsHighSurrogate ∧ q.point.IsLowSurrogate

instance (p q : Piece) : Decidable (p.pairsWith q) := inferInstanceAs (Decidable (_ ∧ _))

/-- The text of the pieces: two halves of a pair written by number one after the other are one
code point. -/
def Piece.join : List Piece → Text
  | [] => []
  | [p] => [p.point]
  | p :: q :: ps =>
    if p.pairsWith q then joinSurrogates p.point q.point :: join ps
    else p.point :: join (q :: ps)

def Reading.andThen {α β : Type} (r : Reading α) (next : α → Text → Reading β) : Reading β :=
  match r with
  | .error e => .error e
  | .ok (a, rest) => next a rest

def precededBy {α : Type} (a : α) (r : Reading (List α)) : Reading (List α) :=
  r.map fun r => (a :: r.1, r.2)

/-- A string after its opening quote; `opening` is what was left of the text at that quote. A
numbered escape has to be followed by at least one more code point. -/
def readPieces (opening : Nat) : Text → Reading (List Piece)
  | [] => .error (.flaw .unterminatedString opening)
  | c :: s =>
    if c = CodePoint.quote then .ok ([], s)
    else if c.val < 0x20 then .error (.flaw .controlCharacter (s.length + 1))
    else if c ≠ CodePoint.backslash then precededBy ⟨c, false⟩ (readPieces opening s)
    else
      match s with
      | [] => .error (.flaw .unterminatedString opening)
      | e :: s =>
        if e ≠ letterU then
          match unescape e with
          | none => .error (.flaw .badEscape (s.length + 2))
          | some c => precededBy ⟨c, false⟩ (readPieces opening s)
        else
          match s with
          | a :: b :: c :: d :: rest =>
            match hexQuad a b c d with
            | none => .error (.flaw .badHexEscape (s.length + 1))
            | some n =>
              if rest = [] then .error (.flaw .badHexEscape (s.length + 1))
              else precededBy ⟨n, true⟩ (readPieces opening rest)
          | _ => .error (.flaw .badHexEscape (s.length + 1))

def readString (opening : Nat) (s : Text) : Reading Text :=
  (readPieces opening s).map fun r => (Piece.join r.1, r.2)

def digitRun (s : Text) : Text × Text := s.span fun c => decide c.IsDigit

def readMinus : Text → Bool × Text
  | [] => (false, [])
  | c :: s => if c.val = 45 then (true, s) else (false, c :: s)

def readWhole : Text → Option (Text × Text)
  | [] => none
  | c :: s =>
    if c.val = 48 then some ([c], s)
    else if c.IsDigit then some (digitRun (c :: s))
    else none

def readFraction : Text → Option (Text × Text)
  | p :: c :: s => if p.val = 46 ∧ c.IsDigit then some (digitRun (c :: s)) else none
  | _ => none

def readSign : Text → Bool × Text
  | [] => (false, [])
  | c :: s => if c.val = 45 then (true, s) else if c.val = 43 then (false, s) else (false, c :: s)

def readExponent : Text → Option (Int × Text)
  | [] => none
  | e :: s =>
    if e.val = 101 ∨ e.val = 69 then
      let (negative, s) := readSign s
      match digitRun s with
      | ([], _) => none
      | (ds, rest) => some (if negative then -(Text.ofDigits ds : Int) else Text.ofDigits ds, rest)
    else none

def readNumber (s : Text) : Reading Json :=
  let (negative, t) := readMinus s
  match readWhole t with
  | none => .error (.flaw .valueMissing s.length)
  | some (whole, t) =>
    match readFraction t, readExponent ((readFraction t).elim t (·.2)) with
    | none, none =>
      if Text.maxDigits < whole.length then .error (.tooManyDigits whole.length)
      else .ok (.int (Binary64.withSign negative (Text.ofDigits whole)), t)
    | fraction, exponent =>
      let decimals := fraction.elim [] (·.1)
      let rest := exponent.elim (fraction.elim t (·.2)) (·.2)
      let power := exponent.elim 0 (·.1) - decimals.length
      .ok (.real (Binary64.ofDecimal negative (Text.ofDigits (whole ++ decimals)) power), rest)

def literals : List (Text × Json) :=
  [(text "null", .null), (text "true", .bool true), (text "false", .bool false),
    (text "NaN", .real .nan), (text "Infinity", .real (.infinity false)),
    (text "-Infinity", .real (.infinity true))]

def readScalar (s : Text) : Reading Json :=
  match literals.find? fun l => l.1.isPrefixOf s with
  | some (word, v) => .ok (v, s.drop word.length)
  | none => readNumber s

def readItems (value : Text → Reading Json) : (fuel : Nat) → Text → Reading (List Json)
  | 0, s => .error (.flaw .valueMissing s.length)
  | fuel + 1, s => (value s).andThen fun v s =>
    match skipSpace s with
    | [] => .error (.flaw .commaMissing 0)
    | c :: rest =>
      if c = CodePoint.closeBracket then .ok ([v], rest)
      else if c = comma then precededBy v (readItems value fuel (skipSpace rest))
      else .error (.flaw .commaMissing (rest.length + 1))

def readArray (value : Text → Reading Json) (s : Text) : Reading Json :=
  match skipSpace s with
  | [] => .error (.flaw .valueMissing 0)
  | c :: rest =>
    if c = CodePoint.closeBracket then .ok (.arr [], rest)
    else (readItems value (rest.length + 1) (c :: rest)).map fun r => (.arr r.1, r.2)

def readName (s : Text) : Reading Text :=
  match s with
  | [] => .error (.flaw .nameMissing 0)
  | c :: rest =>
    if c ≠ CodePoint.quote then .error (.flaw .nameMissing s.length)
    else (readString s.length rest).andThen fun name rest =>
      match skipSpace rest with
      | [] => .error (.flaw .colonMissing 0)
      | c :: rest =>
        if c = CodePoint.colon then .ok (name, rest)
        else .error (.flaw .colonMissing (rest.length + 1))

def readMembers (value : Text → Reading Json) : (fuel : Nat) → Text → Reading Members
  | 0, s => .error (.flaw .nameMissing s.length)
  | fuel + 1, s => (readName s).andThen fun name s => (value (skipSpace s)).andThen fun v s =>
    match skipSpace s with
    | [] => .error (.flaw .commaMissing 0)
    | c :: rest =>
      if c = closeBrace then .ok ([(name, v)], rest)
      else if c = comma then precededBy (name, v) (readMembers value fuel (skipSpace rest))
      else .error (.flaw .commaMissing (rest.length + 1))

def readObject (value : Text → Reading Json) (s : Text) : Reading Json :=
  match skipSpace s with
  | [] => .error (.flaw .nameMissing 0)
  | c :: rest =>
    if c = closeBrace then .ok (.obj [], rest)
    else (readMembers value (rest.length + 1) (c :: rest)).map fun r =>
      (.obj (Members.ofList r.1), r.2)

def readStart (array object : Text → Reading Json) (s : Text) : Reading Json :=
  match s with
  | [] => .error (.flaw .valueMissing 0)
  | c :: rest =>
    if c = CodePoint.quote then (readString s.length rest).map fun r => (.str r.1, r.2)
    else if c = CodePoint.openBracket then array rest
    else if c = openBrace then object rest
    else readScalar s

/-- A value in which containers stand at most `depth` deep. -/
def readValue : (depth : Nat) → Text → Reading Json
  | 0 => readStart (fun _ => .error (.tooDeep .array)) (fun _ => .error (.tooDeep .object))
  | depth + 1 => readStart (readArray (readValue depth)) (readObject (readValue depth))

/-- A flaw at an offset of the whole text: lines are counted from one, at line feeds. -/
def locate (whole : Text) (flaw : Flaw) (offset : Nat) : SyntaxError :=
  let before := whole.take offset
  { flaw
    line := 1 + before.count CodePoint.lf
    column := 1 + (before.reverse.takeWhile (· ≠ CodePoint.lf)).length
    offset }

def Stop.toReadError (whole : Text) : Stop → ReadError
  | .flaw f left => .malformed (locate whole f (whole.length - left))
  | .tooManyDigits count => .tooManyDigits count
  | .tooDeep container => .tooDeep container

def readWholeText [Stack] (s : Text) : Except Stop Json :=
  if s.head? = some 0xFEFF then .error (.flaw .byteOrderMark s.length)
  else
    match readValue maxDepth (skipSpace s) with
    | .error e => .error e
    | .ok (v, rest) =>
      match skipSpace rest with
      | [] => .ok v
      | _ :: rest => .error (.flaw .extraData (rest.length + 1))

def read [Stack] (s : Text) : Except ReadError Json :=
  (readWholeText s).mapError (·.toReadError s)

end LineHandshake.Json
