import LineHandshake.Binary64.Shortest
import LineHandshake.Json

/-!
The compact written form of JSON: no space anywhere, and printable ASCII only. Whatever lies
outside printable ASCII is escaped, above U+FFFF as the two halves of a surrogate pair, so a
written value never holds a line break and every text can be sent.
-/

namespace LineHandshake.Json

def shortEscape (c : CodePoint) : Option Text :=
  if c = CodePoint.quote then some (text "\\\"")
  else if c = CodePoint.backslash then some (text "\\\\")
  else if c.val = 10 then some (text "\\n")
  else if c.val = 13 then some (text "\\r")
  else if c.val = 9 then some (text "\\t")
  else if c.val = 8 then some (text "\\b")
  else if c.val = 12 then some (text "\\f")
  else none

def hexEscape (n : Nat) : Text := text "\\u" ++ Text.hex 4 n

def escapePoint (c : CodePoint) : Text :=
  match shortEscape c with
  | some t => t
  | none =>
    if 0x20 ≤ c.val ∧ c.val < 0x7F then [c]
    else if c.val < 0x10000 then hexEscape c.val
    else
      hexEscape (0xD800 + (c.val - 0x10000) / 0x400) ++
        hexEscape (0xDC00 + (c.val - 0x10000) % 0x400)

def printString (s : Text) : Text :=
  CodePoint.quote :: (s.flatMap escapePoint ++ [CodePoint.quote])

mutual

def print : Json → Text
  | .null => text "null"
  | .bool true => text "true"
  | .bool false => text "false"
  | .int n => Text.ofInt n
  | .real x => x.toText (text "NaN") (text "Infinity")
  | .str s => printString s
  | .arr items =>
    CodePoint.openBracket :: (Text.joined [comma] (printItems items) ++ [CodePoint.closeBracket])
  | .obj members =>
    openBrace :: (Text.joined [comma] (printMembers members) ++ [closeBrace])

def printItems : List Json → List Text
  | [] => []
  | v :: vs => print v :: printItems vs

def printMembers : List (Text × Json) → List Text
  | [] => []
  | (name, v) :: ms => (printString name ++ CodePoint.colon :: print v) :: printMembers ms

end

theorem printItems_eq_map (vs : List Json) : printItems vs = vs.map print := by
  induction vs with
  | nil => rfl
  | cons v vs ih => rw [printItems, List.map_cons, ih]

theorem printMembers_eq_map (ms : Members) :
    printMembers ms = ms.map fun m => printString m.1 ++ CodePoint.colon :: print m.2 := by
  induction ms with
  | nil => rfl
  | cons m ms ih => rw [printMembers, List.map_cons, ih]

end LineHandshake.Json
