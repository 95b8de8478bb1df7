import LineHandshake.Binary64.Shortest
import LineHandshake.Json
import LineHandshake.Text.Quoted

/-!
JSON values as messages show them: texts quoted, a blank after each comma and colon, and the
words `None`, `True` and `False`.
-/

namespace LineHandshake.Json

mutual

def shown : Json → Text
  | .null => text "None"
  | .bool true => text "True"
  | .bool false => text "False"
  | .int n => Text.ofInt n
  | .real x => x.toText (text "nan") (text "inf")
  | .str s => s.quoted
  | .arr items =>
    CodePoint.openBracket ::
      (Text.joined (text ", ") (shownItems items) ++ [CodePoint.closeBracket])
  | .obj members =>
    openBrace :: (Text.joined (text ", ") (shownMembers members) ++ [closeBrace])

def shownItems : List Json → List Text
  | [] => []
  | v :: vs => shown v :: shownItems vs

def shownMembers : List (Text × Json) → List Text
  | [] => []
  | (name, v) :: ms => (name.quoted ++ text ": " ++ shown v) :: shownMembers ms

end

def plain : Json → Text
  | .str s => s
  | v => v.shown

end LineHandshake.Json
