import LineHandshake.Utf8

/-!
Percent escapes, as the options of an address use them. A plus stands for a space. Every run of
ASCII is read as bytes, an escape being one byte, and what is no UTF-8 in them becomes U+FFFD; any
other code point stands for itself.
-/

namespace LineHandshake.Text

/-- Resolves escapes; `run` holds the bytes since the last code point that is not ASCII. -/
def resolveEscapes (run : Bytes) : Text → Text
  | [] => Utf8.decodeLossy run
  | c :: t =>
    if 0x80 ≤ c.val then Utf8.decodeLossy run ++ c :: resolveEscapes [] t
    else
      match t with
      | a :: b :: rest =>
        match if c = CodePoint.percent then CodePoint.hexByte a b else none with
        | some byte => resolveEscapes (run ++ [byte]) rest
        | none => resolveEscapes (run ++ [UInt8.ofNat c.val]) (a :: b :: rest)
      | t => resolveEscapes (run ++ [UInt8.ofNat c.val]) t

def unescaped (t : Text) : Text :=
  resolveEscapes [] (t.map fun c => if c.val = 43 then CodePoint.space else c)

end LineHandshake.Text
