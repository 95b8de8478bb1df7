import LineHandshake.Text.Printable

/-!
Quoted form of texts and byte strings, for messages that show what a peer sent. The delimiter is
an apostrophe unless only the double quote is free of clashes. Whatever could end the quotation,
start a new line or disappear on a screen is written as an escape.
-/

namespace LineHandshake

namespace Text

def delimiter (t : Text) : CodePoint :=
  if CodePoint.apostrophe ∈ t ∧ CodePoint.quote ∉ t then CodePoint.quote
  else CodePoint.apostrophe

def shortEscape (d c : CodePoint) : Option Text :=
  if c = d ∨ c = CodePoint.backslash then some [CodePoint.backslash, c]
  else if c.val = 9 then some (text "\\t")
  else if c = CodePoint.lf then some (text "\\n")
  else if c = CodePoint.cr then some (text "\\r")
  else none

def numericEscape (n : Nat) : Text :=
  if n < 0x100 then text "\\x" ++ hex 2 n
  else if n < 0x10000 then text "\\u" ++ hex 4 n
  else text "\\U" ++ hex 8 n

def quotedPoint (d c : CodePoint) : Text :=
  match shortEscape d c with
  | some t => t
  | none => if c.isPrintable then [c] else numericEscape c.val

def quoted (t : Text) : Text :=
  let d := t.delimiter
  d :: (t.flatMap (quotedPoint d) ++ [d])

end Text

def Bytes.quotedByte (d : CodePoint) (b : UInt8) : Text :=
  let c : CodePoint := ⟨b.toNat, by have := b.toNat_lt; omega⟩
  match Text.shortEscape d c with
  | some t => t
  | none => if 0x20 ≤ c.val ∧ c.val < 0x7F then [c] else Text.numericEscape c.val

def Bytes.quoted (bs : Bytes) : Text :=
  let d := if 39 ∈ bs ∧ 34 ∉ bs then CodePoint.quote else CodePoint.apostrophe
  text "b" ++ d :: (bs.flatMap (Bytes.quotedByte d) ++ [d])

end LineHandshake
