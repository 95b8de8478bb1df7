import LineHandshake.Text

/-!
Blanks: the code points that trimming a text for display takes off its end. These are the
separators and controls that Unicode counts as white space, and U+001C to U+001F.
-/

namespace LineHandshake

def CodePoint.isBlank (c : CodePoint) : Bool :=
  (0x09 ≤ c.val && c.val ≤ 0x0D) || (0x1C ≤ c.val && c.val ≤ 0x20) || c.val == 0x85 ||
    c.val == 0xA0 || c.val == 0x1680 || (0x2000 ≤ c.val && c.val ≤ 0x200A) ||
    c.val == 0x2028 || c.val == 0x2029 || c.val == 0x202F || c.val == 0x205F || c.val == 0x3000

def Text.trimBlank (t : Text) : Text := t.trimEnd CodePoint.isBlank

end LineHandshake
