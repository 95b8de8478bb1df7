/-!
Text as a list of Unicode code points. Surrogates are code points here, since a text read from
an escape may hold an unpaired one; only the encoder refuses them.

The operations are the ones a line protocol and its addresses need: trimming at the end, cutting
at a code point, decimal and hexadecimal numerals.
-/

namespace LineHandshake

abbrev CodePoint := Fin 0x110000
abbrev Text := List CodePoint
abbrev Bytes := List UInt8

instance CodePoint.instNeZero : @NeZero Nat Zero.ofOfNat0 0x110000 := Nat.instNeZeroSucc
instance CodePoint.instLawfulBEq : LawfulBEq CodePoint := inferInstance
instance Text.instLawfulBEq : LawfulBEq Text := inferInstance

namespace CodePoint

def ofChar (c : Char) : CodePoint :=
  ⟨c.toNat, c.valid.elim (Nat.lt_trans · (by decide)) And.right⟩

def cr : CodePoint := 13
def lf : CodePoint := 10
def space : CodePoint := 32
def quote : CodePoint := 34
def apostrophe : CodePoint := 39
def backslash : CodePoint := 92
def percent : CodePoint := 37
def colon : CodePoint := 58
def openBracket : CodePoint := 91
def closeBracket : CodePoint := 93

def IsHighSurrogate (c : CodePoint) : Prop := 0xD800 ≤ c.val ∧ c.val < 0xDC00
def IsLowSurrogate (c : CodePoint) : Prop := 0xDC00 ≤ c.val ∧ c.val < 0xE000
def IsSurrogate (c : CodePoint) : Prop := 0xD800 ≤ c.val ∧ c.val < 0xE000
def IsDigit (c : CodePoint) : Prop := 48 ≤ c.val ∧ c.val ≤ 57
def IsLineBreak (c : CodePoint) : Prop := c = cr ∨ c = lf

instance (c : CodePoint) : Decidable (IsHighSurrogate c) := inferInstanceAs (Decidable (_ ∧ _))
instance (c : CodePoint) : Decidable (IsLowSurrogate c) := inferInstanceAs (Decidable (_ ∧ _))
instance (c : CodePoint) : Decidable (IsSurrogate c) := inferInstanceAs (Decidable (_ ∧ _))
instance (c : CodePoint) : Decidable (IsDigit c) := inferInstanceAs (Decidable (_ ∧ _))
instance (c : CodePoint) : Decidable (IsLineBreak c) := inferInstanceAs (Decidable (_ ∨ _))

def hexValue (c : CodePoint) : Option Nat :=
  if 48 ≤ c.val ∧ c.val ≤ 57 then some (c.val - 48)
  else if 97 ≤ c.val ∧ c.val ≤ 102 then some (c.val - 87)
  else if 65 ≤ c.val ∧ c.val ≤ 70 then some (c.val - 55)
  else none

def hexByte (high low : CodePoint) : Option UInt8 :=
  match hexValue high, hexValue low with
  | some a, some b => some (UInt8.ofNat (a * 16 + b))
  | _, _ => none

theorem isSurrogate_iff {c : CodePoint} :
    IsSurrogate c ↔ IsHighSurrogate c ∨ IsLowSurrogate c := by
  unfold IsSurrogate IsHighSurrogate IsLowSurrogate
  omega

end CodePoint

def text (s : String) : Text := s.toList.map CodePoint.ofChar

namespace Text

/-- Drops the longest run at the end whose members all satisfy `p`. -/
def trimEnd (p : CodePoint → Bool) (t : Text) : Text := (t.reverse.dropWhile p).reverse

def chomp (t : Text) : Text := trimEnd (fun c => decide (CodePoint.IsLineBreak c)) t

def beforeSpace (t : Text) : Text := t.takeWhile (· ≠ CodePoint.space)

def afterSpace (t : Text) : Text := (t.dropWhile (· ≠ CodePoint.space)).tail

def cut (c : CodePoint) (t : Text) : Text × Option Text :=
  (t.takeWhile (· ≠ c), (t.dropWhile (· ≠ c)).tail?)

def pieces (c : CodePoint) : Text → List Text
  | [] => [[]]
  | d :: t =>
    if d = c then [] :: pieces c t
    else
      match pieces c t with
      | [] => [[d]]
      | p :: ps => (d :: p) :: ps

/-- The most decimal digits that a numeral is read from. -/
def maxDigits : Nat := 4300

def ofDigits (t : Text) : Nat := t.foldl (fun n c => n * 10 + (c.val - 48)) 0

def ofNat (n : Nat) : Text := (Nat.toDigits 10 n).map CodePoint.ofChar

def ofInt : Int → Text
  | .ofNat n => ofNat n
  | .negSucc n => CodePoint.ofChar '-' :: ofNat (n + 1)

def hex : (width : Nat) → (n : Nat) → Text
  | 0, _ => []
  | width + 1, n => hex width (n / 16) ++ [CodePoint.ofChar (Nat.digitChar (n % 16))]

def joined (separator : Text) : List Text → Text
  | [] => []
  | [t] => t
  | t :: ts => t ++ separator ++ joined separator ts

end Text

end LineHandshake
