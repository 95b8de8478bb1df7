import LineHandshake.Json.Reader

/-!
The grammar of JSON texts, with what each of them stands for. It does not say how a text is read.
An object is written as its members in their order, as often as they were given; the value that it
stands for has the last one of each name.
-/

namespace LineHandshake.Json

def AllSpace (t : Text) : Prop := ∀ c ∈ t, isSpace c = true

inductive Spells : Text → List Piece → Prop
  | nil : Spells [] []
  | plain {c : CodePoint} {t : Text} {ps : List Piece} (hq : c ≠ CodePoint.quote)
      (hb : c ≠ CodePoint.backslash) (hc : 0x20 ≤ c.val) (h : Spells t ps) :
      Spells (c :: t) (⟨c, false⟩ :: ps)
  | short {e c : CodePoint} {t : Text} {ps : List Piece} (hc : unescape e = some c)
      (h : Spells t ps) : Spells (CodePoint.backslash :: e :: t) (⟨c, false⟩ :: ps)
  | numbered {a b c d n : CodePoint} {t : Text} {ps : List Piece} (hn : hexQuad a b c d = some n)
      (h : Spells t ps) :
      Spells (CodePoint.backslash :: letterU :: a :: b :: c :: d :: t) (⟨n, true⟩ :: ps)

inductive WritesString : Text → Text → Prop
  | quoted {body : Text} {ps : List Piece} (h : Spells body ps) :
      WritesString (CodePoint.quote :: (body ++ [CodePoint.quote])) (Piece.join ps)

def Digits (t : Text) : Prop := t ≠ [] ∧ ∀ c ∈ t, c.IsDigit

inductive Minus : Text → Bool → Prop
  | none : Minus [] false
  | minus {c : CodePoint} (h : c.val = 45) : Minus [c] true

inductive Sign : Text → Bool → Prop
  | none : Sign [] false
  | plus {c : CodePoint} (h : c.val = 43) : Sign [c] false
  | minus {c : CodePoint} (h : c.val = 45) : Sign [c] true

inductive Whole : Text → Prop
  | zero {c : CodePoint} (h : c.val = 48) : Whole [c]
  | run {c : CodePoint} {t : Text} (hc : c.val ≠ 48) (h : ∀ d ∈ c :: t, d.IsDigit) : Whole (c :: t)

inductive Decimals : Text → Text → Prop
  | none : Decimals [] []
  | some {p : CodePoint} {ds : Text} (hp : p.val = 46) (h : Digits ds) : Decimals (p :: ds) ds

inductive Power : Text → Int → Prop
  | none : Power [] 0
  | some {e : CodePoint} {sign ds : Text} {negative : Bool} (he : e.val = 101 ∨ e.val = 69)
      (hs : Sign sign negative) (h : Digits ds) :
      Power (e :: (sign ++ ds)) (Binary64.withSign negative (Text.ofDigits ds))

/-- A number with a point or an exponent is a double, whatever its value. -/
inductive WritesNumber : Text → Json → Prop
  | int {sign whole : Text} {negative : Bool} (hs : Minus sign negative) (hw : Whole whole) :
      WritesNumber (sign ++ whole) (.int (Binary64.withSign negative (Text.ofDigits whole)))
  | real {sign whole point ds exponent : Text} {negative : Bool} {power : Int}
      (hs : Minus sign negative) (hw : Whole whole) (hd : Decimals point ds)
      (hp : Power exponent power) (hne : point ++ exponent ≠ []) :
      WritesNumber (sign ++ (whole ++ (point ++ exponent)))
        (.real (Binary64.ofDecimal negative (Text.ofDigits (whole ++ ds)) (power - ds.length)))

/-- What a text can stand for. The items of an array and the members of an object are at least one
and stand without their brackets. -/
inductive Phrase
  | value (v : Json)
  | items (vs : List Json)
  | members (ms : Members)
  | object (ms : Members)

inductive Writes : Text → Phrase → Prop
  | literal {word : Text} {v : Json} (h : (word, v) ∈ literals) : Writes word (.value v)
  | number {t : Text} {v : Json} (h : WritesNumber t v) : Writes t (.value v)
  | string {t s : Text} (h : WritesString t s) : Writes t (.value (.str s))
  | emptyArray {w : Text} (hw : AllSpace w) :
      Writes (CodePoint.openBracket :: (w ++ [CodePoint.closeBracket])) (.value (.arr []))
  | array {w t : Text} {vs : List Json} (hw : AllSpace w) (h : Writes t (.items vs)) :
      Writes (CodePoint.openBracket :: (w ++ (t ++ [CodePoint.closeBracket]))) (.value (.arr vs))
  | lastItem {t w : Text} {v : Json} (h : Writes t (.value v)) (hw : AllSpace w) :
      Writes (t ++ w) (.items [v])
  | item {t w w₁ t₁ : Text} {v : Json} {vs : List Json} (h : Writes t (.value v))
      (hw : AllSpace w) (hw₁ : AllSpace w₁) (h₁ : Writes t₁ (.items vs)) :
      Writes (t ++ (w ++ comma :: (w₁ ++ t₁))) (.items (v :: vs))
  | emptyObject {w : Text} (hw : AllSpace w) :
      Writes (openBrace :: (w ++ [closeBrace])) (.object [])
  | object {w t : Text} {ms : Members} (hw : AllSpace w) (h : Writes t (.members ms)) :
      Writes (openBrace :: (w ++ (t ++ [closeBrace]))) (.object ms)
  | lastMember {n w w₁ t w₂ name : Text} {v : Json} (hn : WritesString n name) (hw : AllSpace w)
      (hw₁ : AllSpace w₁) (h : Writes t (.value v)) (hw₂ : AllSpace w₂) :
      Writes (n ++ (w ++ CodePoint.colon :: (w₁ ++ (t ++ w₂)))) (.members [(name, v)])
  | member {n w w₁ t w₂ w₃ t₁ name : Text} {v : Json} {ms : Members} (hn : WritesString n name)
      (hw : AllSpace w) (hw₁ : AllSpace w₁) (h : Writes t (.value v)) (hw₂ : AllSpace w₂)
      (hw₃ : AllSpace w₃) (h₁ : Writes t₁ (.members ms)) :
      Writes (n ++ (w ++ CodePoint.colon :: (w₁ ++ (t ++ (w₂ ++ comma :: (w₃ ++ t₁))))))
        (.members ((name, v) :: ms))
  | resolved {t : Text} {ms : Members} (h : Writes t (.object ms)) :
      Writes t (.value (.obj (Members.ofList ms)))

def IsDocument (t : Text) (p : Phrase) : Prop :=
  ∃ w u w₁, AllSpace w ∧ AllSpace w₁ ∧ Writes u p ∧ t = w ++ (u ++ w₁)

end LineHandshake.Json
