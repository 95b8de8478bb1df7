import LineHandshake.Binary64
import LineHandshake.Text

/-!
The text of a double: the fewest decimal digits that read back as it, of those the nearest, a tie
to the even digit. The exponent is written from 10^16 up and below 10^-4; otherwise the point
stands in its place, with at least one digit after it.
-/

namespace LineHandshake.Binary64

structure Decimal where
  digits : Nat
  exponent : Int
deriving DecidableEq, Repr

/-- The interval of reals that round to a mantissa, as numerators over a common denominator:
lower end, value, upper end. -/
structure Interval where
  low : Nat
  mid : Nat
  high : Nat
  den : Nat
  closed : Bool

def interval (mantissa : Nat) (exponent : Int) : Interval :=
  let narrow := mantissa = Nat.pow 2 52 ∧ leastExponent < exponent
  let up := Nat.pow 2 (exponent - 2).toNat
  { low := (4 * mantissa - if narrow then 1 else 2) * up
    mid := 4 * mantissa * up
    high := (4 * mantissa + 2) * up
    den := Nat.pow 2 (2 - exponent).toNat
    closed := mantissa % 2 = 0 }

def Interval.Holds (i : Interval) (num den : Nat) : Prop :=
  if i.closed then i.low * den ≤ num * i.den ∧ num * i.den ≤ i.high * den
  else i.low * den < num * i.den ∧ num * i.den < i.high * den

instance (i : Interval) (num den : Nat) : Decidable (i.Holds num den) := by
  unfold Interval.Holds; split <;> infer_instance

def decimalExponent (num den : Nat) : Int :=
  if den ≤ num then ((Nat.toDigits 10 (num / den)).length : Int) - 1
  else
    let d := (Nat.toDigits 10 (den / num)).length
    if den ≤ num * Nat.pow 10 (d - 1) then -((d - 1 : Nat) : Int) else -(d : Int)

def Decimal.num (d : Decimal) : Nat := d.digits * Nat.pow 10 d.exponent.toNat
def Decimal.den (d : Decimal) : Nat := Nat.pow 10 (-d.exponent).toNat

def Decimal.In (d : Decimal) (i : Interval) : Prop := i.Holds d.num d.den

instance (d : Decimal) (i : Interval) : Decidable (d.In i) :=
  inferInstanceAs (Decidable (i.Holds _ _))

/-- The nearer of the two neighbours of the interval's value on the grid of `10 ^ k`, if one of
them lies in the interval. -/
def onGrid (i : Interval) (k : Int) : Option Decimal :=
  let num := i.mid * Nat.pow 10 (-k).toNat
  let den := i.den * Nat.pow 10 k.toNat
  let below : Decimal := ⟨num / den, k⟩
  let above : Decimal := ⟨num / den + 1, k⟩
  let twice := 2 * (num % den)
  if below.In i then
    if above.In i ∧ (den < twice ∨ (twice = den ∧ below.digits % 2 = 1)) then some above
    else some below
  else if above.In i then some above
  else none

def shortestFrom (i : Interval) (k : Int) : (fuel : Nat) → Decimal
  | 0 => ⟨i.mid / i.den, 0⟩
  | fuel + 1 => (onGrid i k).getD (shortestFrom i (k - 1) fuel)

def shortest (mantissa : Nat) (exponent : Int) : Decimal :=
  let i := interval mantissa exponent
  shortestFrom i (decimalExponent i.mid i.den) 18

def signed (negative : Bool) (t : Text) : Text := if negative then text "-" ++ t else t

def exponentText (e : Int) : Text :=
  let digits := Text.ofNat e.natAbs
  text (if e < 0 then "e-" else "e+") ++ List.replicate (2 - digits.length) 48 ++ digits

def Decimal.toText (d : Decimal) : Text :=
  let ds := (Text.ofNat d.digits).reverse.dropWhile (· = 48) |>.reverse
  let point : Int := (Text.ofNat d.digits).length + d.exponent
  if -4 < point ∧ point ≤ 0 then text "0." ++ List.replicate (-point).toNat 48 ++ ds
  else if 0 < point ∧ point ≤ 16 then
    let whole := ds.take point.toNat
    let rest := ds.drop point.toNat
    whole ++ List.replicate (point.toNat - whole.length) 48 ++ text "." ++
      (if rest = [] then [48] else rest)
  else
    ds.take 1 ++ (if ds.length = 1 then [] else text "." ++ ds.drop 1) ++ exponentText (point - 1)

def toText (nan infinity : Text) : Binary64 → Text
  | .nan => nan
  | .infinity negative => signed negative infinity
  | .finite negative 0 _ => signed negative (text "0.0")
  | .finite negative m e => signed negative (shortest m e).toText

end LineHandshake.Binary64
