/-!
Double precision numbers as exact values: a mantissa below 2^53 and an exponent from -1074 to
971, which is 0 for a zero. Decimals are rounded to the nearest, a tie to the even mantissa. No
machine float is used, so that a comparison or a printed digit can be computed inside a proof.
-/

namespace LineHandshake

inductive Binary64
  | nan
  | infinity (negative : Bool)
  | finite (negative : Bool) (mantissa : Nat) (exponent : Int)
deriving DecidableEq, Repr

namespace Binary64

def leastExponent : Int := -1074
def greatestExponent : Int := 971

def zero (negative : Bool) : Binary64 := .finite negative 0 0

/-- `num / den * 2 ^ (-e)` as a quotient of natural numbers. -/
def scale (num den : Nat) (e : Int) : Nat × Nat :=
  if e < 0 then (num * Nat.pow 2 (-e).toNat, den) else (num, den * Nat.pow 2 e.toNat)

def roundQuotient (num den : Nat) : Nat :=
  let q := num / den
  let twice := 2 * (num % den)
  if den < twice ∨ (twice = den ∧ q % 2 = 1) then q + 1 else q

def exponentOf (num den : Nat) : Int :=
  let e := max leastExponent ((num.log2 : Int) - den.log2 - 52)
  let s := scale num den e
  if s.1 / s.2 < Nat.pow 2 52 ∧ leastExponent < e then e - 1 else e

def nearest (negative : Bool) (num den : Nat) : Binary64 :=
  if num = 0 then zero negative
  else
    let e := exponentOf num den
    let s := scale num den e
    let m := roundQuotient s.1 s.2
    let (m, e) := if m = Nat.pow 2 53 then (Nat.pow 2 52, e + 1) else (m, e)
    if m = 0 then zero negative
    else if greatestExponent < e then .infinity negative else .finite negative m e

/-- The double nearest to `digits * 10 ^ exponent`. Far outside the range no power is computed. -/
def ofDecimal (negative : Bool) (digits : Nat) (exponent : Int) : Binary64 :=
  let magnitude : Int := (Nat.toDigits 10 digits).length + exponent
  if digits = 0 ∨ magnitude < -330 then zero negative
  else if 310 < magnitude then .infinity negative
  else if exponent < 0 then nearest negative digits (Nat.pow 10 (-exponent).toNat)
  else nearest negative (digits * Nat.pow 10 exponent.toNat) 1

def withSign (negative : Bool) (n : Nat) : Int := if negative then -(n : Int) else n

def scaledLt (a : Int) (e : Int) (b : Int) (f : Int) : Bool :=
  a * Int.pow 2 (e - min e f).toNat < b * Int.pow 2 (f - min e f).toNat

def ltScaled (x : Binary64) (b : Int) (f : Int) : Bool :=
  match x with
  | .nan => false
  | .infinity negative => negative
  | .finite negative m e => scaledLt (withSign negative m) e b f

def lt (x : Binary64) : Binary64 → Bool
  | .nan => false
  | .infinity negative => !negative && (match x with
      | .nan => false
      | .infinity n => n
      | .finite .. => true)
  | .finite negative m e => x.ltScaled (withSign negative m) e

def ltInt (x : Binary64) (n : Int) : Bool := x.ltScaled n 0

def isInt (x : Binary64) (n : Int) : Bool :=
  match x with
  | .finite negative m e =>
    !scaledLt (withSign negative m) e n 0 && !scaledLt n 0 (withSign negative m) e
  | _ => false

end Binary64

end LineHandshake
