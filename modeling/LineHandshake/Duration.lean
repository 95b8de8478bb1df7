import LineHandshake.Binary64.Shortest

/-!
Seconds, as whole numbers or doubles. A time limit is shown the way it was given, and a clock is
compared with it exactly.
-/

namespace LineHandshake

inductive Duration
  | whole (seconds : Int)
  | real (seconds : Binary64)
deriving DecidableEq, Repr

namespace Duration

def toText : Duration → Text
  | .whole n => Text.ofInt n
  | .real x => x.toText (text "nan") (text "inf")

def isNegative : Duration → Bool
  | .whole n => n < 0
  | .real x => x.ltInt 0

def isZero : Duration → Bool
  | .whole n => n == 0
  | .real (.finite _ m _) => m == 0
  | .real _ => false

/-- Whether the limit is over as soon as it begins: it is no number, or at most a millionth of a
second, which every read and write takes. -/
def isInstant : Duration → Bool
  | .whole n => n ≤ 0
  | .real x => !(Binary64.ofDecimal false 1 (-6)).lt x

/-- Whether the limit has no double near it. -/
def isTooLarge : Duration → Bool
  | .whole n =>
    match Binary64.nearest (n < 0) n.natAbs 1 with
    | .infinity _ => true
    | _ => false
  | .real _ => false

def isAfter (limit : Duration) (clock : Binary64) : Bool :=
  match limit with
  | .whole n => clock.ltInt n
  | .real x => clock.lt x

def thousandths (n : Nat) : Binary64 := Binary64.ofDecimal false n (-3)

def tenths (n : Nat) : Duration := .real (Binary64.ofDecimal false n (-1))

def acceptLimit : Duration := tenths 50

def acceptTurn : Duration := tenths 1
def acceptTurnThousandths : Nat := 100

def readLimit : Duration := tenths 20

end Duration

end LineHandshake
