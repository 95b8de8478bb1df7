import LineHandshake.Text

/-!
Numeric hosts. A dotted quad has four decimal octets. The grouped form has eight groups of
hexadecimal digits; one gap may stand for groups of zeros, the last two groups may be written as a
dotted quad, and a zone may follow.
-/

namespace LineHandshake.Address

def isOctet (t : Text) : Bool :=
  t.all (fun c => decide c.IsDigit) && t != [] && t.length ≤ 3 &&
    (t.head? != some 48 || t == [48]) && t.ofDigits ≤ 255

def isDottedQuad (t : Text) : Bool :=
  let octets := t.pieces 46
  octets.length == 4 && octets.all isOctet

def isGroup (t : Text) : Bool := t.all (fun c => c.hexValue.isSome) && t != [] && t.length ≤ 4

def spreadQuad (groups : List Text) : List Text :=
  match groups.getLast? with
  | some g => if isDottedQuad g then groups.dropLast ++ [[48], [48]] else groups
  | none => []

/-- How many groups stand on one side of the gap. A side without any is one empty piece. -/
def groupsBeside (pieces : List Text) : Option Nat :=
  if pieces = [[]] then some 0
  else if pieces ≠ [] ∧ pieces.all isGroup then some pieces.length
  else none

/-- The first piece is empty only at a gap, so a gap is looked for after it. -/
def isGrouped (t : Text) : Bool :=
  match spreadQuad (t.pieces CodePoint.colon) with
  | [] => false
  | g :: gs =>
    match gs.span (· ≠ []) with
    | (_, []) => gs.length == 7 && (g :: gs).all isGroup
    | (before, _ :: after) =>
      match groupsBeside (g :: before), groupsBeside after with
      | some m, some n => m + n ≤ 7
      | _, _ => false

/-- A zone is not empty and holds no further percent sign. -/
def isGroupedWithZone (t : Text) : Bool :=
  match t.cut CodePoint.percent with
  | (address, none) => isGrouped address
  | (address, some zone) => isGrouped address && zone != [] && !zone.contains CodePoint.percent

/-- The form kept for later versions, after its first letter: hexadecimal digits, a point and at
least one code point. -/
def isVersioned (t : Text) : Bool :=
  match t.span fun c => c.hexValue.isSome with
  | (_ :: _, point :: _ :: _) => point.val == 46
  | _ => false

end LineHandshake.Address
