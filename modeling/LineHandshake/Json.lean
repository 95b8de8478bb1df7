import LineHandshake.Binary64
import LineHandshake.Text

/-!
JSON values. Whole numbers and doubles are kept apart. The members of an object are listed in the
order in which their names first came; writing a name again replaces its value in place.
-/

namespace LineHandshake

inductive Json
  | null
  | bool (b : Bool)
  | int (n : Int)
  | real (x : Binary64)
  | str (s : Text)
  | arr (items : List Json)
  | obj (members : List (Text × Json))
deriving Inhabited

namespace Json

mutual
def decEq : (a b : Json) → Decidable (a = b)
  | .null, b => match b with
    | .null => isTrue rfl
    | .bool _ | .int _ | .real _ | .str _ | .arr _ | .obj _ => isFalse nofun
  | .bool a, b => match b with
    | .bool b => if h : a = b then isTrue (h ▸ rfl) else isFalse fun e => h (Json.bool.inj e)
    | .null | .int _ | .real _ | .str _ | .arr _ | .obj _ => isFalse nofun
  | .int a, b => match b with
    | .int b => if h : a = b then isTrue (h ▸ rfl) else isFalse fun e => h (Json.int.inj e)
    | .null | .bool _ | .real _ | .str _ | .arr _ | .obj _ => isFalse nofun
  | .real a, b => match b with
    | .real b => if h : a = b then isTrue (h ▸ rfl) else isFalse fun e => h (Json.real.inj e)
    | .null | .bool _ | .int _ | .str _ | .arr _ | .obj _ => isFalse nofun
  | .str a, b => match b with
    | .str b => if h : a = b then isTrue (h ▸ rfl) else isFalse fun e => h (Json.str.inj e)
    | .null | .bool _ | .int _ | .real _ | .arr _ | .obj _ => isFalse nofun
  | .arr a, b => match b with
    | .arr b => match decEqItems a b with
      | isTrue h => isTrue (h ▸ rfl)
      | isFalse h => isFalse fun e => h (Json.arr.inj e)
    | .null | .bool _ | .int _ | .real _ | .str _ | .obj _ => isFalse nofun
  | .obj a, b => match b with
    | .obj b => match decEqMembers a b with
      | isTrue h => isTrue (h ▸ rfl)
      | isFalse h => isFalse fun e => h (Json.obj.inj e)
    | .null | .bool _ | .int _ | .real _ | .str _ | .arr _ => isFalse nofun

def decEqItems : (a b : List Json) → Decidable (a = b)
  | [], [] => isTrue rfl
  | [], _ :: _ | _ :: _, [] => isFalse nofun
  | v :: vs, w :: ws =>
    match decEq v w, decEqItems vs ws with
    | isTrue h, isTrue hs => isTrue (h ▸ hs ▸ rfl)
    | isFalse h, _ => isFalse fun e => h (List.cons.inj e).1
    | _, isFalse h => isFalse fun e => h (List.cons.inj e).2

def decEqMembers : (a b : List (Text × Json)) → Decidable (a = b)
  | [], [] => isTrue rfl
  | [], _ :: _ | _ :: _, [] => isFalse nofun
  | (n, v) :: vs, (m, w) :: ws =>
    if hn : n = m then
      match decEq v w, decEqMembers vs ws with
      | isTrue h, isTrue hs => isTrue (hn ▸ h ▸ hs ▸ rfl)
      | isFalse h, _ => isFalse fun e => h (Prod.mk.inj (List.cons.inj e).1).2
      | _, isFalse h => isFalse fun e => h (List.cons.inj e).2
    else isFalse fun e => hn (Prod.mk.inj (List.cons.inj e).1).1
end
instance : DecidableEq Json := decEq

abbrev Members := List (Text × Json)

def Members.put (name : Text) (v : Json) : Members → Members
  | [] => [(name, v)]
  | (n, w) :: ms => if n = name then (n, v) :: ms else (n, w) :: Members.put name v ms

def Members.ofList (ms : Members) : Members := ms.foldl (fun acc m => acc.put m.1 m.2) []

def Members.get? (name : Text) : Members → Option Json
  | [] => none
  | (n, v) :: ms => if n = name then some v else Members.get? name ms

def typeName : Json → Text
  | .null => text "NoneType"
  | .bool _ => text "bool"
  | .int _ => text "int"
  | .real _ => text "float"
  | .str _ => text "str"
  | .arr _ => text "list"
  | .obj _ => text "dict"

def openBrace : CodePoint := 123
def closeBrace : CodePoint := 125
def comma : CodePoint := 44

theorem Members.get?_put_self (name : Text) (v : Json) (ms : Members) :
    (ms.put name v).get? name = some v := by
  induction ms with
  | nil => simp [put, get?]
  | cons m ms ih =>
    obtain ⟨n, w⟩ := m
    by_cases h : n = name
    · simp [put, get?, h]
    · simp [put, get?, h, ih]

theorem Members.get?_put_ne {name other : Text} (h : other ≠ name) (v : Json) (ms : Members) :
    (ms.put name v).get? other = ms.get? other := by
  induction ms with
  | nil => simp [put, get?, Ne.symm h]
  | cons m ms ih =>
    obtain ⟨n, w⟩ := m
    by_cases hn : n = name
    · subst hn
      simp [put, get?, Ne.symm h]
    · simp only [put, hn, ite_false, get?, ih]

end Json

end LineHandshake
