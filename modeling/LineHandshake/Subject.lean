import LineHandshake.Fault

/-!
Subjects with their message counts. They are compared by name alone, in code point order, and
sorting keeps subjects of one name in the order they had.
-/

namespace LineHandshake

structure Subject where
  name : Text
  count : Int
deriving DecidableEq, Repr

namespace Subject

instance : LT Subject := ⟨fun a b => a.name < b.name⟩
instance : LE Subject := ⟨fun a b => ¬ b.name < a.name⟩
instance (a b : Subject) : Decidable (a < b) := inferInstanceAs (Decidable (a.name < b.name))
instance (a b : Subject) : Decidable (a ≤ b) := inferInstanceAs (Decidable (¬ b.name < a.name))

def Same (a b : Subject) : Prop := a.name = b.name

instance (a b : Subject) : Decidable (Same a b) := inferInstanceAs (Decidable (a.name = b.name))

def sort (subjects : List Subject) : List Subject := subjects.mergeSort fun a b => decide (a ≤ b)

def distinct (subjects : List Subject) : List Subject :=
  subjects.eraseDupsBy fun a b => decide (Same a b)

def toText (s : Subject) : Text :=
  text "Subject(name=" ++ s.name.quoted ++ text ", count=" ++ Text.ofInt s.count ++ text ")"

/-- The members of an object as subjects, in their order; a truth value is no count. -/
def ofMembers : Json.Members → Except FormatError (List Subject)
  | [] => .ok []
  | (name, .int count) :: ms => (ofMembers ms).map (⟨name, count⟩ :: ·)
  | (name, v) :: _ => .error (.countNotWhole name v)

def readCounts [Json.Stack] (written : Option Text) : Except Fault (Option (List Subject)) :=
  match written with
  | none | some [] => .ok none
  | some t =>
    match Json.read t with
    | .error (.malformed e) => .error (.format (.badCounts e))
    | .error e => .error (.unreadable e)
    | .ok (.obj members) =>
      match ofMembers members with
      | .error e => .error (.format e)
      | .ok [] => .ok none
      | .ok subjects => .ok (some (sort subjects))
    | .ok v => .error (.format (.countsNotObject v.typeName))

end Subject

end LineHandshake
