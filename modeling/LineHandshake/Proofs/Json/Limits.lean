import LineHandshake.Greeting

/-!
The two limits of the reader of JSON. A text beyond them need not be malformed, and what is wrong
with it is no matter of format: a payload of INFO that is beyond them is not refused as a bad one.
-/

namespace LineHandshake

namespace Json

def ReadError.IsLimit : ReadError → Prop
  | .malformed _ => False
  | .tooManyDigits _ | .tooDeep _ => True

theorem readValue_openBracket (depth : Nat) (s : Text) :
    readValue (depth + 1) (CodePoint.openBracket :: s) = readArray (readValue depth) s := by
  rw [readValue, readStart, if_neg (by decide), if_pos rfl]

theorem skipSpace_openBracket (s : Text) :
    skipSpace (CodePoint.openBracket :: s) = CodePoint.openBracket :: s :=
  List.dropWhile_cons_of_neg (by decide)

theorem readValue_nil (depth : Nat) : readValue depth [] = .error (.flaw .valueMissing 0) := by
  cases depth <;> rfl

theorem readValue_nested (depth : Nat) (s : Text) :
    readValue depth (List.replicate (depth + 1) CodePoint.openBracket ++ s) =
      .error (.tooDeep .array) := by
  induction depth with
  | zero => rfl
  | succ depth ih =>
    rw [List.replicate_succ, List.cons_append, readValue_openBracket]
    rw [List.replicate_succ, List.cons_append] at ih ⊢
    rw [readArray, skipSpace_openBracket]
    dsimp only
    rw [if_neg (by decide), readItems, ih]
    rfl

theorem read_nested [Json.Stack] {n : Nat} (h : maxDepth < n) :
    read (List.replicate n CodePoint.openBracket) = .error (.tooDeep .array) := by
  obtain ⟨k, rfl⟩ := Nat.exists_eq_add_of_lt h
  have hv := readValue_nested maxDepth (List.replicate k CodePoint.openBracket)
  rw [List.replicate_append_replicate, Nat.add_right_comm] at hv
  rw [List.replicate_succ] at hv ⊢
  have hb : ¬ (CodePoint.openBracket :: List.replicate (maxDepth + k) CodePoint.openBracket).head? =
      some 0xFEFF := by
    rw [List.head?_cons]
    decide
  rw [read, readWholeText, if_neg hb, skipSpace_openBracket, hv]
  rfl

end Json

namespace Greeting

variable {payload : Text} {e : Json.ReadError}

theorem decodeInfo_nil [Json.Stack] :
    decodeInfo [] = .error (.format (.badInfo ⟨.valueMissing, 1, 1, 0⟩)) := by
  have hr : Json.readWholeText [] = .error (.flaw .valueMissing 0) := by
    rw [Json.readWholeText, if_neg nofun, Json.skipSpace, List.dropWhile_nil, Json.readValue_nil]
  rw [decodeInfo, Json.read, hr]
  rfl

theorem decodeInfo_error [Json.Stack] {f : Fault} (h : decodeInfo payload = .error f) :
    (∃ e, f = .format e) ∨ ∃ e, f = .unreadable e ∧ e.IsLimit ∧ Json.read payload = .error e := by
  unfold decodeInfo at h
  split at h
  · cases h
    exact .inl ⟨_, rfl⟩
  · next e hm hr =>
    cases h
    refine .inr ⟨e, rfl, ?_, hr⟩
    cases e with
    | malformed e => exact absurd rfl (hm e)
    | _ => trivial
  · cases h
  · cases h
    exact .inl ⟨_, rfl⟩

theorem decodeInfo_of_limit [Json.Stack] (he : e.IsLimit) (h : Json.read payload = .error e) :
    decodeInfo payload = .error (.unreadable e) := by
  rw [decodeInfo, h]
  cases e with
  | malformed e => exact he.elim
  | _ => rfl

end Greeting

end LineHandshake
