import LineHandshake.Json.Reader
import Mathlib.Algebra.Group.Nat.Defs
import Mathlib.Data.List.TakeDrop

/-!
Whole numbers that were written are read back. The digits of a number start with a zero only if
there is no other digit, and in a written value no number is followed by anything that would make
it longer or turn it into a double.
-/

namespace LineHandshake

namespace CodePoint

theorem val_ofChar (c : Char) : (ofChar c).val = c.toNat := rfl

theorem isDigit_ofChar {c : Char} (h : c.isDigit = true) : (ofChar c).IsDigit := by
  simp only [Char.isDigit, Bool.and_eq_true, decide_eq_true_eq, UInt32.le_iff_toNat_le] at h
  exact h

end CodePoint

namespace Text

theorem isDigit_of_mem_ofNat {n : Nat} {c : CodePoint} (h : c ∈ ofNat n) : c.IsDigit := by
  obtain ⟨d, hd, rfl⟩ := List.mem_map.1 h
  exact CodePoint.isDigit_ofChar (Nat.isDigit_of_mem_toDigits (by decide) (by decide) hd)

theorem ofNat_ne_nil (n : Nat) : ofNat n ≠ [] := by
  simp [ofNat]

theorem ofDigits_map_ofChar (cs : List Char) (init : Nat) :
    (cs.map CodePoint.ofChar).foldl (fun n c => n * 10 + (c.val - 48)) init =
      Nat.ofDigitChars 10 cs init := by
  induction cs generalizing init with
  | nil => rfl
  | cons c cs ih =>
    rw [List.map_cons, List.foldl_cons, ih, Nat.ofDigitChars_cons, CodePoint.val_ofChar,
      Nat.mul_comm]
    rfl

theorem ofDigits_ofNat (n : Nat) : ofDigits (ofNat n) = n := by
  rw [ofDigits, ofNat, ofDigits_map_ofChar, Nat.ofDigitChars_ten_toDigits]

theorem length_ofNat_le_iff {n k : Nat} (hk : 0 < k) : (ofNat n).length ≤ k ↔ n < 10 ^ k := by
  rw [ofNat, List.length_map, Nat.length_toDigits_le_iff (by decide) hk]

theorem ofNat_of_base_le {n : Nat} (h : 10 ≤ n) :
    ofNat n = ofNat (n / 10) ++ [CodePoint.ofChar (Nat.digitChar (n % 10))] := by
  rw [ofNat, Nat.toDigits_of_base_le (by decide) h, List.map_append]
  rfl

theorem val_digitChar {n : Nat} (h : n < 10) :
    (CodePoint.ofChar (Nat.digitChar n)).val = n + 48 := by
  have := Nat.toNat_digitChar_of_lt_ten h
  rw [CodePoint.val_ofChar]
  omega

theorem ofNat_eq_cons {n : Nat} (h : 0 < n) : ∃ c t, ofNat n = c :: t ∧ c.val ≠ 48 := by
  induction n using Nat.strongRecOn with
  | ind n ih =>
    by_cases hn : n < 10
    · refine ⟨_, [], by rw [ofNat, Nat.toDigits_of_lt_base hn]; rfl, ?_⟩
      rw [val_digitChar hn]
      omega
    · obtain ⟨c, t, ht, hc⟩ := ih (n / 10) (by omega) (by omega)
      refine ⟨c, t ++ [CodePoint.ofChar (Nat.digitChar (n % 10))], ?_, hc⟩
      rw [ofNat_of_base_le (by omega), ht, List.cons_append]

theorem ofInt_eq_cons (n : Int) :
    ∃ c t, c.IsDigit ∧ (ofInt n = c :: t ∨ ofInt n = CodePoint.ofChar '-' :: c :: t) := by
  cases n with
  | ofNat n =>
    obtain ⟨c, t, ht⟩ := List.exists_cons_of_ne_nil (ofNat_ne_nil n)
    exact ⟨c, t, isDigit_of_mem_ofNat (n := n) (by simp [ht]), .inl ht⟩
  | negSucc n =>
    obtain ⟨c, t, ht⟩ := List.exists_cons_of_ne_nil (ofNat_ne_nil (n + 1))
    exact ⟨c, t, isDigit_of_mem_ofNat (n := n + 1) (by simp [ht]),
      .inr (congrArg (CodePoint.ofChar '-' :: ·) ht)⟩

end Text

namespace Json

def Ends (rest : Text) : Prop :=
  ∀ c ∈ rest.head?, c = comma ∨ c = CodePoint.closeBracket ∨ c = closeBrace

variable {rest : Text}

theorem Ends.val (h : Ends rest) {c : CodePoint} (hc : c ∈ rest.head?) :
    c.val = 44 ∨ c.val = 93 ∨ c.val = 125 :=
  (h c hc).imp (congrArg Fin.val) (Or.imp (congrArg Fin.val) (congrArg Fin.val))

theorem Ends.not_isDigit (h : Ends rest) : ∀ c ∈ rest.head?, ¬ c.IsDigit := by
  intro c hc hd
  have hv := h.val hc
  obtain ⟨hl, hu⟩ := hd
  omega

theorem Ends.readFraction (h : Ends rest) : readFraction rest = none := by
  cases rest with
  | nil => rfl
  | cons c rest =>
    cases rest with
    | nil => rfl
    | cons d rest =>
      have hv := h.val (c := c) rfl
      rw [Json.readFraction, if_neg (by omega)]

theorem Ends.readExponent (h : Ends rest) : readExponent rest = none := by
  cases rest with
  | nil => rfl
  | cons c rest =>
    have hv := h.val (c := c) rfl
    rw [Json.readExponent, if_neg (by omega)]

theorem digitRun_append {t : Text} (hd : ∀ c ∈ t, c.IsDigit)
    (hr : ∀ c ∈ rest.head?, ¬ c.IsDigit) : digitRun (t ++ rest) = (t, rest) := by
  have ht : rest.takeWhile (fun c => decide c.IsDigit) = [] := by
    cases rest with
    | nil => rfl
    | cons c rest => simp [hr c rfl]
  have hdr : rest.dropWhile (fun c => decide c.IsDigit) = rest := by
    cases rest with
    | nil => rfl
    | cons c rest => simp [hr c rfl]
  rw [digitRun, List.span_eq_takeWhile_dropWhile,
    List.takeWhile_append_of_pos (by simpa using hd),
    List.dropWhile_append_of_pos (by simpa using hd), ht, hdr, List.append_nil]

theorem readWhole_ofNat (n : Nat) (hr : Ends rest) :
    readWhole (Text.ofNat n ++ rest) = some (Text.ofNat n, rest) := by
  rcases Nat.eq_zero_or_pos n with rfl | hn
  · rfl
  · obtain ⟨c, t, ht, hc⟩ := Text.ofNat_eq_cons hn
    have hd : c.IsDigit := Text.isDigit_of_mem_ofNat (n := n) (by simp [ht])
    have hrun := digitRun_append (fun c hc => Text.isDigit_of_mem_ofNat hc) hr.not_isDigit
      (t := Text.ofNat n)
    rw [ht, List.cons_append] at hrun ⊢
    rw [readWhole, if_neg hc, if_pos hd, hrun]

theorem readNumber_of_readMinus (negative : Bool) {n : Nat} {s : Text}
    (hs : readMinus s = (negative, Text.ofNat n ++ rest)) (hn : n < 10 ^ Text.maxDigits)
    (hr : Ends rest) :
    readNumber s = .ok (.int (Binary64.withSign negative n), rest) := by
  have hl : ¬ Text.maxDigits < (Text.ofNat n).length :=
    Nat.not_lt.2 ((Text.length_ofNat_le_iff (by decide)).2 hn)
  simp only [readNumber, hs, readWhole_ofNat n hr, hr.readFraction, Option.elim_none,
    hr.readExponent, if_neg hl, Text.ofDigits_ofNat]

theorem readNumber_ofInt {n : Int} (hn : n.natAbs < 10 ^ Text.maxDigits) (hr : Ends rest) :
    readNumber (Text.ofInt n ++ rest) = .ok (.int n, rest) := by
  cases n with
  | ofNat n =>
    apply readNumber_of_readMinus false ?_ hn hr
    obtain ⟨c, t, ht⟩ := List.exists_cons_of_ne_nil (Text.ofNat_ne_nil n)
    have hd : c.IsDigit := Text.isDigit_of_mem_ofNat (n := n) (by simp [ht])
    have hc : c.val ≠ 45 := by
      have := hd.1
      omega
    change readMinus (Text.ofNat n ++ rest) = (false, Text.ofNat n ++ rest)
    rw [ht, List.cons_append, readMinus, if_neg hc]
  | negSucc n => exact readNumber_of_readMinus true (n := n + 1) rfl hn hr

theorem literals_not_isDigit :
    ∀ l ∈ literals, ∃ a b w, l.1 = a :: b :: w ∧ ¬ a.IsDigit ∧ ¬ b.IsDigit := by
  intro l hl
  simp only [literals, List.mem_cons, List.not_mem_nil, or_false] at hl
  rcases hl with rfl | rfl | rfl | rfl | rfl | rfl <;>
    exact ⟨_, _, _, rfl, by decide, by decide⟩

theorem find?_literals_eq_none {c : CodePoint} (hc : c.IsDigit) (sign : Text)
    (hs : sign.length ≤ 1) (s : Text) :
    literals.find? (fun l => l.1.isPrefixOf (sign ++ c :: s)) = none := by
  rw [List.find?_eq_none]
  intro l hl hp
  obtain ⟨a, b, w, hw, ha, hb⟩ := literals_not_isDigit l hl
  obtain ⟨r, hr⟩ := List.isPrefixOf_iff_prefix.1 hp
  rw [hw] at hr
  match sign, hs with
  | [], _ => exact ha ((List.cons.inj hr).1 ▸ hc)
  | [_], _ => exact hb ((List.cons.inj (List.cons.inj hr).2).1 ▸ hc)

theorem readScalar_ofInt {n : Int} (hn : n.natAbs < 10 ^ Text.maxDigits) (hr : Ends rest) :
    readScalar (Text.ofInt n ++ rest) = .ok (.int n, rest) := by
  have hl : literals.find? (fun l => l.1.isPrefixOf (Text.ofInt n ++ rest)) = none := by
    obtain ⟨c, t, hc, ht | ht⟩ := Text.ofInt_eq_cons n
    · rw [ht]
      exact find?_literals_eq_none hc [] (Nat.zero_le _) (t ++ rest)
    · rw [ht]
      exact find?_literals_eq_none hc [_] (Nat.le_refl _) (t ++ rest)
  rw [readScalar, hl]
  exact readNumber_ofInt hn hr

end Json

end LineHandshake
