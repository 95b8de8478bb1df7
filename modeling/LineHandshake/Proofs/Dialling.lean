import LineHandshake.Address
import LineHandshake.Proofs.Json.Numbers
import Mathlib.Data.List.TakeWhile

/-!
Dialling the standard host. Its address has digits, points and one colon only, so nothing in it is
taken for a delimiter, and the port that is tried is the one that was meant.
-/

namespace LineHandshake

namespace Address

def IsNumeral (c : CodePoint) : Prop := c.val = 46 ∨ (48 ≤ c.val ∧ c.val ≤ 58)

instance (c : CodePoint) : Decidable (IsNumeral c) := inferInstanceAs (Decidable (_ ∨ _))

variable {t : Text}

theorem cut_of_not_mem {c : CodePoint} (h : c ∉ t) : t.cut c = (t, none) := by
  have hp : ∀ d ∈ t, (decide (d ≠ c)) = true := by
    intro d hd
    exact decide_eq_true fun he => h (he ▸ hd)
  rw [Text.cut, List.takeWhile_eq_self_iff.2 hp, List.dropWhile_eq_nil_iff.2 hp]
  rfl

theorem cut_append {c : CodePoint} (h : c ∉ t) (u : Text) : (t ++ c :: u).cut c = (t, some u) := by
  have hp : ∀ d ∈ t, (decide (d ≠ c)) = true := by
    intro d hd
    exact decide_eq_true fun he => h (he ▸ hd)
  rw [Text.cut, List.takeWhile_append_of_pos hp, List.dropWhile_append_of_pos hp]
  simp

section Numerals

variable (h : ∀ c ∈ t, IsNumeral c)
include h

theorem not_mem_of_numerals {c : CodePoint} (hc : ¬ IsNumeral c) : c ∉ t := fun hm => hc (h c hm)

theorem authority_of_numerals : authority t = t ∧ query t = [] := by
  have hp : ∀ c ∈ t, isInAuthority c = true := by
    intro c hc
    have hn : ∀ d : CodePoint, ¬ IsNumeral d → c ≠ d := fun d hd he => hd (he ▸ h c hc)
    simp [isInAuthority, hn slash (by decide),
      hn questionMark (by decide), hn hash (by decide)]
  refine ⟨List.takeWhile_eq_self_iff.2 hp, ?_⟩
  rw [query, List.dropWhile_eq_nil_iff.2 hp]
  rfl

theorem checkAuthority_of_numerals : checkAuthority t = .ok () := by
  have ho : CodePoint.openBracket ∉ t :=
    not_mem_of_numerals h (by decide)
  have hc : CodePoint.closeBracket ∉ t :=
    not_mem_of_numerals h (by decide)
  have hd : t.any disguised.contains = false := by
    rw [List.any_eq_false]
    intro c hm hdis
    have hall : disguised.all (fun d => !decide (IsNumeral d)) = true := by decide
    have hnot := List.all_eq_true.1 hall c (List.contains_iff_mem.1 hdis)
    simp [h c hm] at hnot
  rw [checkAuthority, checkBrackets]
  simp only [ho, hc, hd, false_and, false_or, if_false, Bool.false_eq_true]

theorem place_of_numerals : place t = t := by
  have hp : ∀ c ∈ t.reverse, (decide (c ≠ atSign)) = true := by
    intro c hc
    refine decide_eq_true fun he => ?_
    have hn := h c (List.mem_reverse.1 hc)
    rw [he] at hn
    exact absurd hn (by decide)
  rw [place, List.takeWhile_eq_self_iff.2 hp, List.reverse_reverse]

end Numerals

theorem isNumeral_of_isDigit {c : CodePoint} (h : c.IsDigit) : IsNumeral c :=
  .inr ⟨h.1, Nat.le_succ_of_le h.2⟩

theorem dialled_defaultHost {port : Int} (h0 : 0 ≤ port) (hm : port ≤ maxPort) :
    dialled defaultHost port = .ok port := by
  obtain ⟨n, rfl⟩ := Int.eq_ofNat_of_zero_le h0
  have hlt : n < 10 ^ 5 := by
    have hn : (n : Int) ≤ 65535 := hm
    omega
  have hhost : defaultHost.all (fun c => decide (IsNumeral c)) = true := by decide
  have hdigits : ∀ c ∈ Text.ofNat n, IsNumeral c := fun c hc =>
    isNumeral_of_isDigit (Text.isDigit_of_mem_ofNat hc)
  have hall : ∀ c ∈ defaultHost ++ CodePoint.colon :: Text.ofNat n, IsNumeral c := by
    intro c hc
    rcases List.mem_append.1 hc with hc | hc
    · exact of_decide_eq_true (List.all_eq_true.1 hhost c hc)
    · rcases List.mem_cons.1 hc with rfl | hc
      · exact .inr ⟨by decide, by decide⟩
      · exact hdigits c hc
  have hclean : cleaned defaultHost n = defaultHost ++ CodePoint.colon :: Text.ofNat n := by
    refine List.filter_eq_self.2 fun c hc => ?_
    have hn := hall c hc
    have hne : ∀ d : CodePoint, ¬ IsNumeral d → c ≠ d := fun d hd he => hd (he ▸ hn)
    have htab : c.val ≠ 9 := by
      rcases hn with hn | hn <;> omega
    simp [htab, CodePoint.IsLineBreak, hne CodePoint.cr (by decide),
      hne CodePoint.lf (by decide)]
  have hport : portDigits (defaultHost ++ CodePoint.colon :: Text.ofNat n) =
      some (Text.ofNat n) := by
    have ho := not_mem_of_numerals hall
      (c := CodePoint.openBracket) (by decide)
    have hcolon : CodePoint.colon ∉ defaultHost := by decide
    rw [portDigits, place_of_numerals hall, cut_of_not_mem ho]
    dsimp only
    rw [cut_append hcolon]
    dsimp only
    split
    · next hnil => exact absurd (Option.some.inj hnil) (Text.ofNat_ne_nil n)
    · rfl
  have hlen : (Text.ofNat n).length ≤ 5 := (Text.length_ofNat_le_iff (by decide)).2 hlt
  have hdig : (Text.ofNat n).all (fun c => decide c.IsDigit) = true :=
    List.all_eq_true.2 fun c hc => decide_eq_true (Text.isDigit_of_mem_ofNat hc)
  obtain ⟨hauthority, hquery⟩ := authority_of_numerals hall
  rw [dialled, hclean, hauthority, hquery, checkAuthority_of_numerals hall]
  have hmax : (Text.ofNat n).length ≤ Text.maxDigits := Nat.le_trans hlen (by decide)
  have hopts : checkOptions false (options []) = .ok () := by decide
  simp only [hopts, portOf, hport]
  rw [if_pos ⟨hdig, hmax, by rw [Text.ofDigits_ofNat]; exact hm⟩, Text.ofDigits_ofNat]

end Address

end LineHandshake
