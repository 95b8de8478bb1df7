import LineHandshake.Line
import LineHandshake.Text.Blank
import Mathlib.Data.List.DropRight

/-!
What the ends of lines do. A line that was encoded is taken apart again into its keyword and its
payload, and whether a line starts with a keyword does not depend on how it ends.
-/

namespace LineHandshake

namespace Text

variable {p : CodePoint → Bool} {a b : Text}

theorem trimEnd_eq_rdropWhile (p : CodePoint → Bool) (t : Text) :
    trimEnd p t = t.rdropWhile p := rfl

theorem trimEnd_eq_self (h : ∀ c ∈ a.getLast?, p c = false) : trimEnd p a = a := by
  rw [trimEnd_eq_rdropWhile, List.rdropWhile_eq_self_iff]
  intro ha
  simp [h _ (List.getLast?_eq_some_getLast ha)]

theorem trimEnd_append (h : ∀ c ∈ a.getLast?, p c = false) (b : Text) :
    trimEnd p (a ++ b) = a ++ trimEnd p b := by
  induction b using List.reverseRecOn with
  | nil =>
    rw [List.append_nil, trimEnd_eq_self h]
    exact (List.append_nil a).symm
  | append_singleton b x ih =>
    simp only [trimEnd_eq_rdropWhile] at ih ⊢
    rw [← List.append_assoc, List.rdropWhile_concat, List.rdropWhile_concat]
    split
    · exact ih
    · rw [List.append_assoc]

theorem chomp_append_crlf (h : ∀ c ∈ a.getLast?, ¬ c.IsLineBreak) :
    chomp (a ++ Line.crlf) = a := by
  have hp : ∀ c ∈ a.getLast?, decide c.IsLineBreak = false := by simpa using h
  rw [chomp, trimEnd_append hp, show trimEnd _ Line.crlf = [] by decide, List.append_nil]

theorem trimBlank_append_crlf (h : ∀ c ∈ a.getLast?, c.isBlank = false) :
    trimBlank (a ++ Line.crlf) = a := by
  rw [trimBlank, trimEnd_append h, show trimEnd _ Line.crlf = [] by decide, List.append_nil]

theorem isPrefixOf_chomp {keyword : Text} (hk : ∀ c ∈ keyword, ¬ c.IsLineBreak) (line : Text) :
    keyword.isPrefixOf line.chomp = keyword.isPrefixOf line := by
  rw [Bool.eq_iff_iff, List.isPrefixOf_iff_prefix, List.isPrefixOf_iff_prefix]
  constructor
  · intro h
    exact h.trans (List.rdropWhile_prefix _ line)
  · rintro ⟨rest, rfl⟩
    have hl : ∀ c ∈ keyword.getLast?, decide c.IsLineBreak = false := by
      intro c hc
      simpa using hk c (List.mem_of_mem_getLast? hc)
    rw [chomp, trimEnd_append hl]
    exact List.prefix_append keyword _

theorem beforeSpace_append_space (h : CodePoint.space ∉ a) (t : Text) :
    (a ++ CodePoint.space :: t).beforeSpace = a := by
  have hs : ∀ c ∈ a, c ≠ CodePoint.space := by
    rintro c hc rfl
    exact h hc
  rw [beforeSpace, List.takeWhile_append_of_pos (by simpa using hs)]
  simp

theorem afterSpace_append_space (h : CodePoint.space ∉ a) (t : Text) :
    (a ++ CodePoint.space :: t).afterSpace = t := by
  have hs : ∀ c ∈ a, c ≠ CodePoint.space := by
    rintro c hc rfl
    exact h hc
  rw [afterSpace, List.dropWhile_append_of_pos (by simpa using hs)]
  simp

theorem beforeSpace_cases (t : Text) :
    (t.beforeSpace = t ∧ t.afterSpace = []) ∨
      t = t.beforeSpace ++ CodePoint.space :: t.afterSpace := by
  have h : t.beforeSpace ++ t.dropWhile (· ≠ CodePoint.space) = t :=
    List.takeWhile_append_dropWhile
  rw [afterSpace]
  cases hd : t.dropWhile (· ≠ CodePoint.space) with
  | nil =>
    rw [hd, List.append_nil] at h
    exact .inl ⟨h, rfl⟩
  | cons c u =>
    have hc := List.head?_dropWhile_not (fun c => decide (c ≠ CodePoint.space)) t
    rw [hd] at hc h
    obtain rfl : c = CodePoint.space := by simpa using hc
    exact .inr h.symm

end Text

theorem Keyword.not_isLineBreak {k : Text} (hk : k ∈ all) : ∀ c ∈ k, ¬ c.IsLineBreak := by
  have h : all.all (fun k => k.all fun c => !decide c.IsLineBreak) = true := by decide
  intro c hc
  simpa using List.all_eq_true.1 (List.all_eq_true.1 h k hk) c hc

namespace Line

theorem decode_eq_ok_iff {line keyword rest : Text} :
    decode line = .ok (keyword, rest) ↔
      line.chomp ≠ [] ∧ keyword = line.chomp.beforeSpace ∧ rest = line.chomp.afterSpace := by
  by_cases hn : line.chomp = []
  · rw [decode, if_pos hn]
    constructor
    · intro h
      cases h
    · intro h
      exact absurd hn h.1
  · rw [decode, if_neg hn, Except.ok.injEq, Prod.mk.injEq]
    exact ⟨fun h => ⟨hn, h.1.symm, h.2.symm⟩, fun h => ⟨h.2.1.symm, h.2.2.symm⟩⟩

theorem encode_some {keyword payload : Text} (h : payload ≠ []) :
    encode keyword (some payload) = keyword ++ CodePoint.space :: payload ++ crlf := by
  cases payload with
  | nil => exact absurd rfl h
  | cons c payload => rfl

theorem chomp_encode_some {keyword payload : Text} (h : payload ≠ [])
    (hl : ∀ c ∈ payload.getLast?, ¬ c.IsLineBreak) :
    (encode keyword (some payload)).chomp = keyword ++ CodePoint.space :: payload := by
  rw [encode_some h, Text.chomp_append_crlf]
  intro c hc
  apply hl
  simpa [List.getLast?_append, List.getLast?_cons, List.getLast?_eq_some_getLast h] using hc

theorem decode_encode_some {keyword payload : Text} (hk : CodePoint.space ∉ keyword)
    (h : payload ≠ []) (hl : ∀ c ∈ payload.getLast?, ¬ c.IsLineBreak) :
    decode (encode keyword (some payload)) = .ok (keyword, payload) := by
  rw [decode, chomp_encode_some h hl, if_neg (by simp), Text.beforeSpace_append_space hk,
    Text.afterSpace_append_space hk]

end Line

end LineHandshake
