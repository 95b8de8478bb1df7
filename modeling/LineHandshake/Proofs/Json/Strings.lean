import LineHandshake.Json.Printer
import LineHandshake.Json.Reader
import Mathlib.Data.List.Chain

/-!
Strings that were written are read back. Each code point is written as one piece or, above U+FFFF,
as two numbered ones, which reading joins again. It joins any two halves of a pair, so a string is
read back only if no high surrogate in it stands right before a low one.
-/

namespace LineHandshake

/-- No high surrogate stands right before a low one. -/
def Text.Unpaired (s : Text) : Prop :=
  s.IsChain fun a b => ¬ (a.IsHighSurrogate ∧ b.IsLowSurrogate)

namespace Json

variable {c : CodePoint} {s rest : Text} {opening : Nat}

def highHalf (c : CodePoint) : CodePoint := Fin.ofNat _ (0xD800 + (c.val - 0x10000) / 0x400)

def lowHalf (c : CodePoint) : CodePoint := Fin.ofNat _ (0xDC00 + (c.val - 0x10000) % 0x400)

def isNumbered (c : CodePoint) : Bool :=
  (shortEscape c).isNone && !(0x20 ≤ c.val && c.val < 0x7F)

def Piece.ofPoint (c : CodePoint) : List Piece :=
  if c.val < 0x10000 then [⟨c, isNumbered c⟩] else [⟨highHalf c, true⟩, ⟨lowHalf c, true⟩]

theorem shortEscape_eq_some {t : Text} (h : shortEscape c = some t) :
    c.val < 0x10000 ∧ ∃ e, t = [CodePoint.backslash, e] ∧ e ≠ letterU ∧ unescape e = some c := by
  unfold shortEscape at h
  split at h
  · next hc =>
    subst hc
    cases h
    exact ⟨by decide, _, rfl, by decide, rfl⟩
  split at h
  · next hc =>
    subst hc
    cases h
    exact ⟨by decide, _, rfl, by decide, rfl⟩
  split at h
  · next hc =>
    cases h
    exact ⟨by omega, 110, rfl, by decide, congrArg some (Fin.ext hc.symm)⟩
  split at h
  · next hc =>
    cases h
    exact ⟨by omega, 114, rfl, by decide, congrArg some (Fin.ext hc.symm)⟩
  split at h
  · next hc =>
    cases h
    exact ⟨by omega, 116, rfl, by decide, congrArg some (Fin.ext hc.symm)⟩
  split at h
  · next hc =>
    cases h
    exact ⟨by omega, 98, rfl, by decide, congrArg some (Fin.ext hc.symm)⟩
  split at h
  · next hc =>
    cases h
    exact ⟨by omega, 102, rfl, by decide, congrArg some (Fin.ext hc.symm)⟩
  · cases h

theorem ne_of_shortEscape_eq_none (h : shortEscape c = none) :
    c ≠ CodePoint.quote ∧ c ≠ CodePoint.backslash := by
  constructor
  · rintro rfl
    cases h
  · rintro rfl
    cases h

theorem readPieces_plain (hq : c ≠ CodePoint.quote) (hb : c ≠ CodePoint.backslash)
    (hc : 0x20 ≤ c.val) (s : Text) :
    readPieces opening (c :: s) = precededBy ⟨c, false⟩ (readPieces opening s) := by
  conv => lhs; unfold readPieces
  simp only [if_neg hq, if_neg (Nat.not_lt.2 hc), if_pos hb]

theorem readPieces_short {e : CodePoint} (he : e ≠ letterU) (hc : unescape e = some c)
    (s : Text) :
    readPieces opening (CodePoint.backslash :: e :: s) =
      precededBy ⟨c, false⟩ (readPieces opening s) := by
  have hb : ¬ CodePoint.backslash.val < 0x20 := by decide
  have hq : CodePoint.backslash ≠ CodePoint.quote := by decide
  conv => lhs; unfold readPieces
  simp only [if_neg hq, if_neg hb, if_pos he, hc, ne_eq, not_true, if_false]

theorem hexValue_digitChar : ∀ {n : Nat}, n < 16 →
    (CodePoint.ofChar (Nat.digitChar n)).hexValue = some n := by
  decide

def hexDigit (n : Nat) : CodePoint := CodePoint.ofChar (Nat.digitChar (n % 16))

theorem hexQuad_hexDigit {n : Nat} (hn : n < 0x10000) :
    hexQuad (hexDigit (n / 16 / 16 / 16)) (hexDigit (n / 16 / 16)) (hexDigit (n / 16))
      (hexDigit n) = some (Fin.ofNat _ n) := by
  have hd : ∀ m, (hexDigit m).hexValue = some (m % 16) :=
    fun m => hexValue_digitChar (Nat.mod_lt m (by decide))
  have hs : ((n / 16 / 16 / 16 % 16 * 16 + n / 16 / 16 % 16) * 16 + n / 16 % 16) * 16 + n % 16 =
      n := by omega
  simp only [hexQuad, hd, hs]

theorem readPieces_hexEscape {n : Nat} (hn : n < 0x10000) (hs : s ≠ []) :
    readPieces opening (hexEscape n ++ s) =
      precededBy ⟨Fin.ofNat _ n, true⟩ (readPieces opening s) := by
  have hb : ¬ CodePoint.backslash.val < 0x20 := by decide
  have hq : CodePoint.backslash ≠ CodePoint.quote := by decide
  have he : hexEscape n ++ s = CodePoint.backslash :: letterU :: hexDigit (n / 16 / 16 / 16) ::
      hexDigit (n / 16 / 16) :: hexDigit (n / 16) :: hexDigit n :: s := rfl
  rw [he]
  conv => lhs; unfold readPieces
  simp only [if_neg hq, if_neg hb, hexQuad_hexDigit hn, if_neg hs, ne_eq, not_true,
    if_false]

theorem readPieces_escapePoint {ps : List Piece} (c : CodePoint) (hs : s ≠ [])
    (h : readPieces opening s = .ok (ps, rest)) :
    readPieces opening (escapePoint c ++ s) = .ok (Piece.ofPoint c ++ ps, rest) := by
  unfold escapePoint
  cases hc : shortEscape c with
  | some t =>
    obtain ⟨hv, e, rfl, he, hu⟩ := shortEscape_eq_some hc
    have hp : Piece.ofPoint c = [⟨c, false⟩] := by
      simp [Piece.ofPoint, hv, isNumbered, hc]
    dsimp only
    rw [hp, List.cons_append, List.cons_append, readPieces_short he hu, List.nil_append, h]
    rfl
  | none =>
    obtain ⟨hq, hb⟩ := ne_of_shortEscape_eq_none hc
    dsimp only
    split
    · next hv =>
      have hp : Piece.ofPoint c = [⟨c, false⟩] := by
        simp [Piece.ofPoint, isNumbered, hc, hv, show c.val < 0x10000 by omega]
      rw [hp, List.singleton_append, readPieces_plain hq hb hv.1, h]
      rfl
    · next hv =>
      split
      · next hl =>
        have hp : Piece.ofPoint c = [⟨Fin.ofNat _ c.val, true⟩] := by
          have hn : isNumbered c = true := by
            simp only [isNumbered, hc, Option.isNone_none, Bool.true_and, Bool.not_eq_true',
              Bool.and_eq_false_iff, decide_eq_false_iff_not]
            omega
          rw [Piece.ofPoint, if_pos hl, Fin.ofNat_val_eq_self, hn]
        rw [hp, readPieces_hexEscape hl hs, h]
        rfl
      · next hl =>
        have hlt := c.isLt
        have hp : Piece.ofPoint c = [⟨highHalf c, true⟩, ⟨lowHalf c, true⟩] := if_neg hl
        rw [hp, List.append_assoc, readPieces_hexEscape (by omega) (by simp [hexEscape, text]),
          readPieces_hexEscape (by omega) hs, h]
        rfl

theorem readPieces_written (s : Text) (rest : Text) :
    readPieces opening (s.flatMap escapePoint ++ CodePoint.quote :: rest) =
      .ok (s.flatMap Piece.ofPoint, rest) := by
  induction s with
  | nil =>
    unfold readPieces
    exact if_pos rfl
  | cons c s ih =>
    rw [List.flatMap_cons, List.append_assoc, List.flatMap_cons]
    exact readPieces_escapePoint c (by simp) ih

theorem highHalf_isHighSurrogate (h : ¬ c.val < 0x10000) : (highHalf c).IsHighSurrogate := by
  have hlt := c.isLt
  simp only [CodePoint.IsHighSurrogate, highHalf, Fin.val_ofNat]
  omega

theorem lowHalf_isLowSurrogate (c : CodePoint) : (lowHalf c).IsLowSurrogate := by
  simp only [CodePoint.IsLowSurrogate, lowHalf, Fin.val_ofNat]
  omega

theorem joinSurrogates_halves (h : ¬ c.val < 0x10000) :
    joinSurrogates (highHalf c) (lowHalf c) = c := by
  have hlt := c.isLt
  apply Fin.ext
  simp only [joinSurrogates, highHalf, lowHalf, Fin.val_ofNat]
  omega

theorem not_isLowSurrogate_of_isHighSurrogate (h : c.IsHighSurrogate) : ¬ c.IsLowSurrogate := by
  simp only [CodePoint.IsHighSurrogate, CodePoint.IsLowSurrogate] at *
  omega

theorem isLowSurrogate_of_ofPoint {p : Piece} {ps : List Piece} (h : Piece.ofPoint c = p :: ps)
    (hp : p.point.IsLowSurrogate) : c.IsLowSurrogate := by
  unfold Piece.ofPoint at h
  split at h
  · cases h
    exact hp
  · next hc =>
    cases h
    exact absurd hp (not_isLowSurrogate_of_isHighSurrogate (highHalf_isHighSurrogate hc))

theorem ofPoint_ne_nil (c : CodePoint) : Piece.ofPoint c ≠ [] := by
  unfold Piece.ofPoint
  split <;> exact List.cons_ne_nil _ _

theorem join_cons_of_not_pairsWith {p : Piece} {ps : List Piece}
    (h : ∀ q ∈ ps.head?, ¬ p.pairsWith q) : Piece.join (p :: ps) = p.point :: Piece.join ps := by
  cases ps with
  | nil => rfl
  | cons q ps => rw [Piece.join, if_neg (h q rfl)]

theorem join_ofPoint (h : s.Unpaired) : Piece.join (s.flatMap Piece.ofPoint) = s := by
  induction s with
  | nil => rfl
  | cons c s ih =>
    have hs := ih h.of_cons
    rw [List.flatMap_cons]
    by_cases hc : c.val < 0x10000
    · rw [Piece.ofPoint, if_pos hc, List.singleton_append, join_cons_of_not_pairsWith, hs]
      rintro q hq ⟨-, -, hh, hl⟩
      cases s with
      | nil => cases hq
      | cons d s =>
        obtain ⟨p, ps, hp⟩ := List.exists_cons_of_ne_nil (ofPoint_ne_nil d)
        rw [List.flatMap_cons, hp] at hq
        cases hq
        exact h.rel ⟨hh, isLowSurrogate_of_ofPoint hp hl⟩
    · rw [Piece.ofPoint, if_neg hc, List.cons_append, List.singleton_append, Piece.join, if_pos,
        joinSurrogates_halves hc, hs]
      exact ⟨rfl, rfl, highHalf_isHighSurrogate hc, lowHalf_isLowSurrogate c⟩

theorem readString_written (h : s.Unpaired) (opening : Nat) (rest : Text) :
    readString opening (s.flatMap escapePoint ++ CodePoint.quote :: rest) = .ok (s, rest) := by
  rw [readString, readPieces_written]
  exact congrArg (fun t => Except.ok (t, rest)) (join_ofPoint h)

end Json

end LineHandshake
