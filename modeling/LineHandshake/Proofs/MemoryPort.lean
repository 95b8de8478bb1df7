import LineHandshake.MemoryPort
import Mathlib.Data.List.Infix

/-!
What a port in memory gives its client: the bytes up to and including the first CRLF, if there is
one, and all it has otherwise.
-/

namespace LineHandshake

namespace Bytes

variable {pattern bs r rest : Bytes}

/-- A pattern that ends at the end of `r`, and nowhere before it. -/
def EndsFirst (pattern r : Bytes) : Prop := pattern <:+ r ∧ ¬ pattern <:+: r.dropLast

theorem endsFirst_self (hp : pattern ≠ []) : EndsFirst pattern pattern := by
  refine ⟨List.suffix_refl _, ?_⟩
  intro h
  have hl := h.length_le
  have hn := List.length_pos_iff.2 hp
  rw [List.length_dropLast] at hl
  omega

theorem EndsFirst.eq_of_prefix (h : EndsFirst pattern r) (hp : pattern <+: r ++ rest) :
    r = pattern := by
  by_cases hl : pattern.length < r.length
  · have hr : r.dropLast <+: r ++ rest := r.dropLast_prefix.trans (List.prefix_append r rest)
    have hd : pattern.length ≤ r.dropLast.length := by
      rw [List.length_dropLast]
      omega
    exact absurd (List.prefix_of_prefix_length_le hp hr hd).isInfix h.2
  · exact (h.1.eq_of_length_le (Nat.le_of_not_lt hl)).symm

theorem endsFirst_cons_iff {b : UInt8} (hp : pattern ≠ []) (hb : ¬ pattern <+: b :: (r ++ rest)) :
    EndsFirst pattern (b :: r) ↔ EndsFirst pattern r := by
  have hself : pattern ≠ b :: r := by
    rintro rfl
    exact hb (List.prefix_append (b :: r) rest)
  have hs : pattern <:+ b :: r ↔ pattern <:+ r := by
    rw [List.suffix_cons_iff]
    exact or_iff_right hself
  unfold EndsFirst
  rw [hs]
  refine and_congr_right ?_
  intro h
  obtain ⟨c, r, rfl⟩ := List.exists_cons_of_ne_nil (List.IsSuffix.ne_nil h hp)
  rw [List.dropLast_cons_cons, List.infix_cons_iff]
  refine not_congr (or_iff_right ?_)
  intro hd
  refine hb (hd.trans ?_)
  rw [List.cons_prefix_cons]
  exact ⟨rfl, (List.dropLast_prefix _).trans (List.prefix_append _ _)⟩

theorem cutThrough_eq_some_iff (hp : pattern ≠ []) :
    cutThrough pattern bs = some (r, rest) ↔ bs = r ++ rest ∧ EndsFirst pattern r := by
  induction bs generalizing r with
  | nil =>
    refine ⟨nofun, ?_⟩
    rintro ⟨h, hr, -⟩
    rw [(List.append_eq_nil_iff.1 h.symm).1, List.suffix_nil] at hr
    exact absurd hr hp
  | cons b bs ih =>
    rw [cutThrough]
    split
    · next h =>
      rw [List.isPrefixOf_iff_prefix] at h
      rw [← List.prefix_iff_eq_take.1 h, Option.some.injEq, Prod.mk.injEq]
      constructor
      · rintro ⟨rfl, rfl⟩
        exact ⟨(List.prefix_append_drop h), endsFirst_self hp⟩
      · rintro ⟨hb, hr⟩
        obtain rfl := hr.eq_of_prefix (hb ▸ h)
        exact ⟨rfl, by rw [hb, List.drop_left]⟩
    · next h =>
      rw [List.isPrefixOf_iff_prefix] at h
      rw [Option.map_eq_some_iff]
      constructor
      · rintro ⟨⟨r', rest'⟩, hc, he⟩
        cases he
        obtain ⟨rfl, hr⟩ := ih.1 hc
        exact ⟨rfl, (endsFirst_cons_iff hp h).2 hr⟩
      · rintro ⟨hb, hr⟩
        obtain ⟨c, r, rfl⟩ := List.exists_cons_of_ne_nil (List.IsSuffix.ne_nil hr.1 hp)
        obtain ⟨rfl, rfl⟩ := List.cons.inj hb
        exact ⟨(r, rest), ih.2 ⟨rfl, (endsFirst_cons_iff hp h).1 hr⟩, rfl⟩

theorem cutThrough_eq_none_iff (hp : pattern ≠ []) :
    cutThrough pattern bs = none ↔ ¬ pattern <:+: bs := by
  induction bs with
  | nil => simp [cutThrough, hp]
  | cons b bs ih =>
    rw [cutThrough, List.infix_cons_iff]
    by_cases h : pattern <+: b :: bs
    · simp [h]
    · simp [h, ih]

end Bytes

namespace MemoryPort

/-- A line as it is sent: it ends with CRLF, and has none before. -/
def IsLine (r : Bytes) : Prop := Bytes.EndsFirst Line.crlfBytes r

variable {p : MemoryPort} {r rest : Bytes}

theorem isLine_append_crlf {bs : Bytes} (h : 10 ∉ bs) : IsLine (bs ++ Line.crlfBytes) := by
  refine ⟨List.suffix_append _ _, ?_⟩
  have hd : (bs ++ Line.crlfBytes).dropLast = bs ++ [13] := by
    rw [show bs ++ Line.crlfBytes = bs ++ [13] ++ [10] by simp [Line.crlfBytes],
      List.dropLast_concat]
  rw [hd]
  intro hi
  have hm : (10 : UInt8) ∈ bs ++ [13] := hi.subset (by decide)
  rcases List.mem_append.1 hm with hm | hm
  · exact h hm
  · exact absurd hm (by decide)

theorem readLine_of_line (hi : p.incoming = r ++ rest) (hr : IsLine r) :
    linePort.readLine p = (.ok r, { p with incoming := rest }) := by
  have hp : Line.crlfBytes ≠ [] := by decide
  have hc := (Bytes.cutThrough_eq_some_iff hp).2 ⟨hi, hr⟩
  simp only [linePort, readLine, hc]

theorem isLine_of_readLine (h : (linePort.readLine p).1 = .ok r) (hr : Line.crlfBytes <:+ r) :
    ∃ rest, p.incoming = r ++ rest ∧ IsLine r := by
  have hp : Line.crlfBytes ≠ [] := by decide
  simp only [linePort, readLine] at h
  split at h
  · next line rest hc =>
    cases h
    exact ⟨rest, (Bytes.cutThrough_eq_some_iff hp).1 hc⟩
  · next hc =>
    split at h <;> cases h
    exact absurd hr.isInfix ((Bytes.cutThrough_eq_none_iff hp).1 hc)

theorem readLine_written (p : MemoryPort) : (linePort.readLine p).2.written = p.written := by
  simp only [linePort, readLine]
  split
  · rfl
  · split <;> rfl

theorem write_of_isConnected (h : p.isConnected = true) (bs : Bytes) :
    linePort.write bs p = (.ok (), { p with written := p.written ++ bs }) := by
  simp only [linePort, write, h, if_true]

end MemoryPort

end LineHandshake
