import LineHandshake.Proofs.Utf8.WellFormed

/-!
UTF-8 by the ranges of its bytes. A code point has one sequence of one to four bytes. The ranges
leave out what the decoder refuses: overlong forms, surrogates, what lies above U+10FFFF, and a
byte that continues nothing or is not continued. A stream is such sequences, one after the other,
just if it is some text encoded.
-/

namespace LineHandshake.Utf8

variable {q bs : Bytes} {c : CodePoint}

inductive IsSequence : Bytes → Prop
  | one {a : UInt8} (ha : a.toNat < 0x80) : IsSequence [a]
  | two {a b : UInt8} (ha : 0xC2 ≤ a.toNat ∧ a.toNat < 0xE0) (hb : IsTail b) : IsSequence [a, b]
  | three {a b d : UInt8} (ha : 0xE0 ≤ a.toNat ∧ a.toNat < 0xF0) (hb : IsTail b) (hd : IsTail d)
      (overlong : a.toNat = 0xE0 → 0xA0 ≤ b.toNat)
      (surrogate : a.toNat = 0xED → b.toNat < 0xA0) : IsSequence [a, b, d]
  | four {a b d e : UInt8} (ha : 0xF0 ≤ a.toNat ∧ a.toNat < 0xF5) (hb : IsTail b) (hd : IsTail d)
      (he : IsTail e) (overlong : a.toNat = 0xF0 → 0x90 ≤ b.toNat)
      (above : a.toNat = 0xF4 → b.toNat < 0x90) : IsSequence [a, b, d, e]

theorem IsSequence.exists_point (h : IsSequence q) :
    ∃ c : CodePoint, ¬ c.IsSurrogate ∧ encodePoint c = q := by
  cases h with
  | one ha => exact ⟨_, encodePoint_single ha⟩
  | two ha hb => exact ⟨_, encodePoint_pair ha.1 ha.2 hb⟩
  | three ha hb hd overlong surrogate =>
    have hab := admits_of overlong (by omega) (by omega)
    exact ⟨_, encodePoint_triple ha.1 ha.2 hb hab (beginsSurrogate_of surrogate) hd⟩
  | four ha hb hd he overlong above =>
    have hab := admits_of (by omega) overlong fun h => Nat.le_of_lt_succ (above h)
    exact ⟨_, encodePoint_quadruple ha.1 ha.2 hb hab hd he⟩

theorem isSequence_encodePoint (hc : ¬ c.IsSurrogate) : IsSequence (encodePoint c) := by
  have hlt := c.isLt
  unfold CodePoint.IsSurrogate at hc
  simp only [encodePoint]
  split
  · have ha := toNat_ofNat (n := c.val) (by omega)
    exact .one (by omega)
  split
  · have ha := toNat_ofNat (n := 0xC0 + c.val / 64) (by omega)
    have hb := toNat_ofNat (n := 0x80 + c.val % 64) (by omega)
    exact .two (by omega) ⟨by omega, by omega⟩
  split
  · have ha := toNat_ofNat (n := 0xE0 + c.val / 4096) (by omega)
    have hb := toNat_ofNat (n := 0x80 + c.val / 64 % 64) (by omega)
    have hd := toNat_ofNat (n := 0x80 + c.val % 64) (by omega)
    exact .three (by omega) ⟨by omega, by omega⟩ ⟨by omega, by omega⟩ (by omega) (by omega)
  · have ha := toNat_ofNat (n := 0xF0 + c.val / 262144) (by omega)
    have hb := toNat_ofNat (n := 0x80 + c.val / 4096 % 64) (by omega)
    have hd := toNat_ofNat (n := 0x80 + c.val / 64 % 64) (by omega)
    have he := toNat_ofNat (n := 0x80 + c.val % 64) (by omega)
    exact .four (by omega) ⟨by omega, by omega⟩ ⟨by omega, by omega⟩ ⟨by omega, by omega⟩
      (by omega) (by omega)

theorem exists_encode_of_sequences {qs : List Bytes} (h : ∀ q ∈ qs, IsSequence q) :
    ∃ t, encode t = .ok qs.flatten := by
  induction qs with
  | nil => exact ⟨[], rfl⟩
  | cons q qs ih =>
    obtain ⟨hq, hqs⟩ := List.forall_mem_cons.1 h
    obtain ⟨c, hc, rfl⟩ := hq.exists_point
    obtain ⟨t, ht⟩ := ih hqs
    have hone : encode [c] = .ok (encodePoint c) := by
      rw [encode_of_no_surrogate (List.forall_mem_singleton.2 hc), List.flatMap_singleton]
    exact ⟨[c] ++ t, encode_append hone ht⟩

theorem exists_encode_iff_sequences :
    (∃ t, encode t = .ok bs) ↔ ∃ qs : List Bytes, (∀ q ∈ qs, IsSequence q) ∧ bs = qs.flatten := by
  constructor
  · rintro ⟨t, ht⟩
    have hs := no_surrogate_of_encode ht
    rw [encode_of_no_surrogate hs] at ht
    refine ⟨t.map encodePoint, List.forall_mem_map.2 fun c hc => ?_, ?_⟩
    · exact isSequence_encodePoint (hs c hc)
    · rw [← Except.ok.inj ht, List.flatMap_def]
  · rintro ⟨qs, hqs, rfl⟩
    exact exists_encode_of_sequences hqs

end LineHandshake.Utf8
