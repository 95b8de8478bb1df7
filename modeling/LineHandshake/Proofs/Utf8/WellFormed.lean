import LineHandshake.Proofs.Utf8

/-!
The decoder takes nothing but encoded text: whatever it makes of a stream gives the stream back
when it is encoded. With the converse, a stream decodes to a text just when it is that text encoded.
-/

namespace LineHandshake.Utf8

variable {a b : UInt8} {c : CodePoint} {held bs : Bytes}

/-- Bytes that start a sequence, but do not end it. What they exclude is all that a later byte
cannot make good: overlong forms and what lies above U+10FFFF. -/
def IsBegun : Bytes → Prop
  | [] => True
  | [a] => 0xC2 ≤ a.toNat ∧ a.toNat < 0xF5
  | [a, b] => (0xE0 ≤ a.toNat ∧ a.toNat < 0xF5) ∧ IsTail b ∧ admits a b = true
  | [a, b, d] =>
    (0xF0 ≤ a.toNat ∧ a.toNat < 0xF5) ∧ (IsTail b ∧ admits a b = true) ∧ IsTail d
  | _ => False

theorem isTail_of_isContinuation (h : isContinuation b = true) : IsTail b := by
  simp only [isContinuation, UInt8.le_iff_toNat_le, Bool.and_eq_true, decide_eq_true_eq] at h
  obtain ⟨h1, h2⟩ := h
  exact ⟨h1, Nat.lt_succ_of_le h2⟩

theorem of_admits (h : admits a b = true) :
    (a.toNat = 0xE0 → 0xA0 ≤ b.toNat) ∧ (a.toNat = 0xF0 → 0x90 ≤ b.toNat) ∧
      (a.toNat = 0xF4 → b.toNat ≤ 0x8F) := by
  simp only [admits, ← UInt8.toNat_inj, UInt8.le_iff_toNat_le] at h
  refine ⟨?_, ?_, ?_⟩ <;> intro ha <;> simpa [ha] using h

theorem of_not_beginsSurrogate (h : beginsSurrogate a b = false) :
    a.toNat = 0xED → b.toNat < 0xA0 := by
  intro ha
  simpa [beginsSurrogate, ← UInt8.toNat_inj, UInt8.le_iff_toNat_le, ha] using h

theorem isBegun_of_more (hb : IsBegun held) (h : step held b = .more) : IsBegun (held ++ [b]) := by
  match held with
  | [] =>
    simp only [step, UInt8.lt_iff_toNat_lt, UInt8.le_iff_toNat_le, UInt8.reduceToNat] at h
    split at h
    · cases h
    · split at h
      · next hr => exact hr
      · cases h
  | [a] =>
    simp only [step, UInt8.lt_iff_toNat_lt, UInt8.reduceToNat] at h
    split at h
    · cases h
    · next hc =>
      split at h
      · cases h
      · next ha =>
        split at h
        · next hab =>
          exact ⟨⟨Nat.le_of_not_lt ha, hb.2⟩, isTail_of_isContinuation (by simpa using hc), hab⟩
        · cases h
  | [a, a₁] =>
    simp only [step, UInt8.lt_iff_toNat_lt, UInt8.reduceToNat] at h
    split at h
    · cases h
    · split at h
      · cases h
      · next hc =>
        split at h
        · cases h
        · next ha =>
          exact ⟨⟨Nat.le_of_not_lt ha, hb.1.2⟩, hb.2,
            isTail_of_isContinuation (by simpa using hc)⟩
  | [a, a₁, a₂] =>
    simp only [step] at h
    split at h <;> cases h
  | _ :: _ :: _ :: _ :: _ => exact hb.elim

theorem val_assemble {lead n : Nat} {groups : List UInt8}
    (h : groups.foldl (fun n b => n * 64 + (b.toNat - 0x80)) lead = n) (hn : n < 0x110000) :
    (assemble lead groups).val = n := by
  simp only [assemble, h, Fin.ofNat, Nat.mod_eq_of_lt hn]

theorem ofNat_eq {n : Nat} (h : n = b.toNat) : UInt8.ofNat n = b := by
  rw [h]
  exact UInt8.ofNat_toNat

section Sequences

variable {d e : UInt8}

theorem encodePoint_single (ha : a.toNat < 0x80) :
    ¬ (assemble a.toNat []).IsSurrogate ∧ encodePoint (assemble a.toNat []) = [a] := by
  have hv : (assemble a.toNat []).val = a.toNat := val_assemble rfl (by omega)
  generalize assemble a.toNat [] = c at hv
  refine ⟨?_, ?_⟩
  · unfold CodePoint.IsSurrogate
    omega
  · simp only [encodePoint]
    rw [if_pos (by omega), ofNat_eq (by omega)]

theorem encodePoint_pair (ha : 0xC2 ≤ a.toNat) (ha' : a.toNat < 0xE0) (hb : IsTail b) :
    ¬ (assemble (a.toNat - 0xC0) [b]).IsSurrogate ∧
      encodePoint (assemble (a.toNat - 0xC0) [b]) = [a, b] := by
  obtain ⟨hb, hb'⟩ := hb
  have hv : (assemble (a.toNat - 0xC0) [b]).val = (a.toNat - 0xC0) * 64 + (b.toNat - 0x80) :=
    val_assemble rfl (by omega)
  generalize assemble (a.toNat - 0xC0) [b] = c at hv
  refine ⟨?_, ?_⟩
  · unfold CodePoint.IsSurrogate
    omega
  · simp only [encodePoint]
    rw [if_neg (by omega), if_pos (by omega), ofNat_eq (b := a) (by omega),
      ofNat_eq (b := b) (by omega)]

theorem encodePoint_triple (ha : 0xE0 ≤ a.toNat) (ha' : a.toNat < 0xF0) (hb : IsTail b)
    (hab : admits a b = true) (hs : beginsSurrogate a b = false) (hd : IsTail d) :
    ¬ (assemble (a.toNat - 0xE0) [b, d]).IsSurrogate ∧
      encodePoint (assemble (a.toNat - 0xE0) [b, d]) = [a, b, d] := by
  obtain ⟨hb, hb'⟩ := hb
  obtain ⟨hd, hd'⟩ := hd
  obtain ⟨hE0, -, -⟩ := of_admits hab
  have hED := of_not_beginsSurrogate hs
  have hv : (assemble (a.toNat - 0xE0) [b, d]).val =
      ((a.toNat - 0xE0) * 64 + (b.toNat - 0x80)) * 64 + (d.toNat - 0x80) :=
    val_assemble rfl (by omega)
  generalize assemble (a.toNat - 0xE0) [b, d] = c at hv
  refine ⟨?_, ?_⟩
  · unfold CodePoint.IsSurrogate
    omega
  · simp only [encodePoint]
    rw [if_neg (by omega), if_neg (by omega), if_pos (by omega), ofNat_eq (b := a) (by omega),
      ofNat_eq (b := b) (by omega), ofNat_eq (b := d) (by omega)]

theorem encodePoint_quadruple (ha : 0xF0 ≤ a.toNat) (ha' : a.toNat < 0xF5) (hb : IsTail b)
    (hab : admits a b = true) (hd : IsTail d) (he : IsTail e) :
    ¬ (assemble (a.toNat - 0xF0) [b, d, e]).IsSurrogate ∧
      encodePoint (assemble (a.toNat - 0xF0) [b, d, e]) = [a, b, d, e] := by
  obtain ⟨hb, hb'⟩ := hb
  obtain ⟨hd, hd'⟩ := hd
  obtain ⟨he, he'⟩ := he
  obtain ⟨-, hF0, hF4⟩ := of_admits hab
  have hv : (assemble (a.toNat - 0xF0) [b, d, e]).val =
      (((a.toNat - 0xF0) * 64 + (b.toNat - 0x80)) * 64 + (d.toNat - 0x80)) * 64 +
        (e.toNat - 0x80) :=
    val_assemble rfl (by omega)
  generalize assemble (a.toNat - 0xF0) [b, d, e] = c at hv
  refine ⟨?_, ?_⟩
  · unfold CodePoint.IsSurrogate
    omega
  · simp only [encodePoint]
    rw [if_neg (by omega), if_neg (by omega), if_neg (by omega), ofNat_eq (b := a) (by omega),
      ofNat_eq (b := b) (by omega), ofNat_eq (b := d) (by omega), ofNat_eq (b := e) (by omega)]

end Sequences

theorem encodePoint_of_point (hb : IsBegun held) (h : step held b = .point c) :
    ¬ c.IsSurrogate ∧ encodePoint c = held ++ [b] := by
  match held with
  | [] =>
    simp only [step, UInt8.lt_iff_toNat_lt, UInt8.reduceToNat] at h
    split at h
    · next ha =>
      rw [← Step.point.inj h]
      exact encodePoint_single ha
    · split at h <;> cases h
  | [a] =>
    simp only [step, UInt8.lt_iff_toNat_lt, UInt8.reduceToNat] at h
    split at h
    · cases h
    · next hc =>
      split at h
      · next ha =>
        rw [← Step.point.inj h]
        exact encodePoint_pair hb.1 ha (isTail_of_isContinuation (by simpa using hc))
      · split at h <;> cases h
  | [a, a₁] =>
    simp only [step, UInt8.lt_iff_toNat_lt, UInt8.reduceToNat] at h
    split at h
    · cases h
    · next hs =>
      split at h
      · cases h
      · next hc =>
        split at h
        · next ha =>
          rw [← Step.point.inj h]
          exact encodePoint_triple hb.1.1 ha hb.2.1 hb.2.2 (by simpa using hs)
            (isTail_of_isContinuation (by simpa using hc))
        · cases h
  | [a, a₁, a₂] =>
    simp only [step] at h
    split at h
    · cases h
    · next hc =>
      rw [← Step.point.inj h]
      exact encodePoint_quadruple hb.1.1 hb.1.2 hb.2.1.1 hb.2.1.2 hb.2.2
        (isTail_of_isContinuation (by simpa using hc))
  | _ :: _ :: _ :: _ :: _ => exact hb.elim

theorem flatMap_encodePoint_of_run {start : Nat} {t : Text} {held' : Bytes} (hb : IsBegun held)
    (h : run held start bs = .ok (t, held')) :
    (∀ c ∈ t, ¬ c.IsSurrogate) ∧ t.flatMap encodePoint ++ held' = held ++ bs := by
  induction bs generalizing held start t with
  | nil =>
    cases h
    exact ⟨List.forall_mem_nil _, (List.append_nil _).symm⟩
  | cons b bs ih =>
    rw [run] at h
    cases hs : step held b with
    | more =>
      rw [hs] at h
      obtain ⟨ht, he⟩ := ih (isBegun_of_more hb hs) h
      exact ⟨ht, by rw [he, List.append_assoc, List.singleton_append]⟩
    | point c =>
      rw [hs] at h
      obtain ⟨hc, hp⟩ := encodePoint_of_point hb hs
      cases hr : run [] (start + held.length + 1) bs with
      | error e =>
        rw [hr] at h
        cases h
      | ok r =>
        rw [hr] at h
        cases h
        have h0 : IsBegun [] := trivial
        obtain ⟨ht, he⟩ := ih h0 hr
        refine ⟨List.forall_mem_cons.2 ⟨hc, ht⟩, ?_⟩
        -- the sequence that ends here, and then what the rest of the run goes through
        rw [List.flatMap_cons, List.append_assoc, he, hp, List.append_assoc]
        rfl
    | bad size reason =>
      rw [hs] at h
      cases h

theorem decode_eq_ok_iff_encode {t : Text} : decode bs = .ok t ↔ encode t = .ok bs := by
  constructor
  · intro h
    have h0 : IsBegun [] := trivial
    obtain ⟨ht, he⟩ := flatMap_encodePoint_of_run h0 (decode_eq_ok_iff.1 h)
    rw [encode_of_no_surrogate ht, ← List.append_nil (t.flatMap encodePoint), he, List.nil_append]
  · exact decode_encode

end LineHandshake.Utf8
