import LineHandshake.Utf8
import Mathlib.Data.List.TakeWhile

/-!
Decoding takes back what encoding gives, for every text without surrogates. Where a stream starts
matters to the positions of its flaws only, and a part of a well-formed stream has no flaw.
-/

namespace LineHandshake.Utf8

theorem toNat_ofNat {n : Nat} (h : n < 256) : (UInt8.ofNat n).toNat = n := by
  simp [UInt8.toNat_ofNat', Nat.mod_eq_of_lt h]

def IsTail (b : UInt8) : Prop := 0x80 ≤ b.toNat ∧ b.toNat < 0xC0

theorem isContinuation_of_isTail {b : UInt8} (h : IsTail b) : isContinuation b = true := by
  simp only [IsTail] at h
  simp [isContinuation, UInt8.le_iff_toNat_le]
  omega

theorem admits_of {a b : UInt8} (hE0 : a.toNat = 0xE0 → 0xA0 ≤ b.toNat)
    (hF0 : a.toNat = 0xF0 → 0x90 ≤ b.toNat) (hF4 : a.toNat = 0xF4 → b.toNat ≤ 0x8F) :
    admits a b = true := by
  simp only [admits, ← UInt8.toNat_inj, UInt8.le_iff_toNat_le]
  split
  · next h => simpa using hE0 h
  · split
    · next h => simpa using hF0 h
    · split
      · next h => simpa using hF4 h
      · rfl

theorem beginsSurrogate_of {a b : UInt8} (h : a.toNat = 0xED → b.toNat < 0xA0) :
    beginsSurrogate a b = false := by
  simp only [beginsSurrogate, ← UInt8.toNat_inj, UInt8.le_iff_toNat_le, Bool.and_eq_false_imp,
    decide_eq_true_eq, decide_eq_false_iff_not]
  intro ha
  exact Nat.not_le.2 (h ha)

theorem assemble_eq {lead : Nat} {groups : List UInt8} {c : CodePoint}
    (h : groups.foldl (fun n b => n * 64 + (b.toNat - 0x80)) lead = c.val) :
    assemble lead groups = c := by
  apply Fin.ext
  simp only [assemble, h, Fin.ofNat, Nat.mod_eq_of_lt c.isLt]

theorem step_lead {a : UInt8} (h : 0xC2 ≤ a.toNat) (h' : a.toNat < 0xF5) : step [] a = .more := by
  have h80 : ¬ a.toNat < 128 := by omega
  simp [step, UInt8.lt_iff_toNat_lt, UInt8.le_iff_toNat_le, h, h', h80]

theorem step_second {a b : UInt8} (ha : 0xE0 ≤ a.toNat) (hb : IsTail b)
    (hab : admits a b = true) : step [a] b = .more := by
  have h : ¬ a.toNat < 224 := by omega
  simp [step, isContinuation_of_isTail hb, UInt8.lt_iff_toNat_lt, h, hab]

section Sequences

variable {a b d e : UInt8} (start : Nat) (bs : Bytes)

theorem run_single (ha : a.toNat < 0x80) :
    run [] start (a :: bs) =
      (run [] (start + 1) bs).map fun r => (assemble a.toNat [] :: r.1, r.2) := by
  have hs : step [] a = .point (assemble a.toNat []) := by
    simp [step, UInt8.lt_iff_toNat_lt, ha]
  simp [run, hs]

theorem run_pair (ha : 0xC2 ≤ a.toNat) (ha' : a.toNat < 0xE0) (hb : IsTail b) :
    run [] start (a :: b :: bs) =
      (run [] (start + 2) bs).map fun r => (assemble (a.toNat - 0xC0) [b] :: r.1, r.2) := by
  have hs : step [a] b = .point (assemble (a.toNat - 0xC0) [b]) := by
    simp [step, isContinuation_of_isTail hb, UInt8.lt_iff_toNat_lt, ha']
  simp [run, step_lead ha (by omega), hs]

theorem run_triple (ha : 0xE0 ≤ a.toNat) (ha' : a.toNat < 0xF0) (hb : IsTail b) (hd : IsTail d)
    (hab : admits a b = true) (hs : beginsSurrogate a b = false) :
    run [] start (a :: b :: d :: bs) =
      (run [] (start + 3) bs).map fun r => (assemble (a.toNat - 0xE0) [b, d] :: r.1, r.2) := by
  have hp : step [a, b] d = .point (assemble (a.toNat - 0xE0) [b, d]) := by
    simp [step, isContinuation_of_isTail hd, UInt8.lt_iff_toNat_lt, ha', hs]
  simp [run, step_lead (show 0xC2 ≤ a.toNat by omega) (by omega), step_second ha hb hab, hp]

theorem run_quadruple (ha : 0xF0 ≤ a.toNat) (ha' : a.toNat < 0xF5) (hb : IsTail b)
    (hd : IsTail d) (he : IsTail e) (hab : admits a b = true) (hs : beginsSurrogate a b = false) :
    run [] start (a :: b :: d :: e :: bs) =
      (run [] (start + 4) bs).map fun r => (assemble (a.toNat - 0xF0) [b, d, e] :: r.1, r.2) := by
  have hm : step [a, b] d = .more := by
    have h : ¬ a.toNat < 240 := by omega
    simp [step, isContinuation_of_isTail hd, UInt8.lt_iff_toNat_lt, h, hs]
  have hp : step [a, b, d] e = .point (assemble (a.toNat - 0xF0) [b, d, e]) := by
    simp [step, isContinuation_of_isTail he]
  simp [run, step_lead (show 0xC2 ≤ a.toNat by omega) ha',
    step_second (show 0xE0 ≤ a.toNat by omega) hb hab, hm, hp]

theorem run_encodePoint {c : CodePoint} (hc : ¬ c.IsSurrogate) :
    run [] start (encodePoint c ++ bs) =
      (run [] (start + (encodePoint c).length) bs).map fun r => (c :: r.1, r.2) := by
  have hlt := c.isLt
  have hq : c.val / 64 / 64 = c.val / 4096 := Nat.div_div_eq_div_mul ..
  have hq' : c.val / 4096 / 64 = c.val / 262144 := Nat.div_div_eq_div_mul ..
  simp only [CodePoint.IsSurrogate] at hc
  unfold encodePoint
  dsimp only
  split
  · have ha := toNat_ofNat (n := c.val) (by omega)
    generalize UInt8.ofNat c.val = a at ha
    have hp : assemble a.toNat [] = c := assemble_eq ha
    simpa [hp] using run_single (a := a) start bs (by omega)
  split
  · have ha := toNat_ofNat (n := 0xC0 + c.val / 64) (by omega)
    have hb := toNat_ofNat (n := 0x80 + c.val % 64) (by omega)
    generalize UInt8.ofNat (0xC0 + c.val / 64) = a at ha
    generalize UInt8.ofNat (0x80 + c.val % 64) = b at hb
    have hp : assemble (a.toNat - 0xC0) [b] = c := by
      apply assemble_eq
      simp only [List.foldl]
      omega
    simpa [hp] using run_pair (a := a) (b := b) start bs (by omega) (by omega) ⟨by omega, by omega⟩
  split
  · have ha := toNat_ofNat (n := 0xE0 + c.val / 4096) (by omega)
    have hb := toNat_ofNat (n := 0x80 + c.val / 64 % 64) (by omega)
    have hd := toNat_ofNat (n := 0x80 + c.val % 64) (by omega)
    generalize UInt8.ofNat (0xE0 + c.val / 4096) = a at ha
    generalize UInt8.ofNat (0x80 + c.val / 64 % 64) = b at hb
    generalize UInt8.ofNat (0x80 + c.val % 64) = d at hd
    have hab : admits a b = true := admits_of (by omega) (by omega) (by omega)
    have hs : beginsSurrogate a b = false := beginsSurrogate_of (by omega)
    have hp : assemble (a.toNat - 0xE0) [b, d] = c := by
      apply assemble_eq
      simp only [List.foldl]
      omega
    simpa [hp] using run_triple (a := a) (b := b) (d := d) start bs (by omega) (by omega)
      ⟨by omega, by omega⟩ ⟨by omega, by omega⟩ hab hs
  · have ha := toNat_ofNat (n := 0xF0 + c.val / 262144) (by omega)
    have hb := toNat_ofNat (n := 0x80 + c.val / 4096 % 64) (by omega)
    have hd := toNat_ofNat (n := 0x80 + c.val / 64 % 64) (by omega)
    have he := toNat_ofNat (n := 0x80 + c.val % 64) (by omega)
    generalize UInt8.ofNat (0xF0 + c.val / 262144) = a at ha
    generalize UInt8.ofNat (0x80 + c.val / 4096 % 64) = b at hb
    generalize UInt8.ofNat (0x80 + c.val / 64 % 64) = d at hd
    generalize UInt8.ofNat (0x80 + c.val % 64) = e at he
    have hab : admits a b = true := admits_of (by omega) (by omega) (by omega)
    have hs : beginsSurrogate a b = false := beginsSurrogate_of (by omega)
    have hp : assemble (a.toNat - 0xF0) [b, d, e] = c := by
      apply assemble_eq
      simp only [List.foldl]
      omega
    simpa [hp] using run_quadruple (a := a) (b := b) (d := d) (e := e) start bs (by omega)
      (by omega) ⟨by omega, by omega⟩ ⟨by omega, by omega⟩ ⟨by omega, by omega⟩ hab hs

end Sequences

theorem run_flatMap_encodePoint {t : Text} (ht : ∀ c ∈ t, ¬ c.IsSurrogate) (start : Nat) :
    run [] start (t.flatMap encodePoint) = .ok (t, []) := by
  induction t generalizing start with
  | nil => rfl
  | cons c t ih =>
    have hc := ht c List.mem_cons_self
    have hr := ih (fun d hd => ht d (List.mem_cons_of_mem c hd))
    rw [List.flatMap_cons, run_encodePoint start _ hc, hr]
    rfl

theorem decode_eq_ok_iff {bs : Bytes} {t : Text} :
    decode bs = .ok t ↔ run [] 0 bs = .ok (t, []) := by
  unfold decode
  cases run [] 0 bs with
  | error e => simp
  | ok r =>
    obtain ⟨u, held⟩ := r
    cases held with
    | nil => simp [finish, Except.map]
    | cons a held =>
      simp only [finish]
      split <;> simp [Except.map]

theorem eq_nil_of_run_eq_nil {held bs : Bytes} {start : Nat}
    (h : run held start bs = .ok ([], [])) :
    held = [] ∧ bs = [] := by
  induction bs generalizing held start with
  | nil =>
    cases h
    exact ⟨rfl, rfl⟩
  | cons b bs ih =>
    rw [run] at h
    split at h
    · exact absurd (ih h).1 (by simp)
    · rcases hr : run [] (start + held.length + 1) bs with e | ⟨t, held'⟩
      · rw [hr] at h
        cases h
      · rw [hr] at h
        cases h
    · cases h

theorem no_surrogate_of_encode {t : Text} {bs : Bytes} (h : encode t = .ok bs) :
    ∀ c ∈ t, ¬ c.IsSurrogate := by
  unfold encode at h
  split at h
  · next hd =>
    intro c hc
    simpa using List.dropWhile_eq_nil_iff.1 hd c hc
  · cases h

theorem eq_flatMap_of_encode {t : Text} {bs : Bytes} (h : encode t = .ok bs) :
    bs = t.flatMap encodePoint := by
  rw [encode_of_no_surrogate (no_surrogate_of_encode h)] at h
  exact (Except.ok.inj h).symm

theorem exists_encode_eq_error {t : Text} (h : ∃ c ∈ t, c.IsSurrogate) :
    ∃ e, encode t = .error e := by
  obtain ⟨c, hc, hs⟩ := h
  cases ht : encode t with
  | error e => exact ⟨e, rfl⟩
  | ok bs => exact absurd hs (no_surrogate_of_encode ht c hc)

theorem flatMap_encodePoint_ne_nil {t : Text} (h : t ≠ []) : t.flatMap encodePoint ≠ [] := by
  obtain ⟨c, t, rfl⟩ := List.exists_cons_of_ne_nil h
  rw [List.flatMap_cons]
  refine List.append_ne_nil_of_left_ne_nil ?_ _
  simp only [encodePoint]
  split_ifs <;> exact List.cons_ne_nil _ _

theorem encode_append {t u : Text} {as bs : Bytes} (ht : encode t = .ok as)
    (hu : encode u = .ok bs) : encode (t ++ u) = .ok (as ++ bs) := by
  have hst := no_surrogate_of_encode ht
  have hsu := no_surrogate_of_encode hu
  rw [encode_of_no_surrogate (List.forall_mem_append.2 ⟨hst, hsu⟩), List.flatMap_append,
    ← eq_flatMap_of_encode ht, ← eq_flatMap_of_encode hu]

theorem decode_encode {t : Text} {bs : Bytes} (h : encode t = .ok bs) : decode bs = .ok t := by
  rw [eq_flatMap_of_encode h]
  exact decode_eq_ok_iff.2 (run_flatMap_encodePoint (no_surrogate_of_encode h) 0)

theorem run_ok_of_start {held bs : Bytes} {start : Nat} {r : Text × Bytes}
    (h : run held start bs = .ok r) (start' : Nat) : run held start' bs = .ok r := by
  induction bs generalizing held start start' r with
  | nil => exact h
  | cons b bs ih =>
    simp only [run] at h ⊢
    cases hs : step held b with
    | more =>
      rw [hs] at h
      exact ih h start'
    | bad size reason =>
      rw [hs] at h
      cases h
    | point c =>
      rw [hs] at h
      dsimp only at h ⊢
      cases hr : run [] (start + held.length + 1) bs with
      | error e =>
        rw [hr] at h
        cases h
      | ok q =>
        rw [ih hr (start' + held.length + 1)]
        rw [hr] at h
        exact h

theorem run_append_ok {held as bs : Bytes} {r : Text × Bytes}
    (h : run held 0 (as ++ bs) = .ok r) :
    ∃ t u held', run held 0 as = .ok (t, held') ∧ run held' 0 bs = .ok (u, r.2) ∧ r.1 = t ++ u := by
  rw [run_append] at h
  cases ha : run held 0 as with
  | error e =>
    rw [ha] at h
    cases h
  | ok q =>
    rw [ha] at h
    dsimp only at h
    cases hb : run q.2 (0 + held.length + as.length - q.2.length) bs with
    | error e =>
      rw [hb] at h
      cases h
    | ok p =>
      rw [hb] at h
      cases h
      exact ⟨q.1, p.1, q.2, rfl, run_ok_of_start hb 0, rfl⟩

end LineHandshake.Utf8
