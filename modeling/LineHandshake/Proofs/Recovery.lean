import LineHandshake.Proofs.Client
import LineHandshake.Proofs.MemoryPort
import LineHandshake.Proofs.Utf8.WellFormed

/-!
Reading one line after the other from a port in memory. Each read takes the bytes up to the first
CRLF, and a line that cannot be decoded is lost by itself. Once no CRLF is left, a connected port
gives the rest and then nothing more; a port that is no longer connected keeps the rest.
-/

namespace LineHandshake

namespace Bytes

variable {pattern bs r tail : Bytes} {pieces : List Bytes}

/-- Bytes cut behind each first place of a pattern, and the tail in which it does not stand. -/
structure IsCutInto (pattern bs : Bytes) (pieces : List Bytes) (tail : Bytes) : Prop where
  whole : bs = pieces.flatten ++ tail
  endsFirst : ∀ r ∈ pieces, EndsFirst pattern r
  tail : ¬ pattern <:+: tail

theorem exists_isCutInto (hp : pattern ≠ []) (bs : Bytes) :
    ∃ pieces tail, IsCutInto pattern bs pieces tail := by
  induction h : bs.length using Nat.strong_induction_on generalizing bs with
  | _ n ih =>
    cases hc : cutThrough pattern bs with
    | none => exact ⟨[], bs, rfl, List.forall_mem_nil _, (cutThrough_eq_none_iff hp).1 hc⟩
    | some p =>
      obtain ⟨r, rest⟩ := p
      obtain ⟨rfl, hr⟩ := (cutThrough_eq_some_iff hp).1 hc
      have hpos : 0 < r.length := List.length_pos_iff.2 (List.IsSuffix.ne_nil hr.1 hp)
      have hlt : rest.length < n := by
        rw [← h, List.length_append]
        omega
      obtain ⟨pieces, tail, hcut⟩ := ih _ hlt rest rfl
      refine ⟨r :: pieces, tail, ?_, List.forall_mem_cons.2 ⟨hr, hcut.endsFirst⟩, hcut.tail⟩
      rw [List.flatten_cons, List.append_assoc, ← hcut.whole]

theorem IsCutInto.of_cons (h : IsCutInto pattern bs (r :: pieces) tail) :
    bs = r ++ (pieces.flatten ++ tail) ∧ EndsFirst pattern r ∧
      IsCutInto pattern (pieces.flatten ++ tail) pieces tail := by
  obtain ⟨hr, hpieces⟩ := List.forall_mem_cons.1 h.endsFirst
  refine ⟨?_, hr, ⟨rfl, hpieces, h.tail⟩⟩
  rw [h.whole, List.flatten_cons, List.append_assoc]

end Bytes

namespace MemoryPort

open Client (lineOf)

/-- What a client gets that reads a line, and the bytes that this takes from the port. -/
structure Reading where
  result : Except Fault Text
  consumed : Bytes

def read (p : MemoryPort) : Reading × MemoryPort :=
  let r := (Client.readLine linePort).perform p
  (⟨r.1, p.incoming.take (p.incoming.length - r.2.1.incoming.length)⟩, r.2.1)

def reads : Nat → MemoryPort → List Reading × MemoryPort
  | 0, p => ([], p)
  | n + 1, p =>
    let r := p.read
    let rs := reads n r.2
    (r.1 :: rs.1, rs.2)

namespace Reading

def ofPiece (r : Bytes) : Reading :=
  ⟨(Utf8.decode r).mapError fun e => .handshake (.undecodable e), r⟩

def late (rest : Bytes) : Reading := ⟨.error (.handshake (.timeout rest)), rest⟩

def lost : Reading := ⟨.error (.handshake (.connectionLost .disconnected)), []⟩

theorem ofPiece_result_of_encode {r : Bytes} {t : Text} (h : Utf8.encode t = .ok r) :
    (ofPiece r).result = .ok t := by
  rw [ofPiece, Utf8.decode_encode h]
  rfl

theorem ofPiece_result_of_ill_formed {r : Bytes} (h : ∀ t, Utf8.encode t ≠ .ok r) :
    ∃ e, (ofPiece r).result = .error (.handshake (.undecodable e)) := by
  cases hd : Utf8.decode r with
  | error e => exact ⟨e, by rw [ofPiece, hd]; rfl⟩
  | ok t => exact absurd (Utf8.decode_eq_ok_iff_encode.1 hd) (h t)

end Reading

variable {p p' : MemoryPort} {r rest tail : Bytes} {pieces : List Bytes}

theorem reads_succ (n : Nat) (p : MemoryPort) :
    reads (n + 1) p = (p.read.1 :: (p.read.2.reads n).1, (p.read.2.reads n).2) := rfl

theorem read_of_readLine {got : Except Fault Bytes} (h : linePort.readLine p = (got, p')) :
    p.read =
      (⟨lineOf got, p.incoming.take (p.incoming.length - p'.incoming.length)⟩, p') := by
  obtain ⟨l, hr⟩ := Client.readLine_eq_lineOf linePort p []
  rw [h] at hr
  simp only [read, Task.perform_apply, hr]

theorem read_of_line (hi : p.incoming = r ++ rest) (hr : IsLine r) :
    p.read = (.ofPiece r, { p with incoming := rest }) := by
  have hs : Line.crlfBytes.isSuffixOf r = true := List.isSuffixOf_iff_suffix.2 hr.1
  rw [read_of_readLine (readLine_of_line hi hr), hi, List.length_append]
  simp only [Nat.add_sub_cancel, List.take_left', lineOf, hs]
  rfl

theorem read_of_isConnected (hc : p.isConnected = true) (hi : ¬ Line.crlfBytes <:+: p.incoming) :
    p.read = (.late p.incoming, { p with incoming := [] }) := by
  have hp : Line.crlfBytes ≠ [] := by decide
  have hs : Line.crlfBytes.isSuffixOf p.incoming = false :=
    Bool.eq_false_iff.2 fun h => hi (List.isSuffixOf_iff_suffix.1 h).isInfix
  have hr : linePort.readLine p = (.ok p.incoming, { p with incoming := [] }) := by
    simp only [linePort, readLine, (Bytes.cutThrough_eq_none_iff hp).2 hi, hc, if_true]
  rw [read_of_readLine hr]
  simp only [List.length_nil, Nat.sub_zero, List.take_length, lineOf, hs]
  rfl

theorem read_of_not_isConnected (hc : p.isConnected = false)
    (hi : ¬ Line.crlfBytes <:+: p.incoming) : p.read = (.lost, p) := by
  have hp : Line.crlfBytes ≠ [] := by decide
  have hr : linePort.readLine p = (.error (.port .disconnected), p) := by
    simp only [linePort, readLine, (Bytes.cutThrough_eq_none_iff hp).2 hi, hc]
    rfl
  rw [read_of_readLine hr, Nat.sub_self, List.take_zero]
  rfl

theorem reads_of_isCutInto (h : Bytes.IsCutInto Line.crlfBytes p.incoming pieces tail) (n : Nat) :
    let rs := reads (n - pieces.length) { p with incoming := (pieces.drop n).flatten ++ tail }
    p.reads n = ((pieces.take n).map .ofPiece ++ rs.1, rs.2) := by
  induction n generalizing p pieces with
  | zero =>
    rw [Nat.zero_sub, List.drop_zero, ← h.whole]
    rfl
  | succ n ih =>
    cases pieces with
    | nil =>
      have ht : tail = p.incoming := h.whole.symm
      simp only [List.drop_nil, List.flatten_nil, List.nil_append, ht]
      rfl
    | cons r pieces =>
      obtain ⟨hi, hr, hcut⟩ := h.of_cons
      rw [reads_succ, read_of_line hi hr, ih hcut, List.length_cons, Nat.add_sub_add_right]
      rfl

theorem reads_of_empty (hc : p.isConnected = true) (hi : p.incoming = []) (n : Nat) :
    p.reads n = (.replicate n (.late []), p) := by
  have hnil : ¬ Line.crlfBytes <:+: p.incoming := by
    rw [hi]
    decide
  have hp : p.read = (.late [], p) := by
    rw [read_of_isConnected hc hnil, ← hi]
  induction n with
  | zero => rfl
  | succ n ih =>
    rw [reads_succ, hp, ih]
    rfl

theorem reads_of_isConnected (hc : p.isConnected = true)
    (hi : ¬ Line.crlfBytes <:+: p.incoming) (n : Nat) :
    p.reads (n + 1) = (.late p.incoming :: .replicate n (.late []), { p with incoming := [] }) := by
  rw [reads_succ, read_of_isConnected hc hi,
    reads_of_empty (p := { p with incoming := [] }) hc rfl n]

theorem reads_of_not_isConnected (hc : p.isConnected = false)
    (hi : ¬ Line.crlfBytes <:+: p.incoming) (n : Nat) : p.reads n = (.replicate n .lost, p) := by
  induction n with
  | zero => rfl
  | succ n ih =>
    rw [reads_succ, read_of_not_isConnected hc hi, ih]
    rfl

theorem reads_while_connected (hc : p.isConnected = true)
    (h : Bytes.IsCutInto Line.crlfBytes p.incoming pieces tail) (n : Nat) :
    let k := n - pieces.length
    p.reads n =
      ((pieces.take n).map .ofPiece ++ (.late tail :: .replicate k (.late [])).take k,
        { p with
          incoming := (pieces.drop n).flatten ++ if n ≤ pieces.length then tail else [] }) := by
  intro k
  rw [reads_of_isCutInto h]
  by_cases hn : n ≤ pieces.length
  · have hk : n - pieces.length = 0 := Nat.sub_eq_zero_of_le hn
    rw [if_pos hn]
    simp only [k, hk]
    rfl
  · obtain ⟨j, hj⟩ := Nat.exists_eq_add_of_lt (Nat.lt_of_not_le hn)
    have hk : n - pieces.length = j + 1 := by omega
    have hd : pieces.drop n = [] := List.drop_eq_nil_of_le (Nat.le_of_not_le hn)
    have hr : reads (j + 1) { p with incoming := tail } =
        (.late tail :: .replicate j (.late []), { p with incoming := [] }) :=
      reads_of_isConnected (p := { p with incoming := tail }) hc h.tail j
    rw [if_neg hn]
    simp only [k, hk, hd, List.flatten_nil, List.nil_append, hr, List.take_succ_cons,
      List.take_replicate, Nat.min_eq_left (Nat.le_succ j)]

theorem reads_while_disconnected (hc : p.isConnected = false)
    (h : Bytes.IsCutInto Line.crlfBytes p.incoming pieces tail) (m : Nat) :
    (p.reads m).1 =
      (pieces.take m).map .ofPiece ++ .replicate (m - pieces.length) .lost := by
  rw [reads_of_isCutInto h]
  by_cases hm : m ≤ pieces.length
  · rw [Nat.sub_eq_zero_of_le hm]
    rfl
  · have hd : pieces.drop m = [] := List.drop_eq_nil_of_le (Nat.le_of_not_le hm)
    have hr : reads (m - pieces.length) { p with incoming := tail } =
        (.replicate (m - pieces.length) .lost, { p with incoming := tail }) :=
      reads_of_not_isConnected (p := { p with incoming := tail }) hc h.tail _
    simp only [hd, List.flatten_nil, List.nil_append, hr]

theorem read_consumed (p : MemoryPort) : p.read.1.consumed ++ p.read.2.incoming = p.incoming := by
  have hp : Line.crlfBytes ≠ [] := by decide
  obtain ⟨_ | ⟨r, pieces⟩, tail, hcut⟩ := Bytes.exists_isCutInto hp p.incoming
  · have hi : ¬ Line.crlfBytes <:+: p.incoming := by
      rw [hcut.whole]
      exact hcut.tail
    cases hc : p.isConnected with
    | true =>
      rw [read_of_isConnected hc hi]
      exact List.append_nil _
    | false =>
      rw [read_of_not_isConnected hc hi]
      rfl
  · obtain ⟨hi, hr, -⟩ := hcut.of_cons
    rw [read_of_line hi hr]
    exact hi.symm

theorem reads_consumed (n : Nat) (p : MemoryPort) :
    ((p.reads n).1.flatMap Reading.consumed) ++ (p.reads n).2.incoming = p.incoming := by
  induction n generalizing p with
  | zero => rfl
  | succ n ih =>
    rw [reads_succ, List.flatMap_cons, List.append_assoc, ih, read_consumed]

/-- Reads of a port, some while it is connected and the rest afterwards. Each takes the next piece
up to a CRLF, and what comes of it depends on that piece alone. With no piece left, a connected
port gives its tail once and then nothing, and one that is not connected nothing at all. Whatever
is not taken stays. -/
theorem reads_of_pieces (p : MemoryPort) (hc : p.isConnected = true) (n m : Nat) :
    (∃ pieces tail, Bytes.IsCutInto Line.crlfBytes p.incoming pieces tail) ∧
    ∀ pieces tail, Bytes.IsCutInto Line.crlfBytes p.incoming pieces tail →
      let q := p.reads n
      let q' := reads m { q.2 with isConnected := false }
      let k := n - pieces.length
      let k' := m - (pieces.length - n)
      q.1 = (pieces.take n).map .ofPiece ++ (.late tail :: .replicate k (.late [])).take k ∧
        q'.1 = ((pieces.drop n).take m).map .ofPiece ++ .replicate k' .lost ∧
        (q.1 ++ q'.1).flatMap Reading.consumed ++ q'.2.incoming = p.incoming ∧
        ∀ r ∈ pieces, (Reading.ofPiece r).consumed = r ∧
          (∀ t, Utf8.encode t = .ok r → (Reading.ofPiece r).result = .ok t) ∧
          ((∀ t, Utf8.encode t ≠ .ok r) →
            ∃ e, (Reading.ofPiece r).result = .error (.handshake (.undecodable e))) := by
  have hp : Line.crlfBytes ≠ [] := by decide
  refine ⟨Bytes.exists_isCutInto hp p.incoming, ?_⟩
  intro pieces tail h q q' k k'
  have hq := reads_while_connected hc h n
  have hrest : Bytes.IsCutInto Line.crlfBytes q.2.incoming (pieces.drop n)
      (if n ≤ pieces.length then tail else []) := by
    refine ⟨congrArg (·.2.incoming) hq, fun r hr => h.endsFirst r (List.mem_of_mem_drop hr), ?_⟩
    split
    · exact h.tail
    · decide
  have hq' := reads_while_disconnected (p := { q.2 with isConnected := false }) rfl hrest m
  rw [List.length_drop] at hq'
  refine ⟨congrArg Prod.fst hq, hq', ?_, fun r _ => ?_⟩
  · rw [List.flatMap_append, List.append_assoc, reads_consumed, reads_consumed]
  · exact ⟨rfl, fun t => Reading.ofPiece_result_of_encode, Reading.ofPiece_result_of_ill_formed⟩

theorem reads_of_pieces_flawed :
    let pieces : List Bytes := [[97, 13, 13, 10], [0xFF, 13, 10], [98, 10, 99, 13, 10]]
    let tail : Bytes := [100, 13]
    let p : MemoryPort := { incoming := pieces.flatten ++ tail }
    p.isConnected = true ∧ Bytes.IsCutInto Line.crlfBytes p.incoming pieces tail ∧
      (p.reads 5).1 = pieces.map .ofPiece ++ [.late tail, .late []] ∧
      (reads 2 { (p.reads 2).2 with isConnected := false }).1 =
        [.ofPiece [98, 10, 99, 13, 10], .lost] ∧
      (Reading.ofPiece [98, 10, 99, 13, 10]).result = .ok [98, 10, 99, 13, 10] := by
  intro pieces tail p
  have hcut : Bytes.IsCutInto Line.crlfBytes p.incoming pieces tail := by
    refine ⟨rfl, ?_, by decide⟩
    unfold Bytes.EndsFirst
    decide
  obtain ⟨-, hall⟩ := reads_of_pieces p rfl 5 0
  obtain ⟨-, hdropped⟩ := reads_of_pieces p rfl 2 2
  obtain ⟨-, hrest, -, hpiece⟩ := hdropped pieces tail hcut
  have hb : [98, 10, 99, 13, 10] ∈ pieces := by decide
  exact ⟨rfl, hcut, (hall pieces tail hcut).1, hrest, (hpiece _ hb).2.1 _ (by decide)⟩

end MemoryPort

end LineHandshake
