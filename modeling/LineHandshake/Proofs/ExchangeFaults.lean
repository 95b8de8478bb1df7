import LineHandshake.Proofs.Writing

/-!
What an exchange can fail with as long as both ends of the connection are open. Writing fails only
on a connection that is broken. Waiting for a line fails on bytes that are not UTF-8, at the end of
the stream, on a reset, or on a line that does not start as it should. An action of a script, which
may close an end, still fails only with faults that arise in the server.
-/

namespace LineHandshake

namespace TextSource

variable {s : TextSource}

def IsReadFault (refuses : Refusal) : Interrupt → Prop
  | .waiting => True
  | .fault f => (∃ e, f = .undecodable e) ∨ f = .system .connectionReset ∨
    (f = .outOfMemory ∧ ∃ n begun, refuses n begun = true)

def Passes (refuses : Refusal) (r : Reading Text) : Prop :=
  r.2.isOpen = true ∧ ∀ i, r.1 = .error i → IsReadFault refuses i

variable {refuses : Refusal}

theorem passes_ok (hs : s.isOpen = true) (t : Text) : Passes refuses (.ok t, s) := by
  refine ⟨hs, ?_⟩
  intro i hi
  cases hi

theorem passes_error {i : Interrupt} (hs : s.isOpen = true) (h : IsReadFault refuses i) :
    Passes refuses (.error i, s) := by
  refine ⟨hs, ?_⟩
  intro j hj
  cases hj
  exact h

theorem passes_atEnd (hs : s.isOpen = true) (begun : Text) (d : Decoder) :
    Passes refuses (s.atEnd begun d) := by
  unfold atEnd
  split
  · exact passes_error hs trivial
  · exact passes_error hs (.inr (.inl rfl))
  · split
    · next e _ => exact passes_error hs (.inl ⟨e, rfl⟩)
    · exact passes_ok hs _

theorem passes_receive (hs : s.isOpen = true) (cut : Text → Option (Text × Text)) (before : Nat)
    (begun : Text) (d : Decoder) (ps : List Bytes) :
    Passes refuses (s.receive cut refuses before begun d ps) := by
  induction ps generalizing before begun d with
  | nil =>
    unfold receive
    split
    · next hr => exact passes_error hs (.inr (.inr ⟨rfl, before, begun, hr⟩))
    · exact passes_atEnd hs begun d
  | cons p ps ih =>
    unfold receive
    split
    · next hr => exact passes_error hs (.inr (.inr ⟨rfl, before, begun, hr⟩))
    · dsimp only
      split
      · next e _ => exact passes_error hs (.inl ⟨e, rfl⟩)
      · split
        · exact passes_ok hs _
        · exact ih _ _ _

theorem passes_readUntil (refuses : Refusal) (hs : s.isOpen = true)
    (cut : Text → Option (Text × Text)) :
    Passes refuses (s.readUntil cut refuses) := by
  rw [readUntil, if_pos hs]
  split
  · exact passes_ok hs _
  · exact passes_receive hs cut _ _ _ _

theorem passes_readAll (refuses : Refusal) (hs : s.isOpen = true) :
    Passes refuses s.readAll := by
  rw [readAll, if_pos hs]
  split
  · exact passes_error hs trivial
  · exact passes_error hs (.inr (.inl rfl))
  · split
    · next e _ => exact passes_error hs (.inl ⟨e, rfl⟩)
    · exact passes_ok hs _

theorem IsReadFault.isOwn {f : Fault} (h : IsReadFault refuses (.fault f)) : f.isOwn = true := by
  obtain ⟨e, rfl⟩ | rfl | ⟨rfl, -⟩ := h <;> rfl

theorem isOwn_of_readUntil {cut : Text → Option (Text × Text)} {f : Fault}
    (h : (s.readUntil cut refuses).1 = .error (.fault f)) : f.isOwn = true := by
  cases ho : s.isOpen with
  | true => exact ((passes_readUntil refuses ho cut).2 _ h).isOwn
  | false =>
    simp only [readUntil, ho, Bool.false_eq_true, if_false] at h
    cases h
    rfl

theorem isOwn_of_read {count : Int} {f : Fault}
    (h : (s.read count refuses).1 = .error (.fault f)) : f.isOwn = true := by
  unfold read at h
  split at h
  · split at h
    · exact isOwn_of_readUntil h
    · cases ho : s.isOpen with
      | true => exact ((passes_readAll refuses ho).2 _ h).isOwn
      | false =>
        simp only [readAll, ho, Bool.false_eq_true, if_false] at h
        cases h
        rfl
  · cases h
    rfl

end TextSource

namespace Connection

def IsUsable (c : Connection) : Prop := c.source.isOpen = true ∧ c.sink.isOpen = true

theorem writeLine_isUsable {c : Connection} (hc : c.IsUsable) {line : Text} {bs : Bytes}
    (hl : Utf8.encode line = .ok bs) (log : Log) :
    (writeLine line (c, log)).2.1.IsUsable ∧
      ∀ i, (writeLine line (c, log)).1 = .error i → i = .fault (.system .brokenPipe) := by
  obtain ⟨r, l, hw, hm⟩ := writeLine_moves hc.2 hl log
  rw [hw]
  refine ⟨⟨hc.1, hm.isOpen.trans hc.2⟩, ?_⟩
  intro i hi
  obtain ⟨f | _, k⟩ := r
  · obtain ⟨rfl, -⟩ := hm.fails f rfl
    cases hi
    rfl
  · cases hi

theorem readLine_isUsable {c : Connection} (hc : c.IsUsable) (log : Log) :
    (readLine (c, log)).2.1.IsUsable ∧
      ∀ f, (readLine (c, log)).1 = .error (.fault f) →
        f.isOwn = true ∧
          (f.family = .format ∨ f.family = .transport ∨ f.family = .system) := by
  rw [readLine_apply, TextSource.readLine]
  have hr := TextSource.passes_readUntil .never hc.1 cutLine?
  generalize c.source.readUntil cutLine? .never = r at hr ⊢
  obtain ⟨i | line, s⟩ := r
  · refine ⟨⟨hr.1, hc.2⟩, ?_⟩
    intro f hf
    rcases i with _ | g
    · cases hf
    · obtain ⟨e, rfl⟩ | rfl | ⟨-, n, begun, hn⟩ := hr.2 _ rfl
      · cases hf
        exact ⟨rfl, .inl rfl⟩
      · cases hf
        exact ⟨rfl, .inr (.inr rfl)⟩
      · cases hn
  · dsimp only
    split
    · refine ⟨⟨hr.1, hc.2⟩, ?_⟩
      intro f hf
      cases hf
      exact ⟨rfl, .inr (.inl rfl)⟩
    · refine ⟨⟨hr.1, hc.2⟩, ?_⟩
      intro f hf
      cases hf

theorem await_isUsable {c : Connection} (hc : c.IsUsable) (keyword : Text) (log : Log) :
    (await keyword (c, log)).2.1.IsUsable ∧
      ∀ f, (await keyword (c, log)).1 = .error (.fault f) →
        f.isOwn = true ∧ (f.family = .unexpectedLine ∨ f.family = .format ∨
          f.family = .transport ∨ f.family = .system) := by
  rw [await_apply]
  have hr := readLine_isUsable hc log
  generalize readLine (c, log) = r at hr ⊢
  obtain ⟨i | line, q⟩ := r
  · exact ⟨hr.1, fun f hf => (hr.2 f hf).imp_right .inr⟩
  · refine ⟨hr.1, ?_⟩
    intro f hf
    dsimp only [Line.expect] at hf
    split at hf
    · cases hf
    · cases hf
      exact ⟨rfl, .inl rfl⟩

end Connection

namespace Server

variable {s : Server} {f : Fault}

theorem isOwn_of_onSource {read : TextSource → TextSource.Reading Text}
    (hr : ∀ k, (read k).1 = .error (.fault f) → f.isOwn = true)
    (h : (s.gaining .text (Connection.onSource read)).1 = .error (.fault f)) :
    f.isOwn = true := by
  refine hr s.connection.source ?_
  change (read s.connection.source).1.map _ = _ at h
  generalize (read s.connection.source).1 = r at h ⊢
  cases r with
  | error i => cases h; rfl
  | ok t => cases h

theorem isOwn_of_onSink {write : TextSink → Except Fault Unit × TextSink}
    (hw : ∀ k, (write k).1 = .error f → f.isOwn = true)
    (h : (s.gaining (fun _ => .nothing) (Connection.onSink write)).1 = .error (.fault f)) :
    f.isOwn = true := by
  refine hw s.connection.sink ?_
  change ((write s.connection.sink).1.mapError Interrupt.fault).map _ = _ at h
  generalize (write s.connection.sink).1 = r at h ⊢
  cases r with
  | error e => cases h; rfl
  | ok _ => cases h

theorem isOwn_of_act {a : Action} (h : (s.act a).1 = .error (.fault f)) : f.isOwn = true := by
  cases a with
  | readLine => exact isOwn_of_onSource (fun _ => TextSource.isOwn_of_readUntil) h
  | read count refuses => exact isOwn_of_onSource (fun _ => TextSource.isOwn_of_read) h
  | write t =>
    refine isOwn_of_onSink (fun k hf => ?_) h
    obtain rfl | rfl | ⟨e, rfl⟩ := TextSink.fault_of_write hf <;> rfl
  | flush =>
    refine isOwn_of_onSink (fun k hf => ?_) h
    obtain rfl | rfl := TextSink.fault_of_flush hf <;> rfl
  | closeWriter =>
    refine isOwn_of_onSink (fun k hf => ?_) h
    obtain rfl := TextSink.fault_of_close hf
    rfl
  | join => cases h; rfl
  | observe => cases h
  | note n => cases h
  | shutDown => cases h
  | closeReader => cases h

end Server

end LineHandshake
