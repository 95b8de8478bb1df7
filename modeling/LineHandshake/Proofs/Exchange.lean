import LineHandshake.Proofs.Line
import LineHandshake.Proofs.Reading
import LineHandshake.Server

/-!
What the exchanges of a handshake come to, one equation for each. A sink on which nothing waits to
be sent sends each line whole; a line is taken from the source, logged, and then looked at.
-/

namespace LineHandshake

namespace Task

variable {ε ε' σ α β : Type}

theorem bind_apply (x : Task ε σ α) (f : α → Task ε σ β) (p : σ × Log) :
    (x >>= f) p =
      match x p with
      | (.ok a, q) => f a q
      | (.error e, q) => (.error e, q) := by
  change (match x p with | (a, q) => ExceptT.bindCont f a q) = _
  rcases x p with ⟨a | a, q⟩ <;> rfl

theorem perform_apply (x : Task ε σ α) (s : σ) : x.perform s = x (s, []) := rfl

theorem step_apply (f : σ → Except ε α × σ) (p : σ × Log) :
    step f p = ((f p.1).1, ((f p.1).2, p.2)) := rfl

theorem lift_apply (r : Except ε α) (p : σ × Log) : (lift r : Task ε σ α) p = (r, p) := rfl

theorem mapError_apply (f : ε → ε') (x : Task ε σ α) (p : σ × Log) :
    mapError f x p = ((x p).1.mapError f, (x p).2) := rfl

end Task

namespace Resource

variable {σ : Type}

def releasedRecord (tag : Text) : Record :=
  ⟨.debug, text "server.shutdown", tag ++ text ": resources released"⟩

theorem closeQuietly_of_ok {r : Resource σ} {c c' : σ} (h : r.close c = (.ok (), c')) (tag : Text)
    (log : Log) : r.closeQuietly tag (c, log) = (.ok (), (c', log)) := by
  simp only [closeQuietly, Task.bind_apply, Task.step_apply, h]
  rfl

theorem closeQuietly_state (tag : Text) (r : Resource σ) (c : σ) (log : Log) :
    (r.closeQuietly tag (c, log)).2.1 = (r.close c).2 := by
  simp only [closeQuietly, Task.bind_apply, Task.step_apply]
  generalize r.close c = p
  obtain ⟨f | _, c'⟩ := p
  · dsimp only
    split
    · simp only [Task.bind_apply, Task.lift_apply]
      cases f.shown <;> rfl
    · rfl
  · rfl

end Resource

namespace TextSink

theorem write_idle {w bs : Bytes} {line : Text} (hl : Utf8.encode line = .ok bs) :
    ∃ k : TextSink, write line { sent := w } = (.ok (), k) ∧
      flush k = (.ok (), { sent := w ++ bs }) := by
  obtain ⟨sent, stored, gathered, hw, he⟩ :=
    write_of_not_isBroken (s := { sent := w }) rfl rfl hl
  refine ⟨_, hw, ?_⟩
  rw [flush, if_pos rfl, sendAll_of_not_isBroken rfl]
  have ha : sent ++ stored ++ gathered = w ++ bs := by simpa [accepted] using he
  simp only [accepted, ha]

theorem close_idle (w : Bytes) :
    close { sent := w } = (.ok (), { sent := w, isOpen := false }) := by
  rw [close, if_pos rfl, sendAll_of_not_isBroken rfl]
  simp [accepted]

end TextSink

namespace Connection

def greetingBytes : Bytes :=
  (text "INFO \x7b\"server_id\":\"test\"\x7d\r\n").flatMap Utf8.encodePoint

def pongBytes : Bytes := (text "PONG\r\n").flatMap Utf8.encodePoint

theorem encode_greeting :
    Utf8.encode (Greeting.encodeInfo Greeting.serverInfo) = .ok greetingBytes := by decide

theorem encode_pong : Utf8.encode (Line.encode Keyword.pong none) = .ok pongBytes := by decide

def sentRecord (line : Text) : Record :=
  ⟨.trace, text "server.handshake", text "Server: sent " ++ line.trimBlank.quoted⟩

def receivedRecord (line : Text) : Record :=
  ⟨.trace, text "server.handshake", text "Server: received " ++ line.trimBlank.quoted⟩

theorem writeLine_apply (line : Text) (c : Connection) (log : Log) :
    writeLine line (c, log) =
      match c.sink.write line with
      | (.error f, k) => (.error (.fault f), ({ c with sink := k }, log))
      | (.ok (), k) =>
        match k.flush with
        | (.error f, k) => (.error (.fault f), ({ c with sink := k }, log))
        | (.ok (), k) => (.ok (), ({ c with sink := k }, log ++ [sentRecord line])) := by
  simp only [writeLine, onSink, Task.bind_apply, Task.step_apply]
  generalize c.sink.write line = r
  obtain ⟨f | _, k⟩ := r
  · rfl
  · dsimp only [Except.mapError]
    generalize k.flush = r
    obtain ⟨f | _, k⟩ := r <;> rfl

theorem writeLine_idle {c : Connection} {w bs : Bytes} {line : Text}
    (hc : c.sink = { sent := w }) (hl : Utf8.encode line = .ok bs) (log : Log) :
    writeLine line (c, log) =
      (.ok (), ({ c with sink := { sent := w ++ bs } }, log ++ [sentRecord line])) := by
  obtain ⟨k, hw, hf⟩ := TextSink.write_idle (w := w) hl
  simp only [writeLine_apply, hc, hw, hf]

theorem readLine_apply (c : Connection) (log : Log) :
    readLine (c, log) =
      match c.source.readLine with
      | (.error i, s) => (.error (lineFault i), ({ c with source := s }, log))
      | (.ok line, s) =>
        if line = [] then (.error (.fault .clientGone), ({ c with source := s }, log))
        else (.ok line, ({ c with source := s }, log ++ [receivedRecord line])) := by
  simp only [readLine, onSource, Task.bind_apply, Task.mapError_apply, Task.step_apply]
  rcases c.source.readLine with ⟨i | line, s⟩
  · rfl
  · dsimp only [Except.mapError]
    split <;> rfl

theorem await_apply (keyword : Text) (c : Connection) (log : Log) :
    await keyword (c, log) =
      match readLine (c, log) with
      | (.error i, q) => (.error i, q)
      | (.ok line, q) => ((Line.expect keyword line).mapError .fault, q) := by
  simp only [await, Task.bind_apply, Task.lift_apply]
  rcases readLine (c, log) with ⟨i | line, q⟩ <;> rfl

/-- Waiting for a line that starts with a keyword, on a text of which nothing is taken or the first
line is: the peer has not sent enough yet, it is gone, or its line is or is not as it should be. -/
theorem await_of_holds {keyword : Text} (hk : keyword ∈ Keyword.all) {c : Connection}
    {later : Bytes} {t : Text} (h : c.source.Holds later t) (log : Log) :
    (await keyword (c, log) = (.error .waiting, (c, log)) ∧ c.source.ending = none ∧
        c.source.Stuck cutLine? later t) ∨
      ∃ s', s'.Holds later (takeLine t).2 ∧ s'.ending = c.source.ending ∧
        ((t = [] ∧ await keyword (c, log) = (.error (.fault .clientGone),
            ({ c with source := s' }, log))) ∨
          (t ≠ [] ∧ await keyword (c, log) =
            (if keyword.isPrefixOf (takeLine t).1 then .ok (takeLine t).1.chomp
              else .error (.fault (.unexpectedLine keyword (takeLine t).1.chomp)),
            ({ c with source := s' }, log ++ [receivedRecord (takeLine t).1])))) := by
  rw [await_apply, readLine_apply]
  rcases h.readLine with ⟨hr, he⟩ | ⟨s', hr, hs, he⟩
  · left
    rw [hr]
    exact ⟨rfl, he⟩
  · right
    refine ⟨s', hs, he, ?_⟩
    rw [hr]
    dsimp only
    by_cases ht : t = []
    · left
      rw [if_pos (takeLine_fst_eq_nil_iff.2 ht)]
      exact ⟨ht, rfl⟩
    · right
      rw [if_neg (mt takeLine_fst_eq_nil_iff.1 ht)]
      refine ⟨ht, ?_⟩
      simp only [Line.expect, Text.isPrefixOf_chomp (Keyword.not_isLineBreak hk)]
      split <;> rfl

theorem release_of_closeQuietly {c : Connection} {k : TextSink} {tag : Text} {log log' : Log}
    (h : writer.closeQuietly tag (c, log) = (.ok (), ({ c with sink := k }, log'))) :
    release tag (c, log) =
      (.ok (), (⟨c.source.close, k, false⟩, log' ++ [Resource.releasedRecord tag])) := by
  simp only [release, Resource.release, resources, Resource.closeEach, Task.bind_apply, h]
  rfl

theorem release_idle {c : Connection} {w : Bytes} (hc : c.sink = { sent := w }) (tag : Text)
    (log : Log) :
    release tag (c, log) =
      (.ok (), (⟨c.source.close, { sent := w, isOpen := false }, false⟩,
        log ++ [Resource.releasedRecord tag])) := by
  have hw : writer.close c = (.ok (), { c with sink := { sent := w, isOpen := false } }) := by
    simp only [writer, hc, TextSink.close_idle]
  exact release_of_closeQuietly (Resource.closeQuietly_of_ok hw tag log)

theorem release_sink (tag : Text) (c : Connection) (log : Log) :
    (release tag (c, log)).2.1.sink = c.sink.close.2 := by
  have hw := Resource.closeQuietly_state tag writer c log
  simp only [release, Resource.release, resources, Resource.closeEach, Task.bind_apply]
  generalize writer.closeQuietly tag (c, log) = r at hw ⊢
  obtain ⟨f | _, c', log'⟩ := r
  · exact congrArg sink hw
  · exact congrArg sink hw

end Connection

namespace Server

variable {α : Type} {i : Instruction} {x : Connection.Exchange α} {s : Server} {c : Connection}
  {l : Log}

theorem exchange_of_ok {a : α} (h : x (s.connection, []) = (.ok a, (c, l))) :
    s.exchange i x = (.done, { s with connection := c, log := s.log ++ l }) := by
  simp only [exchange, onConnection, Task.perform_apply, h]

theorem exchange_of_waiting (h : x (s.connection, []) = (.error .waiting, (c, l))) :
    s.exchange i x = (.wait i, s) := by
  simp only [exchange, onConnection, Task.perform_apply, h]

theorem exchange_of_fault {f : Fault} (h : x (s.connection, []) = (.error (.fault f), (c, l))) :
    s.exchange i x = (.failed f, { s with connection := c, log := s.log ++ l }) := by
  simp only [exchange, onConnection, Task.perform_apply, h]

theorem release_sent {s : Server} {w : Bytes} (hk : s.connection.sink = { sent := w }) :
    s.release.2.sent = w := by
  have hr : ∃ r c l, Resource.release s.tag (if s.peer.isSome then Connection.resources else [])
      (s.connection, []) = (r, (c, l)) ∧ c.sink.sent = w := by
    cases s.peer with
    | none => exact ⟨_, s.connection, _, rfl, by rw [hk]⟩
    | some p => exact ⟨_, _, _, Connection.release_idle hk s.tag [], rfl⟩
  obtain ⟨r, c, l, hr, hc⟩ := hr
  simp only [release, onConnection, Task.perform_apply, hr]
  exact hc

theorem finish_of_release {s t : Server} {o : Outcome}
    (h : release { s with outcome := o, phase := .ended } = (.ok (), t)) :
    s.finish o = t.say .info (text "completed (" ++ t.outcome.name ++ text ")") := by
  rw [finish, h]

theorem finish_of_release_error {s t : Server} {o : Outcome} {f : Fault}
    (h : release { s with outcome := o, phase := .ended } = (.error f, t)) : s.finish o = t := by
  rw [finish, h]

theorem finish_eq_release (s : Server) (o : Outcome) :
    ∃ l, s.finish o = { (release { s with outcome := o, phase := .ended }).2 with log := l } := by
  rcases h : release { s with outcome := o, phase := .ended } with ⟨_ | _, t⟩
  · exact ⟨_, finish_of_release_error h⟩
  · exact ⟨_, finish_of_release h⟩

theorem fail_of_isRecorded {f : Fault} (h : f.isRecorded = true) (s : Server) :
    s.fail f =
      ((s.say .warning (failureHeadline f ++ f.message)).noteFault f).finish (outcomeOf f) := by
  obtain ⟨hf, hs⟩ := Fault.isRecorded_iff.1 h
  rw [fail, if_neg hf, hs]

theorem fail_of_not_isRecorded {f : Fault} (h : f.isRecorded = false) (s : Server) :
    s.fail f = s.abandon := by
  unfold fail
  split
  · rfl
  · next hf =>
    split
    · rfl
    · next t hs =>
      rw [Fault.isRecorded, hs, Bool.and_eq_false_iff, bne_eq_false_iff_eq] at h
      exact absurd (h.resolve_right Bool.noConfusion) hf

theorem fail_eq_finish (s : Server) (f : Fault) :
    ∃ o e l, s.fail f = { s.finish s.outcome with outcome := o, error := e, log := l } := by
  obtain ⟨l, hs⟩ := finish_eq_release s s.outcome
  rw [hs]
  cases h : f.isRecorded with
  | true =>
    rw [fail_of_isRecorded h]
    obtain ⟨l, hf⟩ := finish_eq_release
      ((s.say .warning (failureHeadline f ++ f.message)).noteFault f) (outcomeOf f)
    exact ⟨_, _, l, hf⟩
  | false =>
    rw [fail_of_not_isRecorded h]
    exact ⟨_, _, _, rfl⟩

theorem finish_sent {s : Server} {w : Bytes} (hk : s.connection.sink = { sent := w })
    (o : Outcome) : (s.finish o).sent = w := by
  obtain ⟨l, hf⟩ := finish_eq_release s o
  rw [hf]
  exact release_sent (s := { s with outcome := o, phase := .ended }) hk

theorem finish_connection (s : Server) (o : Outcome) :
    (s.finish o).connection =
      (Resource.release s.tag (if s.peer.isSome then Connection.resources else [])
        (s.connection, [])).2.1 := by
  obtain ⟨l, hf⟩ := finish_eq_release s o
  rw [hf]
  rfl

theorem finish_sink (s : Server) (o : Outcome) :
    (s.finish o).connection.sink =
      if s.peer.isSome then s.connection.sink.close.2 else s.connection.sink := by
  rw [finish_connection]
  cases s.peer with
  | none => rfl
  | some p => exact Connection.release_sink s.tag s.connection []

theorem fail_sink (s : Server) (f : Fault) :
    (s.fail f).connection.sink =
      if s.peer.isSome then s.connection.sink.close.2 else s.connection.sink := by
  obtain ⟨o, e, l, hf⟩ := fail_eq_finish s f
  rw [hf]
  exact finish_sink s s.outcome

end Server

end LineHandshake
