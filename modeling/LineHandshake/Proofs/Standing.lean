import LineHandshake.Proofs.Schedule

/-!
Where a server stands with a client that does its part. An instruction has a plain effect on the
standing, without packets or buffers; a server whose standing is as it should be either has the
effect, leaves at its exit point, or waits for a line that has not come whole.
-/

namespace LineHandshake

/-- How far a server got: what it sent, what text it has still to get, the lines it accepted, and
what it traced. -/
structure Standing where
  progress : Progress
  sent : Bytes
  left : Text
  accepted : List Text
  trace : Log

namespace Standing

def HasLine (keyword : Text) (σ : Standing) : Prop :=
  σ.left ≠ [] ∧ keyword <+: (takeLine σ.left).1

def Admits (σ : Standing) : Instruction → Prop
  | .reach q => σ.progress.rank < q.rank
  | .awaitConnect => σ.HasLine Keyword.connect
  | .awaitPing => σ.HasLine Keyword.ping
  | .play _ => False
  | _ => True

def send (bs : Bytes) (line : Text) (σ : Standing) : Standing :=
  { σ with sent := σ.sent ++ bs, trace := σ.trace ++ [Connection.sentRecord line] }

def receive (σ : Standing) : Standing :=
  { σ with
    left := (takeLine σ.left).2
    accepted := σ.accepted ++ [(takeLine σ.left).1.chomp]
    trace := σ.trace ++ [Connection.receivedRecord (takeLine σ.left).1] }

def pass (σ : Standing) : Instruction → Standing
  | .reach q => { σ with progress := q }
  | .exitAt _ => σ
  | .sendInfo => σ.send Connection.greetingBytes (Greeting.encodeInfo Greeting.serverInfo)
  | .awaitConnect => σ.receive
  | .awaitPing => σ.receive
  | .sendPong => σ.send Connection.pongBytes (Line.encode Keyword.pong none)
  | .play _ => σ

end Standing

namespace Server

def trace (s : Server) : Log := s.log.filter fun r => r.source = text "server.handshake"

def nextAccepted? (s : Server) : Option Text :=
  match s.phase with
  | .serving (.awaitConnect :: _) => (s.onConnection Connection.awaitConnect).1.toOption
  | .serving (.awaitPing :: _) => (s.onConnection Connection.awaitPing).1.toOption
  | _ => none

def accepted (s : Server) : List Happening → List Text
  | [] => []
  | x :: hs => (if x = .work then s.nextAccepted?.toList else []) ++ accepted (s.happen x) hs

theorem accepted_append (s : Server) (hs ks : List Happening) :
    s.accepted (hs ++ ks) = s.accepted hs ++ (s.after hs).accepted ks := by
  induction hs generalizing s with
  | nil => rfl
  | cons x hs ih => rw [List.cons_append, accepted, ih, ← List.append_assoc]; rfl

theorem accepted_eq_nil {hs : List Happening} (h : .work ∉ hs) (s : Server) :
    s.accepted hs = [] := by
  induction hs generalizing s with
  | nil => rfl
  | cons x hs ih =>
    rw [List.mem_cons, not_or] at h
    rw [accepted, if_neg (Ne.symm h.1), ih h.2]
    rfl

/-- A server with the exit point `e` stands at `σ`, if its client still sends `later`. -/
structure Stands (e : ExitPoint) (σ : Standing) (later : Bytes) (todo : List Instruction)
    (s : Server) : Prop where
  exitPoint : s.spec.exitPoint = e
  phase : s.phase = .serving todo
  progress : s.progress = σ.progress
  outcome : s.outcome = .running
  error : s.error = none
  isShutDown : s.isShutDown = false
  ending : s.connection.source.ending = none
  source : s.connection.source.Holds later σ.left
  sink : s.connection.sink = { sent := σ.sent }
  trace : s.trace = σ.trace

structure HasLeft (σ : Standing) (s : Server) : Prop where
  phase : s.phase = .ended
  progress : s.progress = σ.progress
  outcome : s.outcome = .exited
  error : s.error = none
  sent : s.sent = σ.sent

variable {e : ExitPoint} {σ : Standing} {later : Bytes} {i : Instruction}
  {todo : List Instruction} {s : Server}

theorem trace_say (level : Level) (what : Text) (s : Server) :
    (s.say level what).trace = s.trace := by
  have hne : ¬ text "server.fake" = text "server.handshake" := by decide
  simp [trace, say, hne]

theorem trace_append {l : Log} (h : ∀ r ∈ l, r.source = text "server.handshake")
    (c : Connection) (p : Phase) (s : Server) :
    ({ s with connection := c, log := s.log ++ l }.inPhase p).trace = s.trace ++ l := by
  have hl : l.filter (fun r => r.source = text "server.handshake") = l :=
    List.filter_eq_self.2 (by simpa using h)
  simp only [trace, inPhase, List.filter_append, hl]

theorem Stands.leave (h : Stands e σ later todo s) (what : Text) :
    HasLeft σ ((s.say .info what).finish .exited) := by
  have hs := finish_sent (s := s.say .info what) h.sink .exited
  obtain ⟨c, l, hf⟩ := finish_eq (s.say .info what) .exited
  rw [hf] at hs ⊢
  exact ⟨rfl, h.progress, rfl, h.error, hs⟩

theorem Stands.write {bs : Bytes} {line : Text} (h : Stands e σ later (i :: todo) s)
    (hl : Utf8.encode line = .ok bs) :
    Stands e (σ.send bs line) later todo
      (goOn todo (s.exchange i (Connection.writeLine line))) := by
  rw [exchange_of_ok (Connection.writeLine_idle h.sink hl [])]
  refine ⟨h.exitPoint, rfl, h.progress, h.outcome, h.error, h.isShutDown, h.ending, h.source, rfl,
    ?_⟩
  rw [Standing.send, ← h.trace]
  refine trace_append ?_ _ _ s
  simp [Connection.sentRecord]

theorem Stands.await {keyword : Text} (hk : keyword ∈ Keyword.all)
    (h : Stands e σ later (i :: todo) s) (hl : σ.HasLine keyword) :
    (Stands e σ.receive later todo (goOn todo (s.exchange i (Connection.await keyword))) ∧
        (s.onConnection (Connection.await keyword)).1 = .ok (takeLine σ.left).1.chomp) ∨
      (goOn todo (s.exchange i (Connection.await keyword)) = s ∧
        s.connection.source.Stuck cutLine? later σ.left) := by
  rcases Connection.await_of_holds hk h.source [] with ⟨hr, -, hst⟩ | ⟨src, hs, he, hr⟩
  · right
    rw [exchange_of_waiting hr]
    refine ⟨?_, hst⟩
    change { s with phase := .serving (i :: todo) } = s
    rw [← h.phase]
  · left
    rcases hr with ⟨ht, -⟩ | ⟨-, hr⟩
    · exact absurd ht hl.1
    · rw [if_pos (List.isPrefixOf_iff_prefix.2 hl.2)] at hr
      rw [exchange_of_ok hr]
      refine ⟨⟨h.exitPoint, rfl, h.progress, h.outcome, h.error, h.isShutDown, he.trans h.ending,
        hs, h.sink, ?_⟩, congrArg Prod.fst hr⟩
      rw [Standing.receive, ← h.trace]
      refine trace_append ?_ _ _ s
      simp [Connection.receivedRecord]

theorem Stands.work_eq (h : Stands e σ later (i :: todo) s) (hi : σ.Admits i) :
    s.work = goOn todo (s.perform i) := by
  simp only [Server.work, h.phase]
  cases i with
  | play k => exact absurd hi id
  | _ => rfl

theorem Stands.work (h : Stands e σ later (i :: todo) s) (hi : σ.Admits i) :
    (i ≠ .exitAt e ∧ Stands e (σ.pass i) later todo s.work ∧
        (σ.pass i).accepted = σ.accepted ++ s.nextAccepted?.toList) ∨
      (i = .exitAt e ∧ HasLeft σ s.work) ∨
      ((i = .awaitConnect ∨ i = .awaitPing) ∧ s.work = s ∧
        s.connection.source.Stuck cutLine? later σ.left) := by
  rw [h.work_eq hi, nextAccepted?, h.phase]
  cases i with
  | reach q =>
    have hp : s.progress.furthest q = q := if_pos (h.progress ▸ hi)
    refine .inl ⟨?_, ⟨h.exitPoint, rfl, hp, h.outcome, h.error, h.isShutDown, h.ending, h.source,
      h.sink, ?_⟩, (List.append_nil _).symm⟩
    · intro he
      cases he
    · exact (trace_say _ _ _).trans h.trace
  | exitAt x =>
    rw [perform, h.exitPoint]
    split
    · next he => exact .inr (.inl ⟨by rw [he], h.leave _⟩)
    · next he =>
      exact .inl ⟨fun hx => he (Instruction.exitAt.inj hx).symm, ⟨h.exitPoint, rfl, h.progress,
        h.outcome, h.error, h.isShutDown, h.ending, h.source, h.sink, h.trace⟩,
        (List.append_nil _).symm⟩
  | sendInfo =>
    exact .inl ⟨(by intro he; cases he), h.write Connection.encode_greeting,
      (List.append_nil _).symm⟩
  | sendPong =>
    exact .inl ⟨(by intro he; cases he), h.write Connection.encode_pong,
      (List.append_nil _).symm⟩
  | awaitConnect =>
    rcases h.await (.tail _ (.head _)) hi with ⟨hs, hr⟩ | hs
    · have ha : (s.onConnection Connection.awaitConnect).1 = .ok (takeLine σ.left).1.chomp := hr
      refine .inl ⟨(by intro he; cases he), hs, ?_⟩
      dsimp only
      rw [ha]
      rfl
    · exact .inr (.inr ⟨.inl rfl, hs⟩)
  | awaitPing =>
    rcases h.await (.tail _ (.tail _ (.head _))) hi with ⟨hs, hr⟩ | hs
    · have ha : (s.onConnection Connection.awaitPing).1 = .ok (takeLine σ.left).1.chomp := hr
      refine .inl ⟨(by intro he; cases he), hs, ?_⟩
      dsimp only
      rw [ha]
      rfl
    · exact .inr (.inr ⟨.inr rfl, hs⟩)
  | play k => exact absurd hi id

theorem Stands.deliver {bs : Bytes} (h : Stands e σ (bs ++ later) todo s) :
    Stands e σ later todo (s.change (Connection.deliver bs)) := by
  unfold change
  rw [if_pos (by simp only [isServing, h.phase])]
  refine ⟨h.exitPoint, h.phase, h.progress, h.outcome, h.error, h.isShutDown, ?_,
    h.source.deliver h.ending, h.sink, h.trace⟩
  simp [Connection.deliver, TextSource.deliver, h.ending]

end Server

end LineHandshake
