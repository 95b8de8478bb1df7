import LineHandshake.Proofs.Agreement

/-!
A run without a script against its reference, which knows neither bytes nor packets nor times but
only the lines that the client sends. The reference goes through the same instructions; at any
time it foretells, from what is still to do and the text that is still to come, what the run will
come to, and no step of the server or the client changes what is foretold.
-/

namespace LineHandshake

/-- What a run comes to: how far it got, how it ended, on what kind of fault, and what it sent. -/
structure Verdict where
  progress : Progress
  outcome : Outcome
  errorKind : Option Text
  sent : Bytes
deriving DecidableEq

def Server.verdict (s : Server) : Verdict :=
  ⟨s.progress, s.outcome, s.error.map Fault.kind, s.sent⟩

namespace Verdict

def exited (p : Progress) (sent : Bytes) : Verdict := ⟨p, .exited, none, sent⟩

def clientGone (p : Progress) (sent : Bytes) : Verdict :=
  ⟨p, .ioError, some (text "TransportError"), sent⟩

def unexpected (p : Progress) (sent : Bytes) : Verdict :=
  ⟨p, .protocolViolation, some (text "UnexpectedMessageError"), sent⟩

end Verdict

open Connection (greetingBytes pongBytes) in
/-- What a run comes to whose client sends `l1` and then `l2` as its first two lines, if it sends
as many, and whose owner shuts it down. -/
def reference (e : ExitPoint) (l1 l2 : Option Text) : Verdict :=
  match e, l1 with
  | .beforeInfo, _ => .exited .clientConnected []
  | .afterInfo, _ => .exited .sentInfo greetingBytes
  | _, none => .clientGone .sentInfo greetingBytes
  | e, some l1 =>
    if ¬ Keyword.connect <+: l1 then .unexpected .sentInfo greetingBytes
    else
      match e, l2 with
      | .afterConnect, _ => .exited .gotConnect greetingBytes
      | _, none => .clientGone .gotConnect greetingBytes
      | e, some l2 =>
        if ¬ Keyword.ping <+: l2 then .unexpected .gotConnect greetingBytes
        else
          match e with
          | .afterPing => .exited .gotPing greetingBytes
          | _ => ⟨.sentPong, .completed, none, greetingBytes ++ pongBytes⟩

def foretoldAwait (keyword : Text) (p : Progress) (sent : Bytes) (next : List Text → Verdict) :
    List Text → Verdict
  | [] => .clientGone p sent
  | l :: lines => if keyword.isPrefixOf l then next lines else .unexpected p sent

/-- What a run comes to that has got to `p`, has sent `sent` and still has `todo` to do, if the
lines are those that are still to come. -/
def foretold (e : ExitPoint) (p : Progress) (sent : Bytes) :
    (todo : List Instruction) → (lines : List Text) → Verdict
  | [], _ => ⟨p, .completed, none, sent⟩
  | .reach q :: todo, lines => foretold e q sent todo lines
  | .exitAt x :: todo, lines => if e = x then .exited p sent else foretold e p sent todo lines
  | .sendInfo :: todo, lines => foretold e p (sent ++ Connection.greetingBytes) todo lines
  | .awaitConnect :: todo, lines =>
    foretoldAwait Keyword.connect p sent (fun lines => foretold e p sent todo lines) lines
  | .awaitPing :: todo, lines =>
    foretoldAwait Keyword.ping p sent (fun lines => foretold e p sent todo lines) lines
  | .sendPong :: todo, lines => foretold e p (sent ++ Connection.pongBytes) todo lines
  | .play _ :: todo, lines => foretold e p sent todo lines

theorem foretold_handshake (e : ExitPoint) (lines : List Text) :
    foretold e .noClient [] handshake lines = reference e lines[0]? lines[1]? := by
  rcases lines with _ | ⟨l1, _ | ⟨l2, lines⟩⟩
  · cases e <;> rfl
  · cases e <;> by_cases h1 : Keyword.connect <+: l1 <;>
      simp [foretold, foretoldAwait, handshake, reference, h1]
  · cases e <;> by_cases h1 : Keyword.connect <+: l1 <;> by_cases h2 : Keyword.ping <+: l2 <;>
      simp [foretold, foretoldAwait, handshake, reference, h1, h2]

namespace Server

variable {v : Verdict} {later : Bytes} {ending : Option Ending} {todo : List Instruction}
  {i : Instruction} {s t : Server}

/-- The run that has `todo` before it will come to `v`, if its client still sends `later` and has
ended its side as told. -/
structure Expects (v : Verdict) (later : Bytes) (ending : Option Ending) (todo : List Instruction)
    (s : Server) : Prop where
  script : s.spec.script = none
  order : InOrder s.spec s.progress todo
  error : s.error = none
  ending : s.connection.source.ending = ending
  foretold : ∃ t w, s.connection.source.Holds later t ∧ s.connection.sink = { sent := w } ∧
    foretold s.spec.exitPoint s.progress w todo t.lines = v

def Foretells (v : Verdict) (later : Bytes) (ending : Option Ending) (s : Server) : Prop :=
  match s.phase with
  | .accepting => False
  | .serving todo => Expects v later ending todo s
  | .ended => s.verdict = v

theorem finish_verdict {w : Bytes} (hk : s.connection.sink = { sent := w }) (o : Outcome) :
    (s.finish o).phase = .ended ∧
      (s.finish o).verdict = ⟨s.progress, o, s.error.map Fault.kind, w⟩ := by
  have hw := finish_sent hk o
  obtain ⟨c, l, hf⟩ := finish_eq s o
  rw [hf] at hw ⊢
  exact ⟨rfl, congrArg (Verdict.mk s.progress o (s.error.map Fault.kind)) hw⟩

theorem fail_verdict {w : Bytes} (hk : s.connection.sink = { sent := w }) {f : Fault}
    (hf : f.isRecorded = true) :
    (s.fail f).phase = .ended ∧ (s.fail f).verdict = ⟨s.progress, outcomeOf f, some f.kind, w⟩ := by
  rw [fail_of_isRecorded hf]
  exact finish_verdict (s := (s.say .warning (failureHeadline f ++ f.message)).noteFault f) hk _

inductive Carries (v : Verdict) (later : Bytes) (ending : Option Ending) (i : Instruction)
    (todo : List Instruction) (s : Server) : Performed × Server → Prop
  | done {t : Server} (h : Expects v later ending todo t) (hd : t.isShutDown = s.isShutDown) :
      Carries v later ending i todo s (.done, t)
  | leave {t : Server} (hp : (t.finish .exited).phase = .ended)
      (hv : (t.finish .exited).verdict = v) : Carries v later ending i todo s (.leave, t)
  | failed {t : Server} {f : Fault} (hp : (t.fail f).phase = .ended)
      (hv : (t.fail f).verdict = v) : Carries v later ending i todo s (.failed f, t)
  | wait (he : ending = none) : Carries v later ending i todo s (.wait i, s)

theorem carries_write {w bs : Bytes} {line : Text} {text : Text}
    (hl : Utf8.encode line = .ok bs) (hsc : s.spec.script = none)
    (ho : InOrder s.spec s.progress todo) (hn : s.error = none)
    (he : s.connection.source.ending = ending)
    (hs : s.connection.source.Holds later text) (hw : s.connection.sink = { sent := w })
    (hv : foretold s.spec.exitPoint s.progress (w ++ bs) todo text.lines = v) :
    Carries v later ending i todo s (s.exchange i (Connection.writeLine line)) := by
  rw [exchange_of_ok (Connection.writeLine_idle hw hl [])]
  exact .done ⟨hsc, ho, hn, he, text, w ++ bs, hs, rfl, hv⟩ rfl

theorem carries_await {w : Bytes} {keyword text : Text} (hk : keyword ∈ Keyword.all)
    (hsc : s.spec.script = none) (ho : InOrder s.spec s.progress todo) (hn : s.error = none)
    (he : s.connection.source.ending = ending)
    (hs : s.connection.source.Holds later text) (hw : s.connection.sink = { sent := w })
    (hv : foretoldAwait keyword s.progress w
      (fun lines => foretold s.spec.exitPoint s.progress w todo lines) text.lines = v) :
    Carries v later ending i todo s (s.exchange i (Connection.await keyword)) := by
  rcases Connection.await_of_holds hk hs [] with ⟨hr, hne, -⟩ | ⟨src, hs', he', hr⟩
  · rw [exchange_of_waiting hr]
    exact .wait (he.symm.trans hne)
  rcases hr with ⟨rfl, hr⟩ | ⟨ht, hr⟩
  · rw [exchange_of_fault hr]
    obtain ⟨hp, hf⟩ := fail_verdict (s := { s with
      connection := { s.connection with source := src }, log := s.log ++ [] }) hw
      (f := .clientGone) rfl
    exact .failed hp (hf.trans hv)
  · rw [Text.lines_eq_takeLine ht, foretoldAwait] at hv
    split at hr
    · next hp =>
      rw [if_pos hp] at hv
      rw [exchange_of_ok hr]
      exact .done ⟨hsc, ho, hn, he'.trans he, _, w, hs', hw, hv⟩ rfl
    · next hp =>
      rw [if_neg hp] at hv
      rw [exchange_of_fault hr]
      obtain ⟨hp, hf⟩ := fail_verdict (s := { s with
        connection := { s.connection with source := src },
        log := s.log ++ ([] ++ [Connection.receivedRecord (takeLine text).1]) }) hw
        (f := .unexpectedLine keyword (takeLine text).1.chomp) rfl
      exact .failed hp (hf.trans hv)

theorem carries_perform (h : Expects v later ending (i :: todo) s) :
    Carries v later ending i todo s (s.perform i) := by
  obtain ⟨hsc, ⟨hi, ho⟩, hn, he, text, w, hs, hw, hv⟩ := h
  cases i with
  | reach q =>
    have hq : q.rank = s.progress.rank + 1 := hi
    have hp : s.progress.furthest q = q := if_pos (by omega)
    refine .done ⟨hsc, ?_, hn, he, text, w, hs, hw, ?_⟩ rfl
    · change InOrder s.spec (s.progress.furthest q) todo
      rw [hp]
      exact ho
    · change LineHandshake.foretold s.spec.exitPoint (s.progress.furthest q) w todo _ = v
      rw [hp]
      exact hv
  | exitAt x =>
    simp only [foretold] at hv
    simp only [perform]
    split
    · next hx =>
      rw [if_pos hx] at hv
      obtain ⟨hp, hf⟩ := finish_verdict (s := s.say .info _) hw .exited
      change _ = Verdict.mk s.progress .exited (s.error.map Fault.kind) w at hf
      rw [hn] at hf
      exact .leave hp (hf.trans hv)
    · next hx =>
      rw [if_neg hx] at hv
      exact .done ⟨hsc, ho, hn, he, text, w, hs, hw, hv⟩ rfl
  | sendInfo => exact carries_write Connection.encode_greeting hsc ho hn he hs hw hv
  | sendPong => exact carries_write Connection.encode_pong hsc ho hn he hs hw hv
  | awaitConnect => exact carries_await (.tail _ (.head _)) hsc ho hn he hs hw hv
  | awaitPing => exact carries_await (.tail _ (.tail _ (.head _))) hsc ho hn he hs hw hv
  | play k => exact absurd rfl (ne_play_of_inOrder hsc ⟨hi, ho⟩ k)

theorem Foretells.serving (h : Foretells v later ending s) (hp : s.phase = .serving todo) :
    Expects v later ending todo s := by
  simpa only [Foretells, hp] using h

theorem Foretells.ended (h : Foretells v later ending s) (hp : s.phase = .ended) :
    s.verdict = v := by
  simpa only [Foretells, hp] using h

theorem foretells_goOn {r : Performed × Server} (h : Expects v later ending (i :: todo) s)
    (hr : Carries v later ending i todo s r) : Foretells v later ending (goOn todo r) := by
  cases hr with
  | done ht _ => exact ⟨ht.script, ht.order, ht.error, ht.ending, ht.foretold⟩
  | leave hp hv => simpa only [goOn, Foretells, hp] using hv
  | failed hp hv => simpa only [goOn, Foretells, hp] using hv
  | wait _ => exact ⟨h.script, h.order, h.error, h.ending, h.foretold⟩

theorem Expects.finish (h : Expects v later ending [] s) :
    (s.finish .completed).phase = .ended ∧ (s.finish .completed).verdict = v := by
  obtain ⟨-, -, hn, -, text, w, -, hw, hv⟩ := h
  obtain ⟨hp, hf⟩ := finish_verdict hw .completed
  rw [hn] at hf
  exact ⟨hp, hf.trans hv⟩

theorem Expects.firstStep_eq (h : Expects v later ending (i :: todo) s) :
    s.firstStep i = s.perform i :=
  firstStep_of_ne_act (fun _ _ => ne_play_of_inOrder h.script h.order _) s

theorem foretells_work (h : Foretells v later ending s) : Foretells v later ending s.work := by
  unfold work
  split
  · next hp =>
    split
    · obtain ⟨hq, hv⟩ := (h.serving hp).finish
      simpa only [Foretells, hq] using hv
    · exact h
  · next i todo hp =>
    have he := h.serving hp
    rw [he.firstStep_eq]
    exact foretells_goOn he (carries_perform he)
  · exact h

theorem Foretells.phase_ne (h : Foretells v later ending s) : s.phase ≠ .accepting := by
  intro hp
  simp only [Foretells, hp] at h

theorem happen_eq_self (hp : s.phase ≠ .accepting) :
    s.happen .tick = s ∧ ∀ peer, s.happen (.connect peer) = s := by
  cases h : s.phase with
  | accepting => exact absurd h hp
  | serving todo => simp [happen, tick, welcome, h]
  | ended => simp [happen, tick, welcome, h]

theorem foretells_shutDown (h : Foretells v later ending s) :
    Foretells v later ending (s.happen .shutDown) := by
  cases hp : s.phase with
  | accepting => exact absurd hp h.phase_ne
  | serving todo =>
    obtain ⟨hs, ho, hn, he, hf⟩ := h.serving hp
    simp only [happen, Foretells, hp]
    exact ⟨hs, ho, hn, he, hf⟩
  | ended =>
    have hv := h.ended hp
    simp only [happen, Foretells, hp]
    exact hv

theorem foretells_change {f : Connection → Connection} {later' : Bytes} {ending' : Option Ending}
    (h : Foretells v later ending s)
    (hf : ∀ (c : Connection) (t : Text), c.source.Holds later t → c.source.ending = ending →
      (f c).source.Holds later' t ∧ (f c).source.ending = ending' ∧ (f c).sink = c.sink) :
    Foretells v later' ending' (s.change f) := by
  unfold change
  cases hp : s.phase with
  | accepting => exact absurd hp h.phase_ne
  | serving todo =>
    obtain ⟨hs, ho, hn, he, t, w, ht, hw, hv⟩ := h.serving hp
    obtain ⟨ht', he', hk⟩ := hf _ t ht he
    rw [if_pos (by simp only [Server.isServing, hp])]
    simp only [Foretells]
    exact ⟨hs, ho, hn, he', t, w, ht', hk.trans hw, hv⟩
  | ended =>
    have hv := h.ended hp
    rw [if_neg (by simp [Server.isServing, hp])]
    simpa only [Foretells, hp] using hv

theorem foretells_deliver {bs : Bytes} (h : Foretells v (bs ++ later) none s) :
    Foretells v later none (s.change (Connection.deliver bs)) := by
  refine foretells_change h ?_
  intro c t ht he
  refine ⟨ht.deliver he, ?_, rfl⟩
  simp [Connection.deliver, TextSource.deliver, he]

theorem foretells_hangUp (h : Foretells v [] none s) :
    Foretells v [] (some .endOfStream) (s.change (Connection.hangUp .endOfStream)) := by
  refine foretells_change h ?_
  intro c t ht he
  refine ⟨ht.hangUp, ?_, ?_⟩
  · simp [Connection.hangUp, TextSource.hangUp, he]
  · simp [Connection.hangUp]

theorem foretells_over (h : Foretells v [] (some .endOfStream) s) {x : Happening}
    (hx : x ≠ .breakWrites) : Foretells v [] (some .endOfStream) (s.happen x) := by
  cases x with
  | work => exact foretells_work h
  | tick => rwa [(happen_eq_self h.phase_ne).1]
  | connect peer => rwa [(happen_eq_self h.phase_ne).2]
  | shutDown => exact foretells_shutDown h
  | breakWrites => exact absurd rfl hx
  | deliver bs =>
    refine foretells_change h ?_
    intro c t ht he
    simpa [Connection.deliver, TextSource.deliver, he] using ht
  | hangUp e =>
    refine foretells_change h ?_
    intro c t ht he
    simpa [Connection.hangUp, TextSource.hangUp, he] using ht

theorem foretells_after_end (h : Foretells v [] (some .endOfStream) s) {hs : List Happening}
    (hw : .breakWrites ∉ hs) : Foretells v [] (some .endOfStream) (s.after hs) := by
  induction hs generalizing s with
  | nil => exact h
  | cons x hs ih =>
    obtain ⟨hx, hw⟩ := not_or.1 (mt List.mem_cons.2 hw)
    exact ih (foretells_over h (Ne.symm hx)) hw

theorem foretells_after {hs : List Happening} (h : Foretells v (incoming hs).1 none s)
    (he : (incoming hs).2 = some .endOfStream) (hw : .breakWrites ∉ hs) :
    Foretells v [] (some .endOfStream) (s.after hs) := by
  induction hs generalizing s with
  | nil => cases he
  | cons x hs ih =>
    obtain ⟨hx, hn⟩ := not_or.1 (mt List.mem_cons.2 hw)
    clear hw
    cases x with
    | work => exact ih (foretells_work h) he hn
    | tick =>
      rw [after_cons, (happen_eq_self h.phase_ne).1]
      exact ih h he hn
    | connect peer =>
      rw [after_cons, (happen_eq_self h.phase_ne).2]
      exact ih h he hn
    | shutDown => exact ih (foretells_shutDown h) he hn
    | breakWrites => exact absurd rfl hx
    | deliver bs => exact ih (foretells_deliver h) he hn
    | hangUp e =>
      obtain rfl : e = .endOfStream := Option.some.inj he
      exact foretells_after_end (foretells_hangUp h) hn

theorem Expects.run (h : Expects v [] (some .endOfStream) todo s) (hd : s.isShutDown = true) :
    (s.run todo).phase = .ended ∧ (s.run todo).verdict = v := by
  induction todo generalizing s with
  | nil =>
    rw [Server.run, if_pos hd]
    exact h.finish
  | cons i todo ih =>
    have hc := carries_perform h
    rw [Server.run]
    generalize s.perform i = r at hc
    cases hc with
    | done ht hdt => exact ih ht (hdt.trans hd)
    | leave hp hv => exact ⟨hp, hv⟩
    | failed hp hv => exact ⟨hp, hv⟩
    | wait he => cases he

theorem Foretells.resume (h : Foretells v [] (some .endOfStream) s) (hd : s.isShutDown = true) :
    s.resume.phase = .ended ∧ s.resume.verdict = v := by
  unfold Server.resume
  split
  · next hp => exact (h.serving hp).run hd
  · next hp =>
    cases he : s.phase with
    | accepting => exact absurd he h.phase_ne
    | serving todo => exact absurd he (hp todo)
    | ended => exact ⟨rfl, h.ended he⟩

theorem foretells_welcome (hn : s.progress = .noClient) (hp : s.phase = .accepting)
    (he : s.error = none) (hsc : s.spec.script = none) {bs : Bytes} {t : Text}
    (ht : Utf8.decode bs = .ok t) (peer : Nat) :
    Foretells (reference s.spec.exitPoint t.lines[0]? t.lines[1]?) bs none (s.welcome peer) := by
  rw [welcome_of_accepting hp]
  refine ⟨hsc, ?_, he, rfl, t, [], TextSource.holds_of_decode ht, rfl, ?_⟩
  · change InOrder s.spec s.progress (program s.spec)
    rw [hn]
    exact inOrder_program s.spec
  · change LineHandshake.foretold s.spec.exitPoint s.progress [] (program s.spec) t.lines = _
    rw [hn, program, hsc]
    exact foretold_handshake s.spec.exitPoint t.lines

/-- However its bytes are cut and whenever they come, what a client sends counts only by its first
two lines. -/
theorem run_eq_reference (spec : ServerSpec) (hsc : spec.script = none)
    (before rest : List Happening) (peer : Nat) (t : Text)
    (hp : ((start spec (.ok ())).after before).phase = .accepting)
    (ht : Utf8.decode (incoming rest).1 = .ok t) (he : (incoming rest).2 = some .endOfStream)
    (hw : .breakWrites ∉ rest) (hd : .shutDown ∈ rest) :
    let s := ((start spec (.ok ())).after (before ++ .connect peer :: rest)).resume
    s.phase = .ended ∧ s.verdict = reference spec.exitPoint t.lines[0]? t.lines[1]? := by
  intro s
  obtain ⟨hs, -, -, hf, hn⟩ := (sound_after (sound_start spec (.ok ())) before).accepting hp
  have hf := foretells_welcome hn hp hf (by rw [hs, hsc]) ht peer
  rw [hs] at hf
  have hr := foretells_after hf he hw
  have hsr : s = ((((start spec (.ok ())).after before).welcome peer).after rest).resume := by
    simp only [s, after_append, after_cons, happen]
  rw [hsr]
  exact hr.resume (isShutDown_of_mem hd)

theorem run_eq_reference_split_character :
    let s := ((start { port := 14220 } (.ok ())).after ([.tick] ++ .connect 0 ::
      [.work, .deliver [67, 79, 78, 78, 69, 67, 84, 32, 0xC3], .work, .deliver [0xA9, 13],
        .shutDown, .work, .deliver [10, 80, 73], .deliver [78, 71], .hangUp .endOfStream])).resume
    s.phase = .ended ∧ s.verdict =
      ⟨.sentPong, .completed, none, Connection.greetingBytes ++ Connection.pongBytes⟩ :=
  run_eq_reference { port := 14220 } rfl [.tick] _ 0 (text "CONNECT \u00e9\r\nPING") (by rfl)
    (by decide) rfl (by decide) (by decide)

end Server

end LineHandshake
