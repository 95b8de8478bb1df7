import LineHandshake.Proofs.Closing
import LineHandshake.Proofs.Turns

/-!
A connection once it has been released. Whatever it held, nothing more is read from it or sent on
it, and releasing it again does nothing.
-/

namespace LineHandshake.Connection

def Event.call? : Event → Option Call
  | .arrival _ => none
  | .call k => some k

def Event.arrival? : Event → Option Arrival
  | .arrival a => some a
  | .call _ => none

def Turn.onClosed : Call → Turn
  | .release => ⟨.release, .ok none, [], [Resource.releasedRecord (text "Server")]⟩
  | k => ⟨k, .error (.fault .streamClosed), [], []⟩

variable {c : Connection} {k : Call}

theorem turn_release_eq {c' : Connection} {l : Log}
    (h : release (text "Server") (c, []) = (.ok (), (c', l))) :
    c.turn .release = (⟨.release, .ok none, c'.sink.sent.drop c.sink.sent.length, l⟩, c') := by
  simp only [turn, call, Task.perform_apply, Task.bind_apply, Task.mapError_apply, h]
  rfl

theorem turn_release (c : Connection) :
    (c.turn .release).1.result = .ok none ∧ (c.turn .release).2.IsClosed := by
  obtain ⟨c', l, hr, hc⟩ := release_isClosed (text "Server") c []
  rw [turn_release_eq hr]
  exact ⟨rfl, hc⟩

theorem turn_of_fails (h : call k (c, []) = (.error (.fault .streamClosed), (c, []))) :
    c.turn k = (⟨k, .error (.fault .streamClosed), [], []⟩, c) := by
  simp only [turn, Task.perform_apply, h, List.drop_length]

namespace IsClosed

theorem readLine_eq (h : c.IsClosed) (log : Log) :
    readLine (c, log) = (.error (.fault .streamClosed), (c, log)) := by
  have hs : c.source.readLine = (.error (.fault .streamClosed), c.source) :=
    if_neg (by rw [h.source]; nofun)
  rw [readLine_apply, hs]
  rfl

theorem await_eq (h : c.IsClosed) (keyword : Text) (log : Log) :
    await keyword (c, log) = (.error (.fault .streamClosed), (c, log)) := by
  rw [await_apply, h.readLine_eq]

theorem writeLine_eq (h : c.IsClosed) (line : Text) (log : Log) :
    writeLine line (c, log) = (.error (.fault .streamClosed), (c, log)) := by
  have hs : c.sink.write line = (.error .streamClosed, c.sink) :=
    if_neg (by rw [h.sink]; nofun)
  rw [writeLine_apply, hs]

theorem release_eq (h : c.IsClosed) (tag : Text) (log : Log) :
    release tag (c, log) = (.ok (), (c, log ++ [Resource.releasedRecord tag])) := by
  have hs : c.sink.close = (.ok (), c.sink) := if_neg (by rw [h.sink]; nofun)
  have hw : writer.close c = (.ok (), c) := by simp only [writer, hs]
  have hclose : c.source.close = c.source := by rw [TextSource.close, ← h.source]
  have hc : (⟨c.source.close, c.sink, false⟩ : Connection) = c := by rw [hclose, ← h.socket]
  have hr := release_of_closeQuietly (Resource.closeQuietly_of_ok hw tag log)
  rwa [hc] at hr

theorem turn_eq (h : c.IsClosed) (k : Call) : c.turn k = (.onClosed k, c) := by
  have hwrite (line : Text) : (do writeLine line; return none : Exchange (Option Text)) (c, []) =
      (.error (.fault .streamClosed), (c, [])) := by
    rw [Task.bind_apply, h.writeLine_eq]
  have hawait (keyword : Text) : (do return some (← await keyword) : Exchange (Option Text))
      (c, []) = (.error (.fault .streamClosed), (c, [])) := by
    rw [Task.bind_apply, h.await_eq]
  cases k with
  | readLine =>
    refine turn_of_fails ?_
    rw [call, Task.bind_apply, h.readLine_eq]
  | awaitConnect => exact turn_of_fails (hawait _)
  | awaitPing => exact turn_of_fails (hawait _)
  | sendInfo => exact turn_of_fails (hwrite _)
  | sendPong => exact turn_of_fails (hwrite _)
  | writeLine line => exact turn_of_fails (hwrite line)
  | release =>
    rw [turn_release_eq (h.release_eq _ []), List.drop_length]
    rfl

theorem receive (h : c.IsClosed) (a : Arrival) : (c.receive a).IsClosed := by
  cases a with
  | bytes bs =>
    refine ⟨?_, h.sink, h.socket⟩
    simp only [Connection.receive, deliver, TextSource.deliver]
    split <;> exact h.source
  | ending e =>
    refine ⟨?_, h.sink, h.socket⟩
    simp only [Connection.receive, hangUp, TextSource.hangUp]
    split <;> exact h.source

theorem turns_eq (h : c.IsClosed) (es : List Event) :
    c.turns es = ((es.filterMap Event.call?).map .onClosed,
        (es.filterMap Event.arrival?).foldl Connection.receive c) ∧
      (c.turns es).2.IsClosed ∧ (c.turns es).2.sink.sent = c.sink.sent := by
  induction es generalizing c with
  | nil => exact ⟨rfl, h, rfl⟩
  | cons e es ih =>
    cases e with
    | arrival a =>
      obtain ⟨hq, hc, hsent⟩ := ih (h.receive a)
      obtain ⟨isReset, hr⟩ := c.receive_sink a
      exact ⟨hq, hc, hsent.trans (by rw [hr])⟩
    | call k =>
      obtain ⟨hq, hc, hsent⟩ := ih h
      rw [turns_call, h.turn_eq, hq]
      rw [hq] at hc hsent
      exact ⟨rfl, hc, hsent⟩

end IsClosed

/-- A release goes through and closes the connection, whatever state it is in. From then on each
call but a release fails, another release does nothing, and nothing is sent. -/
theorem released_stays_released (c : Connection) (es : List Event) :
    let r := c.turn .release
    let q := r.2.turns es
    r.1.result = .ok none ∧ r.2.IsClosed ∧ q.2.IsClosed ∧
      q.1 = (es.filterMap Event.call?).map .onClosed ∧
      q.2 = (es.filterMap Event.arrival?).foldl Connection.receive r.2 ∧
      q.2.sink.sent = r.2.sink.sent ∧
      Fault.streamClosed.kind = text "ValueError" := by
  intro r q
  obtain ⟨hr, hc⟩ := turn_release c
  obtain ⟨hq, hclosed, hsent⟩ := hc.turns_eq es
  exact ⟨hr, hc, hclosed, congrArg Prod.fst hq, congrArg Prod.snd hq, hsent, rfl⟩

end LineHandshake.Connection
