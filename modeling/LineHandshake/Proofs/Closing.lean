import LineHandshake.Proofs.Network
import LineHandshake.Proofs.Release
import LineHandshake.Proofs.Reservation
import LineHandshake.Proofs.Writing

/-!
What the end of a run leaves behind. Releasing a connection goes through whatever state it is in,
so once a run has ended its connection is closed, however it ended.
-/

namespace LineHandshake

namespace Connection

structure IsClosed (c : Connection) : Prop where
  source : c.source.isOpen = false
  sink : c.sink.isOpen = false
  socket : c.isOpen = false

theorem closeQuietly_writer (tag : Text) (c : Connection) (log : Log) :
    ∃ k log', k.isOpen = false ∧
      writer.closeQuietly tag (c, log) = (.ok (), ({ c with sink := k }, log')) := by
  rcases TextSink.close_cases c.sink with ⟨⟨_ | _, k⟩, hm, hc⟩ | ⟨ho, hc⟩
  · next f =>
    obtain ⟨rfl, -⟩ := hm.fails f rfl
    have hw : writer.close c = (.error (.system .brokenPipe),
        { c with sink := { k with isOpen := false } }) := by simp only [writer, hc]
    exact ⟨_, _, rfl, Resource.closeQuietly_of_isPassedOver hw rfl tag log⟩
  · have hw : writer.close c = (.ok (), { c with sink := { k with isOpen := false } }) := by
      simp only [writer, hc]
    exact ⟨_, log, rfl, Resource.closeQuietly_of_ok hw tag log⟩
  · have hw : writer.close c = (.ok (), { c with sink := c.sink }) := by simp only [writer, hc]
    exact ⟨c.sink, log, ho, Resource.closeQuietly_of_ok hw tag log⟩

theorem release_isClosed (tag : Text) (c : Connection) (log : Log) :
    ∃ c' log', release tag (c, log) = (.ok (), (c', log')) ∧ c'.IsClosed := by
  obtain ⟨k, log', hk, hw⟩ := closeQuietly_writer tag c log
  exact ⟨_, _, release_of_closeQuietly hw, ⟨rfl, hk, rfl⟩⟩

end Connection

namespace Server

variable {s : Server}

theorem finish_isClosed (hp : s.peer ≠ none) (o : Outcome) :
    (s.finish o).connection.IsClosed := by
  obtain ⟨c, log, hr, hc⟩ := Connection.release_isClosed s.tag s.connection []
  rw [finish_connection, if_pos (Option.isSome_iff_ne_none.2 hp), ← Connection.release, hr]
  exact hc

theorem finish_peer (s : Server) (o : Outcome) : (s.finish o).peer = s.peer := by
  obtain ⟨c, l, hf⟩ := finish_eq s o
  rw [hf]

def IsTidy (s : Server) : Prop := s.phase = .ended → s.peer ≠ none → s.connection.IsClosed

theorem isTidy_of_phase_ne (hp : s.phase ≠ .ended) : s.IsTidy := fun h => absurd h hp

theorem isTidy_finish (s : Server) (o : Outcome) : (s.finish o).IsTidy := by
  intro _ hp
  rw [finish_peer] at hp
  exact finish_isClosed hp o

theorem isTidy_fail (s : Server) (f : Fault) : (s.fail f).IsTidy := by
  obtain ⟨o, e, l, hf⟩ := fail_eq_finish s f
  rw [hf]
  exact isTidy_finish s s.outcome

theorem isTidy_wait (hp : s.phase = .accepting) : s.wait.IsTidy := by
  unfold wait
  split
  · exact isTidy_fail _ _
  · split
    · exact isTidy_finish _ _
    · exact isTidy_of_phase_ne (by simp [hp])

theorem isTidy_start (spec : ServerSpec) (bound : Except Fault Unit) :
    (start spec bound).IsTidy := by
  cases bound with
  | error f => exact isTidy_fail _ _
  | ok => exact isTidy_wait rfl

theorem isTidy_work (h : s.IsTidy) : s.work.IsTidy := by
  unfold work
  split
  · split
    · exact isTidy_finish _ _
    · exact h
  · next i todo _ =>
    obtain ⟨_ | _ | _ | f, t⟩ := s.firstStep i
    · exact isTidy_of_phase_ne nofun
    · exact isTidy_finish _ _
    · exact isTidy_of_phase_ne nofun
    · exact isTidy_fail _ _
  · exact h

theorem IsTidy.happen (h : s.IsTidy) (x : Happening) : (s.happen x).IsTidy := by
  have hc (f : Connection → Connection) : (s.change f).IsTidy := by
    unfold change
    split
    · next hv =>
      refine isTidy_of_phase_ne fun (hp : s.phase = .ended) => ?_
      simp [isServing, hp] at hv
    · exact h
  cases x with
  | work => exact isTidy_work h
  | tick =>
    cases hp : s.phase with
    | accepting =>
      rw [Server.happen, tick_of_accepting hp]
      exact isTidy_wait hp
    | _ =>
      rw [(happen_eq_self (by simp [hp])).1]
      exact h
  | connect peer =>
    cases hp : s.phase with
    | accepting =>
      rw [Server.happen, welcome_of_accepting hp]
      exact isTidy_of_phase_ne fun h => by cases h
    | _ =>
      rw [(happen_eq_self (by simp [hp])).2]
      exact h
  | deliver bs => exact hc _
  | hangUp e => exact hc _
  | breakWrites => exact hc _
  | shutDown => exact h

theorem IsSound.spec_eq {spec : ServerSpec} {bound : Except Fault Unit}
    (h : IsSound spec bound s) : s.spec = spec := by
  cases hp : s.phase with
  | accepting => exact (h.accepting hp).spec_eq
  | serving todo => exact (h.serving hp).spec_eq
  | ended => exact (h.ended hp).spec_eq

/-- What holds of a server of a session, whatever has become of it. -/
structure IsProper (s : Server) : Prop where
  sound : ∃ bound, (∀ f, bound = .error f → f.isRecorded = true) ∧ IsSound s.spec bound s
  tidy : s.IsTidy
  isPort : s.isListening = true → 0 ≤ s.spec.port ∧ s.spec.port ≤ Address.maxPort

theorem IsProper.untold (h : s.IsProper) (hp : s.phase = .ended) (ho : s.outcome = .running) :
    s.error = none ∧ s.progress = .startedCustomCode ∧
      ∃ k f, s.spec.script = some k ∧ k.Raises f ∧ f.isRecorded = false := by
  obtain ⟨bound, hb, hs⟩ := h.sound
  have ha := hs.agrees
  rw [ho] at ha
  obtain ⟨f, hr, ⟨-, hf⟩ | ⟨hq, k, hk, hf⟩⟩ := hs.untold hp ho
  · rw [hb f hf] at hr
    cases hr
  · exact ⟨ha, hq, k, f, hk, hf, hr⟩

theorem IsProper.happen (h : s.IsProper) (x : Happening) :
    (s.happen x).IsProper ∧ (s.happen x).spec = s.spec ∧
      ((s.happen x).isListening = true → s.isListening = true) := by
  obtain ⟨bound, hb, hs⟩ := h.sound
  have hs' := sound_happen hs x
  have he := hs'.spec_eq
  have hl : (s.happen x).isListening = true → s.isListening = true := by
    simp only [Server.isListening_iff]
    exact mt fun hp => phase_happen_of_ended hp x
  refine ⟨⟨⟨bound, hb, ?_⟩, h.tidy.happen x, fun hl' => ?_⟩, he, hl⟩
  · rw [he]
    exact hs'
  · rw [he]
    exact h.isPort (hl hl')

theorem IsProper.after (h : s.IsProper) (hs : List Happening) :
    (s.after hs).IsProper ∧ (s.after hs).spec = s.spec ∧
      ((s.after hs).isListening = true → s.isListening = true) := by
  induction hs generalizing s with
  | nil => exact ⟨h, rfl, id⟩
  | cons x hs ih =>
    obtain ⟨hx, he, hl⟩ := h.happen x
    obtain ⟨hx', he', hl'⟩ := ih hx
    exact ⟨hx', he'.trans he, fun h => hl (hl' h)⟩

theorem start_spec (spec : ServerSpec) (bound : Except Fault Unit) :
    (start spec bound).spec = spec := (sound_start spec bound).spec_eq

theorem isProper_start {spec : ServerSpec} {bound : Except Fault Unit}
    (hb : ∀ f, bound = .error f → f.isRecorded = true)
    (h : bound = .ok () → 0 ≤ spec.port ∧ spec.port ≤ Address.maxPort) :
    (start spec bound).IsProper := by
  have hs := sound_start spec bound
  have he := hs.spec_eq
  refine ⟨⟨bound, hb, ?_⟩, isTidy_start spec bound, fun hl => ?_⟩
  · rw [he]
    exact hs
  · rw [he]
    cases bound with
    | ok => exact h rfl
    | error f =>
      have hp : (start spec (.error f)).phase = .ended := fail_phase ..
      exact absurd hp (Server.isListening_iff.1 hl)

end Server

end LineHandshake
