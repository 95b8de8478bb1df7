import LineHandshake.Proofs.ExchangeFaults
import LineHandshake.Proofs.Schedule
import Mathlib.Data.List.Induction

/-!
How far a run got, how it ended and on which fault agree with each other in every state that a
server reaches, whatever happens to it and in whatever order. The invariant is that what is still
to do fits the progress: each instruction stands at the one progress at which it is due.

There is one way to end without an outcome. A fault that nobody handles, or that cannot be shown in
the log, leaves the run before it is noted.
-/

namespace LineHandshake

/-- The faults that a script may come to raise, by what its actions come to. -/
inductive Script.Raises : Script → Fault → Prop
  | raise (f : Fault) : Raises (.raise f) f
  | gained {a : Action} {next : Except Fault Gain → Script} {f : Fault} (g : Gain)
      (h : Raises (next (.ok g)) f) : Raises (.act a next) f
  | failed {a : Action} {next : Except Fault Gain → Script} {f e : Fault} (he : e.isOwn = true)
      (h : Raises (next (.error e)) f) : Raises (.act a next) f

def ExitPoint.stage : ExitPoint → Option Progress
  | .beforeInfo => some .clientConnected
  | .afterInfo => some .sentInfo
  | .afterConnect => some .gotConnect
  | .afterPing => some .gotPing
  | .noExit => none

namespace ServerSpec

variable (spec : ServerSpec) (bound : Except Fault Unit)

def lastProgress : Progress := if spec.script.isSome then .completedCustomCode else .sentPong

/-- The faults that may end a run, by its progress. Without a client these are the one with which
the port could not be bound and the end of the waiting. -/
def MayFail (f : Fault) : Progress → Prop
  | .noClient => bound = .error f ∨ (bound = .ok () ∧ f = .acceptTimeout spec.acceptTimeout)
  | .clientConnected | .gotPing => f = .system .brokenPipe
  | .sentInfo | .gotConnect => f.isOwn = true ∧
    (f.family = .unexpectedLine ∨ f.family = .format ∨ f.family = .transport ∨ f.family = .system)
  | .startedCustomCode => ∃ k, spec.script = some k ∧ k.Raises f
  | .sentPong | .completedCustomCode => False

theorem MayFail.of_not_isRecorded {spec : ServerSpec} {bound : Except Fault Unit} {f : Fault}
    {p : Progress} (h : spec.MayFail bound f p) (hf : f.isRecorded = false) :
    (p = .noClient ∧ bound = .error f) ∨
      (p = .startedCustomCode ∧ ∃ k, spec.script = some k ∧ k.Raises f) := by
  cases p with
  | noClient =>
    refine .inl ⟨rfl, h.resolve_right ?_⟩
    rintro ⟨-, rfl⟩
    cases hf
  | startedCustomCode => exact .inr ⟨rfl, h⟩
  | clientConnected => cases h; cases hf
  | gotPing => cases h; cases hf
  | sentInfo => rw [Fault.isRecorded_of_isOwn h.1] at hf; cases hf
  | gotConnect => rw [Fault.isRecorded_of_isOwn h.1] at hf; cases hf
  | sentPong => exact h.elim
  | completedCustomCode => exact h.elim

/-- What an outcome says of the progress, the error and whether the shutdown was signalled. -/
def Agrees (isShutDown : Bool) (p : Progress) (error : Option Fault) : Outcome → Prop
  | .running => error = none
  | .exited => spec.exitPoint.stage = some p ∧ error = none
  | .cancelled => isShutDown = true ∧ p = .noClient ∧ error = none
  | .completed =>
    spec.exitPoint = .noExit ∧ isShutDown = true ∧ p = spec.lastProgress ∧ error = none
  | .protocolViolation => ∃ f, error = some f ∧ spec.MayFail bound f p ∧
    (f.family = .unexpectedLine ∨ f.family = .format)
  | .ioError => ∃ f, error = some f ∧ spec.MayFail bound f p ∧
    (f.family = .transport ∨ f.family = .system)
  | .error => ∃ f, error = some f ∧ spec.MayFail bound f p ∧
    (f.family = .value ∨ f.family = .other)

theorem agrees_outcomeOf {spec : ServerSpec} {bound : Except Fault Unit} {f : Fault} {p : Progress}
    (h : spec.MayFail bound f p) (hr : f.isRecorded = true) (isShutDown : Bool) :
    spec.Agrees bound isShutDown p (some f) (Server.outcomeOf f) := by
  unfold Server.outcomeOf
  cases hf : f.family with
  | fatal => exact absurd hf (Fault.isRecorded_iff.1 hr).1
  | _ => exact ⟨f, rfl, h, by simp [hf]⟩

theorem Agrees.shutDown {spec : ServerSpec} {bound : Except Fault Unit} {isShutDown : Bool}
    {p : Progress} {error : Option Fault} {o : Outcome}
    (h : spec.Agrees bound isShutDown p error o) : spec.Agrees bound true p error o := by
  cases o with
  | cancelled => exact ⟨rfl, h.2⟩
  | completed => exact ⟨h.1, rfl, h.2.2⟩
  | _ => exact h

end ServerSpec

theorem Server.outcomeOf_ne_running (f : Fault) : outcomeOf f ≠ .running := by
  unfold outcomeOf
  split <;> intro h <;> cases h

namespace Instruction

def IsDue (spec : ServerSpec) (p : Progress) : Instruction → Prop
  | .reach q => q.rank = p.rank + 1
  | .exitAt e => e.stage = some p
  | .sendInfo => p = .clientConnected
  | .awaitConnect => p = .sentInfo
  | .awaitPing => p = .gotConnect
  | .sendPong => p = .gotPing
  | .play k => p = .startedCustomCode ∧
    ∃ whole, spec.script = some whole ∧ ∀ f, k.Raises f → whole.Raises f

def progressAfter (p : Progress) : Instruction → Progress
  | .reach q => q
  | _ => p

end Instruction

/-- Each instruction is due when its turn comes, and none is missing at the end. -/
def InOrder (spec : ServerSpec) (p : Progress) : List Instruction → Prop
  | [] => p = spec.lastProgress
  | i :: todo => i.IsDue spec p ∧ InOrder spec (i.progressAfter p) todo

theorem ne_play_of_inOrder {spec : ServerSpec} {p : Progress} {i : Instruction}
    {todo : List Instruction} (hsc : spec.script = none) (h : InOrder spec p (i :: todo))
    (k : Script) : i ≠ .play k := by
  rintro rfl
  obtain ⟨whole, hk, -⟩ := h.1.2
  rw [hsc] at hk
  cases hk

theorem inOrder_program (spec : ServerSpec) : InOrder spec .noClient (Server.program spec) := by
  unfold Server.program
  cases h : spec.script <;>
    simp [handshake, scripted, InOrder, Instruction.IsDue, Instruction.progressAfter,
      ExitPoint.stage, Progress.rank, ServerSpec.lastProgress, h]

theorem exitAt_mem_program (spec : ServerSpec) :
    spec.exitPoint = .noExit ∨ .exitAt spec.exitPoint ∈ Server.program spec := by
  cases h : spec.exitPoint <;> simp [Server.program, handshake]

namespace Server

variable {spec : ServerSpec} {bound : Except Fault Unit} {s : Server}

structure Serves (spec : ServerSpec) (todo : List Instruction) (s : Server) : Prop where
  spec_eq : s.spec = spec
  outcome : s.outcome = .running
  error : s.error = none
  order : InOrder spec s.progress todo
  exitAhead : spec.exitPoint = .noExit ∨ .exitAt spec.exitPoint ∈ todo
  usable : s.progress.rank < Progress.sentPong.rank → s.connection.IsUsable

structure Awaits (spec : ServerSpec) (bound : Except Fault Unit) (s : Server) : Prop where
  spec_eq : s.spec = spec
  bound_eq : bound = .ok ()
  outcome : s.outcome = .running
  error : s.error = none
  progress : s.progress = .noClient

structure HasEnded (spec : ServerSpec) (bound : Except Fault Unit) (s : Server) : Prop where
  spec_eq : s.spec = spec
  agrees : spec.Agrees bound s.isShutDown s.progress s.error s.outcome
  untold : s.outcome = .running → ∃ f, f.isRecorded = false ∧ spec.MayFail bound f s.progress

def IsSound (spec : ServerSpec) (bound : Except Fault Unit) (s : Server) : Prop :=
  match s.phase with
  | .accepting => Awaits spec bound s
  | .serving todo => Serves spec todo s
  | .ended => HasEnded spec bound s

/-- A run ends on a fault by noting it first, while it still counts as running, and then giving it
an outcome. -/
def EndsOn (f : Fault) (s : Server) : Prop :=
  ∃ u : Server, u.outcome = .running ∧ u.error = some f ∧ u.finish (outcomeOf f) = s

structure Follows (spec : ServerSpec) (bound : Except Fault Unit) (s t : Server) : Prop where
  sound : IsSound spec bound t
  progress : t.progress = s.progress ∨ t.progress.rank = s.progress.rank + 1
  isShutDown : t.isShutDown = true →
    s.isShutDown = true ∨ Progress.startedCustomCode.rank ≤ t.progress.rank
  error : ∀ f, t.error = some f → s.error = some f ∨ t.EndsOn f

theorem Follows.refl (h : IsSound spec bound s) : Follows spec bound s s :=
  ⟨h, .inl rfl, .inl, fun _ => .inl⟩

structure Keeps (s t : Server) : Prop where
  spec : t.spec = s.spec
  progress : t.progress = s.progress
  outcome : t.outcome = s.outcome
  error : t.error = s.error

theorem act_keeps (a : Action) (s : Server) : Keeps s (s.act a).2 := by
  cases a <;> exact ⟨rfl, rfl, rfl, rfl⟩

variable {t : Server} {i : Instruction} {todo : List Instruction}

theorem Follows.finish {o : Outcome} (h : Keeps s t) (hs : s.spec = spec)
    (hd : t.isShutDown = true →
      s.isShutDown = true ∨ Progress.startedCustomCode.rank ≤ s.progress.rank)
    (ho : o ≠ .running) (ha : spec.Agrees bound t.isShutDown s.progress s.error o) :
    Follows spec bound s (t.finish o) := by
  obtain ⟨c, l, hf⟩ := finish_eq t o
  rw [hf]
  refine ⟨⟨h.spec.trans hs, ?_, fun hr => absurd hr ho⟩, .inl h.progress, ?_, fun f he => ?_⟩
  · dsimp only
    rwa [h.progress, h.error]
  · dsimp only
    rwa [h.progress]
  · exact .inl (h.error ▸ he)

theorem Follows.record {f : Fault} (h : Keeps s t) (hs : s.spec = spec)
    (ho : s.outcome = .running)
    (hd : t.isShutDown = true →
      s.isShutDown = true ∨ Progress.startedCustomCode.rank ≤ s.progress.rank)
    (hr : f.isRecorded = true) (hf : spec.MayFail bound f s.progress) :
    Follows spec bound s ((t.noteFault f).finish (outcomeOf f)) := by
  have hp := h.progress
  have hends : ((t.noteFault f).finish (outcomeOf f)).EndsOn f :=
    ⟨t.noteFault f, h.outcome.trans ho, rfl, rfl⟩
  obtain ⟨c, l, hfin⟩ := finish_eq (t.noteFault f) (outcomeOf f)
  rw [hfin] at hends ⊢
  refine ⟨⟨h.spec.trans hs, ?_, fun hn => absurd hn (outcomeOf_ne_running f)⟩, .inl hp, ?_,
    fun g hg => ?_⟩
  · refine ServerSpec.agrees_outcomeOf ?_ hr _
    change spec.MayFail bound f t.progress
    rwa [hp]
  · change _ → _ ∨ _ ≤ t.progress.rank
    rwa [hp]
  · cases hg
    exact .inr hends

theorem Follows.abandon {f : Fault} (h : Keeps s t) (hs : s.spec = spec)
    (ho : s.outcome = .running) (he : s.error = none)
    (hd : t.isShutDown = true →
      s.isShutDown = true ∨ Progress.startedCustomCode.rank ≤ s.progress.rank)
    (hr : f.isRecorded = false) (hf : spec.MayFail bound f s.progress) :
    Follows spec bound s t.abandon := by
  have hp := h.progress
  obtain ⟨c, l, ha⟩ := abandon_eq t
  rw [ha]
  refine ⟨⟨h.spec.trans hs, ?_, fun _ => ⟨f, hr, ?_⟩⟩, .inl hp, ?_, fun g hg => ?_⟩
  · dsimp only
    rw [h.outcome, h.error, ho]
    exact he
  · dsimp only
    rwa [hp]
  · dsimp only
    rwa [hp]
  · exact .inl (h.error ▸ hg)

theorem Follows.fail {f : Fault} (h : Keeps s t) (hs : s.spec = spec)
    (ho : s.outcome = .running) (he : s.error = none)
    (hd : t.isShutDown = true →
      s.isShutDown = true ∨ Progress.startedCustomCode.rank ≤ s.progress.rank)
    (hf : spec.MayFail bound f s.progress) : Follows spec bound s (t.fail f) := by
  cases hr : f.isRecorded with
  | true =>
    rw [fail_of_isRecorded hr]
    exact Follows.record ⟨h.spec, h.progress, h.outcome, h.error⟩ hs ho hd hr hf
  | false =>
    rw [fail_of_not_isRecorded hr]
    exact Follows.abandon h hs ho he hd hr hf

theorem Follows.serve (h : Serves spec (i :: todo) s) (hk : Keeps s t)
    (hd : t.isShutDown = true →
      s.isShutDown = true ∨ Progress.startedCustomCode.rank ≤ s.progress.rank)
    (hu : s.progress.rank < Progress.sentPong.rank → t.connection.IsUsable)
    {todo' : List Instruction} (ho : InOrder spec s.progress todo')
    (he : spec.exitPoint = .noExit ∨ .exitAt spec.exitPoint ∈ todo') :
    Follows spec bound s (t.inPhase (.serving todo')) := by
  refine ⟨⟨hk.spec.trans h.spec_eq, hk.outcome.trans h.outcome, hk.error.trans h.error, ?_, he, ?_⟩,
    .inl hk.progress, ?_, fun f hf => .inl (hk.error ▸ hf)⟩
  · change InOrder spec t.progress todo'
    rwa [hk.progress]
  · change t.progress.rank < _ → _
    rwa [hk.progress]
  · change _ → _ ∨ _ ≤ t.progress.rank
    rwa [hk.progress]

theorem Serves.exitAhead_of_ne (h : Serves spec (i :: todo) s)
    (hi : i ≠ .exitAt spec.exitPoint) :
    spec.exitPoint = .noExit ∨ .exitAt spec.exitPoint ∈ todo := by
  rcases h.exitAhead with he | he
  · exact .inl he
  · exact .inr ((List.mem_cons.1 he).resolve_left (Ne.symm hi))

theorem follows_reach {q : Progress} (h : Serves spec (.reach q :: todo) s) :
    Follows spec bound s (goOn todo (s.firstStep (.reach q))) := by
  have hq : q.rank = s.progress.rank + 1 := h.order.1
  have hp : s.progress.furthest q = q := if_pos (by omega)
  have he := h.exitAhead_of_ne (by intro hi; cases hi)
  refine ⟨⟨h.spec_eq, h.outcome, h.error, ?_, he, ?_⟩, .inr ?_, .inl, fun _ => .inl⟩
  · change InOrder spec (s.progress.furthest q) todo
    rw [hp]
    exact h.order.2
  · change (s.progress.furthest q).rank < _ → s.connection.IsUsable
    rw [hp]
    intro hr
    exact h.usable (by omega)
  · change (s.progress.furthest q).rank = _
    rw [hp, hq]

theorem follows_exitAt {e : ExitPoint} (h : Serves spec (.exitAt e :: todo) s) :
    Follows spec bound s (goOn todo (s.firstStep (.exitAt e))) := by
  have hs : spec.exitPoint = s.spec.exitPoint := congrArg _ h.spec_eq.symm
  simp only [firstStep, perform]
  split
  · next he =>
    refine Follows.finish ⟨rfl, rfl, rfl, rfl⟩ h.spec_eq .inl (by decide) ⟨?_, h.error⟩
    rw [hs, he]
    exact h.order.1
  · next he =>
    refine Follows.serve h ⟨rfl, rfl, rfl, rfl⟩ .inl h.usable h.order.2 (h.exitAhead_of_ne ?_)
    intro hx
    cases hx
    exact he hs.symm

theorem follows_exchange {α : Type} (x : Connection.Exchange α) (h : Serves spec (i :: todo) s)
    (hi : i ≠ .exitAt spec.exitPoint) (ho : InOrder spec s.progress todo)
    (hx : (x (s.connection, [])).2.1.IsUsable ∧
      ∀ f, (x (s.connection, [])).1 = .error (.fault f) → spec.MayFail bound f s.progress) :
    Follows spec bound s (goOn todo (s.exchange i x)) := by
  have hc : s.onConnection x = ((x (s.connection, [])).1,
      { s with connection := (x (s.connection, [])).2.1,
               log := s.log ++ (x (s.connection, [])).2.2 }) := rfl
  rw [exchange, hc]
  generalize x (s.connection, []) = r at hx
  obtain ⟨(_ | f) | _, c, l⟩ := r
  · exact Follows.serve h ⟨rfl, rfl, rfl, rfl⟩ .inl h.usable h.order h.exitAhead
  · exact Follows.fail (t := { s with connection := c, log := s.log ++ l }) ⟨rfl, rfl, rfl, rfl⟩
      h.spec_eq h.outcome h.error .inl (hx.2 f rfl)
  · exact Follows.serve (t := { s with connection := c, log := s.log ++ l }) h
      ⟨rfl, rfl, rfl, rfl⟩ .inl (fun _ => hx.1) ho (h.exitAhead_of_ne hi)

theorem follows_play {k : Script} (h : Serves spec (.play k :: todo) s) :
    Follows spec bound s (goOn todo (s.firstStep (.play k))) := by
  have hp : s.progress = .startedCustomCode := h.order.1.1
  have hr : Progress.startedCustomCode.rank ≤ s.progress.rank := by rw [hp]
  have hu : ¬ s.progress.rank < Progress.sentPong.rank := by
    rw [hp]
    decide
  cases k with
  | done =>
    have he := h.exitAhead_of_ne (by intro hi; cases hi)
    exact Follows.serve h ⟨rfl, rfl, rfl, rfl⟩ .inl h.usable h.order.2 he
  | raise f =>
    refine Follows.fail ⟨rfl, rfl, rfl, rfl⟩ h.spec_eq h.outcome h.error .inl ?_
    obtain ⟨whole, hw, hraises⟩ := h.order.1.2
    rw [hp]
    exact ⟨whole, hw, hraises f (.raise f)⟩
  | act a next =>
    have hplay : ∀ k, (∀ f, k.Raises f → (Script.act a next).Raises f) →
        InOrder spec s.progress (.play k :: todo) := by
      intro k hk
      obtain ⟨⟨hp, whole, hw, hraises⟩, ho⟩ := h.order
      exact ⟨⟨hp, whole, hw, fun f hf => hraises f (hk f hf)⟩, ho⟩
    have hexit : ∀ k, spec.exitPoint = .noExit ∨
        .exitAt spec.exitPoint ∈ (.play k :: todo : List Instruction) := by
      intro k
      exact (h.exitAhead_of_ne (by intro hi; cases hi)).imp_right (List.mem_cons_of_mem _)
    have hk := act_keeps a s
    have hown := fun f => isOwn_of_act (s := s) (a := a) (f := f)
    simp only [firstStep]
    generalize s.act a = r at hk hown
    obtain ⟨(_ | e) | g, s'⟩ := r
    · exact Follows.serve h ⟨rfl, rfl, rfl, rfl⟩ .inl h.usable (hplay _ fun _ => id) (hexit _)
    · exact Follows.serve h hk (fun _ => .inr hr) (fun h => absurd h hu)
        (hplay _ fun _ => .failed (hown e rfl)) (hexit _)
    · exact Follows.serve h hk (fun _ => .inr hr) (fun h => absurd h hu)
        (hplay _ fun _ => .gained g) (hexit _)

theorem follows_firstStep (h : Serves spec (i :: todo) s) :
    Follows spec bound s (goOn todo (s.firstStep i)) := by
  cases i with
  | reach q => exact follows_reach h
  | exitAt e => exact follows_exitAt h
  | play k => exact follows_play h
  | sendInfo =>
    have hp : s.progress = .clientConnected := h.order.1
    refine follows_exchange _ h (by intro hi; cases hi) h.order.2 ?_
    obtain ⟨hu, hf⟩ := Connection.writeLine_isUsable (h.usable (by rw [hp]; decide))
      Connection.encode_greeting []
    refine ⟨hu, ?_⟩
    intro f he
    rw [hp]
    cases hf _ he
    rfl
  | sendPong =>
    have hp : s.progress = .gotPing := h.order.1
    refine follows_exchange _ h (by intro hi; cases hi) h.order.2 ?_
    obtain ⟨hu, hf⟩ := Connection.writeLine_isUsable (h.usable (by rw [hp]; decide))
      Connection.encode_pong []
    refine ⟨hu, ?_⟩
    intro f he
    rw [hp]
    cases hf _ he
    rfl
  | awaitConnect =>
    have hp : s.progress = .sentInfo := h.order.1
    refine follows_exchange _ h (by intro hi; cases hi) h.order.2 ?_
    rw [hp]
    exact Connection.await_isUsable (h.usable (by rw [hp]; decide)) _ _
  | awaitPing =>
    have hp : s.progress = .gotConnect := h.order.1
    refine follows_exchange _ h (by intro hi; cases hi) h.order.2 ?_
    rw [hp]
    exact Connection.await_isUsable (h.usable (by rw [hp]; decide)) _ _

theorem IsSound.accepting (h : IsSound spec bound s) (hp : s.phase = .accepting) :
    Awaits spec bound s := by
  simpa only [IsSound, hp] using h

theorem IsSound.serving (h : IsSound spec bound s) (hp : s.phase = .serving todo) :
    Serves spec todo s := by
  simpa only [IsSound, hp] using h

theorem IsSound.ended (h : IsSound spec bound s) (hp : s.phase = .ended) :
    HasEnded spec bound s := by
  simpa only [IsSound, hp] using h

theorem follows_work (h : IsSound spec bound s) : Follows spec bound s s.work := by
  unfold work
  split
  · next hp =>
    obtain ⟨hs, -, hn, ho, he, -⟩ := h.serving hp
    split
    · next hd =>
      exact Follows.finish ⟨rfl, rfl, rfl, rfl⟩ hs .inl (by decide)
        ⟨he.resolve_right List.not_mem_nil, hd, ho, hn⟩
    · exact .refl h
  · next hp => exact follows_firstStep (h.serving hp)
  · exact .refl h

theorem follows_wait (h : Awaits spec bound s) (hp : s.phase = .accepting) :
    Follows spec bound s s.wait := by
  unfold wait
  split
  · refine Follows.fail ⟨rfl, rfl, rfl, rfl⟩ h.spec_eq h.outcome h.error .inl ?_
    rw [h.progress]
    exact .inr ⟨h.bound_eq, by rw [h.spec_eq]⟩
  · split
    · next hd =>
      exact Follows.finish (t := s.say _ _) ⟨rfl, rfl, rfl, rfl⟩ h.spec_eq .inl (by decide)
        ⟨hd, h.progress, h.error⟩
    · exact .refl (by simpa only [IsSound, hp] using h)

theorem follows_tick (h : IsSound spec bound s) : Follows spec bound s s.tick := by
  unfold tick
  split
  · next hp =>
    obtain ⟨hs, hb, ho, he, hn⟩ := h.accepting hp
    obtain ⟨h, hr, hd, hf⟩ :=
      follows_wait (s := { s with ticks := s.ticks + 1 }) ⟨hs, hb, ho, he, hn⟩ hp
    exact ⟨h, hr, hd, hf⟩
  · exact .refl h

theorem follows_welcome (peer : Nat) (h : IsSound spec bound s) :
    Follows spec bound s (s.welcome peer) := by
  unfold welcome
  split
  · next hp =>
    obtain ⟨hs, -, ho, he, hn⟩ := h.accepting hp
    refine ⟨⟨hs, ho, he, ?_, ?_, fun _ => ⟨rfl, rfl⟩⟩, .inl rfl, .inl, fun _ => .inl⟩
    · change InOrder spec s.progress (program s.spec)
      rw [hn, hs]
      exact inOrder_program spec
    · rw [hs]
      exact exitAt_mem_program spec
  · exact .refl h

theorem follows_change {f : Connection → Connection}
    (hf : ∀ c : Connection, c.IsUsable → (f c).IsUsable) (h : IsSound spec bound s) :
    Follows spec bound s (s.change f) := by
  unfold change
  split
  · next hv =>
    cases hp : s.phase with
    | serving todo =>
      obtain ⟨hs, ho, he, hi, hx, hu⟩ := h.serving hp
      refine ⟨?_, .inl rfl, .inl, fun _ => .inl⟩
      simp only [IsSound]
      exact ⟨hs, ho, he, hi, hx, fun hr => hf _ (hu hr)⟩
    | accepting => simp [Server.isServing, hp] at hv
    | ended => simp [Server.isServing, hp] at hv
  · exact .refl h

theorem sound_shutDown (h : IsSound spec bound s) :
    IsSound spec bound { s with isShutDown := true } := by
  cases hp : s.phase with
  | accepting =>
    obtain ⟨hs, hb, ho, he, hn⟩ := h.accepting hp
    simp only [IsSound]
    exact ⟨hs, hb, ho, he, hn⟩
  | serving todo =>
    obtain ⟨hs, ho, he, hi, hx, hu⟩ := h.serving hp
    simp only [IsSound]
    exact ⟨hs, ho, he, hi, hx, hu⟩
  | ended =>
    obtain ⟨hs, ha, hu⟩ := h.ended hp
    simp only [IsSound]
    exact ⟨hs, ha.shutDown, hu⟩

theorem sound_start (spec : ServerSpec) (bound : Except Fault Unit) :
    IsSound spec bound (start spec bound) := by
  cases bound with
  | error f =>
    exact (Follows.fail (s := { spec }) (t := { spec }) ⟨rfl, rfl, rfl, rfl⟩ rfl rfl rfl .inl
      (.inl rfl)).sound
  | ok =>
    exact (follows_wait (s := say .info (text "started") { spec }) ⟨rfl, rfl, rfl, rfl, rfl⟩
      rfl).sound

theorem follows_happen (h : IsSound spec bound s) {x : Happening} (hx : x ≠ .shutDown) :
    Follows spec bound s (s.happen x) := by
  cases x with
  | work => exact follows_work h
  | tick => exact follows_tick h
  | connect peer => exact follows_welcome peer h
  | deliver bs =>
    refine follows_change (fun c hc => ⟨?_, hc.2⟩) h
    simp only [Connection.deliver, TextSource.deliver]
    split <;> exact hc.1
  | hangUp e =>
    refine follows_change (fun c hc => ⟨?_, hc.2⟩) h
    simp only [Connection.hangUp, TextSource.hangUp]
    split <;> exact hc.1
  | breakWrites => exact follows_change (fun c hc => hc) h
  | shutDown => exact absurd rfl hx

theorem sound_happen (h : IsSound spec bound s) (x : Happening) :
    IsSound spec bound (s.happen x) := by
  by_cases hx : x = .shutDown
  · subst hx
    exact sound_shutDown h
  · exact (follows_happen h hx).sound

theorem progress_happen (h : IsSound spec bound s) (x : Happening) :
    (s.happen x).progress = s.progress ∨ (s.happen x).progress.rank = s.progress.rank + 1 := by
  by_cases hx : x = .shutDown
  · subst hx
    exact .inl rfl
  · exact (follows_happen h hx).progress

theorem sound_after (h : IsSound spec bound s) (hs : List Happening) :
    IsSound spec bound (s.after hs) := by
  induction hs generalizing s with
  | nil => exact h
  | cons x hs ih => exact ih (sound_happen h x)

theorem rank_le_happen (h : IsSound spec bound s) (x : Happening) :
    s.progress.rank ≤ (s.happen x).progress.rank := by
  rcases progress_happen h x with hp | hp
  · rw [hp]
  · omega

theorem happen_of_ended (hp : s.phase = .ended) (x : Happening) :
    (s.happen x).phase = .ended ∧ (s.happen x).summary = s.summary := by
  cases x <;> simp [happen, work, tick, welcome, change, Server.isServing, hp, summary]

theorem IsSound.agrees (h : IsSound spec bound s) :
    spec.Agrees bound s.isShutDown s.progress s.error s.outcome := by
  cases hp : s.phase with
  | accepting =>
    obtain ⟨-, -, ho, he, -⟩ := h.accepting hp
    rw [ho]
    exact he
  | serving todo =>
    obtain ⟨-, ho, he, -⟩ := h.serving hp
    rw [ho]
    exact he
  | ended => exact (h.ended hp).agrees

theorem IsSound.untold (h : IsSound spec bound s) (hp : s.phase = .ended)
    (ho : s.outcome = .running) :
    ∃ f, f.isRecorded = false ∧ ((s.progress = .noClient ∧ bound = .error f) ∨
      (s.progress = .startedCustomCode ∧ ∃ k, spec.script = some k ∧ k.Raises f)) := by
  obtain ⟨f, hr, hf⟩ := (h.ended hp).untold ho
  exact ⟨f, hr, hf.of_not_isRecorded hr⟩

theorem goOn_isShutDown (todo : List Instruction) (r : Performed × Server) :
    (goOn todo r).isShutDown = r.2.isShutDown := by
  obtain ⟨_ | _ | _ | f, s⟩ := r
  · rfl
  · exact (finish_unchanged s _).2
  · rfl
  · exact (fail_unchanged s f).2

theorem exchange_isShutDown {α : Type} (x : Connection.Exchange α) (s : Server) :
    (s.exchange i x).2.isShutDown = s.isShutDown := by
  simp only [exchange, onConnection]
  rcases x.perform s.connection with ⟨(_ | _) | _, q⟩ <;> rfl

theorem act_isShutDown (a : Action) (hd : s.isShutDown = true) :
    (s.act a).2.isShutDown = true := by
  cases a with
  | shutDown => rfl
  | _ => exact hd

theorem firstStep_isShutDown (i : Instruction) (hd : s.isShutDown = true) :
    (s.firstStep i).2.isShutDown = true := by
  cases i with
  | reach q => exact hd
  | exitAt e =>
    simp only [firstStep, perform]
    split <;> exact hd
  | sendInfo => exact (exchange_isShutDown _ s).trans hd
  | awaitConnect => exact (exchange_isShutDown _ s).trans hd
  | awaitPing => exact (exchange_isShutDown _ s).trans hd
  | sendPong => exact (exchange_isShutDown _ s).trans hd
  | play k =>
    cases k with
    | done => exact hd
    | raise f => exact hd
    | act a next =>
      have ha := act_isShutDown a hd
      simp only [firstStep]
      generalize s.act a = r at ha
      obtain ⟨(_ | f) | g, t⟩ := r
      · exact hd
      · exact ha
      · exact ha

theorem work_isShutDown (hd : s.isShutDown = true) : s.work.isShutDown = true := by
  unfold work
  split
  · rw [if_pos hd]
    exact (finish_unchanged s _).2.trans hd
  · rw [goOn_isShutDown]
    exact firstStep_isShutDown _ hd
  · exact hd

theorem wait_isShutDown (hd : s.isShutDown = true) : s.wait.isShutDown = true := by
  unfold wait
  split
  · exact (fail_unchanged _ _).2.trans hd
  · exact (finish_unchanged (s.say _ _) _).2.trans hd

theorem tick_isShutDown (hd : s.isShutDown = true) : s.tick.isShutDown = true := by
  unfold tick
  split
  · exact wait_isShutDown (s := { s with ticks := s.ticks + 1 }) hd
  · exact hd

theorem isShutDown_happen (hd : s.isShutDown = true) (x : Happening) :
    (s.happen x).isShutDown = true := by
  have hc : ∀ f, (s.change f).isShutDown = true := by
    intro f
    unfold change
    split <;> exact hd
  cases x with
  | work => exact work_isShutDown hd
  | tick => exact tick_isShutDown hd
  | connect peer =>
    unfold happen welcome
    dsimp only
    split <;> exact hd
  | shutDown => rfl
  | deliver bs => exact hc _
  | hangUp e => exact hc _
  | breakWrites => exact hc _

theorem after_isShutDown (hd : s.isShutDown = true) (hs : List Happening) :
    (s.after hs).isShutDown = true := by
  induction hs generalizing s with
  | nil => exact hd
  | cons x hs ih => exact ih (isShutDown_happen hd x)

theorem isShutDown_of_mem {hs : List Happening} (h : .shutDown ∈ hs) :
    (s.after hs).isShutDown = true := by
  obtain ⟨ks, ls, rfl⟩ := List.append_of_mem h
  rw [after_append]
  exact after_isShutDown rfl ls

end Server

end LineHandshake
