import LineHandshake.Proofs.Exchange

/-!
A server beside its client and its owner. What happens comes in any order: the server does its
next step, a tenth of a second passes, a client connects, bytes come, the client ends its side,
writing stops working, the shutdown is signalled. A run that goes on as far as possible is a number
of steps of the server in a row, so whatever holds of all schedules holds of all runs.
-/

namespace LineHandshake

def Connection.breakWrites (c : Connection) : Connection := { c with sink.isBroken := true }

inductive Happening
  | work
  | tick
  | connect (peer : Nat)
  | deliver (bs : Bytes)
  | hangUp (e : Ending)
  | breakWrites
  | shutDown
deriving DecidableEq

/-- What a client sends up to its first end, and that end. -/
def incoming : List Happening → Bytes × Option Ending
  | [] => ([], none)
  | .deliver bs :: hs => (bs ++ (incoming hs).1, (incoming hs).2)
  | .hangUp e :: _ => ([], some e)
  | _ :: hs => incoming hs

namespace Server

def inPhase (p : Phase) (s : Server) : Server := { s with phase := p }

/-- One step of an instruction, which for a script is one action. -/
def firstStep (s : Server) : Instruction → Performed × Server
  | .play (.act a next) =>
    match s.act a with
    | (.ok g, s) => (.wait (.play (next (.ok g))), s)
    | (.error .waiting, _) => (.wait (.play (.act a next)), s)
    | (.error (.fault f), s) => (.wait (.play (next (.error f))), s)
  | i => s.perform i

def goOn (todo : List Instruction) : Performed × Server → Server
  | (.done, s) => s.inPhase (.serving todo)
  | (.leave, s) => s.finish .exited
  | (.wait left, s) => s.inPhase (.serving (left :: todo))
  | (.failed f, s) => s.fail f

def work (s : Server) : Server :=
  match s.phase with
  | .serving [] => if s.isShutDown then s.finish .completed else s
  | .serving (i :: todo) => goOn todo (s.firstStep i)
  | _ => s

def program (spec : ServerSpec) : List Instruction := handshake ++ scripted spec.script

def welcome (peer : Nat) (s : Server) : Server :=
  match s.phase with
  | .accepting =>
    ({ s with peer := some peer, connection := {} }.say .info
      (text "got client " ++ peerName peer)).inPhase (.serving (program s.spec))
  | _ => s

theorem welcome_of_accepting {s : Server} (h : s.phase = .accepting) (peer : Nat) :
    s.welcome peer = ({ s with peer := some peer, connection := {} }.say .info
      (text "got client " ++ peerName peer)).inPhase (.serving (program s.spec)) := by
  simp only [welcome, h]

def change (f : Connection → Connection) (s : Server) : Server :=
  if s.isServing then { s with connection := f s.connection } else s

def happen (s : Server) : Happening → Server
  | .work => s.work
  | .tick => s.tick
  | .connect peer => s.welcome peer
  | .deliver bs => s.change (Connection.deliver bs)
  | .hangUp e => s.change (Connection.hangUp e)
  | .breakWrites => s.change Connection.breakWrites
  | .shutDown => { s with isShutDown := true }

def after (s : Server) (hs : List Happening) : Server := hs.foldl happen s

variable {s t u : Server}

theorem after_append (s : Server) (hs ks : List Happening) :
    s.after (hs ++ ks) = (s.after hs).after ks := List.foldl_append

theorem after_cons (s : Server) (h : Happening) (hs : List Happening) :
    s.after (h :: hs) = (s.happen h).after hs := rfl

def Leads (s t : Server) : Prop := ∃ n, s.after (List.replicate n .work) = t

namespace Leads

theorem refl (s : Server) : s.Leads s := ⟨0, rfl⟩

theorem head (h : s.work.Leads t) : s.Leads t := by
  obtain ⟨n, rfl⟩ := h
  exact ⟨n + 1, rfl⟩

theorem trans (h : s.Leads t) (h' : t.Leads u) : s.Leads u := by
  obtain ⟨n, rfl⟩ := h
  obtain ⟨m, rfl⟩ := h'
  refine ⟨n + m, ?_⟩
  rw [← List.replicate_append_replicate, after_append]

end Leads

theorem exchange_inPhase {α : Type} (i : Instruction) (x : Connection.Exchange α) (p : Phase)
    (s : Server) :
    (s.inPhase p).exchange i x = ((s.exchange i x).1, (s.exchange i x).2.inPhase p) := by
  simp only [exchange, onConnection, inPhase]
  rcases x.perform s.connection with ⟨(_ | _) | _, q⟩ <;> rfl

theorem act_inPhase (a : Action) (p : Phase) (s : Server) :
    (s.inPhase p).act a = ((s.act a).1, (s.act a).2.inPhase p) := by
  cases a <;> rfl

theorem play_inPhase (k : Script) (p : Phase) (s : Server) :
    (s.inPhase p).play k = ((s.play k).1, (s.play k).2.inPhase p) := by
  induction k generalizing s with
  | done => rfl
  | raise f => rfl
  | act a next ih =>
    simp only [play, act_inPhase]
    rcases s.act a with ⟨(_ | f) | g, s'⟩
    · rfl
    · exact ih _ s'
    · exact ih _ s'

theorem perform_inPhase (i : Instruction) (p : Phase) (s : Server) :
    (s.inPhase p).perform i = ((s.perform i).1, (s.perform i).2.inPhase p) := by
  cases i with
  | reach q => rfl
  | exitAt e =>
    by_cases h : s.spec.exitPoint = e <;> simp [perform, inPhase, say, tag, h]
  | sendInfo => exact exchange_inPhase ..
  | awaitConnect => exact exchange_inPhase ..
  | awaitPing => exact exchange_inPhase ..
  | sendPong => exact exchange_inPhase ..
  | play k => exact play_inPhase k p s

theorem goOn_inPhase (todo : List Instruction) (p : Phase) (r : Performed × Server) :
    goOn todo (r.1, r.2.inPhase p) = goOn todo r := by
  obtain ⟨_ | _ | _ | _, s⟩ := r <;> rfl

theorem work_serving (s : Server) (i : Instruction) (todo : List Instruction) :
    (s.inPhase (.serving (i :: todo))).work =
      goOn todo ((s.inPhase (.serving (i :: todo))).firstStep i) := rfl

theorem leads_play (k : Script) (todo : List Instruction) (s : Server) :
    (s.inPhase (.serving (.play k :: todo))).Leads (goOn todo (s.play k)) := by
  induction k generalizing s with
  | done => exact .head (.refl _)
  | raise f => exact .head (.refl _)
  | act a next ih =>
    have hw : (s.inPhase (.serving (.play (.act a next) :: todo))).work =
        goOn todo (match s.act a with
          | (.ok g, s) => (.wait (.play (next (.ok g))), s)
          | (.error .waiting, _) => (.wait (.play (.act a next)), s)
          | (.error (.fault f), s) => (.wait (.play (next (.error f))), s)) := by
      simp only [work_serving, firstStep, act_inPhase]
      rcases s.act a with ⟨(_ | f) | g, s'⟩ <;> rfl
    rw [play]
    rcases hr : s.act a with ⟨(_ | f) | g, s'⟩
    · exact .refl _
    all_goals
      apply Leads.head
      rw [hw, hr]
      exact ih _ s'

theorem leads_perform (i : Instruction) (todo : List Instruction) (s : Server) :
    (s.inPhase (.serving (i :: todo))).Leads (goOn todo (s.perform i)) := by
  cases i with
  | play k => exact leads_play k todo s
  | _ =>
    apply Leads.head
    rw [← goOn_inPhase todo (.serving (_ :: todo)), ← perform_inPhase]
    exact .refl _

theorem leads_run (todo : List Instruction) (s : Server) :
    (s.inPhase (.serving todo)).Leads (s.run todo) := by
  induction todo generalizing s with
  | nil =>
    apply Leads.head
    rw [run]
    change Leads (if s.isShutDown then _ else _) _
    split <;> exact .refl _
  | cons i todo ih =>
    apply (leads_perform i todo s).trans
    rw [run]
    rcases s.perform i with ⟨_ | _ | _ | _, s'⟩
    · exact ih s'
    · exact .refl _
    · exact .refl _
    · exact .refl _

theorem leads_resume (s : Server) : s.Leads s.resume := by
  unfold resume
  split
  · next todo h =>
    have hs : s.inPhase (.serving todo) = s := by
      rw [inPhase, ← h]
    simpa only [hs] using leads_run todo s
  · exact .refl s

theorem finish_eq (s : Server) (o : Outcome) :
    ∃ c l, s.finish o = { s with outcome := o, phase := .ended, connection := c, log := l } := by
  obtain ⟨l, hf⟩ := finish_eq_release s o
  rw [hf]
  exact ⟨_, l, rfl⟩

theorem finish_phase (s : Server) (o : Outcome) : (s.finish o).phase = .ended := by
  obtain ⟨c, l, hf⟩ := finish_eq s o
  rw [hf]

theorem finish_unchanged (s : Server) (o : Outcome) :
    (s.finish o).progress = s.progress ∧ (s.finish o).isShutDown = s.isShutDown := by
  obtain ⟨c, l, hf⟩ := finish_eq s o
  rw [hf]
  exact ⟨rfl, rfl⟩

theorem abandon_eq (s : Server) :
    ∃ c l, s.abandon = { s with phase := .ended, connection := c, log := l } :=
  ⟨_, _, rfl⟩

theorem fail_eq (s : Server) (f : Fault) :
    ∃ o e c l, s.fail f =
      { s with outcome := o, error := e, phase := .ended, connection := c, log := l } := by
  obtain ⟨o, e, l, hf⟩ := fail_eq_finish s f
  obtain ⟨c, _, hs⟩ := finish_eq s s.outcome
  rw [hf, hs]
  exact ⟨o, e, c, l, rfl⟩

theorem fail_phase (s : Server) (f : Fault) : (s.fail f).phase = .ended := by
  obtain ⟨o, e, c, l, hf⟩ := fail_eq s f
  rw [hf]

theorem fail_unchanged (s : Server) (f : Fault) :
    (s.fail f).progress = s.progress ∧ (s.fail f).isShutDown = s.isShutDown := by
  obtain ⟨o, e, c, l, hf⟩ := fail_eq s f
  rw [hf]
  exact ⟨rfl, rfl⟩

theorem work_of_ended (h : s.phase = .ended) : s.work = s := by
  simp only [work, h]

theorem phase_ne_of_ended (h : s.phase = .ended) : s.phase ≠ .accepting := by
  simp [h]

theorem phase_ne_of_serving {todo : List Instruction} (h : s.phase = .serving todo) :
    s.phase ≠ .accepting := by
  simp [h]

theorem firstStep_of_ne_act {i : Instruction} (hi : ∀ a next, i ≠ .play (.act a next))
    (s : Server) : s.firstStep i = s.perform i := by
  unfold firstStep
  split
  · next a next => exact absurd rfl (hi a next)
  · rfl

theorem firstStep_inPhase (i : Instruction) (p : Phase) (s : Server) :
    (s.inPhase p).firstStep i = ((s.firstStep i).1, (s.firstStep i).2.inPhase p) := by
  unfold firstStep
  split
  · next a next =>
    rw [act_inPhase]
    rcases s.act a with ⟨(_ | f) | g, t⟩ <;> rfl
  · exact perform_inPhase i p s

theorem firstStep_of_play_wait {k : Script} {left : Instruction}
    (h : s.play k = (.wait left, t)) : t.firstStep left = (.wait left, t) := by
  induction k generalizing s with
  | done => cases h
  | raise f => cases h
  | act a next ih =>
    rw [play] at h
    rcases hr : s.act a with ⟨(_ | f) | g, u⟩
    · rw [hr] at h
      cases h
      simp only [firstStep, hr]
    · rw [hr] at h
      exact ih _ h
    · rw [hr] at h
      exact ih _ h

theorem eq_of_exchange_wait {α : Type} {i left : Instruction} {x : Connection.Exchange α}
    (h : s.exchange i x = (.wait left, t)) : left = i ∧ t = s := by
  unfold exchange at h
  split at h
  · cases h
  · cases h
    exact ⟨rfl, rfl⟩
  · cases h

theorem firstStep_of_wait {i left : Instruction} (h : s.perform i = (.wait left, t)) :
    t.firstStep left = (.wait left, t) := by
  cases i with
  | reach q => cases h
  | exitAt e =>
    rw [perform] at h
    split at h <;> cases h
  | play k => exact firstStep_of_play_wait h
  | sendInfo =>
    obtain ⟨rfl, rfl⟩ := eq_of_exchange_wait h
    exact h
  | awaitConnect =>
    obtain ⟨rfl, rfl⟩ := eq_of_exchange_wait h
    exact h
  | awaitPing =>
    obtain ⟨rfl, rfl⟩ := eq_of_exchange_wait h
    exact h
  | sendPong =>
    obtain ⟨rfl, rfl⟩ := eq_of_exchange_wait h
    exact h

theorem work_run (todo : List Instruction) (s : Server) : (s.run todo).work = s.run todo := by
  induction todo generalizing s with
  | nil =>
    rw [run]
    split
    · exact work_of_ended (finish_phase s _)
    · next hd => exact if_neg hd
  | cons i todo ih =>
    rw [run]
    rcases hr : s.perform i with ⟨_ | _ | left | f, t⟩
    · exact ih t
    · exact work_of_ended (finish_phase t _)
    · change (t.inPhase (.serving (left :: todo))).work = t.inPhase (.serving (left :: todo))
      rw [work_serving, firstStep_inPhase, firstStep_of_wait hr]
      rfl
    · exact work_of_ended (fail_phase t f)

theorem work_resume (s : Server) : s.resume.work = s.resume := by
  unfold resume
  split
  · exact work_run _ s
  · next h =>
    unfold work
    split
    · next hp => exact absurd hp (h _)
    · next hp => exact absurd hp (h _)
    · rfl

theorem work_onClient (f : Connection → Connection) (h : s.work = s) :
    (s.onClient f).work = s.onClient f := by
  unfold onClient
  split
  · exact work_resume _
  · exact h

def arrived (chunks : List Bytes) (ending : Option Ending) : Connection :=
  ending.elim id Connection.hangUp (chunks.foldl (fun c bs => c.deliver bs) {})

/-- The servers that the session's operations lead to, each of which goes on as far as possible. -/
inductive Reached (spec : ServerSpec) (bound : Except Fault Unit) : Server → Prop
  | start : Reached spec bound (Server.start spec bound)
  | tick {s : Server} (h : Reached spec bound s) : Reached spec bound s.tick
  | accept {s : Server} (h : Reached spec bound s) (peer : Nat) (chunks : List Bytes)
      (ending : Option Ending) : Reached spec bound (s.accept peer (arrived chunks ending))
  | deliver {s : Server} (h : Reached spec bound s) (bs : Bytes) :
      Reached spec bound (s.onClient (Connection.deliver bs))
  | hangUp {s : Server} (h : Reached spec bound s) (e : Ending) :
      Reached spec bound (s.onClient (Connection.hangUp e))
  | shutDown {s : Server} (h : Reached spec bound s) : Reached spec bound s.shutDown

theorem exists_after_of_leads (hs : List Happening) (h : (s.after hs).Leads t) :
    ∃ ks, s.after ks = t := by
  obtain ⟨n, hn⟩ := h
  exact ⟨hs ++ List.replicate n .work, by rw [after_append, hn]⟩

theorem leads_onClient (f : Connection → Connection) (s : Server) :
    (s.change f).Leads (s.onClient f) := by
  unfold change onClient
  split
  · exact leads_resume _
  · exact .refl s

theorem leads_accept (h : s.phase = .accepting) (peer : Nat) :
    (s.happen (.connect peer)).Leads (s.accept peer {}) := by
  rw [happen, welcome, accept, h]
  exact leads_run _ _

theorem after_deliver (chunks : List Bytes) (c : Connection) (todo : List Instruction)
    (s : Server) :
    ({ s with connection := c }.inPhase (.serving todo)).after (chunks.map .deliver) =
      { s with connection := chunks.foldl (fun c bs => c.deliver bs) c }.inPhase
        (.serving todo) := by
  induction chunks generalizing c with
  | nil => rfl
  | cons bs chunks ih =>
    rw [List.map_cons, after_cons]
    exact ih (c.deliver bs)

theorem exists_after_accept (s : Server) (peer : Nat) (chunks : List Bytes)
    (ending : Option Ending) : ∃ hs, s.after hs = s.accept peer (arrived chunks ending) := by
  cases hp : s.phase with
  | serving todo => exact ⟨[], by simp only [accept, hp]; rfl⟩
  | ended => exact ⟨[], by simp only [accept, hp]; rfl⟩
  | accepting =>
    have hw : (s.happen (.connect peer)).after
        (chunks.map .deliver ++ ending.toList.map .hangUp) =
        ({ s with peer := some peer, connection := arrived chunks ending }.say .info
          (text "got client " ++ peerName peer)).inPhase (.serving (program s.spec)) := by
      rw [after_append, happen, welcome, hp]
      have hd := after_deliver chunks {} (program s.spec)
        ({ s with peer := some peer }.say .info (text "got client " ++ peerName peer))
      cases ending with
      | none => exact hd
      | some e => exact congrArg (change (Connection.hangUp e)) hd
    obtain ⟨ks, hk⟩ := exists_after_of_leads (s := s)
      (.connect peer :: (chunks.map .deliver ++ ending.toList.map .hangUp))
      (by rw [after_cons, hw]; exact leads_run _ _)
    refine ⟨_, hk.trans ?_⟩
    simp only [accept, hp]
    rfl

/-- Every server that is reached is one that a schedule of single steps leads to. -/
theorem Reached.exists_after {spec : ServerSpec} {bound : Except Fault Unit}
    (h : Reached spec bound s) : ∃ hs, (Server.start spec bound).after hs = s := by
  have step : ∀ {s t : Server}, (∃ hs, (Server.start spec bound).after hs = s) →
      (∃ ks, s.after ks = t) → ∃ hs, (Server.start spec bound).after hs = t := by
    intro s t h h'
    obtain ⟨hs, rfl⟩ := h
    obtain ⟨ks, rfl⟩ := h'
    exact ⟨hs ++ ks, after_append ..⟩
  induction h with
  | start => exact ⟨[], rfl⟩
  | tick _ ih => exact step ih ⟨[.tick], rfl⟩
  | accept _ peer chunks ending ih => exact step ih (exists_after_accept _ peer chunks ending)
  | deliver _ bs ih =>
    exact step ih (exists_after_of_leads [.deliver bs] (leads_onClient _ _))
  | hangUp _ e ih =>
    exact step ih (exists_after_of_leads [.hangUp e] (leads_onClient _ _))
  | shutDown _ ih =>
    exact step ih (exists_after_of_leads [.shutDown] (leads_resume _))

end Server

end LineHandshake
