import LineHandshake.Proofs.Exchange

/-!
Servers that differ only in the name of their client and in their logs. Neither has any bearing on
a run, so whatever happens to both leaves them so.
-/

namespace LineHandshake

namespace Server

/-- Servers that are the same but for the name of their client and what they have logged. -/
def Twins (s t : Server) : Prop :=
  ∃ peer log, peer.isSome = s.peer.isSome ∧ t = { s with peer, log }

def GoAlike {α : Type} (r r' : α × Server) : Prop := r.1 = r'.1 ∧ Twins r.2 r'.2

variable {s t : Server}

theorem Twins.refl (s : Server) : Twins s s := ⟨s.peer, s.log, rfl, rfl⟩

theorem Twins.symm (h : Twins s t) : Twins t s := by
  obtain ⟨peer, log, hp, rfl⟩ := h
  exact ⟨s.peer, s.log, hp.symm, rfl⟩

theorem Twins.trans {u : Server} (h : Twins s t) (h' : Twins t u) : Twins s u := by
  obtain ⟨peer, log, hp, rfl⟩ := h
  obtain ⟨peer', log', hp', rfl⟩ := h'
  exact ⟨peer', log', hp'.trans hp, rfl⟩

theorem Twins.spec (h : Twins s t) : t.spec = s.spec := by
  obtain ⟨peer, log, hp, rfl⟩ := h
  rfl

theorem Twins.phase (h : Twins s t) : t.phase = s.phase := by
  obtain ⟨peer, log, hp, rfl⟩ := h
  rfl

theorem Twins.summary (h : Twins s t) : t.summary = s.summary := by
  obtain ⟨peer, log, hp, rfl⟩ := h
  rfl

theorem Twins.sent (h : Twins s t) : t.sent = s.sent := by
  obtain ⟨peer, log, hp, rfl⟩ := h
  rfl

theorem Twins.isListening (h : Twins s t) : t.isListening = s.isListening := by
  obtain ⟨peer, log, hp, rfl⟩ := h
  rfl

theorem Twins.say (h : Twins s t) (level : Level) (what : Text) :
    Twins (s.say level what) (t.say level what) := by
  obtain ⟨peer, log, hp, rfl⟩ := h
  exact ⟨peer, _, hp, rfl⟩

theorem Twins.exchange {α : Type} (h : Twins s t) (i : Instruction)
    (x : Connection.Exchange α) : GoAlike (s.exchange i x) (t.exchange i x) := by
  obtain ⟨peer, log, hp, rfl⟩ := h
  simp only [Server.exchange, onConnection]
  rcases x.perform s.connection with ⟨(_ | _) | _, q⟩ <;> exact ⟨rfl, peer, _, hp, rfl⟩

theorem Twins.act (h : Twins s t) (a : Action) : GoAlike (s.act a) (t.act a) := by
  obtain ⟨peer, log, hp, rfl⟩ := h
  cases a <;> exact ⟨rfl, peer, _, hp, rfl⟩

theorem Twins.play (h : Twins s t) (k : Script) : GoAlike (s.play k) (t.play k) := by
  induction k generalizing s t with
  | done => exact ⟨rfl, h⟩
  | raise f => exact ⟨rfl, h⟩
  | act a next ih =>
    have ha := h.act a
    simp only [Server.play]
    generalize s.act a = r at ha
    generalize t.act a = r' at ha
    obtain ⟨r, s'⟩ := r
    obtain ⟨r', t'⟩ := r'
    obtain ⟨rfl, ht⟩ := ha
    obtain (_ | f) | g := r
    · exact ⟨rfl, h⟩
    · exact ih _ ht
    · exact ih _ ht

theorem Twins.perform (h : Twins s t) (i : Instruction) : GoAlike (s.perform i) (t.perform i) := by
  cases i with
  | exitAt e =>
    simp only [Server.perform, h.spec]
    split
    · exact ⟨rfl, h.say _ _⟩
    · exact ⟨rfl, h⟩
  | reach p =>
    obtain ⟨peer, log, hp, rfl⟩ := h
    exact ⟨rfl, peer, _, hp, rfl⟩
  | play k => exact h.play k
  | sendInfo => exact h.exchange _ _
  | awaitConnect => exact h.exchange _ _
  | awaitPing => exact h.exchange _ _
  | sendPong => exact h.exchange _ _

theorem Twins.release (h : Twins s t) :
    s.release.1 = t.release.1 ∧ Twins s.release.2 t.release.2 := by
  obtain ⟨peer, log, hp, rfl⟩ := h
  have ht : ({ s with peer, log } : Server).tag = s.tag := rfl
  simp only [Server.release, onConnection, hp, ht, true_and]
  exact ⟨peer, _, hp, rfl⟩

theorem Twins.finish (h : Twins s t) (o : Outcome) : Twins (s.finish o) (t.finish o) := by
  have hs : Twins { s with outcome := o, phase := .ended } { t with outcome := o, phase := .ended }
      := by
    obtain ⟨peer, log, hp, rfl⟩ := h
    exact ⟨peer, log, hp, rfl⟩
  obtain ⟨hr, ht⟩ := hs.release
  rcases hp : Server.release { s with outcome := o, phase := .ended } with ⟨r, s'⟩
  rcases hq : Server.release { t with outcome := o, phase := .ended } with ⟨r', t'⟩
  rw [hp, hq] at hr ht
  obtain rfl : r = r' := hr
  cases r with
  | ok =>
    have ho : t'.outcome = s'.outcome := by
      obtain ⟨peer, log, -, rfl⟩ := ht
      rfl
    rw [Server.finish_of_release hp, Server.finish_of_release hq, ho]
    exact ht.say _ _
  | error f =>
    rw [Server.finish_of_release_error hp, Server.finish_of_release_error hq]
    exact ht

theorem Twins.abandon (h : Twins s t) : Twins s.abandon t.abandon := by
  obtain ⟨peer, log, hp, rfl⟩ := h
  exact (Twins.release (s := { s with phase := .ended }) ⟨peer, log, hp, rfl⟩).2

theorem Twins.noteFault (h : Twins s t) (f : Fault) : Twins (s.noteFault f) (t.noteFault f) := by
  obtain ⟨peer, log, hp, rfl⟩ := h
  exact ⟨peer, log, hp, rfl⟩

theorem Twins.fail (h : Twins s t) (f : Fault) : Twins (s.fail f) (t.fail f) := by
  simp only [Server.fail]
  by_cases hf : f.family = .fatal
  · rw [if_pos hf, if_pos hf]
    exact h.abandon
  · rw [if_neg hf, if_neg hf]
    cases f.shown with
    | error why => exact h.abandon
    | ok shown => exact ((h.say _ _).noteFault f).finish _

theorem Twins.run (h : Twins s t) (todo : List Instruction) : Twins (s.run todo) (t.run todo) := by
  induction todo generalizing s t with
  | nil =>
    have hd : t.isShutDown = s.isShutDown := by
      obtain ⟨peer, log, hp, rfl⟩ := h
      rfl
    simp only [Server.run, hd]
    split
    · exact h.finish _
    · obtain ⟨peer, log, hp, rfl⟩ := h
      exact ⟨peer, log, hp, rfl⟩
  | cons i todo ih =>
    have hi := h.perform i
    simp only [Server.run]
    generalize s.perform i = r at hi
    generalize t.perform i = r' at hi
    obtain ⟨r, s'⟩ := r
    obtain ⟨r', t'⟩ := r'
    obtain ⟨rfl, ht⟩ := hi
    cases r with
    | done => exact ih ht
    | leave => exact ht.finish _
    | wait left =>
      obtain ⟨peer, log, hp, rfl⟩ := ht
      exact ⟨peer, log, hp, rfl⟩
    | failed f => exact ht.fail f

theorem Twins.resume (h : Twins s t) : Twins s.resume t.resume := by
  simp only [Server.resume, h.phase]
  split
  · exact h.run _
  · exact h

theorem Twins.wait (h : Twins s t) : Twins s.wait t.wait := by
  have ht : t.spec = s.spec ∧ t.clock = s.clock ∧ t.isShutDown = s.isShutDown := by
    obtain ⟨peer, log, hp, rfl⟩ := h
    exact ⟨rfl, rfl, rfl⟩
  simp only [Server.wait, ht]
  split
  · exact h.fail _
  · split
    · exact (h.say _ _).finish _
    · exact h

theorem Twins.tick (h : Twins s t) : Twins s.tick t.tick := by
  obtain ⟨peer, log, hp, rfl⟩ := h
  simp only [Server.tick]
  split
  · exact Twins.wait ⟨peer, log, hp, rfl⟩
  · exact ⟨peer, log, hp, rfl⟩

theorem Twins.accept (h : Twins s t) (peer peer' : Nat) (c : Connection) :
    Twins (s.accept peer c) (t.accept peer' c) := by
  obtain ⟨p, log, hp, rfl⟩ := h
  simp only [Server.accept]
  split
  · exact Twins.run ⟨some peer', _, rfl, rfl⟩ _
  · exact ⟨p, log, hp, rfl⟩

theorem Twins.onClient (h : Twins s t) (f : Connection → Connection) :
    Twins (s.onClient f) (t.onClient f) := by
  obtain ⟨peer, log, hp, rfl⟩ := h
  have hs : ({ s with peer, log } : Server).isServing = s.isServing := rfl
  simp only [Server.onClient, hs]
  split
  · exact Twins.resume ⟨peer, log, hp, rfl⟩
  · exact ⟨peer, log, hp, rfl⟩

theorem Twins.shutDown (h : Twins s t) : Twins s.shutDown t.shutDown := by
  obtain ⟨peer, log, hp, rfl⟩ := h
  exact Twins.resume ⟨peer, log, hp, rfl⟩

end Server

end LineHandshake
