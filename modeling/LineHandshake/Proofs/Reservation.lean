import LineHandshake.Proofs.Wire

/-!
A server is there for its first client. Until it has accepted one it sends nothing, and from then
on its peer stays the same, whatever happens.
-/

namespace LineHandshake

namespace Server

variable {s : Server}

theorem goOn_peer (todo : List Instruction) (r : Performed × Server) :
    (goOn todo r).peer = r.2.peer := by
  obtain ⟨_ | _ | _ | f, s⟩ := r
  · rfl
  · obtain ⟨c, l, hf⟩ := finish_eq s .exited
    rw [goOn, hf]
  · rfl
  · obtain ⟨o, e, c, l, hf⟩ := fail_eq s f
    rw [goOn, hf]

theorem exchange_peer {α : Type} (i : Instruction) (x : Connection.Exchange α) (s : Server) :
    (s.exchange i x).2.peer = s.peer := by
  simp only [exchange, onConnection]
  rcases x.perform s.connection with ⟨(_ | _) | _, q⟩ <;> rfl

theorem firstStep_peer (i : Instruction) (s : Server) : (s.firstStep i).2.peer = s.peer := by
  cases i with
  | reach q => rfl
  | exitAt e =>
    simp only [firstStep, perform]
    split <;> rfl
  | sendInfo => exact exchange_peer ..
  | awaitConnect => exact exchange_peer ..
  | awaitPing => exact exchange_peer ..
  | sendPong => exact exchange_peer ..
  | play k =>
    cases k with
    | done => rfl
    | raise f => rfl
    | act a next =>
      have ha := act_peer a s
      simp only [firstStep]
      generalize s.act a = r at ha
      obtain ⟨(_ | f) | g, t⟩ := r
      · rfl
      · exact ha
      · exact ha

theorem work_peer (s : Server) : s.work.peer = s.peer := by
  unfold work
  split
  · split
    · obtain ⟨c, l, hf⟩ := finish_eq s .completed
      rw [hf]
    · rfl
  · rw [goOn_peer, firstStep_peer]
  · rfl

theorem peer_of_leads {t : Server} (h : s.Leads t) : t.peer = s.peer := by
  obtain ⟨n, rfl⟩ := h
  induction n generalizing s with
  | zero => rfl
  | succ n ih => exact ih.trans (work_peer s)

theorem accept_peer (hp : s.phase = .accepting) (peer : Nat) (c : Connection) :
    (s.accept peer c).peer = some peer := by
  rw [accept, hp]
  exact peer_of_leads (leads_run _ _)

theorem accept_eq_self (hp : s.phase ≠ .accepting) (peer : Nat) (c : Connection) :
    s.accept peer c = s := by
  unfold accept
  split
  · next h => exact absurd h hp
  · rfl

theorem change_peer (f : Connection → Connection) (s : Server) : (s.change f).peer = s.peer := by
  unfold change
  split <;> rfl

theorem peer_happen (hp : s.phase ≠ .accepting) (x : Happening) :
    (s.happen x).peer = s.peer := by
  cases x with
  | work => exact work_peer s
  | tick => rw [(happen_eq_self hp).1]
  | connect peer => rw [(happen_eq_self hp).2]
  | deliver bs => exact change_peer _ s
  | hangUp e => exact change_peer _ s
  | breakWrites => exact change_peer _ s
  | shutDown => rfl

structure IsReserved (s : Server) : Prop where
  untouched : s.phase = .accepting → s.IsUntouched
  serving : s.isServing = true → s.peer ≠ none
  silent : s.peer = none → s.sent = []

theorem IsReserved.phase_ne (h : s.IsReserved) (hp : s.peer ≠ none) : s.phase ≠ .accepting :=
  fun ha => hp (h.untouched ha).peer

theorem IsReserved.accept_peer_ne (h : s.IsReserved) (hl : s.isListening = true) (peer : Nat)
    (c : Connection) : (s.accept peer c).peer ≠ none := by
  cases hp : s.phase with
  | accepting => simp [accept_peer hp]
  | serving todo =>
    rw [accept_eq_self (phase_ne_of_serving hp)]
    exact h.serving (by simp only [isServing, hp])
  | ended => simp [isListening, hp] at hl

theorem isReserved_of_peer (h : s.phase ≠ .accepting) (hp : s.peer ≠ none) : s.IsReserved :=
  ⟨fun ha => absurd ha h, fun _ => hp, fun hn => absurd hn hp⟩

theorem isReserved_of_untouched (h : s.IsUntouched) (hp : s.phase = .accepting) :
    s.IsReserved := by
  refine ⟨fun _ => h, ?_, ?_⟩
  · simp [isServing, hp]
  · intro _
    rw [sent, h.connection]

theorem isReserved_of_ended (hp : s.phase = .ended) (h : s.peer = none → s.sent = []) :
    s.IsReserved := by
  refine ⟨fun ha => absurd ha (phase_ne_of_ended hp), ?_, h⟩
  simp [isServing, hp]

theorem isReserved_finish (h : s.IsUntouched) (o : Outcome) : (s.finish o).IsReserved := by
  refine isReserved_of_ended (finish_phase s o) fun _ => ?_
  rw [sent, finish_sink, h.peer, h.connection]
  rfl

theorem isReserved_fail (h : s.IsUntouched) (f : Fault) : (s.fail f).IsReserved := by
  refine isReserved_of_ended (fail_phase s f) fun _ => ?_
  rw [sent, fail_sink, h.peer, h.connection]
  rfl

theorem isReserved_wait (h : s.IsUntouched) (hp : s.phase = .accepting) : s.wait.IsReserved := by
  unfold wait
  split
  · exact isReserved_fail h _
  · split
    · exact isReserved_finish (s := s.say _ _) ⟨h.peer, h.connection⟩ _
    · exact isReserved_of_untouched h hp

theorem isReserved_start (spec : ServerSpec) (bound : Except Fault Unit) :
    (start spec bound).IsReserved := by
  cases bound with
  | error f => exact isReserved_fail ⟨rfl, rfl⟩ _
  | ok => exact isReserved_wait ⟨rfl, rfl⟩ rfl

theorem isReserved_happen_of_untouched (h : s.IsUntouched) (hp : s.phase = .accepting)
    (x : Happening) : (s.happen x).IsReserved := by
  have hs := isReserved_of_untouched h hp
  have hc (f : Connection → Connection) : (s.change f).IsReserved := by
    simpa only [change, isServing, hp, Bool.false_eq_true, if_false] using hs
  cases x with
  | work => simpa only [Server.happen, Server.work, hp] using hs
  | tick =>
    rw [Server.happen, tick_of_accepting hp]
    exact isReserved_wait ⟨h.peer, h.connection⟩ hp
  | connect peer =>
    rw [Server.happen, welcome_of_accepting hp]
    exact isReserved_of_peer (phase_ne_of_serving rfl) (Option.some_ne_none peer)
  | deliver bs => exact hc _
  | hangUp e => exact hc _
  | breakWrites => exact hc _
  | shutDown => exact isReserved_of_untouched ⟨h.peer, h.connection⟩ hp

theorem phase_happen_of_ended (hp : s.phase = .ended) (x : Happening) :
    (s.happen x).phase = .ended := by
  by_cases hx : x = .work
  · rw [hx, Server.happen, work_of_ended hp, hp]
  · exact (stays_happen (phase_ne_of_ended hp) hx).phase.trans hp

theorem IsReserved.happen (h : s.IsReserved) (x : Happening) : (s.happen x).IsReserved := by
  cases hp : s.phase with
  | accepting => exact isReserved_happen_of_untouched (h.untouched hp) hp x
  | serving todo =>
    have hne := phase_ne_of_serving hp
    have hs := h.serving (by simp only [isServing, hp])
    exact isReserved_of_peer (phase_ne_happen hne x) (by rwa [peer_happen hne])
  | ended =>
    refine isReserved_of_ended (phase_happen_of_ended hp x) fun hn => ?_
    rw [peer_happen (phase_ne_of_ended hp)] at hn
    rw [sent_happen_of_ended hp, h.silent hn]

theorem IsReserved.after (h : s.IsReserved) (hs : List Happening) : (s.after hs).IsReserved := by
  induction hs generalizing s with
  | nil => exact h
  | cons x hs ih => exact ih (h.happen x)

theorem IsReserved.peer_after (h : s.IsReserved) (hp : s.peer ≠ none) (hs : List Happening) :
    (s.after hs).peer = s.peer := by
  induction hs generalizing s with
  | nil => rfl
  | cons x hs ih =>
    have hx := peer_happen (h.phase_ne hp) x
    rw [after_cons, ih (h.happen x) (by rwa [hx]), hx]

end Server

end LineHandshake
