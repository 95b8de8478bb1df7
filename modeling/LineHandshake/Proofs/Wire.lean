import LineHandshake.Proofs.Foresight
import LineHandshake.Proofs.Ledger
import LineHandshake.Proofs.Shutdown

/-!
What has gone over the wire. What a server has sent is what its progress says, and after that a
beginning of what its script has written, all of it in the end unless a write has failed. PONG is
among it only after the client has sent its two lines.
-/

namespace LineHandshake

open Connection (greetingBytes pongBytes)

def spoken : Nat → Bytes
  | 0 => []
  | 1 => greetingBytes
  | _ => greetingBytes ++ pongBytes

def Progress.said : Progress → Nat
  | .noClient | .clientConnected => 0
  | .sentInfo | .gotConnect | .gotPing => 1
  | .sentPong | .startedCustomCode | .completedCustomCode => 2

def Progress.wire (p : Progress) : Bytes := spoken p.said

theorem Progress.said_of_pong {p : Progress} {u : Bytes}
    (h : greetingBytes ++ pongBytes <+: p.wire ++ u)
    (hu : p.rank < Progress.startedCustomCode.rank → u = []) : p.said = 2 := by
  by_contra hp
  have hr : p.rank < Progress.startedCustomCode.rank := by
    cases p <;> first | decide | exact absurd rfl hp
  rw [hu hr, List.append_nil] at h
  revert h
  cases p <;> first | decide | exact absurd rfl hp

/-- Where a run has got to by itself: its progress, how much it has said, and how many lines it
has taken. -/
structure Mark where
  progress : Progress
  said : Nat
  taken : Nat

namespace Mark

def pass (m : Mark) : Instruction → Mark
  | .reach p => { m with progress := p }
  | .sendInfo => { m with said := 1 }
  | .awaitConnect => { m with taken := 1 }
  | .awaitPing => { m with taken := 2 }
  | .sendPong => { m with said := 2 }
  | _ => m

/-- What was said fits the progress. It does but between a step and the progress after it. -/
def IsEven (m : Mark) : Prop := m.said = m.progress.said

def Admits (m : Mark) : Instruction → Prop
  | .reach p => p.rank = m.progress.rank + 1 ∧ m.said = p.said
  | .exitAt _ => m.IsEven
  | .sendInfo => m.IsEven ∧ m.said = 0
  | .awaitConnect => m.IsEven ∧ m.said = 1 ∧ m.taken = 0
  | .awaitPing => m.IsEven ∧ m.said = 1 ∧ m.taken = 1
  | .sendPong => m.IsEven ∧ m.said = 1 ∧ m.taken = 2
  | .play _ =>
    m.IsEven ∧ m.taken = 2 ∧ Progress.startedCustomCode.rank ≤ m.progress.rank

def Fits (m : Mark) : List Instruction → Prop
  | [] => m.IsEven ∧ m.taken = 2
  | i :: todo => m.Admits i ∧ (m.pass i).Fits todo

theorem fits_program (spec : ServerSpec) : Fits ⟨.noClient, 0, 0⟩ (Server.program spec) := by
  unfold Server.program
  cases spec.script <;>
    simp [handshake, scripted, Fits, Admits, pass, IsEven, Progress.said, Progress.rank]

theorem isEven_of_admits {m : Mark} {i : Instruction} (h : m.Admits i)
    (hi : ∀ p, i ≠ .reach p) : m.IsEven := by
  cases i with
  | reach p => exact absurd rfl (hi p)
  | exitAt e => exact h
  | _ => exact h.1

theorem Fits.exists_progress {m : Mark} {todo : List Instruction} (h : m.Fits todo) :
    ∃ p : Progress, m.said = p.said ∧ m.progress.rank ≤ p.rank := by
  cases todo with
  | nil => exact ⟨m.progress, h.1, Nat.le_refl _⟩
  | cons i todo =>
    by_cases hi : ∃ p, i = .reach p
    · obtain ⟨p, rfl⟩ := hi
      obtain ⟨hr, hs⟩ := h.1
      exact ⟨p, hs, by omega⟩
    · exact ⟨m.progress, isEven_of_admits h.1 fun p hp => hi ⟨p, hp⟩, Nat.le_refl _⟩

end Mark

namespace Server

variable {l : Ledger} {m : Mark} {s t : Server} {i : Instruction} {todo : List Instruction}

/-- The account of a run that has its client. -/
structure Tells (l : Ledger) (m : Mark) (s : Server) : Prop where
  progress : s.progress = m.progress
  peer : s.peer.isSome = true
  taken : Taken l.received s.connection.source m.taken
  carried : Carried (spoken m.said) l s.connection.sink
  quiet : m.progress.rank < Progress.startedCustomCode.rank →
    l.written = [] ∧ l.hasFailed = false ∧ s.connection.sink.IsIdle ∧
      s.connection.sink.isOpen = true
  timely : m.said = 2 → m.taken = 2

theorem Tells.inPhase (h : Tells l m s) (p : Phase) : Tells l m (s.inPhase p) :=
  ⟨h.progress, h.peer, h.taken, h.carried, h.quiet, h.timely⟩

theorem Tells.sent_of_quiet (h : Tells l m s)
    (hr : m.progress.rank < Progress.startedCustomCode.rank) :
    l.bytes = [] ∧ s.connection.sink.sent = spoken m.said := by
  have hb : l.bytes = [] := by rw [Ledger.bytes, (h.quiet hr).1, List.flatMap_nil]
  obtain ⟨u, hu, hp⟩ := h.carried.sent
  rw [hb, List.prefix_nil] at hp
  exact ⟨hb, by rw [hu, hp, List.append_nil]⟩

structure Told (l : Ledger) (s : Server) : Prop where
  sent : ∃ u, s.sent = s.progress.wire ++ u ∧ u <+: l.bytes ∧
    (s.progress.rank < Progress.startedCustomCode.rank → u = []) ∧
    (l.hasFailed = false → u = l.bytes)
  lines : s.progress.said = 2 → HasBothLines l.received

theorem told_of_closed {v : Server} {u : Bytes}
    (hu : t.connection.sink.close.2.sent = t.progress.wire ++ u) (hb : u <+: l.bytes)
    (hf : l.hasFailed = false → t.connection.sink.close.1 = .ok () → u = l.bytes)
    (hw : t.progress.rank < Progress.startedCustomCode.rank → l.written = [])
    (hl : t.progress.said = 2 → HasBothLines l.received)
    (hs : v.connection.sink = t.connection.sink.close.2) (hp : v.progress = t.progress) :
    Told (l.note none t.failsToClose) v := by
  refine ⟨⟨u, ?_, ?_, ?_, ?_⟩, ?_⟩
  · rw [Server.sent, hs, hp, hu]
  · rwa [Ledger.note_none_bytes]
  · rw [hp]
    intro hr
    rw [Ledger.bytes, hw hr] at hb
    exact List.prefix_nil.1 hb
  · rw [Ledger.note_none_bytes]
    intro hn
    obtain ⟨hn, hc⟩ := Bool.or_eq_false_iff.1 hn
    refine hf hn ?_
    unfold failsToClose at hc
    split at hc
    · next hr => exact hr
    · cases hc
  · rw [hp]
    exact hl

theorem Tells.ends (h : Tells l m s) (he : m.IsEven) (ht : t.progress = s.progress)
    (hp : t.peer = s.peer) (hk : t.connection.sink = s.connection.sink) :
    (∀ o, Told (l.note none t.failsToClose) (t.finish o)) ∧
      ∀ f, Told (l.note none t.failsToClose) (t.fail f) := by
  obtain ⟨u, hu, hb, hf⟩ := h.carried.close_sent
  rw [he, ← h.progress, ← hk, ← ht] at hu
  rw [← hk] at hf
  have hpeer : t.peer.isSome = true := hp ▸ h.peer
  have hw : t.progress.rank < Progress.startedCustomCode.rank → l.written = [] := fun hr =>
    (h.quiet (by rwa [← h.progress, ← ht])).1
  have hl : t.progress.said = 2 → HasBothLines l.received := fun hs => by
    have htaken := h.taken
    rw [ht, h.progress, ← he] at hs
    rw [h.timely hs] at htaken
    exact htaken.hasBothLines
  exact ⟨fun o => told_of_closed hu hb hf hw hl ((finish_sink t o).trans (if_pos hpeer))
      (finish_unchanged t o).1,
    fun f => told_of_closed hu hb hf hw hl ((fail_sink t f).trans (if_pos hpeer))
      (fail_unchanged t f).1⟩

inductive Tallies (l : Ledger) (m : Mark) (i : Instruction) (s : Server) : Performed × Server → Prop
  | done {t : Server} (h : Tells l (m.pass i) t) : Tallies l m i s (.done, t)
  | leave {t : Server} (h : Told (l.note none t.failsToClose) (t.finish .exited)) :
      Tallies l m i s (.leave, t)
  | wait : Tallies l m i s (.wait i, s)
  | failed {t : Server} {f : Fault} (h : Told (l.note none t.failsToClose) (t.fail f)) :
      Tallies l m i s (.failed f, t)

theorem tallies_reach {p : Progress} (h : Tells l m s) (ha : m.Admits (.reach p)) :
    Tallies l m (.reach p) s (s.perform (.reach p)) := by
  have ha : p.rank = m.progress.rank + 1 := ha.1
  have hp : s.progress.furthest p = p := if_pos (by rw [h.progress]; omega)
  refine .done ⟨hp, h.peer, h.taken, h.carried, fun hr => h.quiet ?_, h.timely⟩
  change p.rank < _ at hr
  omega

theorem tallies_exitAt {e : ExitPoint} (h : Tells l m s) (ha : m.Admits (.exitAt e)) :
    Tallies l m (.exitAt e) s (s.perform (.exitAt e)) := by
  rw [perform]
  split
  · refine .leave ((h.ends ha ?_ ?_ ?_).1 _) <;> rfl
  · exact .done h

theorem tallies_write {line : Text} {bs : Bytes} {n : Nat} (h : Tells l m s) (he : m.IsEven)
    (hs : m.said = n) (hn : n < 2) (hl : Utf8.encode line = .ok bs)
    (hb : spoken n ++ bs = spoken (n + 1)) (ht : n + 1 = 2 → m.taken = 2)
    (hpass : m.pass i = { m with said := n + 1 }) :
    Tallies l m i s (s.exchange i (Connection.writeLine line)) := by
  have hr : m.progress.rank < Progress.startedCustomCode.rank := by
    rw [Mark.IsEven, hs] at he
    cases hp : m.progress <;> simp [hp, Progress.said] at he <;> first | decide | omega
  obtain ⟨hw, hf, hi, ho⟩ := h.quiet hr
  obtain ⟨hbytes, hsent⟩ := h.sent_of_quiet hr
  rw [hs] at hsent
  obtain ⟨⟨f | _, k⟩, log, hx, hm⟩ := Connection.writeLine_moves ho hl []
  · obtain ⟨rfl, hbroken⟩ := hm.fails f rfl
    -- what the sink still holds is lost, and the progress does not count it
    have hclose : k.close.2.sent = s.progress.wire := by
      rw [TextSink.close_sent_of_isBroken (hm.isBroken.trans hbroken), hm.stuck hbroken, hsent,
        Progress.wire, h.progress, ← he, hs]
    rw [exchange_of_fault hx]
    refine .failed (told_of_closed (hclose.trans (List.append_nil _).symm) List.nil_prefix
      (fun _ _ => hbytes.symm) (fun _ => hw) ?_ ((fail_sink _ _).trans (if_pos h.peer))
      (fail_unchanged _ _).1)
    intro (hsaid : s.progress.said = 2)
    rw [h.progress, ← he, hs] at hsaid
    omega
  · obtain ⟨hidle, hk⟩ := hm.done rfl
    have hk : k.sent = spoken (n + 1) := by
      rw [hk, hi.accepted_eq, hsent, hb]
    rw [exchange_of_ok hx]
    refine .done ?_
    rw [hpass]
    refine ⟨h.progress, h.peer, h.taken, ?_, fun _ => ⟨hw, hf, hidle, hm.isOpen.trans ho⟩, ht⟩
    exact .of_isIdle hidle hk hbytes hf

theorem tallies_await {keyword : Text} (hk : keyword ∈ Keyword.all) (h : Tells l m s)
    (he : m.IsEven) (hs : m.said = 1) (hready : s.connection.source.IsReady)
    (htaken : ∀ {line source}, s.connection.source.Takes takeLine line source →
      keyword <+: line → Taken l.received source (m.pass i).taken)
    (hpass : (m.pass i).progress = m.progress ∧ (m.pass i).said = m.said) :
    Tallies l m i s (s.exchange i (Connection.await keyword)) := by
  have hx := Connection.await_awaitsLine hk hready []
  generalize hr : Connection.await keyword (s.connection, []) = r at hx
  cases hx with
  | taken htakes hp =>
    rw [exchange_of_ok hr]
    refine .done ⟨h.progress.trans hpass.1.symm, h.peer, htaken htakes hp, hpass.2 ▸ h.carried,
      hpass.1 ▸ h.quiet, fun hsaid => ?_⟩
    rw [hpass.2, hs] at hsaid
    cases hsaid
  | waits =>
    rw [exchange_of_waiting hr]
    exact .wait
  | fails =>
    rw [exchange_of_fault hr]
    refine .failed ((h.ends he ?_ ?_ ?_).2 _) <;> rfl

theorem tallies_perform (h : Tells l m s) (ha : m.Admits i)
    (hi : ∀ a next, i ≠ .play (.act a next)) :
    Tallies l m i s (s.perform i) := by
  cases i with
  | reach p => exact tallies_reach h ha
  | exitAt e => exact tallies_exitAt h ha
  | sendInfo =>
    obtain ⟨he, hs⟩ := ha
    exact tallies_write h he hs (by decide) Connection.encode_greeting rfl nofun rfl
  | sendPong =>
    obtain ⟨he, hs, ht⟩ := ha
    exact tallies_write h he hs (by decide) Connection.encode_pong rfl (fun _ => ht) rfl
  | awaitConnect =>
    obtain ⟨he, hs, ht⟩ := ha
    have htaken := ht ▸ h.taken
    exact tallies_await (.tail _ (.head _)) h he hs htaken.1 htaken.connect ⟨rfl, rfl⟩
  | awaitPing =>
    obtain ⟨he, hs, ht⟩ := ha
    have htaken := ht ▸ h.taken
    exact tallies_await (.tail _ (.tail _ (.head _))) h he hs htaken.1 htaken.ping ⟨rfl, rfl⟩
  | play k =>
    cases k with
    | done => exact .done h
    | raise f => exact .failed ((h.ends ha.1 rfl rfl rfl).2 f)
    | act a next => exact absurd rfl (hi a next)

def Accounts (l : Ledger) (s : Server) : Prop :=
  match s.phase with
  | .accepting => s.progress = .noClient ∧ s.IsUntouched ∧ l = {}
  | .serving todo => ∃ m : Mark, m.Fits todo ∧ Tells l m s
  | .ended => Told l s

theorem Accounts.serving (h : Accounts l s) (hp : s.phase = .serving todo) :
    ∃ m : Mark, m.Fits todo ∧ Tells l m s := by
  simpa only [Accounts, hp] using h

theorem Accounts.ended (h : Accounts l s) (hp : s.phase = .ended) : Told l s := by
  simpa only [Accounts, hp] using h

theorem accounts_of_ended (hp : s.phase = .ended) (h : Told l s) : Accounts l s := by
  simpa only [Accounts, hp] using h

theorem accounts_of_serving (hp : s.phase = .serving todo) (hf : m.Fits todo) (h : Tells l m s) :
    Accounts l s := by
  simp only [Accounts, hp]
  exact ⟨m, hf, h⟩

theorem accounts_of_accepting (hp : s.phase = .accepting) (hn : s.progress = .noClient)
    (hu : s.IsUntouched) : Accounts {} s := by
  rw [Accounts, hp]
  exact ⟨hn, hu, rfl⟩

theorem act_ending (a : Action) (s : Server) :
    (s.act a).2.connection.source.ending = s.connection.source.ending := by
  cases a with
  | readLine => exact (TextSource.readLine_keepsEnding s.connection.source).1
  | read count => exact (TextSource.read_keepsEnding s.connection.source count).1
  | _ => rfl

theorem act_peer (a : Action) (s : Server) : (s.act a).2.peer = s.peer := by
  cases a <;> rfl

theorem next_work_of_act {a : Action} {k : Except Fault Gain → Script}
    (hp : s.phase = .serving (.play (.act a k) :: todo)) :
    l.next s .work = l.note (a.textOf (s.act a).1) (a.findsBreak (s.act a).1) := by
  simp only [Ledger.next, nextText?, failsNext, hp]

theorem next_work_of_perform (hp : s.phase = .serving (i :: todo))
    (hi : ∀ a next, i ≠ .play (.act a next)) :
    l.next s .work = l.note none (failsToLeave (s.firstStep i)) := by
  cases i with
  | play k =>
    cases k with
    | act a next => exact absurd rfl (hi a next)
    | _ => simp only [Ledger.next, nextText?, failsNext, hp]
  | _ => simp only [Ledger.next, nextText?, failsNext, hp]

theorem accounts_goOn {r : Performed × Server} (h : Tells l m s) (hf : m.Fits (i :: todo))
    (hr : Tallies l m i s r) : Accounts (l.note none (failsToLeave r)) (goOn todo r) := by
  cases hr with
  | done ht =>
    rw [failsToLeave, Ledger.note_none_false]
    exact accounts_of_serving rfl hf.2 (ht.inPhase _)
  | leave ht => exact accounts_of_ended (finish_phase ..) ht
  | wait =>
    rw [failsToLeave, Ledger.note_none_false]
    exact accounts_of_serving rfl hf (h.inPhase _)
  | failed ht => exact accounts_of_ended (fail_phase ..) ht

theorem accounts_act {a : Action} {k : Except Fault Gain → Script} (h : Tells l m s)
    (hf : m.Fits (.play (.act a k) :: todo)) :
    Accounts (l.note (a.textOf (s.act a).1) (a.findsBreak (s.act a).1))
      (goOn todo (s.firstStep (.play (.act a k)))) := by
  obtain ⟨he, ht, hr⟩ := hf.1
  have hcarried := act_carried a h.carried
  have hending := act_ending a s
  have hpeer := act_peer a s
  have hkeeps := act_keeps a s
  simp only [firstStep]
  generalize s.act a = r at hcarried hending hpeer hkeeps ⊢
  obtain ⟨r, t⟩ := r
  have hgoes (k' : Script) :
      Accounts (l.note (a.textOf r) (a.findsBreak r))
        (t.inPhase (.serving (.play k' :: todo))) := by
    refine ⟨m, hf, hkeeps.progress.trans h.progress, hpeer ▸ h.peer, ?_, hcarried,
      fun hq => absurd hr (Nat.not_le.2 hq), h.timely⟩
    have htaken := h.taken
    rw [ht] at htaken ⊢
    exact htaken.of_ending hending
  obtain (_ | f) | g := r
  · have hn : l.note (a.textOf (.error .waiting)) (a.findsBreak (.error .waiting)) = l := by
      cases a <;> exact l.note_none_false
    rw [hn]
    exact accounts_of_serving rfl hf (h.inPhase _)
  · exact hgoes _
  · exact hgoes _

theorem next_of_not_serving (h : s.isServing = false) (x : Happening) : l.next s x = l := by
  cases x with
  | work =>
    unfold isServing at h
    cases hp : s.phase with
    | serving todo => simp [hp] at h
    | _ => simp only [Ledger.next, nextText?, failsNext, hp, Ledger.note_none_false]
  | deliver bs => simp only [Ledger.next, h, Bool.false_and, Bool.false_eq_true, if_false]
  | _ => rfl

theorem Accounts.work (h : Accounts l s) (hp : s.phase = .serving todo) :
    Accounts (l.next s .work) s.work := by
  obtain ⟨m, hf, ht⟩ := h.serving hp
  cases todo with
  | nil =>
    have hn : l.next s .work = l.note none (s.isShutDown && s.failsToClose) := by
      simp only [Ledger.next, nextText?, failsNext, hp]
    rw [hn, Server.work, hp]
    dsimp only
    cases s.isShutDown with
    | true => exact accounts_of_ended (finish_phase ..) ((ht.ends hf.1 rfl rfl rfl).1 _)
    | false =>
      rw [Bool.false_and, Ledger.note_none_false]
      exact h
  | cons i todo =>
    have hw : s.work = goOn todo (s.firstStep i) := by simp only [Server.work, hp]
    rw [hw]
    by_cases hi : ∃ a k, i = .play (.act a k)
    · obtain ⟨a, k, rfl⟩ := hi
      rw [next_work_of_act hp]
      exact accounts_act ht hf
    · have hi' (a k) : i ≠ .play (.act a k) := fun he => hi ⟨a, k, he⟩
      rw [next_work_of_perform hp hi', firstStep_of_ne_act hi']
      exact accounts_goOn ht hf (tallies_perform ht hf.1 hi')

theorem Tells.change (h : Tells l m s) {c : Connection} {bs : Bytes}
    (ht : Taken bs c.source m.taken)
    (hk : c.sink = s.connection.sink ∨ c.sink = { s.connection.sink with isBroken := true }) :
    Tells { l with received := bs } m { s with connection := c } := by
  obtain ⟨sent, kept, broken, closed⟩ := h.carried
  refine ⟨h.progress, h.peer, ht, ?_, fun hr => ?_, h.timely⟩
  · rcases hk with hk | hk
    · rw [hk]
      exact ⟨sent, kept, broken, closed⟩
    · rw [hk]
      exact ⟨sent, kept, fun _ => rfl, fun ho hf => ⟨(closed ho hf).1, (closed ho hf).2⟩⟩
  · obtain ⟨hw, hf, hi, ho⟩ := h.quiet hr
    rcases hk with hk | hk
    · rw [hk]
      exact ⟨hw, hf, hi, ho⟩
    · rw [hk]
      exact ⟨hw, hf, ⟨hi.1, hi.2⟩, ho⟩

theorem Accounts.change (h : Accounts l s) (hp : s.phase = .serving todo) {x : Happening}
    (hx : x ≠ .work) : Accounts (l.next s x) (s.happen x) := by
  obtain ⟨m, hf, ht⟩ := h.serving hp
  have hn := phase_ne_of_serving hp
  have hv : s.isServing = true := by simp only [isServing, hp]
  have hc {f : Connection → Connection} {bs : Bytes}
      (hs : Taken bs (f s.connection).source m.taken)
      (hk : (f s.connection).sink = s.connection.sink ∨
        (f s.connection).sink = { s.connection.sink with isBroken := true }) :
      Accounts { l with received := bs } (s.change f) := by
    rw [Server.change, if_pos hv]
    exact accounts_of_serving hp hf (ht.change hs hk)
  cases x with
  | work => exact absurd rfl hx
  | tick =>
    rw [(happen_eq_self hn).1]
    exact h
  | connect peer =>
    rw [(happen_eq_self hn).2]
    exact h
  | deliver bs =>
    rw [Ledger.next, hv, Bool.true_and]
    split
    · next he => exact hc (ht.taken.deliver (Option.isNone_iff_eq_none.1 he) bs) (.inl rfl)
    · next he => exact hc (ht.taken.deliver_over (mt Option.isNone_iff_eq_none.2 he) bs) (.inl rfl)
  | hangUp e => exact hc (ht.taken.hangUp e) (Connection.hangUp_sink e _)
  | breakWrites => exact hc ht.taken (.inr rfl)
  | shutDown =>
    exact accounts_of_serving hp hf
      ⟨ht.progress, ht.peer, ht.taken, ht.carried, ht.quiet, ht.timely⟩

theorem told_of_untouched {v : Server} (hu : s.IsUntouched) (hp : v.progress = .noClient)
    (hs : v.connection.sink =
      if s.peer.isSome then s.connection.sink.close.2 else s.connection.sink) : Told {} v := by
  have hsent : v.sent = [] := by
    rw [Server.sent, hs, hu.peer, hu.connection]
    rfl
  refine ⟨⟨[], ?_, List.nil_prefix, fun _ => rfl, fun _ => rfl⟩, ?_⟩
  · rw [hsent, hp]
    rfl
  · rw [hp]
    intro hs
    cases hs

theorem accounts_fail (hu : s.IsUntouched) (hn : s.progress = .noClient) (f : Fault) :
    Accounts {} (s.fail f) :=
  accounts_of_ended (fail_phase ..)
    (told_of_untouched hu ((fail_unchanged s f).1.trans hn) (fail_sink s f))

theorem accounts_wait (hp : s.phase = .accepting) (hu : s.IsUntouched)
    (hn : s.progress = .noClient) : Accounts {} s.wait := by
  unfold wait
  split
  · exact accounts_fail hu hn _
  · split
    · exact accounts_of_ended (finish_phase ..)
        (told_of_untouched (s := s.say .info _) ⟨hu.peer, hu.connection⟩
          ((finish_unchanged ..).1.trans hn) (finish_sink ..))
    · exact accounts_of_accepting hp hn hu

theorem accounts_start (spec : ServerSpec) (bound : Except Fault Unit) :
    Accounts {} (start spec bound) := by
  cases bound with
  | ok => exact accounts_wait rfl ⟨rfl, rfl⟩ rfl
  | error f => exact accounts_fail ⟨rfl, rfl⟩ rfl f

theorem accounts_welcome (hp : s.phase = .accepting) (hn : s.progress = .noClient) (peer : Nat) :
    Accounts {} (s.welcome peer) := by
  rw [welcome_of_accepting hp]
  refine ⟨⟨.noClient, 0, 0⟩, Mark.fits_program s.spec, hn, rfl, .nothing,
    .of_isIdle ⟨rfl, rfl⟩ rfl rfl rfl, fun _ => ⟨rfl, rfl, ⟨rfl, rfl⟩, rfl⟩, by intro hs; cases hs⟩

theorem Accounts.happen (h : Accounts l s) (x : Happening) :
    Accounts (l.next s x) (s.happen x) := by
  cases hp : s.phase with
  | serving todo =>
    by_cases hx : x = .work
    · rw [hx]
      exact h.work hp
    · exact h.change hp hx
  | ended =>
    rw [next_of_not_serving (by simp only [isServing, hp])]
    obtain ⟨hsent, hlines⟩ := h.ended hp
    obtain ⟨hphase, hsummary⟩ := happen_of_ended hp x
    have hprogress : (s.happen x).progress = s.progress := congrArg Summary.progress hsummary
    refine accounts_of_ended hphase ⟨?_, ?_⟩
    · rwa [sent_happen_of_ended hp, hprogress]
    · rwa [hprogress]
  | accepting =>
    rw [next_of_not_serving (by simp only [isServing, hp])]
    have ha := h
    simp only [Accounts, hp] at ha
    obtain ⟨hn, hu, rfl⟩ := ha
    have hc (f : Connection → Connection) : Accounts {} (s.change f) := by
      simpa only [Server.change, isServing, hp, Bool.false_eq_true, if_false] using h
    cases x with
    | work => simpa only [Server.happen, Server.work, hp] using h
    | tick =>
      rw [Server.happen, tick_of_accepting hp]
      exact accounts_wait hp ⟨hu.peer, hu.connection⟩ hn
    | connect peer => exact accounts_welcome hp hn peer
    | deliver bs => exact hc _
    | hangUp e => exact hc _
    | breakWrites => exact hc _
    | shutDown => exact accounts_of_accepting hp hn ⟨hu.peer, hu.connection⟩

theorem Accounts.after (h : Accounts l s) (hs : List Happening) :
    Accounts (l.after s hs) (s.after hs) := by
  induction hs generalizing l s with
  | nil => exact h
  | cons x hs ih => exact ih (h.happen x)

theorem isEven_of_rest (hf : m.Fits todo) (hp : s.phase = .serving todo) (hr : s.work = s) :
    m.IsEven := by
  cases todo with
  | nil => exact hf.1
  | cons i todo =>
    refine Mark.isEven_of_admits hf.1 fun p hi => ?_
    subst hi
    have hw : s.work.phase = .serving todo := by
      simp only [Server.work, hp]
      rfl
    rw [hr, hp] at hw
    exact absurd (Phase.serving.inj hw) (List.cons_ne_self _ _)

theorem Accounts.sent_of_rest (h : Accounts l s) (hr : s.work = s) :
    ∃ u, s.sent = s.progress.wire ++ u ∧ u <+: l.bytes ∧
      (s.progress.rank < Progress.startedCustomCode.rank → u = []) ∧
      (s.phase = .ended → l.hasFailed = false → u = l.bytes) := by
  cases hp : s.phase with
  | accepting =>
    simp only [Accounts, hp] at h
    obtain ⟨hn, hu, -⟩ := h
    refine ⟨[], ?_, List.nil_prefix, fun _ => rfl, by intro he; cases he⟩
    rw [Server.sent, hu.connection, hn]
    rfl
  | ended =>
    obtain ⟨u, hu, hb, hq, ha⟩ := (h.ended hp).sent
    exact ⟨u, hu, hb, hq, fun _ => ha⟩
  | serving todo =>
    obtain ⟨m, hf, ht⟩ := h.serving hp
    obtain ⟨u, hu, hb⟩ := ht.carried.sent
    refine ⟨u, ?_, hb, fun hq => ?_, by intro he; cases he⟩
    · rw [Server.sent, hu, Progress.wire, ht.progress, ← isEven_of_rest hf hp hr]
    · rw [Ledger.bytes, (ht.quiet (ht.progress ▸ hq)).1] at hb
      exact List.prefix_nil.1 hb

theorem Accounts.hasBothLines (h : Accounts l s)
    (hs : greetingBytes ++ pongBytes <+: s.sent) : HasBothLines l.received := by
  cases hp : s.phase with
  | accepting =>
    simp only [Accounts, hp] at h
    rw [Server.sent, h.2.1.connection] at hs
    exact absurd hs (by decide)
  | ended =>
    obtain ⟨⟨u, hu, -, hq, -⟩, hl⟩ := h.ended hp
    exact hl (Progress.said_of_pong (hu ▸ hs) hq)
  | serving todo =>
    obtain ⟨m, hf, ht⟩ := h.serving hp
    obtain ⟨u, hu, hb⟩ := ht.carried.sent
    obtain ⟨p, hsaid, hr⟩ := hf.exists_progress
    have h2 : p.said = 2 := by
      refine Progress.said_of_pong (u := u) ?_ fun hq => ?_
      · rwa [Progress.wire, ← hsaid, ← hu]
      · rw [Ledger.bytes, (ht.quiet (Nat.lt_of_le_of_lt hr hq)).1] at hb
        exact List.prefix_nil.1 hb
    have htaken := ht.taken
    rw [ht.timely (hsaid.trans h2)] at htaken
    exact htaken.hasBothLines

/-- Whatever happens to a server: whenever it waits and once it has ended, it has sent what its
progress says, and in the stages of a script a beginning of what the script has written, which is
all of it at the end unless writing failed. It never sends PONG but for the two lines it is the
answer to. Every server that the operations of a session lead to is one of these. -/
theorem sent_matches_progress (spec : ServerSpec) (bound : Except Fault Unit)
    (hs : List Happening) :
    let s := (start spec bound).after hs
    let l := ({} : Ledger).after (start spec bound) hs
    (s.work = s → ∃ u, s.sent = s.progress.wire ++ u ∧ u <+: l.bytes ∧
      (s.progress.rank < Progress.startedCustomCode.rank → u = []) ∧
      (s.phase = .ended → l.hasFailed = false → u = l.bytes)) ∧
    (greetingBytes ++ pongBytes <+: s.sent → HasBothLines l.received) ∧
    ∀ t, Reached spec bound t → ∃ ks, (start spec bound).after ks = t :=
  let h := (accounts_start spec bound).after hs
  ⟨h.sent_of_rest, h.hasBothLines, fun _ ht => ht.exists_after⟩

def raising : ServerSpec :=
  { port := 14220, script := some (Script.ofCues [.write [120] false, .raise .clientGone]) }

def raisingSchedule : List Happening :=
  .connect 0 :: .deliver ((text "CONNECT\r\nPING\r\n").flatMap Utf8.encodePoint) ::
    List.replicate 18 .work

theorem sent_matches_progress_raised :
    let s := (start raising (.ok ())).after raisingSchedule
    let l := ({} : Ledger).after (start raising (.ok ())) raisingSchedule
    (s.work = s ∧ s.phase = .ended ∧ l.hasFailed = false ∧ l.bytes = [120]) ∧
      s.sent = greetingBytes ++ pongBytes ++ [120] ∧ HasBothLines l.received := by
  obtain ⟨hrest, hlines, -⟩ := sent_matches_progress raising (.ok ()) raisingSchedule
  obtain ⟨u, hu, -, -, hall⟩ := hrest rfl
  rw [hall rfl rfl] at hu
  exact ⟨⟨rfl, rfl, rfl, rfl⟩, hu, hlines (hu ▸ List.prefix_append _ _)⟩

end Server

end LineHandshake
