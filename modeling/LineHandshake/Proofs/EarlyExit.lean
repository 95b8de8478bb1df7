import LineHandshake.Proofs.Orderly
import LineHandshake.Proofs.Reference

/-!
A run with an exit point beside the run without one, in the same environment. The two go together,
step by step, up to the stage of the exit point; there the one leaves with what it has sent, and
the other goes on by itself. If the run without an exit point never gets to the stage, the two
never part.
-/

namespace LineHandshake

theorem Progress.eq_of_rank_eq {p q : Progress} (h : p.rank = q.rank) : p = q := by
  cases p <;> cases q <;> first | rfl | cases h

def ServerSpec.uncut (spec : ServerSpec) : ServerSpec :=
  { spec with exitPoint := .noExit, script := none }

def Phase.followedBy (more : List Instruction) : Phase → Phase
  | .serving todo => .serving (todo ++ more)
  | p => p

namespace Server

/-- A server without a script, but with an exit point and a script. -/
def withExit (e : ExitPoint) (k : Option Script) (s : Server) : Server :=
  { s with spec.exitPoint := e, spec.script := k, phase := s.phase.followedBy (scripted k) }

variable {e : ExitPoint} {k : Option Script} {s : Server} {i : Instruction}
  {todo : List Instruction}

theorem isServing_withExit (e : ExitPoint) (k : Option Script) (s : Server) :
    (s.withExit e k).isServing = s.isServing := by
  simp only [isServing, withExit]
  cases s.phase <;> rfl

theorem onConnection_withExit {ε α : Type} (task : Task ε Connection α) (e : ExitPoint)
    (k : Option Script) (s : Server) :
    (s.withExit e k).onConnection task =
      ((s.onConnection task).1, (s.onConnection task).2.withExit e k) := rfl

theorem exchange_withExit {α : Type} (x : Connection.Exchange α) (e : ExitPoint)
    (k : Option Script) (s : Server) :
    (s.withExit e k).exchange i x = ((s.exchange i x).1, (s.exchange i x).2.withExit e k) := by
  simp only [exchange, onConnection_withExit]
  generalize s.onConnection x = r
  obtain ⟨(_ | _) | _, t⟩ := r <;> rfl

theorem release_withExit (e : ExitPoint) (k : Option Script) (s : Server) :
    (s.withExit e k).release = (s.release.1, s.release.2.withExit e k) := rfl

theorem finish_withExit (e : ExitPoint) (k : Option Script) (s : Server) (o : Outcome) :
    (s.withExit e k).finish o = (s.finish o).withExit e k := by
  have hr := release_withExit e k { s with outcome := o, phase := .ended }
  rcases h : release { s with outcome := o, phase := .ended } with ⟨_ | _, t⟩
  · rw [h] at hr
    rw [finish_of_release_error h, finish_of_release_error hr]
  · rw [h] at hr
    rw [finish_of_release h, finish_of_release hr]
    rfl

theorem fail_withExit (e : ExitPoint) (k : Option Script) (s : Server) (f : Fault) :
    (s.withExit e k).fail f = (s.fail f).withExit e k := by
  cases h : f.isRecorded with
  | true =>
    rw [fail_of_isRecorded h, fail_of_isRecorded h]
    exact finish_withExit e k ((s.say .warning (failureHeadline f ++ f.message)).noteFault f) _
  | false =>
    rw [fail_of_not_isRecorded h, fail_of_not_isRecorded h]
    rfl

theorem goOn_withExit (e : ExitPoint) (k : Option Script) (todo : List Instruction)
    (r : Performed × Server) :
    goOn (todo ++ scripted k) (r.1, r.2.withExit e k) = (goOn todo r).withExit e k := by
  obtain ⟨_ | _ | _ | _, s⟩ := r
  · rfl
  · exact finish_withExit e k s _
  · rfl
  · exact fail_withExit e k s _

theorem wait_withExit (e : ExitPoint) (k : Option Script) (s : Server) :
    (s.withExit e k).wait = s.wait.withExit e k := by
  unfold wait
  change (if !s.spec.acceptTimeout.isAfter s.clock then _ else if s.isShutDown then _ else _) = _
  split
  · exact fail_withExit e k s _
  · split
    · exact finish_withExit e k (s.say .info _) _
    · rfl

inductive Performs (i : Instruction) (s : Server) : Performed × Server → Prop
  | done {t : Server} (spec : t.spec = s.spec) (passed : i ≠ .exitAt s.spec.exitPoint)
      (progress : t.progress = s.progress ∨ i = .reach t.progress)
      (ending : t.connection.source.ending = s.connection.source.ending)
      (idle : s.connection.sink.IsIdle → t.connection.sink.IsIdle) : Performs i s (.done, t)
  | leave (h : i = .exitAt s.spec.exitPoint) (what : Text) :
      Performs i s (.leave, s.say .info what)
  | wait (ending : s.connection.source.ending = none) : Performs i s (.wait i, s)
  | failed {t : Server} {f : Fault} (progress : t.progress = s.progress) :
      Performs i s (.failed f, t)

theorem performs_exchange {α : Type} {x : Connection.Exchange α} (hx : Connection.IsOrderly x)
    (hi : i ≠ .exitAt s.spec.exitPoint) : Performs i s (s.exchange i x) := by
  have he := hx.ending (s.connection, [])
  have hw := hx.waits (s.connection, [])
  have hk := hx.idle (s.connection, [])
  rcases hr : x (s.connection, []) with ⟨(_ | f) | a, c, l⟩ <;> rw [hr] at he hw hk
  · rw [exchange_of_waiting hr]
    exact .wait (hw rfl)
  · rw [exchange_of_fault hr]
    exact .failed rfl
  · rw [exchange_of_ok hr]
    exact .done rfl hi (.inl rfl) he (hk a rfl)

theorem performs_perform (hi : ∀ k, i ≠ .play k) (s : Server) : Performs i s (s.perform i) := by
  cases i with
  | reach q =>
    refine .done rfl (by simp) ?_ rfl id
    change s.progress.furthest q = s.progress ∨ _ = Instruction.reach (s.progress.furthest q)
    unfold Progress.furthest
    split
    · exact .inr rfl
    · exact .inl rfl
  | exitAt x =>
    rw [perform]
    split
    · next h => exact .leave (by rw [h]) _
    · next h => exact .done rfl (fun hx => h (Instruction.exitAt.inj hx).symm) (.inl rfl) rfl id
  | sendInfo => exact performs_exchange (Connection.writeLine_isOrderly _) (by simp)
  | sendPong => exact performs_exchange (Connection.writeLine_isOrderly _) (by simp)
  | awaitConnect => exact performs_exchange (Connection.await_isOrderly _) (by simp)
  | awaitPing => exact performs_exchange (Connection.await_isOrderly _) (by simp)
  | play k => exact absurd rfl (hi k)

theorem not_play_of_suffix (h : i :: todo <:+ handshake) (k : Script) : i ≠ .play k := by
  have hm : i ∈ handshake := h.subset List.mem_cons_self
  rintro rfl
  simp [handshake] at hm

theorem not_noExit_of_suffix (h : i :: todo <:+ handshake) : i ≠ .exitAt .noExit := by
  have hm : i ∈ handshake := h.subset List.mem_cons_self
  rintro rfl
  simp [handshake] at hm

theorem exitAt_of_reach {p : Progress} (he : e.stage = some p)
    (h : .reach p :: todo <:+ handshake) : ∃ todo', todo = .exitAt e :: todo' := by
  simp only [handshake, List.suffix_cons_iff, List.cons.injEq, List.suffix_nil, reduceCtorEq,
    false_and, false_or, or_false, Instruction.reach.injEq] at h
  cases e <;> cases he <;> exact ⟨_, by simpa using h⟩

theorem firstStep_eq_perform (hi : ∀ k, i ≠ .play k) (s : Server) :
    s.firstStep i = s.perform i := firstStep_of_ne_act (fun _ _ => hi _) s

theorem perform_withExit (hi : ∀ k, i ≠ .play k) (he : i ≠ .exitAt e)
    (hs : i ≠ .exitAt s.spec.exitPoint) :
    (s.withExit e k).perform i = ((s.perform i).1, (s.perform i).2.withExit e k) := by
  cases i with
  | reach q => rfl
  | exitAt x =>
    rw [perform, perform, if_neg, if_neg]
    · rintro rfl
      exact hs rfl
    · rintro rfl
      exact he rfl
  | sendInfo => exact exchange_withExit _ e k s
  | awaitConnect => exact exchange_withExit _ e k s
  | awaitPing => exact exchange_withExit _ e k s
  | sendPong => exact exchange_withExit _ e k s
  | play x => exact absurd rfl (hi x)

theorem phase_withExit {p : Phase} (hp : s.phase = p) (e : ExitPoint) (k : Option Script) :
    (s.withExit e k).phase = p.followedBy (scripted k) :=
  congrArg (Phase.followedBy (scripted k)) hp

theorem work_withExit (hp : s.phase = .serving (i :: todo)) (hi : ∀ k, i ≠ .play k)
    (he : i ≠ .exitAt e) (hs : i ≠ .exitAt s.spec.exitPoint) :
    (s.withExit e k).work = s.work.withExit e k := by
  simp only [work, hp, phase_withExit hp, Phase.followedBy, List.cons_append,
    firstStep_eq_perform hi, perform_withExit hi he hs, goOn_withExit]

theorem tick_of_accepting (hp : s.phase = .accepting) :
    s.tick = wait { s with ticks := s.ticks + 1 } := by
  unfold tick
  split
  · rfl
  · next h => exact absurd hp h

theorem happen_withExit {x : Happening} (hx : x ≠ .work)
    (hs : s.phase = .accepting → s.spec.script = none) (e : ExitPoint) (k : Option Script) :
    (s.withExit e k).happen x = (s.happen x).withExit e k := by
  have hc : ∀ f, (s.withExit e k).change f = (s.change f).withExit e k := by
    intro f
    simp only [change, isServing_withExit]
    split <;> rfl
  cases x with
  | work => exact absurd rfl hx
  | tick =>
    cases hp : s.phase with
    | accepting =>
      rw [Server.happen, Server.happen, tick_of_accepting hp,
        tick_of_accepting (phase_withExit hp e k)]
      exact wait_withExit e k { s with ticks := s.ticks + 1 }
    | _ => simp only [happen, tick, hp, phase_withExit hp, Phase.followedBy]
  | connect peer =>
    cases hp : s.phase with
    | accepting =>
      simp only [happen, welcome, hp, phase_withExit hp, Phase.followedBy, program, hs hp]
      rfl
    | _ => simp only [happen, welcome, hp, phase_withExit hp, Phase.followedBy]
  | deliver bs => exact hc _
  | hangUp x => exact hc _
  | breakWrites => exact hc _
  | shutDown => rfl

theorem finish_sent_of_idle (hk : s.connection.sink.IsIdle) (o : Outcome) :
    (s.finish o).sent = s.sent := by
  rw [sent, finish_sink]
  split
  · rw [hk.close_eq]
    rfl
  · rfl

structure Stays (s t : Server) : Prop where
  phase : t.phase = s.phase
  progress : t.progress = s.progress
  sent : t.sent = s.sent
  idle : s.connection.sink.IsIdle → t.connection.sink.IsIdle
  ending : s.connection.source.ending.isSome → t.connection.source.ending.isSome

theorem Stays.refl (s : Server) : Stays s s := ⟨rfl, rfl, rfl, id, id⟩

theorem stays_change (f : Connection → Connection)
    (hk : ∀ c, (f c).sink.sent = c.sink.sent ∧ (c.sink.IsIdle → (f c).sink.IsIdle))
    (he : ∀ c, c.source.ending.isSome → (f c).source.ending.isSome) (s : Server) :
    Stays s (s.change f) := by
  unfold change
  split
  · exact ⟨rfl, rfl, (hk _).1, (hk _).2, he _⟩
  · exact .refl s

theorem stays_happen (hp : s.phase ≠ .accepting) {x : Happening} (hx : x ≠ .work) :
    Stays s (s.happen x) := by
  cases x with
  | work => exact absurd rfl hx
  | tick =>
    rw [(happen_eq_self hp).1]
    exact .refl s
  | connect peer =>
    rw [(happen_eq_self hp).2]
    exact .refl s
  | deliver bs =>
    refine stays_change (Connection.deliver bs) (fun c => ⟨rfl, id⟩) ?_ s
    intro c hc
    simp only [Connection.deliver, TextSource.deliver, hc, if_true]
  | hangUp e =>
    refine stays_change (Connection.hangUp e) (fun c => ⟨rfl, fun h => ⟨h.1, h.2⟩⟩) ?_ s
    intro c hc
    simp only [Connection.hangUp, TextSource.hangUp, hc, if_true]
  | breakWrites =>
    exact stays_change Connection.breakWrites (fun c => ⟨rfl, fun h => ⟨h.1, h.2⟩⟩) (fun c => id) s
  | shutDown => exact ⟨rfl, rfl, rfl, id, id⟩

theorem sent_happen_of_ended (hp : s.phase = .ended) (x : Happening) :
    (s.happen x).sent = s.sent := by
  by_cases hx : x = .work
  · rw [hx, happen, work_of_ended hp]
  · exact (stays_happen (phase_ne_of_ended hp) hx).sent

structure OnRoute (spec : ServerSpec) (s : Server) : Prop where
  sound : IsSound spec (.ok ()) s
  phase : s.phase ≠ .accepting
  route : ∀ todo, s.phase = .serving todo → todo <:+ handshake ∧ s.connection.sink.IsIdle

variable {spec : ServerSpec} {p : Progress} {w : Bytes} {t : Server}

theorem work_eq_goOn (hp : s.phase = .serving (i :: todo)) (hi : ∀ k, i ≠ .play k) :
    s.work = goOn todo (s.perform i) := by
  simp only [work, hp, firstStep_eq_perform hi]

theorem OnRoute.work (h : OnRoute spec s) : OnRoute spec s.work := by
  have hs : IsSound spec (.ok ()) s.work := sound_happen h.sound .work
  have hended : s.work.phase = .ended → OnRoute spec s.work := by
    intro he
    refine ⟨hs, by simp [he], ?_⟩
    intro todo hp
    rw [he] at hp
    cases hp
  cases hp : s.phase with
  | accepting => exact absurd hp h.phase
  | ended => exact hended (by rw [work_of_ended hp, hp])
  | serving todo =>
    obtain ⟨hsuf, hidle⟩ := h.route todo hp
    cases todo with
    | nil =>
      by_cases hd : s.isShutDown = true
      · apply hended
        simp only [Server.work, hp, if_pos hd]
        exact finish_phase s _
      · have hw : s.work = s := by simp only [Server.work, hp, if_neg hd]
        rwa [hw]
    | cons i todo =>
      have hi := not_play_of_suffix hsuf
      have hr := performs_perform hi s
      have hserving : ∀ {todo'}, s.work.phase = .serving todo' → todo' <:+ handshake →
          s.work.connection.sink.IsIdle → OnRoute spec s.work := by
        intro todo' hq hsuf' hk
        refine ⟨hs, by simp [hq], ?_⟩
        intro l hl
        rw [hq] at hl
        cases hl
        exact ⟨hsuf', hk⟩
      rw [work_eq_goOn hp hi] at hended hserving ⊢
      generalize s.perform i = r at hr hended hserving
      cases hr with
      | done _ _ _ _ hk =>
        exact hserving rfl ((List.suffix_cons i todo).trans hsuf) (hk hidle)
      | leave _ what => exact hended (finish_phase (s.say .info what) _)
      | wait _ => exact hserving rfl hsuf hidle
      | failed _ => exact hended (fail_phase _ _)

theorem OnRoute.happen (h : OnRoute spec s) (x : Happening) : OnRoute spec (s.happen x) := by
  by_cases hx : x = .work
  · subst hx
    exact h.work
  · have hst := stays_happen h.phase hx
    refine ⟨sound_happen h.sound x, hst.phase ▸ h.phase, ?_⟩
    intro todo hp
    obtain ⟨hsuf, hk⟩ := h.route todo (hst.phase ▸ hp)
    exact ⟨hsuf, hst.idle hk⟩

/-- The run with the exit point `e` goes with the run without, which has yet to get to `p`. -/
structure Ahead (spec : ServerSpec) (e : ExitPoint) (k : Option Script) (p : Progress)
    (s t : Server) : Prop where
  onRoute : OnRoute spec s
  eq : t = s.withExit e k
  before : s.progress.rank < p.rank

/-- The run with the exit point `e` is about to leave, having sent `w`. -/
structure Due (spec : ServerSpec) (e : ExitPoint) (k : Option Script) (w : Bytes)
    (s t : Server) : Prop where
  onRoute : OnRoute spec s
  eq : t = s.withExit e k
  phase : ∃ todo, s.phase = .serving (.exitAt e :: todo)
  sent : s.sent = w

structure LeftAt (p : Progress) (w : Bytes) (t : Server) : Prop where
  phase : t.phase = .ended
  outcome : t.outcome = .exited
  progress : t.progress = p
  error : t.error = none
  sent : t.sent = w

theorem ne_exitAt_of_due (he : e.stage = some p) {q : Progress} (hq : q.rank < p.rank)
    (hi : i.IsDue spec q) : i ≠ .exitAt e := by
  rintro rfl
  obtain rfl : p = q := Option.some.inj (he.symm.trans hi)
  exact absurd hq (Nat.lt_irrefl _)

theorem Ahead.work (hspec : spec.exitPoint = .noExit) (he : e.stage = some p)
    (h : Ahead spec e k p s t) :
    Ahead spec e k p s.work t.work ∨
      (Due spec e k s.work.sent s.work t.work ∧ s.work.progress = p) := by
  obtain ⟨ho, rfl, hb⟩ := h
  cases hp : s.phase with
  | accepting => exact absurd hp ho.phase
  | ended =>
    left
    rw [work_of_ended hp, work_of_ended (phase_withExit hp e k)]
    exact ⟨ho, rfl, hb⟩
  | serving todo =>
    obtain ⟨hs, -, -, hord, -, -⟩ := ho.sound.serving hp
    cases todo with
    | nil =>
      -- the end of the route lies behind every stage
      have hl : s.progress = spec.lastProgress := hord
      rw [hl, ServerSpec.lastProgress] at hb
      exfalso
      cases e <;> cases he <;> revert hb <;> split <;> decide
    | cons i todo =>
      obtain ⟨hsuf, -⟩ := ho.route _ hp
      obtain ⟨hdue, -⟩ := hord
      have hi := not_play_of_suffix hsuf
      have hn : i ≠ .exitAt s.spec.exitPoint := by
        rw [hs, hspec]
        exact not_noExit_of_suffix hsuf
      have hw := work_withExit (k := k) hp hi (ne_exitAt_of_due he hb hdue) hn
      have hwork := ho.work
      have hr := performs_perform hi s
      rw [hw]
      rw [work_eq_goOn hp hi] at hwork ⊢
      generalize s.perform i = r at hr hwork
      cases hr with
      | @done t _ _ hq _ _ =>
        rcases hq with hq | rfl
        · exact .inl ⟨hwork, rfl, by rw [← hq] at hb; exact hb⟩
        · -- a stage that is got to is the next one, so `p` is not passed over
          have hq : t.progress.rank = s.progress.rank + 1 := hdue
          by_cases hlt : t.progress.rank < p.rank
          · exact .inl ⟨hwork, rfl, hlt⟩
          · obtain rfl : t.progress = p := Progress.eq_of_rank_eq (by omega)
            obtain ⟨todo', rfl⟩ := exitAt_of_reach he hsuf
            exact .inr ⟨⟨hwork, rfl, ⟨todo', rfl⟩, rfl⟩, rfl⟩
      | leave hx _ => exact absurd hx hn
      | wait _ => exact .inl ⟨hwork, rfl, hb⟩
      | @failed t f hq =>
        -- both fail, and with nothing more to come the one stays ahead for good
        refine .inl ⟨hwork, rfl, ?_⟩
        rw [← hq] at hb
        exact (fail_unchanged t f).1 ▸ hb

theorem Ahead.happen (hspec : spec.exitPoint = .noExit) (he : e.stage = some p)
    (h : Ahead spec e k p s t) (x : Happening) :
    Ahead spec e k p (s.happen x) (t.happen x) ∨
      (Due spec e k (s.happen x).sent (s.happen x) (t.happen x) ∧ (s.happen x).progress = p) := by
  by_cases hx : x = .work
  · subst hx
    exact h.work hspec he
  · obtain ⟨ho, rfl, hb⟩ := h
    have hst := stays_happen ho.phase hx
    exact .inl ⟨ho.happen x, happen_withExit hx (absurd · ho.phase) e k, hst.progress ▸ hb⟩

theorem Due.work (he : e.stage = some p) (h : Due spec e k w s t) : LeftAt p w t.work := by
  obtain ⟨ho, rfl, ⟨todo, hp⟩, rfl⟩ := h
  obtain ⟨-, -, hn, ⟨hdue, -⟩, -, -⟩ := ho.sound.serving hp
  obtain ⟨-, hk⟩ := ho.route _ hp
  have hq : some s.progress = some p := hdue.symm.trans he
  have hw : (s.withExit e k).work =
      ((s.withExit e k).say .info (text "exiting at " ++ e.name)).finish .exited := by
    have hp' : (s.withExit e k).phase = .serving (.exitAt e :: (todo ++ scripted k)) :=
      phase_withExit hp e k
    have he' : (s.withExit e k).spec.exitPoint = e := rfl
    rw [work_eq_goOn hp' nofun, perform, if_pos he']
    rfl
  have hs := finish_sent_of_idle (s := (s.withExit e k).say .info (text "exiting at " ++ e.name)) hk
    .exited
  rw [hw]
  obtain ⟨c, l, hf⟩ := finish_eq ((s.withExit e k).say .info (text "exiting at " ++ e.name)) .exited
  rw [hf] at hs ⊢
  exact ⟨rfl, rfl, Option.some.inj hq, hn, hs⟩

theorem Due.happen (he : e.stage = some p) (h : Due spec e k w s t) (x : Happening) :
    Due spec e k w (s.happen x) (t.happen x) ∨ LeftAt p w (t.happen x) := by
  by_cases hx : x = .work
  · subst hx
    exact .inr (h.work he)
  · obtain ⟨ho, rfl, ⟨todo, hp⟩, hw⟩ := h
    have hst := stays_happen ho.phase hx
    exact .inl ⟨ho.happen x, happen_withExit hx (absurd · ho.phase) e k,
      ⟨todo, hst.phase.trans hp⟩, hst.sent.trans hw⟩

theorem LeftAt.happen (h : LeftAt p w t) (x : Happening) : LeftAt p w (t.happen x) := by
  obtain ⟨hp, ho, hq, he, hs⟩ := h
  obtain ⟨hp', hsum⟩ := happen_of_ended hp x
  simp only [summary, Summary.mk.injEq] at hsum
  exact ⟨hp', hsum.2.2.1.trans ho, hsum.2.1.trans hq, hsum.2.2.2.trans he,
    (sent_happen_of_ended hp x).trans hs⟩

def Reaches (p : Progress) (s : Server) (hs : List Happening) (t : Server) : Prop :=
  ∃ ks x ls, hs = ks ++ x :: ls ∧ (s.after ks).progress ≠ p ∧ (s.after ks).happen x = t ∧
    t.progress = p

theorem rank_le_after {bound : Except Fault Unit} (h : IsSound spec bound s)
    (hs : List Happening) : s.progress.rank ≤ (s.after hs).progress.rank := by
  induction hs generalizing s with
  | nil => exact Nat.le_refl _
  | cons x hs ih => exact (rank_le_happen h x).trans (ih (sound_happen h x))

theorem Reaches.rank_le {bound : Except Fault Unit} (h : IsSound spec bound s)
    {hs : List Happening} {u : Server} (hu : s.Reaches p hs u) :
    p.rank ≤ (s.after hs).progress.rank := by
  obtain ⟨ks, x, ls, rfl, -, rfl, rfl⟩ := hu
  rw [after_append, after_cons]
  exact rank_le_after (sound_happen (sound_after h ks) x) ls

theorem Ahead.after (hspec : spec.exitPoint = .noExit) (he : e.stage = some p)
    (h : Ahead spec e k p s t) (hs : List Happening) :
    Ahead spec e k p (s.after hs) (t.after hs) ∨ ∃ u, s.Reaches p hs u := by
  induction hs using List.reverseRecOn with
  | nil => exact .inl h
  | append_singleton hs x ih =>
    rcases ih with ih | ⟨u, ks, y, ls, rfl, hu⟩
    · rcases ih.happen hspec he x with ha | ⟨-, hp⟩
      · left
        rw [after_append, after_append]
        exact ha
      · right
        have hn : (s.after hs).progress ≠ p := by
          intro hn
          exact absurd ih.before (by rw [hn]; exact Nat.lt_irrefl _)
        exact ⟨_, hs, x, [], rfl, hn, rfl, hp⟩
    · exact .inr ⟨u, ks, y, ls ++ [x], by simp, hu⟩

theorem Due.after (he : e.stage = some p) (h : Due spec e k w s t) (hs : List Happening) :
    Due spec e k w (s.after hs) (t.after hs) ∨ LeftAt p w (t.after hs) := by
  induction hs using List.reverseRecOn with
  | nil => exact .inl h
  | append_singleton hs x ih =>
    rw [after_append, after_append]
    rcases ih with ih | ih
    · exact ih.happen he x
    · exact .inr (ih.happen x)

theorem Ahead.reaches (hspec : spec.exitPoint = .noExit) (he : e.stage = some p)
    (h : Ahead spec e k p s t) {hs : List Happening} {u : Server} (hu : s.Reaches p hs u) :
    Due spec e k u.sent (s.after hs) (t.after hs) ∨ LeftAt p u.sent (t.after hs) := by
  obtain ⟨ks, x, ls, rfl, hn, rfl, hp⟩ := hu
  have hk : IsSound spec (.ok ()) (s.after ks) := sound_after h.onRoute.sound ks
  have hle : (s.after ks).progress.rank ≤ p.rank := by
    rw [← hp]
    exact rank_le_happen hk x
  have ha : Ahead spec e k p (s.after ks) (t.after ks) := by
    rcases h.after hspec he ks with ha | ⟨v, hv⟩
    · exact ha
    · -- a progress that was reached before is not left and reached again
      have hge := hv.rank_le h.onRoute.sound
      exact absurd (Progress.eq_of_rank_eq (Nat.le_antisymm hle hge)) hn
  rw [after_append, after_cons, after_append, after_cons]
  rcases ha.happen hspec he x with hb | ⟨hd, -⟩
  · have hlt := hb.before
    rw [hp] at hlt
    exact absurd hlt (Nat.lt_irrefl _)
  · exact hd.after he ls

theorem after_replicate_of_fixed (h : s.work = s) (n : Nat) :
    s.after (List.replicate n .work) = s := by
  induction n with
  | zero => rfl
  | succ n ih =>
    rw [List.replicate_succ, after_cons]
    change (s.work).after _ = s
    rwa [h]

theorem resume_eq_of_ended {n : Nat}
    (h : (s.after (List.replicate n .work)).phase = .ended) :
    s.resume = s.after (List.replicate n .work) := by
  obtain ⟨m, hm⟩ := leads_resume s
  rcases Nat.le_total m n with hle | hle
  · obtain ⟨k, rfl⟩ := Nat.exists_eq_add_of_le hle
    rw [← List.replicate_append_replicate, after_append, hm]
    exact (after_replicate_of_fixed (work_resume s) k).symm
  · obtain ⟨k, rfl⟩ := Nat.exists_eq_add_of_le hle
    rw [← hm, ← List.replicate_append_replicate, after_append]
    exact after_replicate_of_fixed (work_of_ended h) k

theorem run_phase_ended {more : List Instruction} (hsuf : todo <:+ handshake)
    (he : s.connection.source.ending.isSome) (hx : .exitAt s.spec.exitPoint ∈ todo) :
    (s.run (todo ++ more)).phase = .ended := by
  induction todo generalizing s with
  | nil => cases hx
  | cons i todo ih =>
    have hr := performs_perform (not_play_of_suffix hsuf) s
    rw [List.cons_append, run]
    generalize s.perform i = r at hr
    cases hr with
    | done hs hpass _ hend _ =>
      refine ih ((List.suffix_cons i todo).trans hsuf) (hend ▸ he) ?_
      rw [hs]
      exact (List.mem_cons.1 hx).resolve_left (Ne.symm hpass)
    | leave _ what => exact finish_phase (s.say .info what) _
    | wait hn =>
      rw [hn] at he
      cases he
    | failed _ => exact fail_phase _ _

theorem OnRoute.ending_work (h : OnRoute spec s) (he : s.connection.source.ending.isSome) :
    s.work.phase = .ended ∨ s.work.connection.source.ending.isSome := by
  cases hp : s.phase with
  | accepting => exact absurd hp h.phase
  | ended =>
    rw [work_of_ended hp]
    exact .inl hp
  | serving todo =>
    cases todo with
    | nil =>
      simp only [Server.work, hp]
      split
      · exact .inl (finish_phase s _)
      · exact .inr he
    | cons i todo =>
      have hi := not_play_of_suffix (h.route _ hp).1
      have hr := performs_perform hi s
      rw [work_eq_goOn hp hi]
      generalize s.perform i = r at hr
      cases hr with
      | @done t _ _ _ hend _ =>
        right
        change t.connection.source.ending.isSome = true
        rwa [hend]
      | leave _ what => exact .inl (finish_phase (s.say .info what) _)
      | wait _ => exact .inr he
      | failed _ => exact .inl (fail_phase _ _)

theorem OnRoute.ending_happen (h : OnRoute spec s) (he : s.connection.source.ending.isSome)
    (x : Happening) :
    (s.happen x).phase = .ended ∨ (s.happen x).connection.source.ending.isSome := by
  by_cases hx : x = .work
  · subst hx
    exact h.ending_work he
  · exact .inr ((stays_happen h.phase hx).ending he)

theorem OnRoute.ending_after (h : OnRoute spec s) {hs : List Happening}
    (he : s.phase = .ended ∨ s.connection.source.ending.isSome ∨ (incoming hs).2.isSome) :
    (s.after hs).phase = .ended ∨ (s.after hs).connection.source.ending.isSome := by
  induction hs generalizing s with
  | nil =>
    rcases he with he | he | he
    · exact .inl he
    · exact .inr he
    · cases he
  | cons x hs ih =>
    refine ih (h.happen x) ?_
    rcases he with he | he | he
    · exact .inl (happen_of_ended he x).1
    · rcases h.ending_happen he x with he | he
      · exact .inl he
      · exact .inr (.inl he)
    · cases x with
      | hangUp e =>
        cases hp : s.phase with
        | accepting => exact absurd hp h.phase
        | ended => exact .inl (happen_of_ended hp _).1
        | serving todo =>
          right; left
          have hv : s.isServing = true := by simp only [Server.isServing, hp]
          simp only [Server.happen, change, hv, if_true, Connection.hangUp, TextSource.hangUp]
          split
          · next hs => exact hs
          · rfl
      | _ => exact .inr (.inr he)

theorem goOn_phase_ne (todo : List Instruction) (r : Performed × Server) :
    (goOn todo r).phase ≠ .accepting := by
  obtain ⟨_ | _ | _ | _, s⟩ := r
  · exact phase_ne_of_serving rfl
  · exact phase_ne_of_ended (finish_phase ..)
  · exact phase_ne_of_serving rfl
  · exact phase_ne_of_ended (fail_phase ..)

theorem phase_ne_happen (hp : s.phase ≠ .accepting) (x : Happening) :
    (s.happen x).phase ≠ .accepting := by
  by_cases hx : x = .work
  · subst hx
    simp only [Server.happen, Server.work]
    split
    · split
      · exact phase_ne_of_ended (finish_phase ..)
      · exact hp
    · exact goOn_phase_ne _ _
    · exact hp
  · exact (stays_happen hp hx).phase ▸ hp

theorem after_withExit {bound : Except Fault Unit} (h : IsSound spec bound s)
    (hsc : spec.script = none) {hs : List Happening} (hp : (s.after hs).phase = .accepting)
    (e : ExitPoint) (k : Option Script) :
    (s.withExit e k).after hs = (s.after hs).withExit e k := by
  induction hs using List.reverseRecOn with
  | nil => rfl
  | append_singleton hs x ih =>
    rw [after_append] at hp
    rw [after_append, after_append]
    have hb : (s.after hs).phase = .accepting := by
      by_contra hb
      exact phase_ne_happen hb x hp
    rw [ih hb]
    by_cases hx : x = .work
    · have hw : ∀ {t : Server}, t.phase = .accepting → t.after [.work] = t := by
        intro t ht
        simp only [Server.after, List.foldl, Server.happen, Server.work, ht]
      subst hx
      rw [hw hb, hw (phase_withExit hb e k)]
    · have hspec := ((sound_after h hs).accepting hb).spec_eq
      exact happen_withExit hx (fun _ => by rw [hspec, hsc]) e k

theorem start_uncut (spec : ServerSpec) :
    start spec (.ok ()) = (start spec.uncut (.ok ())).withExit spec.exitPoint spec.script :=
  wait_withExit spec.exitPoint spec.script (say .info (text "started") { spec := spec.uncut })

theorem ahead_welcome (h : IsSound spec (.ok ()) s) (hsc : spec.script = none)
    (hp : s.phase = .accepting) (he : e.stage = some p) (k : Option Script) (peer : Nat) :
    Ahead spec e k p (s.happen (.connect peer)) ((s.withExit e k).happen (.connect peer)) := by
  obtain ⟨hspec, -, -, -, hn⟩ := h.accepting hp
  have hs := sound_happen h (.connect peer)
  have hw : s.happen (.connect peer) = ({ s with peer := some peer, connection := {} }.say .info
      (text "got client " ++ peerName peer)).inPhase (.serving handshake) := by
    rw [Server.happen, welcome_of_accepting hp, program, hspec, hsc, scripted, List.append_nil]
  refine ⟨?_, happen_withExit (x := .connect peer) (by simp) (fun _ => by rw [hspec, hsc]) e k, ?_⟩
  · rw [hw] at hs ⊢
    refine ⟨hs, phase_ne_of_serving rfl, ?_⟩
    intro todo ht
    obtain rfl : handshake = todo := Phase.serving.inj ht
    exact ⟨List.suffix_refl _, rfl, rfl⟩
  · rw [hw]
    change s.progress.rank < p.rank
    rw [hn]
    cases e <;> cases he <;> decide

theorem Ahead.resume_phase {spec' : ServerSpec} (he : spec'.exitPoint.stage = some p)
    (h : Ahead spec spec'.exitPoint k p s t) (ht : IsSound spec' (.ok ()) t)
    (hend : s.phase = .ended ∨ s.connection.source.ending.isSome) : t.resume.phase = .ended := by
  obtain ⟨ho, rfl, -⟩ := h
  cases hp : s.phase with
  | accepting => exact absurd hp ho.phase
  | ended =>
    have hp' : (s.withExit spec'.exitPoint k).phase = .ended := phase_withExit hp _ _
    simp only [Server.resume, hp']
  | serving todo =>
    have hp' := phase_withExit hp spec'.exitPoint k
    obtain ⟨-, -, -, -, hahead, -⟩ := ht.serving hp'
    have hx : .exitAt spec'.exitPoint ∈ todo := by
      rcases hahead with hx | hx
      · rw [hx] at he
        cases he
      · rcases List.mem_append.1 hx with hx | hx
        · exact hx
        · cases k <;> simp [scripted] at hx
    simp only [Server.resume, hp', Phase.followedBy]
    refine run_phase_ended (ho.route todo hp).1 ?_ hx
    exact hend.resolve_left (by simp [hp])

/-- A run with an exit point leaves at its stage just when the run without one gets there, with
the bytes that have then been sent, and otherwise ends as that run does. -/
theorem exit_cuts_run_short (spec : ServerSpec) (he : spec.exitPoint.stage = some p)
    (before rest : List Happening) (peer : Nat)
    (hp : ((start spec.uncut (.ok ())).after before).phase = .accepting)
    (hend : (incoming rest).2.isSome) :
    let short := ((start spec (.ok ())).after (before ++ .connect peer :: rest)).resume
    let met := (start spec.uncut (.ok ())).after (before ++ [.connect peer])
    let full := (met.after rest).resume
    short.phase = .ended ∧
      (∀ n u, met.Reaches p (rest ++ List.replicate n .work) u → LeftAt p u.sent short) ∧
      ((∀ n u, ¬ met.Reaches p (rest ++ List.replicate n .work) u) →
        full.phase = .ended ∧ short.summary = full.summary ∧ short.sent = full.sent) := by
  intro short met full
  have hsound := sound_after (sound_start spec.uncut (.ok ())) before
  have ha := ahead_welcome hsound rfl hp he spec.script peer
  have ht : IsSound spec (.ok ()) ((start spec (.ok ())).after (before ++ [.connect peer])) :=
    sound_after (sound_start spec (.ok ())) _
  have hcut : (start spec (.ok ())).after (before ++ [.connect peer]) =
      (((start spec.uncut (.ok ())).after before).withExit spec.exitPoint spec.script).happen
        (.connect peer) := by
    rw [start_uncut, after_append, after_withExit (sound_start spec.uncut (.ok ())) rfl hp]
    rfl
  have hshort : short =
      (((start spec (.ok ())).after (before ++ [.connect peer])).after rest).resume := by
    simp only [short, ← after_append, List.append_assoc, List.singleton_append]
  have hmet : met = ((start spec.uncut (.ok ())).after before).happen (.connect peer) :=
    after_append _ _ _
  rw [← hcut, ← hmet] at ha
  rw [hshort]
  clear_value met
  generalize (start spec (.ok ())).after (before ++ [.connect peer]) = cut at ha ht ⊢
  have hleft : ∀ n u, met.Reaches p (rest ++ List.replicate n .work) u →
      LeftAt p u.sent (cut.after rest).resume := by
    intro n u hu
    -- one step after the other run has got there, this one has left
    have hl : LeftAt p u.sent ((cut.after rest).after (List.replicate (n + 1) .work)) := by
      rw [List.replicate_succ', after_append, ← after_append cut rest]
      rcases ha.reaches rfl he hu with hd | hl
      · exact hd.work he
      · exact hl.happen .work
    rwa [resume_eq_of_ended hl.phase]
  have hended : (cut.after rest).resume.phase = .ended := by
    rcases ha.after rfl he rest with hr | ⟨u, hu⟩
    · exact hr.resume_phase he (sound_after ht rest) (ha.onRoute.ending_after (.inr (.inr hend)))
    · refine (hleft 0 u ?_).phase
      rwa [List.replicate_zero, List.append_nil]
  refine ⟨hended, hleft, ?_⟩
  intro hnever
  -- as many steps as the run with the exit point takes to end; the other ends with it
  obtain ⟨m, hm⟩ := leads_resume (cut.after rest)
  rcases ha.after rfl he (rest ++ List.replicate m .work) with hr | ⟨u, hu⟩
  · rw [after_append, after_append, hm] at hr
    have hf : ((met.after rest).after (List.replicate m .work)).phase = .ended := by
      have hphase := hended
      rw [hr.eq] at hphase
      revert hphase
      cases hq : ((met.after rest).after (List.replicate m .work)).phase with
      | ended => exact fun _ => rfl
      | _ => rw [phase_withExit hq]; exact nofun
    have hfull : full = (met.after rest).after (List.replicate m .work) := resume_eq_of_ended hf
    rw [hfull, hr.eq]
    exact ⟨hf, rfl, rfl⟩
  · exact absurd hu (hnever m u)

theorem exit_cuts_run_short_ill_formed :
    let spec : ServerSpec := { port := 14220, exitPoint := .afterConnect }
    ((start spec.uncut (.ok ())).after [.tick]).phase = .accepting ∧
      LeftAt .gotConnect Connection.greetingBytes
        ((start spec (.ok ())).after ([.tick] ++ .connect 0 ::
          [.deliver [67, 79, 78], .work, .work, .work, .deliver [78, 69, 67, 84, 10],
            .deliver [255], .hangUp .reset])).resume := by
  refine ⟨by rfl, ?_⟩
  have hl := (exit_cuts_run_short { port := 14220, exitPoint := .afterConnect } rfl [.tick]
    [.deliver [67, 79, 78], .work, .work, .work, .deliver [78, 69, 67, 84, 10], .deliver [255],
      .hangUp .reset] 0 (by rfl) rfl).2.1
  exact hl 4 _ ⟨[.deliver [67, 79, 78], .work, .work, .work, .deliver [78, 69, 67, 84, 10],
    .deliver [255], .hangUp .reset, .work, .work, .work], .work, [], rfl, by decide, by rfl,
    by decide⟩

end Server

end LineHandshake
