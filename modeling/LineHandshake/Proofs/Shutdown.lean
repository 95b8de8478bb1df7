import LineHandshake.Proofs.EarlyExit

/-!
When the shutdown is signalled. A server that has its client looks at the signal in its final wait
only, so a run with any number of signals goes as the run without them up to there. It then ends
as if the one signal had come last, unless writing breaks in the final wait while text of the
script waits to be sent: what is signalled before that is sent, what is signalled after it is not.
-/

namespace LineHandshake

namespace TextSink

variable {k : TextSink}

theorem close_sent (h : k.isOpen = false ∨ k.IsIdle) : k.close.2.sent = k.sent := by
  rcases h with h | h
  · simp only [close, h, Bool.false_eq_true, if_false]
  · rw [h.close_eq]

theorem close_sent_of_break (h : k.isOpen = true → k.isBroken = false → k.IsIdle) :
    { k with isBroken := true }.close.2.sent = k.close.2.sent := by
  have hclosed (hk : k.isOpen = false ∨ k.IsIdle) :
      { k with isBroken := true }.close.2.sent = k.close.2.sent := by
    rw [close_sent hk]
    exact close_sent (k := { k with isBroken := true }) (hk.imp_right fun hi => ⟨hi.1, hi.2⟩)
  by_cases ho : k.isOpen = true
  · by_cases hb : k.isBroken = true
    · obtain ⟨gathered, stored, sent, isBroken, isOpen⟩ := k
      cases hb
      rfl
    · exact hclosed (.inr (h ho (Bool.not_eq_true _ ▸ hb)))
  · exact hclosed (.inl (Bool.not_eq_true _ ▸ ho))

end TextSink

theorem Connection.hangUp_sink (e : Ending) (c : Connection) :
    (c.hangUp e).sink = c.sink ∨ (c.hangUp e).sink = { c.sink with isBroken := true } := by
  unfold hangUp
  cases c.source.ending.isNone && decide (e = .reset) with
  | true => exact .inr (by rw [Bool.or_true])
  | false => exact .inl (by rw [Bool.or_false])

def unsignalled (hs : List Happening) : List Happening := hs.filter (· ≠ .shutDown)

namespace Server

def signalled (s : Server) : Server := { s with isShutDown := true }

variable {s t : Server} {x : Happening}

theorem exchange_signalled {α : Type} (i : Instruction) (x : Connection.Exchange α) (s : Server) :
    s.signalled.exchange i x = ((s.exchange i x).1, (s.exchange i x).2.signalled) := by
  have hc : s.signalled.onConnection x =
      ((s.onConnection x).1, (s.onConnection x).2.signalled) := rfl
  simp only [exchange, hc]
  generalize s.onConnection x = r
  obtain ⟨(_ | _) | _, t⟩ := r <;> rfl

theorem act_signalled (a : Action) (s : Server) :
    s.signalled.act a = ((s.act a).1, (s.act a).2.signalled) := by
  cases a <;> rfl

theorem firstStep_signalled (i : Instruction) (s : Server) :
    s.signalled.firstStep i = ((s.firstStep i).1, (s.firstStep i).2.signalled) := by
  cases i with
  | reach p => rfl
  | exitAt e =>
    simp only [firstStep, perform]
    change (if s.spec.exitPoint = e then _ else _) = _
    split <;> rfl
  | sendInfo => exact exchange_signalled ..
  | awaitConnect => exact exchange_signalled ..
  | awaitPing => exact exchange_signalled ..
  | sendPong => exact exchange_signalled ..
  | play k =>
    cases k with
    | done => rfl
    | raise f => rfl
    | act a next =>
      simp only [firstStep, act_signalled]
      generalize s.act a = r
      obtain ⟨(_ | f) | g, t⟩ := r <;> rfl

theorem release_signalled (s : Server) :
    s.signalled.release = (s.release.1, s.release.2.signalled) := rfl

theorem finish_signalled (s : Server) (o : Outcome) :
    s.signalled.finish o = (s.finish o).signalled := by
  have hr := release_signalled { s with outcome := o, phase := .ended }
  rcases h : release { s with outcome := o, phase := .ended } with ⟨_ | _, t⟩
  · rw [h] at hr
    rw [finish_of_release_error h, finish_of_release_error hr]
  · rw [h] at hr
    rw [finish_of_release h, finish_of_release hr]
    rfl

theorem fail_signalled (s : Server) (f : Fault) :
    s.signalled.fail f = (s.fail f).signalled := by
  cases h : f.isRecorded with
  | true =>
    rw [fail_of_isRecorded h, fail_of_isRecorded h]
    exact finish_signalled ((s.say .warning (failureHeadline f ++ f.message)).noteFault f) _
  | false =>
    rw [fail_of_not_isRecorded h, fail_of_not_isRecorded h]
    rfl

theorem goOn_signalled (todo : List Instruction) (r : Performed × Server) :
    goOn todo (r.1, r.2.signalled) = (goOn todo r).signalled := by
  obtain ⟨_ | _ | _ | f, s⟩ := r
  · rfl
  · exact finish_signalled s _
  · rfl
  · exact fail_signalled s f

/-- A server in its final wait, to which the shutdown was not signalled. -/
structure InFinalWait (s : Server) : Prop where
  phase : s.phase = .serving []
  isShutDown : s.isShutDown = false

theorem work_signalled (hw : ¬ s.InFinalWait) : s.signalled.work = s.work.signalled := by
  have hp : s.signalled.phase = s.phase := rfl
  simp only [work, hp, firstStep_signalled, goOn_signalled]
  split
  · next h =>
    have hd : s.isShutDown = true := by
      cases hd : s.isShutDown with
      | true => rfl
      | false => exact absurd ⟨h, hd⟩ hw
    simp only [hd, signalled, if_true]
    exact finish_signalled s _
  · rfl
  · rfl

theorem happen_signalled (hp : s.phase ≠ .accepting) (hw : x = .work → ¬ s.InFinalWait) :
    s.signalled.happen x = (s.happen x).signalled := by
  have hc (f : Connection → Connection) : s.signalled.change f = (s.change f).signalled := by
    have hv : s.signalled.isServing = s.isServing := rfl
    simp only [change, hv]
    split <;> rfl
  cases x with
  | work => exact work_signalled (hw rfl)
  | tick => rw [(happen_eq_self hp).1, (happen_eq_self (s := s.signalled) hp).1]
  | connect peer => rw [(happen_eq_self hp).2, (happen_eq_self (s := s.signalled) hp).2]
  | deliver bs => exact hc _
  | hangUp e => exact hc _
  | breakWrites => exact hc _
  | shutDown => rfl

theorem InFinalWait.shutDown_eq (h : s.InFinalWait) :
    s.shutDown = s.signalled.finish .completed := by
  have hp : s.signalled.phase = .serving [] := h.phase
  change s.signalled.resume = _
  simp only [resume, hp]
  rfl

theorem InFinalWait.work_signalled (h : s.InFinalWait) : s.signalled.work = s.shutDown := by
  have hp : s.signalled.phase = .serving [] := h.phase
  rw [h.shutDown_eq]
  simp only [work, hp]
  rfl

theorem happen_of_ended_of_isShutDown (hp : t.phase = .ended) (hd : t.isShutDown = true)
    (x : Happening) : t.happen x = t := by
  have hv : t.isServing = false := by simp only [Server.isServing, hp]
  cases x with
  | shutDown =>
    change { t with isShutDown := true } = t
    rw [← hd]
  | _ => simp [happen, work, tick, welcome, change, hp, hv]

theorem after_of_ended_of_isShutDown (hp : t.phase = .ended) (hd : t.isShutDown = true)
    (hs : List Happening) : t.after hs = t := by
  induction hs with
  | nil => rfl
  | cons x hs ih => rwa [after_cons, happen_of_ended_of_isShutDown hp hd]

theorem InFinalWait.shutDown_happen (h : s.InFinalWait) (x : Happening) :
    s.shutDown.happen x = s.shutDown := by
  rw [h.shutDown_eq]
  exact happen_of_ended_of_isShutDown (finish_phase ..) (finish_unchanged ..).2 x

theorem phase_ne_after (hp : s.phase ≠ .accepting) (hs : List Happening) :
    (s.after hs).phase ≠ .accepting := by
  induction hs generalizing s with
  | nil => exact hp
  | cons x hs ih => exact ih (phase_ne_happen hp x)

theorem after_signalled (hp : s.phase ≠ .accepting) (hs : List Happening) :
    s.signalled.after hs = (s.after (unsignalled hs)).signalled ∨
      ∃ before after, unsignalled hs = before ++ after ∧ (s.after before).InFinalWait ∧
        s.signalled.after hs = (s.after before).shutDown := by
  induction hs using List.reverseRecOn with
  | nil => exact .inl rfl
  | append_singleton hs x ih =>
    rw [after_append, unsignalled, List.filter_append, ← unsignalled]
    by_cases hx : x = .shutDown
    · subst hx
      rw [List.filter_cons_of_neg (by simp), List.filter_nil, List.append_nil]
      rcases ih with ih | ⟨before, after, he, hw, ht⟩
      · left
        rw [ih]
        rfl
      · refine .inr ⟨before, after, he, hw, ?_⟩
        rw [ht]
        exact hw.shutDown_happen .shutDown
    · rw [List.filter_cons_of_pos (by simpa using hx), List.filter_nil]
      rcases ih with ih | ⟨before, after, he, hw, ht⟩
      · rw [ih, after_append]
        by_cases hw : x = .work ∧ (s.after (unsignalled hs)).InFinalWait
        · exact .inr ⟨unsignalled hs, [x], rfl, hw.2, hw.1 ▸ hw.2.work_signalled⟩
        · exact .inl (happen_signalled (phase_ne_after hp _) fun hx hf => hw ⟨hx, hf⟩)
      · refine .inr ⟨before, after ++ [x], by rw [he, List.append_assoc], hw, ?_⟩
        rw [ht]
        exact hw.shutDown_happen x

structure Owes (s : Server) : Prop where
  wait : s.InFinalWait
  isOpen : s.connection.sink.isOpen = true
  isBroken : s.connection.sink.isBroken = false
  pending : ¬ s.connection.sink.IsIdle

/-- Writing does not break while a server in its final wait still has text to send. -/
def Calm (s : Server) (hs : List Happening) : Prop :=
  ∀ before x after, hs = before ++ x :: after → (s.after before).Owes →
    ((s.after before).happen x).connection.sink.isBroken = false

theorem InFinalWait.happen_eq (h : s.InFinalWait) (hx : x ≠ .shutDown) :
    ∃ c, s.happen x = { s with connection := c } ∧ (c.sink = s.connection.sink ∨
      c.sink = { s.connection.sink with isBroken := true }) := by
  obtain ⟨hp, hd⟩ := h
  have hn := phase_ne_of_serving hp
  have hc (f : Connection → Connection) :
      s.change f = { s with connection := f s.connection } := by
    simp only [change, isServing, hp, if_true]
  cases x with
  | shutDown => exact absurd rfl hx
  | work =>
    have hw : s.work = s := by
      simp only [Server.work, hp]
      exact if_neg (Bool.not_eq_true _ ▸ hd)
    exact ⟨s.connection, hw, .inl rfl⟩
  | tick => exact ⟨s.connection, (happen_eq_self hn).1, .inl rfl⟩
  | connect peer => exact ⟨s.connection, (happen_eq_self hn).2 peer, .inl rfl⟩
  | deliver bs => exact ⟨_, hc _, .inl rfl⟩
  | breakWrites => exact ⟨_, hc _, .inr rfl⟩
  | hangUp e => exact ⟨_, hc _, Connection.hangUp_sink e _⟩

theorem InFinalWait.close_sent_happen (h : s.InFinalWait) (hx : x ≠ .shutDown)
    (hb : s.Owes → (s.happen x).connection.sink.isBroken = false) :
    (s.happen x).connection.sink.close.2.sent = s.connection.sink.close.2.sent := by
  obtain ⟨c, he, hk⟩ := h.happen_eq hx
  rw [he] at hb ⊢
  dsimp only at hb ⊢
  rcases hk with hk | hk
  · rw [hk]
  · rw [hk]
    refine TextSink.close_sent_of_break fun ho hn => ?_
    by_contra hi
    have hc := hb ⟨h, ho, hn, hi⟩
    rw [hk] at hc
    cases hc

theorem InFinalWait.after (h : s.InFinalWait) {hs : List Happening} (hs' : .shutDown ∉ hs) :
    ∃ c, s.after hs = { s with connection := c } ∧ c.sink.sent = s.sent ∧
      (s.Calm hs → c.sink.close.2.sent = s.connection.sink.close.2.sent) := by
  induction hs using List.reverseRecOn with
  | nil => exact ⟨s.connection, rfl, rfl, fun _ => rfl⟩
  | append_singleton hs x ih =>
    rw [List.mem_append, List.mem_singleton, not_or] at hs'
    obtain ⟨c, he, hk, hclose⟩ := ih hs'.1
    have hw : (s.after hs).InFinalWait := by
      rw [he]
      exact ⟨h.phase, h.isShutDown⟩
    obtain ⟨c', he', hk'⟩ := hw.happen_eq (Ne.symm hs'.2)
    rw [after_append]
    refine ⟨c', ?_, ?_, fun hcalm => ?_⟩
    · change (s.after hs).happen x = _
      rw [he', he]
    · rw [he] at hk'
      rcases hk' with hk' | hk' <;> exact (congrArg TextSink.sent hk').trans hk
    · have hstep := hw.close_sent_happen (Ne.symm hs'.2) (hcalm hs x [] rfl)
      rw [he', he] at hstep
      refine hstep.trans (hclose fun before y after hy => hcalm before y (after ++ [x]) ?_)
      rw [hy, List.append_assoc, List.cons_append]

theorem InFinalWait.shutDown_phase (h : s.InFinalWait) : s.shutDown.phase = .ended := by
  rw [h.shutDown_eq, finish_phase]

theorem InFinalWait.shutDown_summary (h : s.InFinalWait) :
    s.shutDown.summary = ⟨s.spec.asked, s.progress, .completed, s.error⟩ := by
  obtain ⟨c, l, hf⟩ := finish_eq s.signalled .completed
  rw [h.shutDown_eq, hf]
  rfl

theorem InFinalWait.shutDown_sent (h : s.InFinalWait) :
    s.shutDown.sent = if s.peer.isSome then s.connection.sink.close.2.sent else s.sent := by
  rw [h.shutDown_eq, Server.sent, finish_sink]
  exact apply_ite TextSink.sent _ _ _

theorem resume_signalled_after (hp : s.phase ≠ .accepting) (hs : List Happening) :
    let last := (s.after (unsignalled hs)).shutDown
    let t := (s.signalled.after hs).resume
    t.summary = last.summary ∧ (t.phase = .ended ↔ last.phase = .ended) ∧
      (s.Calm (unsignalled hs) → t.sent = last.sent) := by
  intro last t
  rcases after_signalled hp hs with he | ⟨before, after, hu, hw, he⟩
  · have ht : t = last := congrArg resume he
    rw [ht]
    exact ⟨rfl, .rfl, fun _ => rfl⟩
  · have ht : t = (s.after before).shutDown := by
      change (s.signalled.after hs).resume = _
      rw [he]
      simp only [resume, hw.shutDown_phase]
    have hn : .shutDown ∉ after := by
      have hu' : .shutDown ∉ unsignalled hs := by simp [unsignalled]
      rw [hu] at hu'
      exact fun hm => hu' (List.mem_append_right _ hm)
    obtain ⟨c, hc, hk, hclose⟩ := hw.after hn
    have hl : last = ({ s.after before with connection := c } : Server).shutDown := by
      rw [← hc, ← after_append, ← hu]
    have hw' : ({ s.after before with connection := c } : Server).InFinalWait :=
      ⟨hw.phase, hw.isShutDown⟩
    rw [ht, hl]
    refine ⟨?_, ?_, fun hcalm => ?_⟩
    · rw [hw.shutDown_summary, hw'.shutDown_summary]
    · exact iff_of_true hw.shutDown_phase hw'.shutDown_phase
    · have hcalm' : (s.after before).Calm after := fun x y z he => by
        rw [← after_append]
        exact hcalm (before ++ x) y z (by rw [hu, he, List.append_assoc])
      rw [hw.shutDown_sent, hw'.shutDown_sent]
      exact congr (congrArg _ (hclose hcalm').symm) hk.symm

theorem resume_after_eq (hp : s.phase ≠ .accepting) {hs : List Happening} (hm : .shutDown ∈ hs) :
    let last := (s.after (unsignalled hs)).shutDown
    let t := (s.after hs).resume
    t.summary = last.summary ∧ (t.phase = .ended ↔ last.phase = .ended) ∧
      (s.Calm (unsignalled hs) → t.sent = last.sent) := by
  -- up to the first signal the runs are one
  obtain ⟨before, after, rfl, hn⟩ := List.eq_append_cons_of_mem hm
  have hb : unsignalled before = before :=
    List.filter_eq_self.2 fun x hx => decide_eq_true fun he => hn (he ▸ hx)
  have hu : unsignalled (before ++ .shutDown :: after) = before ++ unsignalled after := by
    rw [unsignalled, List.filter_append, ← unsignalled, hb, List.filter_cons_of_neg (by simp)]
    rfl
  have hs : s.after (before ++ .shutDown :: after) = (s.after before).signalled.after after := by
    rw [after_append]
    rfl
  obtain ⟨hsum, hph, hsent⟩ := resume_signalled_after (phase_ne_after hp before) after
  rw [← after_append, ← hu, ← hs] at hsum hph hsent
  refine ⟨hsum, hph, fun hcalm => hsent fun x y z he => ?_⟩
  rw [← after_append]
  exact hcalm (before ++ x) y z (by rw [hu, he, List.append_assoc])

structure IsUntouched (s : Server) : Prop where
  peer : s.peer = none
  connection : s.connection = {}

theorem phase_of_happen (hp : (s.happen x).phase = .accepting) : s.phase = .accepting := by
  by_contra h
  exact phase_ne_happen h x hp

theorem wait_untouched (h : s.IsUntouched) (hp : s.wait.phase = .accepting) :
    s.wait.IsUntouched := by
  unfold wait at hp ⊢
  split at hp
  · rw [fail_phase] at hp
    cases hp
  · next hl =>
    rw [if_neg hl]
    split at hp
    · rw [finish_phase] at hp
      cases hp
    · next hd =>
      rw [if_neg hd]
      exact h

theorem untouched_happen (h : s.IsUntouched) (hp : (s.happen x).phase = .accepting) :
    (s.happen x).IsUntouched := by
  have hs := phase_of_happen hp
  have hc (f : Connection → Connection) : (s.change f).IsUntouched := by
    simp only [change, isServing, hs]
    exact h
  cases x with
  | work =>
    simp only [Server.happen, Server.work, hs]
    exact h
  | tick =>
    rw [Server.happen, tick_of_accepting hs] at hp ⊢
    exact wait_untouched ⟨h.peer, h.connection⟩ hp
  | connect peer =>
    simp only [Server.happen, welcome, hs] at hp
    cases hp
  | deliver bs => exact hc _
  | hangUp e => exact hc _
  | breakWrites => exact hc _
  | shutDown => exact ⟨h.peer, h.connection⟩

theorem untouched_after (h : s.phase = .accepting → s.IsUntouched) (hs : List Happening)
    (hp : (s.after hs).phase = .accepting) : (s.after hs).IsUntouched := by
  induction hs using List.reverseRecOn with
  | nil => exact h hp
  | append_singleton hs x ih =>
    rw [after_append] at hp ⊢
    exact untouched_happen (ih (phase_of_happen hp)) hp

theorem untouched_start (spec : ServerSpec) (bound : Except Fault Unit)
    (hp : (start spec bound).phase = .accepting) : (start spec bound).IsUntouched := by
  cases bound with
  | error f =>
    rw [start, fail_phase] at hp
    cases hp
  | ok => exact wait_untouched ⟨rfl, rfl⟩ hp

theorem happen_signalled_of_accepting (hp : s.phase = .accepting) (ht : x ≠ .tick)
    (hc : ∀ peer, x ≠ .connect peer) : s.signalled.happen x = s.signalled := by
  have hchange (f : Connection → Connection) : s.signalled.change f = s.signalled := by
    have hv : s.signalled.isServing = false := by simp only [signalled, isServing, hp]
    simp only [change, hv, Bool.false_eq_true, if_false]
  cases x with
  | tick => exact absurd rfl ht
  | work => simp only [happen, work, signalled, hp]
  | connect peer => exact absurd rfl (hc peer)
  | deliver bs => exact hchange _
  | hangUp e => exact hchange _
  | breakWrites => exact hchange _
  | shutDown => rfl

structure IsCancelled (s t : Server) : Prop where
  phase : t.phase = .ended
  isShutDown : t.isShutDown = true
  summary : t.summary = ⟨s.spec.asked, s.progress, .cancelled, s.error⟩
  sent : t.sent = s.sent

theorem tick_signalled (h : s.IsUntouched) (hp : s.phase = .accepting)
    (hl : s.spec.acceptTimeout.isAfter { s with ticks := s.ticks + 1 }.clock = true) :
    s.IsCancelled (s.signalled.happen .tick) := by
  have hw : s.signalled.happen .tick =
      ({ s.signalled with ticks := s.ticks + 1 }.say .info
        (text "closed before any client connected")).finish .cancelled := by
    rw [happen, tick_of_accepting (s := s.signalled) hp, wait]
    change (if !s.spec.acceptTimeout.isAfter { s with ticks := s.ticks + 1 }.clock then _
      else _) = _
    rw [hl]
    rfl
  rw [hw]
  obtain ⟨c, l, hf⟩ := finish_eq ({ s.signalled with ticks := s.ticks + 1 }.say .info
    (text "closed before any client connected")) .cancelled
  refine ⟨finish_phase .., (finish_unchanged ..).2, ?_, ?_⟩
  · rw [hf]
    rfl
  · rw [Server.sent, finish_sink]
    change (if s.peer.isSome then _ else s.connection.sink).sent = _
    rw [h.peer]
    rfl

theorem cancelled_after (h : s.IsUntouched) (hp : s.phase = .accepting)
    (hl : s.spec.acceptTimeout.isAfter { s with ticks := s.ticks + 1 }.clock = true)
    {hs : List Happening} (hc : ∀ peer, .connect peer ∉ hs) (ht : .tick ∈ hs) :
    s.IsCancelled (s.signalled.after hs) := by
  induction hs with
  | nil => cases ht
  | cons x hs ih =>
    rw [after_cons]
    by_cases hx : x = .tick
    · have hcancelled := tick_signalled h hp hl
      rwa [hx, after_of_ended_of_isShutDown hcancelled.phase hcancelled.isShutDown]
    · rw [happen_signalled_of_accepting hp hx fun peer he => hc peer (he ▸ List.mem_cons_self)]
      have ht' : .tick ∈ hs := (List.mem_cons.1 ht).resolve_left (Ne.symm hx)
      exact ih (fun peer hm => hc peer (.tail x hm)) ht'

theorem shutDown_of_rest {i : Instruction} {todo : List Instruction}
    (hp : s.phase = .serving (i :: todo)) (hr : s.work = s) : s.shutDown = s.signalled := by
  have hw : s.signalled.work = s.signalled := by
    rw [work_signalled, hr]
    intro hw
    rw [hw.phase] at hp
    cases hp
  obtain ⟨n, hn⟩ := leads_resume s.signalled
  rw [after_replicate_of_fixed hw] at hn
  exact hn.symm

theorem shutDown_of_final (hp : s.phase = .serving [])
    (hr : s.work = s) :
    s.shutDown.phase = .ended ∧ s.shutDown.summary = { s.summary with outcome := .completed } := by
  have hw : s.InFinalWait := by
    refine ⟨hp, Bool.not_eq_true _ ▸ fun hd => ?_⟩
    have he : s.work.phase = .ended := by
      simp only [work, hp, hd, if_true]
      exact finish_phase ..
    rw [hr, hp] at he
    cases he
  refine ⟨hw.shutDown_phase, ?_⟩
  rw [hw.shutDown_summary, summary]

variable (spec : ServerSpec) (bound : Except Fault Unit)

/-- When the shutdown is signalled to a server that has its client makes no difference to how its
run ends, nor to what is sent as long as writing does not break in the final wait under text that
waits to be sent. A server at rest ends on the signal in its final wait only; one that waits for a
client ends at its next turn, if no client comes before it and its limit is not over then; and one
that has ended takes no notice. -/
theorem signal_time_immaterial (before : List Happening) :
    let s := (start spec bound).after before
    (s.phase ≠ .accepting → ∀ hs ks, unsignalled hs = unsignalled ks → .shutDown ∈ hs →
      .shutDown ∈ ks →
        (s.after hs).resume.summary = (s.after ks).resume.summary ∧
        ((s.after hs).resume.phase = .ended ↔ (s.after ks).resume.phase = .ended) ∧
        (s.Calm (unsignalled hs) → (s.after hs).resume.sent = (s.after ks).resume.sent)) ∧
    (∀ todo, s.phase = .serving todo → s.work = s →
      (todo ≠ [] → s.shutDown = s.signalled) ∧
      (todo = [] → s.shutDown.phase = .ended ∧
        s.shutDown.summary = { s.summary with outcome := .completed })) ∧
    (s.phase = .accepting →
      spec.acceptTimeout.isAfter { s with ticks := s.ticks + 1 }.clock = true →
        ∀ hs, (∀ peer, .connect peer ∉ hs) → .tick ∈ hs →
          (s.after (.shutDown :: hs)).phase = .ended ∧
          (s.after (.shutDown :: hs)).summary = ⟨spec.asked, .noClient, .cancelled, none⟩ ∧
          (s.after (.shutDown :: hs)).sent = []) ∧
    (s.phase = .ended → ∀ n, s.after (List.replicate (n + 1) .shutDown) = s.signalled) := by
  intro s
  have hsound : IsSound spec bound s := sound_after (sound_start spec bound) before
  refine ⟨fun hp hs ks hu hh hk => ?_, fun todo hp hr => ⟨fun hn => ?_, ?_⟩,
    fun hp hl hs hc ht => ?_, fun hp n => ?_⟩
  · obtain ⟨hsum, hph, hsent⟩ := resume_after_eq hp hh
    obtain ⟨ksum, kph, ksent⟩ := resume_after_eq hp hk
    rw [← hu] at ksum kph ksent
    exact ⟨hsum.trans ksum.symm, hph.trans kph.symm, fun hc => (hsent hc).trans (ksent hc).symm⟩
  · obtain ⟨i, todo, rfl⟩ := List.exists_cons_of_ne_nil hn
    exact shutDown_of_rest hp hr
  · rintro rfl
    exact shutDown_of_final hp hr
  · obtain ⟨hspec, -, -, hnone, hprogress⟩ := hsound.accepting hp
    have hfree : s.IsUntouched := untouched_after (untouched_start spec bound) before hp
    have hcancelled := cancelled_after hfree hp (hspec.symm ▸ hl) hc ht
    rw [after_cons]
    change (s.signalled.after hs).phase = _ ∧ (s.signalled.after hs).summary = _ ∧
      (s.signalled.after hs).sent = _
    refine ⟨hcancelled.phase, ?_, ?_⟩
    · rw [hcancelled.summary, hspec, hprogress, hnone]
    · rw [hcancelled.sent, Server.sent, hfree.connection]
  · exact after_of_ended_of_isShutDown (t := s.signalled) hp rfl (List.replicate n .shutDown)

def leavingText : ServerSpec :=
  { port := 14220, script := some (Script.ofCues [.write [120] false]) }

def leftUnsent : Server :=
  (start leavingText (.ok ())).after
    (.connect 0 :: .deliver ((text "CONNECT\r\nPING\r\n").flatMap Utf8.encodePoint) ::
      List.replicate 18 .work)

theorem leftUnsent_phase : leftUnsent.phase = .serving [] := rfl

theorem signal_time_immaterial_unsent :
    (leftUnsent.phase ≠ .accepting ∧
      unsignalled [.shutDown, .work] = unsignalled [.work, .shutDown, .shutDown]) ∧
      (leftUnsent.after [.shutDown, .work]).resume.summary =
        (leftUnsent.after [.work, .shutDown, .shutDown]).resume.summary ∧
      (leftUnsent.after [.shutDown, .work]).resume.summary =
        ⟨14220, .completedCustomCode, .completed, none⟩ := by
  have hp := phase_ne_of_serving leftUnsent_phase
  exact ⟨⟨hp, rfl⟩, ((signal_time_immaterial leavingText (.ok ()) _).1 hp [.shutDown, .work]
    [.work, .shutDown, .shutDown] rfl (.head _) (.tail _ (.head _))).1, rfl⟩

/-- Where the time of the signal matters after all: before or after a reset under unsent text, and
at the last turn of the wait for a client. -/
theorem signal_time_matters :
    (unsignalled [.shutDown, .work, .hangUp .reset] =
        unsignalled [.work, .hangUp .reset, .shutDown] ∧
      (leftUnsent.after [.shutDown, .work, .hangUp .reset]).resume.sent ≠
        (leftUnsent.after [.work, .hangUp .reset, .shutDown]).resume.sent) ∧
    let listening := start { port := 14220, acceptTimeout := .tenths 1 } (.ok ())
    listening.phase = .accepting ∧ (listening.after [.shutDown, .tick]).outcome = .ioError :=
  ⟨⟨rfl, by decide⟩, rfl, rfl⟩

end Server

end LineHandshake
