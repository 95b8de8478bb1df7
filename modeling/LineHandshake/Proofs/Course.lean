import LineHandshake.Proofs.Agreement
import LineHandshake.Proofs.Standing
import Mathlib.Tactic.IntervalCases

/-!
The course of a handshake whose client sends its two lines and no more. At each of its places the
standing of the server is known, so it stops only at its exit point, where a line has not come
whole, or at the end.
-/

namespace LineHandshake

/-- The lines of a client that does its part. -/
structure AreOpening (l1 l2 : Text) : Prop where
  first : takeLine (l1 ++ l2) = (l1, l2)
  second : takeLine l2 = (l2, [])
  connect : Keyword.connect <+: l1
  ping : Keyword.ping <+: l2
  ended : l2.getLast? = some CodePoint.lf

def Standing.at (l1 l2 : Text) (k : Nat) : Standing :=
  (handshake.take k).foldl Standing.pass ⟨.noClient, [], l1 ++ l2, [], []⟩

theorem handshake_length : handshake.length = 13 := rfl

theorem Standing.at_succ {l1 l2 : Text} {k : Nat} (hk : k < handshake.length) :
    Standing.at l1 l2 (k + 1) = (Standing.at l1 l2 k).pass handshake[k] := by
  rw [Standing.at, List.take_succ_eq_append_getElem hk, List.foldl_append]
  rfl

theorem AreOpening.left_connect {l1 l2 : Text} (_ : AreOpening l1 l2) :
    (Standing.at l1 l2 5).left = l1 ++ l2 := rfl

theorem AreOpening.left_ping {l1 l2 : Text} (hl : AreOpening l1 l2) :
    (Standing.at l1 l2 8).left = l2 := congrArg Prod.snd hl.first

theorem AreOpening.left_end {l1 l2 : Text} (hl : AreOpening l1 l2) :
    (Standing.at l1 l2 13).left = [] := by
  change (takeLine (takeLine (l1 ++ l2)).2).2 = []
  rw [hl.first, hl.second]

theorem Standing.at_admits {l1 l2 : Text} (hl : AreOpening l1 l2) {k : Nat}
    (hk : k < handshake.length) : (Standing.at l1 l2 k).Admits handshake[k] := by
  have hconnect : HasLine Keyword.connect (Standing.at l1 l2 5) := by
    rw [HasLine, hl.left_connect, hl.first]
    refine ⟨?_, hl.connect⟩
    intro h
    have hp := hl.connect
    rw [(List.append_eq_nil_iff.1 h).1] at hp
    exact absurd (List.prefix_nil.1 hp) (by decide)
  have hping : HasLine Keyword.ping (Standing.at l1 l2 8) := by
    rw [HasLine, hl.left_ping, hl.second]
    refine ⟨?_, hl.ping⟩
    rintro rfl
    exact absurd (List.prefix_nil.1 hl.ping) (by decide)
  have hk' : k < 13 := hk
  interval_cases k
  · exact Nat.lt_succ_self 0
  · trivial
  · trivial
  · exact Nat.lt_succ_self 1
  · trivial
  · exact hconnect
  · exact Nat.lt_succ_self 2
  · trivial
  · exact hping
  · exact Nat.lt_succ_self 3
  · trivial
  · trivial
  · exact Nat.lt_succ_self 4

theorem Standing.at_sent (l1 l2 : Text) {k : Nat} (hk : k ≤ 13) :
    (Standing.at l1 l2 k).sent =
      if k < 3 then [] else if k < 12 then Connection.greetingBytes
      else Connection.greetingBytes ++ Connection.pongBytes := by
  interval_cases k <;> rfl

theorem eq_of_awaits {k : Nat} (hk : k < handshake.length)
    (h : handshake[k] = .awaitConnect ∨ handshake[k] = .awaitPing) : k = 5 ∨ k = 8 := by
  have hk' : k < 13 := hk
  interval_cases k <;> simp [handshake] at h ⊢

theorem noExit_of_not_mem_take {e : ExitPoint} {k : Nat} (hk : 12 ≤ k)
    (h : .exitAt e ∉ handshake.take k) : e = .noExit := by
  have hm : .exitAt e ∉ handshake.take 12 := fun hm => h (List.take_subset_take_left _ hk hm)
  cases e <;> simp [handshake] at hm ⊢

theorem Standing.at_exit {e : ExitPoint} (l1 l2 : Text) {k : Nat} (hk : k < handshake.length)
    (h : handshake[k] = .exitAt e) :
    e.stage = some (Standing.at l1 l2 k).progress ∧
      (Standing.at l1 l2 k).sent = if e = .beforeInfo then [] else Connection.greetingBytes := by
  have hk' : k < 13 := hk
  interval_cases k <;> simp [handshake] at h <;> subst h <;> exact ⟨rfl, rfl⟩

namespace Server

variable {u : Server} {e : ExitPoint} {l1 l2 : Text} {later : Bytes} {s : Server}

/-- A run of `u` that has done `k` instructions and has not come to its exit point. -/
structure OnCourse (u : Server) (e : ExitPoint) (l1 l2 : Text) (later : Bytes) (k : Nat)
    (s : Server) : Prop where
  bound : k ≤ 13
  ahead : .exitAt e ∉ handshake.take k
  stands : Stands e (Standing.at l1 l2 k) later (handshake.drop k) s
  taken : ∃ hs, u.after hs = s ∧ u.accepted hs = (Standing.at l1 l2 k).accepted

structure Exited (e : ExitPoint) (s : Server) : Prop where
  phase : s.phase = .ended
  stage : e.stage = some s.progress
  outcome : s.outcome = .exited
  error : s.error = none
  sent : s.sent = if e = .beforeInfo then [] else Connection.greetingBytes

theorem OnCourse.work {k : Nat} (hl : AreOpening l1 l2) (h : OnCourse u e l1 l2 later k s) :
    OnCourse u e l1 l2 later (k + 1) s.work ∨ Exited e s.work ∨
      (s.work = s ∧ (k = 13 ∨ s.connection.source.Stuck cutLine? later
        (Standing.at l1 l2 k).left ∧ (k = 5 ∨ k = 8))) := by
  obtain ⟨hk, ha, hs, hs', hu, hacc⟩ := h
  rcases Nat.lt_or_eq_of_le hk with hk | rfl
  · have hk : k < handshake.length := hk
    rw [List.drop_eq_getElem_cons hk] at hs
    rcases hs.work (Standing.at_admits hl hk) with
      ⟨hi, ht, hnext⟩ | ⟨hi, ht⟩ | ⟨hi, hw, hst⟩
    · left
      refine ⟨hk, ?_, ?_, hs' ++ [.work], ?_, ?_⟩
      · rw [List.take_succ_eq_append_getElem hk, List.mem_append, List.mem_singleton, not_or]
        exact ⟨ha, Ne.symm hi⟩
      · rw [Standing.at_succ hk]
        exact ht
      · rw [after_append, hu]
        rfl
      · rw [Standing.at_succ hk, hnext, accepted_append, hu, hacc, accepted, if_pos rfl]
        exact congrArg _ (List.append_nil _)
    · right; left
      obtain ⟨hst, hse⟩ := Standing.at_exit l1 l2 hk hi
      exact ⟨ht.phase, ht.progress ▸ hst, ht.outcome, ht.error, ht.sent.trans hse⟩
    · exact .inr (.inr ⟨hw, .inr ⟨hst, eq_of_awaits hk hi⟩⟩)
  · right; right
    have hp : s.phase = .serving [] := hs.phase
    refine ⟨?_, .inl rfl⟩
    simp only [Server.work, hp, hs.isShutDown]
    rfl

def Proceeds (u : Server) (e : ExitPoint) (l1 l2 : Text) (later : Bytes) (s : Server) : Prop :=
  (∃ k, OnCourse u e l1 l2 later k s) ∨ Exited e s

theorem Proceeds.after_work (hl : AreOpening l1 l2) (h : Proceeds u e l1 l2 later s) (n : Nat) :
    Proceeds u e l1 l2 later (s.after (List.replicate n .work)) := by
  induction n generalizing s with
  | zero => exact h
  | succ n ih =>
    apply ih
    rcases h with ⟨k, h⟩ | h
    · rcases h.work hl with hw | hw | ⟨hw, -⟩
      · exact .inl ⟨k + 1, hw⟩
      · exact .inr hw
      · exact .inl ⟨k, by rwa [happen, hw]⟩
    · right
      rwa [happen, work_of_ended h.phase]

theorem OnCourse.deliver {k : Nat} {bs : Bytes} (h : OnCourse u e l1 l2 (bs ++ later) k s) :
    OnCourse u e l1 l2 later k (s.change (Connection.deliver bs)) :=
  ⟨h.bound, h.ahead, h.stands.deliver, h.taken.elim fun hs ht => ⟨hs ++ [.deliver bs], by
    rw [after_append, accepted_append, ht.1, ht.2]
    exact ⟨rfl, List.append_nil _⟩⟩⟩

theorem OnCourse.sent {k : Nat} (h : OnCourse u e l1 l2 later k s) :
    s.sent = if k < 3 then [] else if k < 12 then Connection.greetingBytes
      else Connection.greetingBytes ++ Connection.pongBytes := by
  rw [← Standing.at_sent l1 l2 h.bound]
  exact congrArg TextSink.sent h.stands.sink

theorem OnCourse.phase_ne {k : Nat} (h : OnCourse u e l1 l2 later k s) : s.phase ≠ .ended := by
  rw [h.stands.phase]
  intro hp
  cases hp

theorem OnCourse.of_work_eq {k : Nat} (hl : AreOpening l1 l2) (h : OnCourse u e l1 l2 later k s)
    (hw : s.work = s) : k = 13 ∨ s.connection.source.Stuck cutLine? later
      (Standing.at l1 l2 k).left ∧ (k = 5 ∨ k = 8) := by
  rcases h.work hl with hs | hs | ⟨-, hk⟩
  · rw [hw] at hs
    have := congrArg List.length (Phase.serving.inj (h.stands.phase.symm.trans hs.stands.phase))
    have hb := hs.bound
    simp only [List.length_drop, handshake_length] at this
    omega
  · rw [hw] at hs
    exact absurd hs.phase h.phase_ne
  · exact hk

theorem OnCourse.eq_of_work_eq {k : Nat} (hl : AreOpening l1 l2) (h : OnCourse u e l1 l2 [] k s)
    (hw : s.work = s) : k = 13 := by
  rcases h.of_work_eq hl hw with rfl | ⟨hst, rfl | rfl⟩
  · rfl
  · rw [hl.left_connect] at hst
    refine absurd ?_ hst.not_mem_lf
    rw [List.getLast?_append, hl.ended]
    rfl
  · rw [hl.left_ping] at hst
    exact absurd hl.ended hst.not_mem_lf

theorem Proceeds.resume (hl : AreOpening l1 l2) (h : Proceeds u e l1 l2 [] s) :
    OnCourse u e l1 l2 [] 13 s.resume ∨ Exited e s.resume := by
  obtain ⟨n, hn⟩ := leads_resume s
  have hr := h.after_work hl n
  rw [hn] at hr
  rcases hr with ⟨k, hr⟩ | hr
  · obtain rfl := hr.eq_of_work_eq hl (work_resume s)
    exact .inl hr
  · exact .inr hr

theorem Exited.resume_eq (h : Exited e s) : s.resume = s := by
  unfold Server.resume
  split
  · next hp => rw [h.phase] at hp; cases hp
  · rfl

theorem wait_eq_self (h : s.wait.phase = .accepting) (hd : s.isShutDown = false) :
    s.wait = s := by
  unfold wait at h ⊢
  split at h
  · rw [fail_phase] at h
    cases h
  · next ht => simp only [hd, ht, Bool.false_eq_true, if_false]

theorem accepting_of_tick (h : s.tick.phase = .accepting) :
    s.phase = .accepting ∧ s.tick = wait { s with ticks := s.ticks + 1 } := by
  unfold tick at h ⊢
  split at h
  · next hp => exact ⟨hp, rfl⟩
  · next hp => exact absurd h hp

theorem waited_eq {spec : ServerSpec} {n : Nat}
    (h : ((start spec (.ok ())).after (List.replicate n .tick)).phase = .accepting) :
    (start spec (.ok ())).after (List.replicate n .tick) =
      { say .info (text "started") { spec } with ticks := n } := by
  induction n with
  | zero => exact wait_eq_self h rfl
  | succ n ih =>
    rw [List.replicate_succ', after_append] at h ⊢
    obtain ⟨hp, ht⟩ := accepting_of_tick h
    have hw : ((start spec (.ok ())).after (List.replicate n .tick)).after [.tick] =
        wait { say .info (text "started") { spec } with ticks := n + 1 } := by
      rw [ih hp] at ht
      rw [ih hp]
      exact ht
    rw [hw] at h ⊢
    exact wait_eq_self h rfl

theorem proceeds_welcome {spec : ServerSpec} (hsc : spec.script = none) {bs : Bytes}
    (ht : Utf8.decode bs = .ok (l1 ++ l2)) {waited : Nat} (peer : Nat)
    (h : ((start spec (.ok ())).after (List.replicate waited .tick)).phase = .accepting) :
    Proceeds (start spec (.ok ())) spec.exitPoint l1 l2 bs
      ((start spec (.ok ())).after (List.replicate waited .tick ++ [.connect peer])) := by
  have hp : program spec = handshake := by
    rw [program, hsc]
    rfl
  have hquiet : (start spec (.ok ())).accepted (List.replicate waited .tick ++ [.connect peer]) =
      [] := accepted_eq_nil (by simp [List.mem_replicate]) _
  refine .inl ⟨0, Nat.zero_le _, List.not_mem_nil, ?_, _, rfl, hquiet⟩
  rw [after_append, waited_eq h]
  refine ⟨rfl, congrArg Phase.serving hp, rfl, rfl, rfl, rfl, rfl, TextSource.holds_of_decode ht,
    rfl, ?_⟩
  exact (trace_say _ _ _).trans (trace_say _ _ _)

end Server

end LineHandshake
