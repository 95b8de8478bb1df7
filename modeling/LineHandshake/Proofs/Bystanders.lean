import LineHandshake.Proofs.Effects

/-!
A server and its one client among whatever else is going on in a session. Later clients queue at
its port and get nothing, and nothing that they do can be seen from the server or from its client.
-/

namespace LineHandshake

namespace Session

def serves (s : Session) (i g : Nat) : Bool :=
  (s.guests[g]?).any fun x => x.isServed && x.host = i

def Step.isOf (i : Nat) (isClient : Nat → Bool) : Step → Bool
  | .server j step => j = i && !step.isArrival
  | .guest g _ => isClient g
  | _ => false

variable {s t : Session} {st : Step}

section Apart

variable {i : Nat} {v : Server}

theorem Effect.server_eq (he : Effect s st t) (hv : s.servers[i]? = some v)
    (hp : v.phase ≠ .accepting) (hn : st.isOf i (s.serves i) = false) :
    t.servers[i]? = some v := by
  cases he with
  | none hset _ => rw [hset, hv]
  | start spec bound hset _ =>
    rw [hset]
    exact getElem?_append_of_eq_some hv _
  | @server j step _ f hs _ hset _ =>
    have hj : j ≠ i := by
      rintro rfl
      simp [Step.isOf, hs] at hn
    rw [hset, List.getElem?_modify_ne _ _ hj, hv]
  | @arrival _ _ host peer w chunks ending _ hw _ hset _ =>
    rw [hset]
    by_cases hi : host = i
    · subst hi
      obtain rfl := Option.some.inj (hv.symm.trans hw)
      rw [Server.accept_eq_self hp, set_eq_self hv, hv]
    · rw [List.getElem?_set_ne hi, hv]
  | @guest g _ c c' hc hl =>
    rw [Session.put, hl.host]
    by_cases hi : c.guest.host = i
    · have hidle : c.guest.isServed = false := by
        simpa [Step.isOf, serves, hc.1, hi] using hn
      rw [hl.idle hidle, set_eq_self hc.2, hv]
    · rw [List.getElem?_set_ne hi, hv]

theorem serves_eq_true_iff {g : Nat} : s.serves i g = true ↔
    ∃ x, s.guests[g]? = some x ∧ x.isServed = true ∧ x.host = i := by
  rw [serves, Option.any_eq_true]
  simp only [Bool.and_eq_true, decide_eq_true_eq]

theorem Effect.serves_eq (he : Effect s st t) (hv : s.servers[i]? = some v)
    (hp : v.phase ≠ .accepting) : t.serves i = s.serves i := by
  funext g
  rw [Bool.eq_iff_iff, serves_eq_true_iff, serves_eq_true_iff]
  constructor
  · rintro ⟨y, hy, hs, hi⟩
    cases he with
    | none _ hg => exact ⟨y, hg ▸ hy, hs, hi⟩
    | start _ _ _ hg => exact ⟨y, hg ▸ hy, hs, hi⟩
    | server _ _ _ hg => exact ⟨y, hg ▸ hy, hs, hi⟩
    | @arrival _ _ host _ w _ _ _ hw _ _ hg =>
      rcases hg with hg | ⟨x, rfl, hx, hg⟩
      · exact ⟨y, hg ▸ hy, hs, hi⟩
      · rw [hg] at hy
        rcases getElem?_concat_cases hy with hy | ⟨-, rfl⟩
        · exact ⟨y, hy, hs, hi⟩
        · rw [hi, hv] at hw
          obtain rfl := Option.some.inj hw
          exact absurd (isAccepting_eq_true_iff.1 (hx ▸ hs)) hp
    | @guest h _ c c' hc hl =>
      by_cases hgh : h = g
      · subst hgh
        obtain rfl : c'.guest = y := Option.some.inj ((hc.put hl).1.symm.trans hy)
        exact ⟨c.guest, hc.1, hl.isServed ▸ hs, hl.host ▸ hi⟩
      · rw [Session.put, List.getElem?_set_ne hgh] at hy
        exact ⟨y, hy, hs, hi⟩
  · rintro ⟨x, hx, hs, hi⟩
    obtain ⟨y, hy, hh, hserved⟩ := he.leads.guests hx
    exact ⟨y, hy, hserved.trans hs, hh.trans hi⟩

theorem Effect.guest_eq (he : Effect s st t) {g : Nat} {x : Guest} (hx : s.guests[g]? = some x)
    (hn : ∀ step, st ≠ .guest g step) : t.guests[g]? = some x := by
  cases he with
  | none _ hg => rw [hg, hx]
  | start _ _ _ hg => rw [hg, hx]
  | server _ _ _ hg => rw [hg, hx]
  | arrival _ _ _ _ hg =>
    rcases hg with hg | ⟨y, -, -, hg⟩
    · rw [hg, hx]
    · rw [hg]
      exact getElem?_append_of_eq_some hx _
  | @guest h step c c' hc hl =>
    have hne : h ≠ g := by
      rintro rfl
      exact hn step rfl
    rw [Session.put, List.getElem?_set_ne hne, hx]

theorem serverStep_alone (hp : v.phase ≠ .accepting) {step : ServerStep}
    (hs : step.isArrival = false) : ∃ a f, ∀ s : Session, s.servers[i]? = some v →
      serverStep i v s step = (a, s.modifyServer i f) := by
  have hid : ∀ s : Session, s.modifyServer i id = s := fun s => by simp [modifyServer]
  cases step with
  | shutDown => exact ⟨_, Server.shutDown, fun s _ => rfl⟩
  | join => exact ⟨_, id, fun s _ => by rw [hid]; rfl⟩
  | summarize => exact ⟨_, id, fun s _ => by rw [hid]; rfl⟩
  | describe => exact ⟨_, id, fun s _ => by rw [hid]; rfl⟩
  | tick count =>
    refine ⟨⟨.ok (.number 0), []⟩, id, fun s hv => ?_⟩
    have ha : (s.servers[i]?).any isAccepting = false := by
      rw [hv, Option.any_some]
      exact Bool.eq_false_iff.2 (mt isAccepting_eq_true_iff.1 hp)
    have ht : tick i 0 count s = (0, s) := by
      cases count with
      | zero => rfl
      | succ count => rw [tick, ha, if_neg Bool.false_ne_true]
    rw [serverStep, ht, hid]
    rfl
  | connect => cases hs
  | dial => cases hs

/-- An orderly session in which a server has its client. -/
structure IsTaken (i : Nat) (s : Session) : Prop where
  orderly : s.IsOrderly
  server : ∃ v, s.servers[i]? = some v ∧ v.peer ≠ none

theorem IsTaken.step [Json.Stack] (h : IsTaken i s) (st : Step) : IsTaken i (s.step st).2 := by
  have he := step_effect h.orderly st
  refine ⟨he.isOrderly h.orderly, ?_⟩
  obtain ⟨v, hv, hp⟩ := h.server
  obtain ⟨v', hv', hp'⟩ := he.leads.peer h.orderly hv hp
  exact ⟨v', hv', hp' ▸ hp⟩

theorem IsTaken.exists_server (h : IsTaken i s) :
    ∃ v, s.servers[i]? = some v ∧ v.phase ≠ .accepting := by
  obtain ⟨v, hv, hp⟩ := h.server
  exact ⟨v, hv, (h.orderly.reserved hv).phase_ne hp⟩

theorem IsTaken.serves_eq (h : IsTaken i s) (he : Effect s st t) : t.serves i = s.serves i := by
  obtain ⟨v, hv, hp⟩ := h.exists_server
  exact he.serves_eq hv hp

structure Alike (i : Nat) (s t : Session) : Prop where
  server : s.servers[i]? = t.servers[i]?
  serves : s.serves i = t.serves i
  guest {g : Nat} (h : s.serves i g = true) : s.guests[g]? = t.guests[g]?

theorem Alike.refl (i : Nat) (s : Session) : Alike i s s := ⟨rfl, rfl, fun _ => rfl⟩

theorem Alike.trans {u : Session} (h : Alike i s t) (h' : Alike i t u) : Alike i s u :=
  ⟨h.server.trans h'.server, h.serves.trans h'.serves,
    fun hg => (h.guest hg).trans (h'.guest (h.serves ▸ hg))⟩

theorem alike_step [Json.Stack] (h : IsTaken i s) (hn : st.isOf i (s.serves i) = false) :
    Alike i (s.step st).2 s := by
  have he := step_effect h.orderly st
  obtain ⟨v, hv, hp⟩ := h.exists_server
  have hserves := h.serves_eq he
  refine ⟨by rw [he.server_eq hv hp hn, hv], hserves, fun {g} hg => ?_⟩
  rw [hserves] at hg
  obtain ⟨x, hx, -, -⟩ := serves_eq_true_iff.1 hg
  rw [hx, he.guest_eq hx]
  rintro step rfl
  exact Bool.false_ne_true (hn.symm.trans hg)

theorem Alike.serverStep [Json.Stack] (ha : Alike i s t) (hs : IsTaken i s) {step : ServerStep}
    (hst : step.isArrival = false) :
    (s.step (.server i step)).1 = (t.step (.server i step)).1 ∧
      Alike i (s.step (.server i step)).2 (t.step (.server i step)).2 := by
  obtain ⟨v, hv, hp⟩ := hs.exists_server
  have hv' : t.servers[i]? = some v := ha.server ▸ hv
  obtain ⟨a, f, hstep⟩ := serverStep_alone (i := i) hp hst
  simp only [Session.step, hv, hv', hstep s hv, hstep t hv']
  refine ⟨trivial, ?_, ha.serves, ha.guest⟩
  simp only [modifyServer, List.getElem?_modify_eq, hv, hv']

theorem Alike.guestStep [Json.Stack] (ha : Alike i s t) (hs : IsTaken i s) (ht : IsTaken i t)
    {g : Nat} (hg : s.serves i g = true) (step : GuestStep) :
    (s.step (.guest g step)).1 = (t.step (.guest g step)).1 ∧
      Alike i (s.step (.guest g step)).2 (t.step (.guest g step)).2 := by
  obtain ⟨x, hx, -, hi⟩ := serves_eq_true_iff.1 hg
  obtain ⟨c, hc, rfl⟩ := hs.orderly.exists_scene hx
  have hc' : t.HasScene g c := ⟨ha.guest hg ▸ hc.1, by rw [hi, ← ha.server, ← hi]; exact hc.2⟩
  obtain ⟨a, c', hl, hact⟩ := guestStep_eq_put g c step
  have hstep : ∀ {u : Session}, u.HasScene g c → u.step (.guest g step) = (a, u.put g c') := by
    intro u hu
    rw [Session.step, hu.1]
    exact hact u hu
  have unchanged : ∀ {u : Session}, IsTaken i u → u.HasScene g c →
      (u.put g c').serves i = u.serves i := by
    intro u hu hcu
    have he : Effect u (.guest g step) (u.put g c') := .guest hcu hl
    exact hu.serves_eq he
  rw [hstep hc, hstep hc']
  refine ⟨rfl, ?_, ?_, fun {h} hh => ?_⟩
  · rw [← hi, ← hl.host, (hc.put hl).2, (hc'.put hl).2]
  · rw [unchanged hs hc, unchanged ht hc', ha.serves]
  · rw [unchanged hs hc] at hh
    by_cases hgh : g = h
    · subst hgh
      rw [(hc.put hl).1, (hc'.put hl).1]
    · rw [Session.put, Session.put, List.getElem?_set_ne hgh, List.getElem?_set_ne hgh,
        ha.guest hh]

theorem Alike.step [Json.Stack] (ha : Alike i s t) (hs : IsTaken i s) (ht : IsTaken i t)
    (ho : st.isOf i (s.serves i) = true) :
    (s.step st).1 = (t.step st).1 ∧ Alike i (s.step st).2 (t.step st).2 := by
  cases st with
  | server j step =>
    obtain ⟨rfl, hst⟩ : j = i ∧ step.isArrival = false := by simpa [Step.isOf] using ho
    exact ha.serverStep hs hst
  | guest g step => exact ha.guestStep hs ht ho step
  | _ => cases ho

def answers [Json.Stack] (isOwn : Step → Bool) (i : Nat) :
    Session → List Step → List (Answer × Option Server)
  | _, [] => []
  | s, st :: steps =>
    let r := s.step st
    if isOwn st then (r.1, r.2.servers[i]?) :: answers isOwn i r.2 steps
    else answers isOwn i r.2 steps

theorem answers_filter [Json.Stack] (ha : Alike i s t) (hs : IsTaken i s) (ht : IsTaken i t)
    {isOwn : Step → Bool} (ho : isOwn = Step.isOf i (s.serves i)) (steps : List Step) :
    answers isOwn i s steps = answers isOwn i t (steps.filter isOwn) := by
  induction steps generalizing s t with
  | nil => rfl
  | cons st steps ih =>
    have ho' : isOwn = Step.isOf i ((s.step st).2.serves i) := by
      rw [ho, hs.serves_eq (step_effect hs.orderly st)]
    rw [answers]
    cases hst : isOwn st with
    | true =>
      obtain ⟨hanswer, halike⟩ := ha.step hs ht (ho ▸ hst)
      rw [List.filter_cons_of_pos hst, answers, hst, if_pos rfl, if_pos rfl, hanswer,
        halike.server, ih halike (hs.step st) (ht.step st) ho']
    | false =>
      -- a step of anybody else is taken in the one session only, and leaves it like the other
      have halike := (alike_step hs (ho ▸ hst)).trans ha
      rw [List.filter_cons_of_neg (by simp [hst]), if_neg Bool.false_ne_true]
      exact ih halike (hs.step st) ht ho'

end Apart

theorem IsTaken.server_after [Json.Stack] {i : Nat} {v : Server} (h : IsTaken i s)
    (hv : s.servers[i]? = some v) {others : List Step}
    (hn : ∀ st ∈ others, st.isOf i (s.serves i) = false) :
    (s.after others).servers[i]? = some v := by
  induction others generalizing s with
  | nil => exact hv
  | cons st others ih =>
    obtain ⟨hst, hothers⟩ := List.forall_mem_cons.1 hn
    have ha := alike_step h hst
    refine ih (h.step st) (ha.server.trans hv) ?_
    rw [ha.serves]
    exact hothers

theorem IsTaken.serves_after [Json.Stack] {i : Nat} (h : IsTaken i s) (steps : List Step) :
    (s.after steps).serves i = s.serves i := by
  induction steps generalizing s with
  | nil => rfl
  | cons st steps ih => exact (ih (h.step st)).trans (h.serves_eq (step_effect h.orderly st))

theorem isServed_of_unread {x : Guest} (h : s.unread x ≠ []) : x.isServed = true := by
  by_contra hs
  exact h (if_neg hs)

/-- A server is for the first client that reaches it. It sends nothing before, and to nobody else;
from then on it gets no other client, and nobody but its owner and its client can do anything to
it, or to the answers that these two get. -/
theorem serves_one_client [Json.Stack] (steps more : List Step) :
    let s := after {} steps
    let s' := s.after more
    (∀ (i : Nat) (v : Server), s.servers[i]? = some v → (v.peer = none → v.sent = []) ∧
      ∀ k, v.peer = some k → ∃ v', s'.servers[i]? = some v' ∧ v'.peer = some k) ∧
    (∀ (g : Nat) (x : Guest), s.guests[g]? = some x → s.unread x ≠ [] →
      s.serves x.host g = true ∧
      ∀ (g' : Nat) (x' : Guest), s'.guests[g']? = some x' → x'.host = x.host →
        g ≤ g' ∧ (s'.unread x' ≠ [] → g' = g)) ∧
    ∀ (i : Nat) (v : Server), s.servers[i]? = some v → v.peer ≠ none →
      s'.serves i = s.serves i ∧
      let isOwn := Step.isOf i (s.serves i)
      (∀ others : List Step, (∀ st ∈ others, isOwn st = false) →
        (s.after others).servers[i]? = some v) ∧
      ∀ es es' : List Step, es.filter isOwn = es'.filter isOwn →
        answers isOwn i s es = answers isOwn i s es' := by
  intro s s'
  have h : s.IsOrderly := (isOrderly_empty.after steps).1
  obtain ⟨h', hl⟩ := h.after more
  refine ⟨fun i v hv => ⟨(h.reserved hv).silent, fun k hk => ?_⟩, ?_, ?_⟩
  · obtain ⟨v', hv', he⟩ := hl.peer h hv (by simp [hk])
    exact ⟨v', hv', he.trans hk⟩
  · intro g x hx hu
    refine ⟨serves_eq_true_iff.2 ⟨x, hx, isServed_of_unread hu, rfl⟩, fun g' x' hx' hh => ?_⟩
    obtain ⟨y, hy, hyh, hys⟩ := hl.guests hx
    have hserved := hys.trans (isServed_of_unread hu)
    have hle := h'.first hy hx' (hh.trans hyh.symm) hserved
    refine ⟨hle, fun hu' => ?_⟩
    exact le_antisymm (h'.first hx' hy (hyh.trans hh.symm) (isServed_of_unread hu')) hle
  · intro i v hv hp
    have ht : IsTaken i s := ⟨h, v, hv, hp⟩
    refine ⟨ht.serves_after more, fun others hn => ht.server_after hv hn, fun es es' he => ?_⟩
    calc answers _ i s es
      _ = answers _ i s (es.filter _) := answers_filter (.refl i s) ht ht rfl es
      _ = answers _ i s (es'.filter _) := by rw [he]
      _ = answers _ i s es' := (answers_filter (.refl i s) ht ht rfl es').symm

theorem serves_one_client_crowded :
    let s := after {} [.start { port := some 14220 }, .server 0 (.connect [] none)]
    let isOwn := Step.isOf 0 (s.serves 0)
    answers isOwn 0 s [.guest 0 .receive, .server 0 (.connect [[13]] none),
        .guest 0 (.send [(text "CONNECT \x7b\x7d\r\nPING\r\n").flatMap Utf8.encodePoint]),
        .guest 1 (.send [[80, 13, 10]]), .guest 1 (.hangUp .reset), .guest 0 .receive] =
      answers isOwn 0 s [.guest 0 .receive,
        .guest 0 (.send [(text "CONNECT \x7b\x7d\r\nPING\r\n").flatMap Utf8.encodePoint]),
        .guest 0 .receive] := by
  intro s isOwn
  obtain ⟨v, hv, hp⟩ : ∃ v, s.servers[0]? = some v ∧ v.peer = some 0 := ⟨_, rfl, rfl⟩
  exact ((serves_one_client [.start { port := some 14220 }, .server 0 (.connect [] none)] []).2.2
    0 v hv (by simp [hp])).2.2 _ _ rfl

end Session

end LineHandshake
