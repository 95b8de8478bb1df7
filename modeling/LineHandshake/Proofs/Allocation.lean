import LineHandshake.Session

/-!
What the callers of an allocator get, one call after the other, while ports are taken and given
back at any time. The `n`-th probe of all is of the `n`-th port of the range, so no port is probed
twice, and the ports that callers get are those that were found free, in order.
-/

namespace LineHandshake

namespace Allocator

/-- A probe that finds the host in the state `world n` if `n` probes were made before it. -/
def probeIn (world : Nat → Session) (port : Int) (n : Nat) : Bool × Nat :=
  ((world n).isFree port, n + 1)

def call (world : Nat → Session) (made : Nat) (a : Allocator) : PortCall × Allocator × Nat :=
  a.nextPort (probeIn world) made

/-- Calls one after the other, whoever makes them, with the count of the probes made before. -/
def calls (world : Nat → Session) : (count : Nat) → (made : Nat) → Allocator → List PortCall
  | 0, _, _ => []
  | count + 1, made, a =>
    let r := a.call world made
    r.1 :: calls world count r.2.2 r.2.1

def probeAt (world : Nat → Session) (first : Int) (n : Nat) : Probe :=
  ⟨first + n, (world n).isFree (first + n)⟩

@[simp]
theorem probeAt_port (world : Nat → Session) (first : Int) (n : Nat) :
    (probeAt world first n).port = first + n := rfl

def tried (cs : List PortCall) : List Probe := cs.flatMap (·.probes)

def given (cs : List PortCall) : List Int := cs.filterMap (·.result.toOption)

theorem eq_of_port_eq {world : Nat → Session} {first : Int} {ns : List Nat} {p q : Probe}
    (hp : p ∈ ns.map (probeAt world first)) (hq : q ∈ ns.map (probeAt world first))
    (h : p.port = q.port) : p = q := by
  obtain ⟨m, -, rfl⟩ := List.mem_map.1 hp
  obtain ⟨n, -, rfl⟩ := List.mem_map.1 hq
  rw [Int.ofNat_inj.1 (Int.add_left_cancel h)]

section Search

variable {σ : Type} {probe : Int → σ → Bool × σ}

theorem search_cases (probe : Int → σ → Bool × σ) (port : Int) (count : Nat) (s : σ) :
    let r := search probe port count s
    (r.1 = none ∧ r.2.1.length = count ∧ ∀ p ∈ r.2.1, p.isFree = false) ∨
      ∃ busy found, r.1 = some found ∧ r.2.1 = busy ++ [⟨found, true⟩] ∧ busy.length < count ∧
        ∀ p ∈ busy, p.isFree = false := by
  induction count generalizing port s with
  | zero => exact .inl ⟨rfl, rfl, nofun⟩
  | succ count ih =>
    rw [search]
    split
    · exact .inr ⟨[], port, rfl, rfl, Nat.succ_pos count, nofun⟩
    · next t _ =>
      rcases ih (port + 1) t with ⟨hn, hl, hb⟩ | ⟨busy, found, hn, he, hl, hb⟩
      · exact .inl ⟨hn, congrArg Nat.succ hl, List.forall_mem_cons.2 ⟨rfl, hb⟩⟩
      · exact .inr ⟨⟨port, false⟩ :: busy, found, hn, congrArg (List.cons _) he,
          Nat.succ_lt_succ hl, List.forall_mem_cons.2 ⟨rfl, hb⟩⟩

theorem search_probes (world : Nat → Session) (first : Int) (made count : Nat) :
    let r := search (probeIn world) (first + made) count made
    r.2.1 = (List.range' made r.2.1.length).map (probeAt world first) ∧
      r.2.2 = made + r.2.1.length := by
  induction count generalizing made with
  | zero => exact ⟨rfl, rfl⟩
  | succ count ih =>
    have hnext : first + (made : Int) + 1 = first + (made + 1 : Nat) := by omega
    rw [search, probeIn]
    cases hf : (world made).isFree (first + made) with
    | true =>
      refine ⟨?_, rfl⟩
      rw [List.length_singleton, List.range'_one, List.map_singleton, probeAt, hf]
    | false =>
      obtain ⟨hp, hm⟩ := ih (made + 1)
      rw [← hnext] at hp hm
      dsimp only
      rw [List.length_cons, List.range'_succ, List.map_cons, ← hp, probeAt, hf, hm]
      exact ⟨rfl, by omega⟩

end Search

structure HasProbed (first last : Int) (made : Nat) (a : Allocator) : Prop where
  last_eq : a.last = last
  next_eq : a.next = first + made
  next_le : a.next ≤ last + 1

/-- What a call comes to: it gets the last port that it probed, or has probed all that were left.
What else it probed was taken. -/
inductive Gets (last : Int) (c : PortCall) : Allocator → Prop
  | port {a : Allocator} {busy : List Probe} {found : Int}
      (probes : c.probes = busy ++ [⟨found, true⟩]) (result : c.result = .ok found)
      (isBusy : ∀ p ∈ busy, p.isFree = false) : Gets last c a
  | nothing {a : Allocator} (result : c.result = .error (.portsExhausted last))
      (isBusy : ∀ p ∈ c.probes, p.isFree = false) (next_eq : a.next = last + 1) : Gets last c a

variable {world : Nat → Session} {first last : Int} {made : Nat} {a : Allocator}

theorem nextPort_probes {σ : Type} (probe : Int → σ → Bool × σ) (a : Allocator) (s : σ) :
    let r := search probe a.next (a.last + 1 - a.next).toNat s
    (a.nextPort probe s).1.probes = r.2.1 ∧ (a.nextPort probe s).2.2 = r.2.2 := by
  unfold nextPort
  generalize search probe a.next (a.last + 1 - a.next).toNat s = r
  obtain ⟨_ | port, probes, t⟩ := r
  · exact ⟨rfl, rfl⟩
  · exact ⟨rfl, rfl⟩

theorem HasProbed.probes_eq (h : HasProbed first last made a) (world : Nat → Session) :
    (a.call world made).1.probes =
        (List.range' made (a.call world made).1.probes.length).map (probeAt world first) ∧
      (a.call world made).2.2 = made + (a.call world made).1.probes.length := by
  obtain ⟨hp, hs⟩ := nextPort_probes (probeIn world) a made
  rw [call, hp, hs, h.next_eq]
  exact search_probes world first made _

theorem HasProbed.call (h : HasProbed first last made a) (world : Nat → Session) :
    HasProbed first last (made + (a.call world made).1.probes.length) (a.call world made).2.1 ∧
      Gets last (a.call world made).1 (a.call world made).2.1 := by
  have hprobes := (h.probes_eq world).1
  obtain ⟨hl, hn, hle⟩ := h
  have hc := search_cases (probeIn world) a.next (a.last + 1 - a.next).toNat made
  simp only [Allocator.call, nextPort] at hc hprobes ⊢
  generalize search (probeIn world) a.next (a.last + 1 - a.next).toNat made = r at hc hprobes ⊢
  obtain ⟨o, probes, t⟩ := r
  rcases hc with ⟨rfl, hlen, hb⟩ | ⟨busy, found, rfl, hp, hlen, hb⟩
  · dsimp only at hlen
    refine ⟨⟨hl, ?_, ?_⟩, .nothing (by rw [← hl]) hb ?_⟩ <;> dsimp only <;> omega
  · dsimp only at hp hprobes ⊢
    have hat : probes[busy.length]? = some ⟨found, true⟩ := by rw [hp, List.getElem?_concat_length]
    rw [hprobes, List.getElem?_map, List.getElem?_range' (by rw [hp]; simp)] at hat
    obtain ⟨hf, -⟩ := Probe.mk.inj (Option.some.inj hat)
    refine ⟨⟨hl, ?_, ?_⟩, .port hp rfl hb⟩
    · rw [hp, List.length_append, List.length_singleton]
      dsimp only
      omega
    · dsimp only
      omega

theorem HasProbed.calls_succ (h : HasProbed first last made a) (world : Nat → Session)
    (count : Nat) :
    calls world (count + 1) made a =
      (a.call world made).1 ::
        calls world count (made + (a.call world made).1.probes.length) (a.call world made).2.1 := by
  rw [calls, (h.probes_eq world).2]

section Calls

variable {count : Nat} {before after : List PortCall} {c : PortCall}

theorem HasProbed.tried_calls (h : HasProbed first last made a) (world : Nat → Session)
    (count : Nat) :
    tried (calls world count made a) =
        (List.range' made (tried (calls world count made a)).length).map (probeAt world first) ∧
      first + (made + (tried (calls world count made a)).length : Nat) ≤ last + 1 := by
  induction count generalizing made a with
  | zero => exact ⟨rfl, by simpa [calls, tried, h.next_eq] using h.next_le⟩
  | succ count ih =>
    obtain ⟨he, hb⟩ := ih (h.call world).1
    rw [h.calls_succ, tried, List.flatMap_cons, ← tried, List.length_append]
    constructor
    · rw [List.range'_append_1.symm, List.map_append, ← he, ← (h.probes_eq world).1]
    · rwa [Nat.add_assoc] at hb

theorem filter_isFree_eq_nil {ps : List Probe} (h : ∀ p ∈ ps, p.isFree = false) :
    ps.filter (·.isFree) = [] :=
  List.filter_eq_nil_iff.2 fun p hp => by simp [h p hp]

theorem Gets.given_eq (h : Gets last c a) :
    c.result.toOption.toList = (c.probes.filter (·.isFree)).map (·.port) := by
  cases h with
  | port hp hr hb => simp [hp, hr, Except.toOption, filter_isFree_eq_nil hb]
  | nothing hr hb => simp [hr, Except.toOption, filter_isFree_eq_nil hb]

theorem HasProbed.given_calls (h : HasProbed first last made a) :
    given (calls world count made a) =
      ((tried (calls world count made a)).filter (·.isFree)).map (·.port) := by
  induction count generalizing made a with
  | zero => rfl
  | succ count ih =>
    have hg := (h.call world).2.given_eq
    rw [h.calls_succ, tried, List.flatMap_cons, ← tried, List.filter_append, List.map_append, ← hg,
      ← ih (h.call world).1, given, List.filterMap_cons]
    cases (a.call world made).1.result.toOption <;> rfl

theorem HasProbed.split (h : HasProbed first last made a)
    (hc : calls world count made a = before ++ c :: after) :
    ∃ a' k, before = calls world before.length made a ∧
      HasProbed first last (made + (tried before).length) a' ∧
      c = (a'.call world (made + (tried before).length)).1 ∧
      after = calls world k (made + (tried before).length + c.probes.length)
        (a'.call world (made + (tried before).length)).2.1 := by
  induction before generalizing count made a with
  | nil =>
    cases count with
    | zero => cases hc
    | succ count =>
      rw [h.calls_succ] at hc
      obtain ⟨rfl, rfl⟩ := List.cons.inj hc
      exact ⟨a, count, rfl, h, rfl, rfl⟩
  | cons b before ih =>
    cases count with
    | zero => cases hc
    | succ count =>
      rw [h.calls_succ] at hc
      obtain ⟨rfl, ht⟩ := List.cons.inj hc
      obtain ⟨a', k, hb, hs⟩ := ih (h.call world).1 ht
      rw [Nat.add_assoc made, ← List.length_append, tried, ← List.flatMap_cons, ← tried] at hs
      refine ⟨a', k, ?_, hs⟩
      rw [List.length_cons, h.calls_succ, ← hb]

theorem HasProbed.calls_of_next_eq (h : HasProbed first last made a) (hn : a.next = last + 1) :
    ∀ d ∈ calls world count made a, d.probes = [] ∧ d.result = .error (.portsExhausted last) := by
  induction count generalizing made a with
  | zero => nofun
  | succ count ih =>
    obtain ⟨h', hg⟩ := h.call world
    have hle := h'.next_le
    have he := h'.next_eq
    rw [h.next_eq] at hn
    have hp : (a.call world made).1.probes = [] := List.length_eq_zero_iff.1 (by omega)
    rw [h.calls_succ]
    refine List.forall_mem_cons.2 ⟨⟨hp, ?_⟩, ih h' (by omega)⟩
    cases hg with
    | port hp' => simp [hp] at hp'
    | nothing hr => exact hr

theorem HasProbed.exhausted_iff (h : HasProbed first last made a) :
    (a.call world made).1.result = .error (.portsExhausted last) ↔
      ∀ port, first + made ≤ port → port ≤ last → ⟨port, false⟩ ∈ (a.call world made).1.probes := by
  obtain ⟨h', hg⟩ := h.call world
  have hp := (h.probes_eq world).1
  have hn := h'.next_eq
  have hle := h'.next_le
  generalize (a.call world made).1 = c at hg hp hn ⊢
  constructor
  · intro he port hf hl
    cases hg with
    | port _ hr => rw [hr] at he; cases he
    | nothing _ hb hlast =>
      have hm : probeAt world first (port - first).toNat ∈ c.probes := by
        rw [hp]
        exact List.mem_map_of_mem (List.mem_range'_1.2 (by omega))
      have hport : first + ((port - first).toNat : Int) = port := by omega
      have hb := hb _ hm
      rw [probeAt, hport] at hm hb
      rwa [show (world _).isFree port = false from hb] at hm
  · intro hall
    cases hg with
    | nothing hr => exact hr
    | @port busy found hp' hr hb =>
      -- the port that it got would have been found taken as well
      have hfound : Probe.mk found true ∈ c.probes := by simp [hp']
      rw [hp] at hfound hall
      obtain ⟨k, hk, he⟩ := List.mem_map.1 hfound
      obtain ⟨he, -⟩ := Probe.mk.inj he
      have hk := List.mem_range'_1.1 hk
      cases eq_of_port_eq hfound (hall found (by omega) (by omega)) rfl

theorem pairwise_map_probeAt (world : Nat → Session) (first : Int) (made n : Nat) :
    (((List.range' made n).map (probeAt world first)).map (·.port)).Pairwise (· < ·) := by
  rw [List.map_map, List.pairwise_map]
  exact List.Pairwise.imp (fun h => Int.add_lt_add_left (Int.ofNat_lt.2 h) first)
    List.pairwise_lt_range'

theorem forall_port_ne_iff {n : Nat} {port : Int} (h : first + made ≤ port) :
    (∀ p ∈ (List.range' made n).map (probeAt world first), p.port ≠ port) ↔
      first + (made + n : Nat) ≤ port := by
  rw [List.forall_mem_map]
  constructor
  · refine fun hne => Int.not_lt.1 fun hlt => ?_
    refine hne (port - first).toNat (List.mem_range'_1.2 (by omega)) ?_
    rw [probeAt_port]
    omega
  · intro hle k hk
    have hk := List.mem_range'_1.1 hk
    rw [probeAt_port]
    omega

theorem HasProbed.mem_given_iff (h : HasProbed first last made a) {port : Int} :
    port ∈ given (calls world count made a) ↔ ⟨port, true⟩ ∈ tried (calls world count made a) := by
  rw [h.given_calls, List.mem_map]
  constructor
  · rintro ⟨⟨_, isFree⟩, hp, rfl⟩
    obtain ⟨hp, rfl⟩ := List.mem_filter.1 hp
    exact hp
  · exact fun hp => ⟨_, List.mem_filter.2 ⟨hp, rfl⟩, rfl⟩

theorem HasProbed.passed_over (h : HasProbed first last made a) {port lower : Int}
    (hp : port ∈ given (calls world count made a)) (hf : first + made ≤ lower) (hl : lower < port)
    (hn : lower ∉ given (calls world count made a)) :
    ⟨lower, false⟩ ∈ tried (calls world count made a) := by
  have ht := (h.tried_calls world count).1
  rw [h.mem_given_iff] at hp hn
  rw [ht] at hp hn ⊢
  obtain ⟨k, hk, he⟩ := List.mem_map.1 hp
  obtain ⟨rfl, -⟩ := Probe.mk.inj he
  have hk := List.mem_range'_1.1 hk
  have hi : (lower - first).toNat ∈
      List.range' made (tried (calls world count made a)).length :=
    List.mem_range'_1.2 ⟨by omega, by omega⟩
  have hm := List.mem_map_of_mem (f := probeAt world first) hi
  rw [probeAt, show first + ((lower - first).toNat : Int) = lower by omega] at hm
  cases hfree : (world (lower - first).toNat).isFree lower with
  | false => exact hfree ▸ hm
  | true => exact absurd (hfree ▸ hm) hn

theorem HasProbed.result_cases (h : HasProbed first last 0 a)
    (hc : calls world count 0 a = before ++ c :: after) :
    ((∃ port, c.result = .ok port ∧ ⟨port, true⟩ ∈ c.probes) ∨
        c.result = .error (.portsExhausted last)) ∧
      (c.result = .error (.portsExhausted last) ↔
        ∀ port, first ≤ port → port ≤ last → (∀ p ∈ tried before, p.port ≠ port) →
          ⟨port, false⟩ ∈ c.probes) ∧
      (c.result = .error (.portsExhausted last) →
        ∀ d ∈ after, d.result = .error (.portsExhausted last)) := by
  obtain ⟨a, k, hbefore, ha, rfl, rfl⟩ := h.split hc
  obtain ⟨ha', hgets⟩ := ha.call world
  refine ⟨?_, ?_, fun he d hd => ?_⟩
  · cases hgets with
    | port hp hr => exact .inl ⟨_, hr, hp ▸ List.mem_concat_self⟩
    | nothing hr => exact .inr hr
  · have hunprobed (port : Int) (hf : first ≤ port) :
        (∀ p ∈ tried before, p.port ≠ port) ↔ first + (0 + (tried before).length : Nat) ≤ port := by
      have hb := (h.tried_calls world before.length).1
      rw [← hbefore] at hb
      rw [← forall_port_ne_iff (by omega), ← hb]
    rw [ha.exhausted_iff]
    constructor
    · exact fun hall port hf hl hnot => hall port ((hunprobed port hf).1 hnot) hl
    · intro hall port hf hl
      exact hall port (by omega) hl ((hunprobed port (by omega)).2 hf)
  · cases hgets with
    | port _ hr => rw [hr] at he; cases he
    | nothing _ _ hn => exact (ha'.calls_of_next_eq hn d hd).2

end Calls

theorem probe_eq_ok (s : Session) {port : Int} (hf : 0 < port) (hl : port ≤ Address.maxPort) :
    s.probe port = .ok (s.isFree port) := by
  have hp : ¬ (port < 0 ∨ Address.maxPort < port) := by omega
  rw [Session.probe, Session.bind, if_neg hp]
  cases s.isFree port <;> rfl

/-- Whoever calls, and whatever becomes of the ports meanwhile: no port is probed twice, the ports
that callers get increase, and those in between were taken. A call fails if and only if it finds
all ports taken that are left, and then all later calls fail. -/
theorem ports_given_once {first last : Int} (hf : 0 < first) (hl : first ≤ last)
    (hm : last ≤ Address.maxPort) :
    ∃ a, create first last = .ok a ∧ ∀ (world : Nat → Session) (count : Nat),
      let cs := calls world count 0 a
      (∀ n p, (tried cs)[n]? = some p → (world n).probe p.port = .ok p.isFree) ∧
      ((tried cs).map (·.port)).Pairwise (· < ·) ∧
      (given cs).Pairwise (· < ·) ∧
      (∀ port ∈ given cs, first ≤ port ∧ port ≤ last ∧ ⟨port, true⟩ ∈ tried cs ∧
        ∀ lower, first ≤ lower → lower < port → lower ∉ given cs → ⟨lower, false⟩ ∈ tried cs) ∧
      (∀ port, ⟨port, false⟩ ∈ tried cs → port ∉ given cs) ∧
      ∀ before c after, cs = before ++ c :: after →
        ((∃ port, c.result = .ok port ∧ ⟨port, true⟩ ∈ c.probes) ∨
          c.result = .error (.portsExhausted last)) ∧
        (c.result = .error (.portsExhausted last) ↔
          ∀ port, first ≤ port → port ≤ last → (∀ p ∈ tried before, p.port ≠ port) →
            ⟨port, false⟩ ∈ c.probes) ∧
        (c.result = .error (.portsExhausted last) →
          ∀ d ∈ after, d.result = .error (.portsExhausted last)) := by
  refine ⟨⟨first, last⟩, if_pos ⟨hf, hl, hm⟩, fun world count => ?_⟩
  intro cs
  have h0 : HasProbed first last 0 ⟨first, last⟩ :=
    ⟨rfl, (Int.add_zero first).symm, by dsimp only; omega⟩
  obtain ⟨ht, hlast⟩ := h0.tried_calls world count
  change tried cs = _ at ht
  have hgiven (port : Int) : port ∈ given cs ↔ ⟨port, true⟩ ∈ tried cs := h0.mem_given_iff
  have hincreasing : ((tried cs).map (·.port)).Pairwise (· < ·) :=
    ht ▸ pairwise_map_probeAt world first 0 _
  refine ⟨fun n p hp => ?_, hincreasing, ?_, fun port hport => ?_, fun port hbusy hport => ?_,
    fun before c after hc => h0.result_cases hc⟩
  · rw [ht] at hp
    obtain ⟨k, hk, rfl⟩ := Option.map_eq_some_iff.1 (List.getElem?_map ▸ hp)
    obtain ⟨hlt, rfl⟩ := List.getElem?_eq_some_iff.1 hk
    rw [List.length_range'] at hlt
    rw [List.getElem_range', Nat.zero_add, Nat.one_mul, probeAt]
    exact probe_eq_ok (world n) (by dsimp only; omega) (by dsimp only; omega)
  · rw [show given cs = _ from h0.given_calls]
    exact hincreasing.sublist (List.filter_sublist.map _)
  · have htrue := (hgiven port).1 hport
    obtain ⟨k, hk, he⟩ := List.mem_map.1 (ht ▸ htrue)
    obtain ⟨rfl, -⟩ := Probe.mk.inj he
    have hk := List.mem_range'_1.1 hk
    exact ⟨by omega, by omega, htrue,
      fun lower hge hlt hnot => h0.passed_over hport (by omega) hlt hnot⟩
  · have htrue := (hgiven port).1 hport
    rw [ht] at hbusy htrue
    cases eq_of_port_eq hbusy htrue rfl

def changingHost (n : Nat) : Session := { occupied := [14220 + 2 * (n / 2)] }

theorem ports_given_once_changing_host :
    ∃ a, create 14220 14222 = .ok a ∧
      tried (calls changingHost 3 0 a) = [⟨14220, false⟩, ⟨14221, true⟩, ⟨14222, false⟩] ∧
      given (calls changingHost 3 0 a) = [14221] ∧
      (given (calls changingHost 3 0 a)).Pairwise (· < ·) := by
  obtain ⟨a, ha, hall⟩ :=
    @ports_given_once 14220 14222 (by decide) (by decide) (by decide)
  have he : (⟨14220, 14222⟩ : Allocator) = a := Except.ok.inj ha
  subst he
  exact ⟨_, rfl, by decide, by decide, (hall changingHost 3).2.2.1⟩

end Allocator

end LineHandshake
