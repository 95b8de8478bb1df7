import LineHandshake.Proofs.Allocation
import LineHandshake.Proofs.Closing
import LineHandshake.Proofs.Effects

/-!
Who holds a port, and for how long. A server holds its port from its start to the end of its run,
and nobody else does meanwhile. An allocator finds a port free just when a server can bind it, so
what it gives can be bound.
-/

namespace LineHandshake

namespace Allocator

/-- What an allocator has still to give are ports. -/
structure IsInRange (a : Allocator) : Prop where
  next_pos : 0 < a.next
  last_le : a.last ≤ Address.maxPort

theorem isInRange_of_create {first last : Int} {a : Allocator}
    (h : create first last = .ok a) : a.IsInRange := by
  unfold create at h
  split at h
  · next hr =>
    cases h
    exact ⟨hr.1, hr.2.2⟩
  · cases h

/-- What becomes of an allocator: it stays and only goes on. A new one has a range of ports. -/
inductive Continues : Option Allocator → Option Allocator → Prop
  | missing : Continues none none
  | made {a : Allocator} (h : a.IsInRange) : Continues none (some a)
  | there {a : Allocator} {next : Int} (h : a.next ≤ next) :
    Continues (some a) (some { a with next })

variable {o o' o'' : Option Allocator} {σ : Type} {probe : Int → σ → Bool × σ} {s : σ}

theorem Continues.refl (o : Option Allocator) : Continues o o := by
  cases o with
  | none => exact .missing
  | some a => exact .there (Int.le_refl a.next)

theorem Continues.trans (h : Continues o o') (h' : Continues o' o'') : Continues o o'' := by
  cases h with
  | missing => exact h'
  | made hr =>
    cases h' with
    | there hn => exact .made ⟨Int.lt_of_lt_of_le hr.next_pos hn, hr.last_le⟩
  | there hn =>
    cases h' with
    | there hn' => exact .there (Int.le_trans hn hn')

theorem Continues.isInRange (h : Continues o o') (ho : ∀ a, o = some a → a.IsInRange)
    {a : Allocator} (ha : o' = some a) : a.IsInRange := by
  cases h with
  | missing => cases ha
  | made hr =>
    cases ha
    exact hr
  | @there b _ hn =>
    cases ha
    have hb := ho b rfl
    exact ⟨Int.lt_of_lt_of_le hb.next_pos hn, hb.last_le⟩

theorem search_eq_some (hs : ∀ port, (probe port s).2 = s) {port found : Int} {count : Nat}
    (h : (search probe port count s).1 = some found) :
    (probe found s).1 = true ∧ port ≤ found ∧ found < port + count := by
  induction count generalizing port with
  | zero => cases h
  | succ count ih =>
    have hp := hs port
    rw [search] at h
    split at h
    · next hf =>
      cases h
      exact ⟨congrArg Prod.fst hf, by omega⟩
    · next hf =>
      rw [hf] at hp
      cases hp
      obtain ⟨hf, hl, hu⟩ := ih h
      exact ⟨hf, by omega⟩

theorem nextPort_cases (hs : ∀ port, (probe port s).2 = s) (a : Allocator) :
    (∃ next probes, a.next ≤ next ∧
        a.nextPort probe s =
          (⟨probes, .error (.portsExhausted a.last)⟩, { a with next }, s)) ∨
      ∃ port probes, a.next ≤ port ∧ port ≤ a.last ∧ (probe port s).1 = true ∧
        a.nextPort probe s = (⟨probes, .ok port⟩, { a with next := port + 1 }, s) := by
  have hhost := search_host hs a.next (a.last + 1 - a.next).toNat
  unfold nextPort
  cases hr : search probe a.next (a.last + 1 - a.next).toNat s with
  | mk found r =>
    obtain ⟨probes, t⟩ := r
    rw [hr] at hhost
    cases hhost
    cases found with
    | none => exact .inl ⟨_, probes, by omega, rfl⟩
    | some port =>
      obtain ⟨hf, hl, hu⟩ := search_eq_some hs (congrArg Prod.fst hr)
      exact .inr ⟨port, probes, hl, by omega, hf, rfl⟩

end Allocator

namespace Session

variable {s t : Session} {st : Step}

def allocator? (s : Session) : Option Nat → Option Allocator
  | none => some s.standard
  | some i => s.allocators[i]?

def setAllocator (s : Session) (a : Allocator) : Option Nat → Session
  | none => { s with standard := a }
  | some i => { s with allocators := s.allocators.set i a }

section Allocators

variable {source : Option Nat} {a : Allocator}

theorem nextPort_eq (s : Session) (source : Option Nat) :
    s.nextPort source =
      let r := ((s.allocator? source).getD s.standard).nextPort tryPort s
      (r.1.result, s.setAllocator r.2.1 source, r.1.log) := by
  let r := ((s.allocator? source).getD s.standard).nextPort tryPort s
  have hs : r.2.2 = s := Allocator.nextPort_host (tryPort_host s) _
  have hr : s.nextPort source = (r.1.result, r.2.2.setAllocator r.2.1 source, r.1.log) := by
    cases source <;> rfl
  rw [hr, hs]

theorem allocator?_setAllocator (h : (s.allocator? source).isSome) (a : Allocator) :
    (s.setAllocator a source).allocator? source = some a := by
  cases source with
  | none => rfl
  | some i =>
    obtain ⟨b, hb⟩ := Option.isSome_iff_exists.1 h
    exact List.getElem?_set_self (List.getElem?_eq_some_iff.1 hb).1

theorem continues_setAllocator {next : Int} (h : ∀ b, s.allocator? source = some b → b = a)
    (hn : a.next ≤ next) (source' : Option Nat) :
    Allocator.Continues (s.allocator? source')
      ((s.setAllocator { a with next } source).allocator? source') := by
  by_cases hs : source' = source
  · subst hs
    cases ha : s.allocator? source' with
    | some b =>
      rw [allocator?_setAllocator (by rw [ha]; rfl), h b ha]
      exact .there hn
    | none =>
      cases source' with
      | none => cases ha
      | some i =>
        have hi : s.allocators.length ≤ i := List.getElem?_eq_none_iff.1 ha
        rw [setAllocator, List.set_eq_of_length_le hi, ha]
        exact .missing
  · have he :
        (s.setAllocator { a with next } source).allocator? source' = s.allocator? source' := by
      cases source with
      | none =>
        cases source' with
        | none => exact absurd rfl hs
        | some j => rfl
      | some i =>
        cases source' with
        | none => rfl
        | some j => exact List.getElem?_set_ne (fun hij => hs (congrArg some hij.symm))
    rw [he]
    exact .refl _

theorem nextPort_continues (s : Session) (source source' : Option Nat) :
    Allocator.Continues (s.allocator? source') ((s.nextPort source).2.1.allocator? source') := by
  have hb : ∀ b, s.allocator? source = some b → b = (s.allocator? source).getD s.standard := by
    intro b hb
    rw [hb, Option.getD_some]
  rw [nextPort_eq]
  rcases Allocator.nextPort_cases (tryPort_host s) ((s.allocator? source).getD s.standard) with
    ⟨next, probes, hn, he⟩ | ⟨port, probes, hn, -, -, he⟩
  · rw [he]
    exact continues_setAllocator hb hn source'
  · rw [he]
    exact continues_setAllocator hb (Int.le_add_one hn) source'

theorem nextPorts_continues (source source' : Option Nat) (count : Nat) (s : Session) :
    Allocator.Continues (s.allocator? source')
      ((nextPorts source count s).2.1.allocator? source') := by
  induction count generalizing s with
  | zero => exact .refl _
  | succ count ih =>
    have hs := nextPort_continues s source source'
    rw [nextPorts]
    generalize s.nextPort source = r at hs ⊢
    obtain ⟨_ | port, s', log⟩ := r
    · exact hs
    · exact hs.trans (ih s')

theorem connect_allocator? (target : Nat) (port : Int) (c : Connection) (line : Option Dialled)
    (source : Option Nat) :
    (s.connect target port c line).2.allocator? source = s.allocator? source := by
  rw [connect]
  split
  · rfl
  · cases source <;> rfl

theorem dial_allocator? (target : Nat) (host : Text) (port : Int) (limit : Duration)
    (source : Option Nat) :
    (s.dial target host port limit).2.1.allocator? source = s.allocator? source := by
  rw [dial]
  dsimp only
  split
  · rfl
  · split
    · rfl
    · next port _ =>
      have hc := s.connect_allocator? target port {} (some { limit }) source
      generalize s.connect target port {} (some { limit }) = r at hc
      obtain ⟨_ | _, t⟩ := r
      · exact hc
      · exact hc

theorem serverStep_allocator? (i : Nat) (v : Server) (step : ServerStep) (source : Option Nat) :
    (serverStep i v s step).2.allocator? source = s.allocator? source := by
  cases step with
  | shutDown => cases source <;> rfl
  | join => rfl
  | summarize => rfl
  | describe => rfl
  | tick count =>
    obtain ⟨f, -, he⟩ := tick_effect i 0 count s
    rw [serverStep, he]
    cases source <;> rfl
  | connect chunks ending => exact connect_allocator? ..
  | dial host limit => exact dial_allocator? ..

theorem startServer_allocator? (spec : ServerSpec) (source : Option Nat) :
    (s.startServer spec).allocator? source = s.allocator? source := by
  cases source <;> rfl

theorem allocate_continues [Json.Stack] (first last : Int) (source : Option Nat) :
    Allocator.Continues (s.allocator? source)
      ((s.step (.allocate first last)).2.allocator? source) := by
  rw [Session.step]
  cases ha : Allocator.create first last with
  | error f => exact .refl _
  | ok a =>
    cases source with
    | none => exact .refl _
    | some i =>
      change Allocator.Continues s.allocators[i]? (s.allocators ++ [a])[i]?
      cases hb : (s.allocators ++ [a])[i]? with
      | none =>
        have hi := List.getElem?_eq_none_iff.1 hb
        rw [List.length_append] at hi
        rw [List.getElem?_eq_none (by omega)]
        exact .missing
      | some b =>
        rcases getElem?_concat_cases hb with hs | ⟨rfl, rfl⟩
        · rw [hs]
          exact .refl _
        · rw [List.getElem?_eq_none (Nat.le_refl _)]
          exact .made (Allocator.isInRange_of_create ha)

theorem startStep_of_port {request : ServerRequest} {port : Int} (h : request.port = some port) :
    startStep request s = (⟨.ok (.number port), []⟩, s.startServer (request.specAt port)) := by
  simp only [startStep, h]

theorem startStep_of_nextPort {request : ServerRequest} (h : request.port = none) :
    startStep request s =
      match s.nextPort request.allocator with
      | (.error f, s, log) => (⟨.error f, log⟩, s)
      | (.ok port, s, log) =>
        (⟨.ok (.number port), log⟩, s.startServer (request.specAt port)) := by
  cases request
  cases h
  rfl

theorem start_continues (request : ServerRequest) (source : Option Nat) :
    Allocator.Continues (s.allocator? source) ((startStep request s).2.allocator? source) := by
  cases hp : request.port with
  | some port =>
    rw [startStep_of_port hp, startServer_allocator?]
    exact .refl _
  | none =>
    have hs := nextPort_continues s request.allocator source
    rw [startStep_of_nextPort hp]
    generalize s.nextPort request.allocator = r at hs ⊢
    obtain ⟨_ | port, s', log⟩ := r
    · exact hs
    · rw [startServer_allocator?]
      exact hs

theorem step_continues [Json.Stack] (h : s.IsOrderly) (st : Step) (source : Option Nat) :
    Allocator.Continues (s.allocator? source) ((s.step st).2.allocator? source) := by
  have unchanged {t : Session} (he : t.allocator? source = s.allocator? source) :
      Allocator.Continues (s.allocator? source) (t.allocator? source) := by
    rw [he]
    exact .refl _
  cases st with
  | allocate first last => exact allocate_continues first last source
  | nextPorts allocator count => exact nextPorts_continues allocator source count s
  | probe port => exact .refl _
  | occupy ports => exact unchanged (by cases source <;> rfl)
  | vacate ports => exact unchanged (by cases source <;> rfl)
  | dialAlone host port limit =>
    refine unchanged ?_
    have hd := s.dial_allocator? s.servers.length host port limit source
    rw [← hd]
    cases source <;> rfl
  | start request => exact start_continues request source
  | server i step =>
    simp only [Session.step]
    split
    · exact .refl _
    · exact unchanged (serverStep_allocator? i _ step source)
  | guest g step =>
    simp only [Session.step]
    split
    · exact .refl _
    · next x hg =>
      obtain ⟨c, hc, rfl⟩ := h.exists_scene hg
      obtain ⟨a, c', -, he⟩ := guestStep_eq_put g c step
      rw [he s hc]
      exact unchanged (by cases source <;> rfl)

end Allocators

theorem isFree_eq_true_iff {port : Int} : s.isFree port = true ↔
    port ∉ s.occupied ∧ ∀ v ∈ s.servers, v.isListening = true → v.spec.port ≠ port := by
  rw [isFree, hasListener, Bool.not_eq_true', Bool.or_eq_false_iff, List.contains_eq_mem,
    decide_eq_false_iff_not, List.any_eq_false]
  simp only [Bool.and_eq_true, decide_eq_true_eq, not_and, imp_not_comm]

theorem bind_eq_ok_iff {port : Int} : s.bind port = .ok () ↔
    0 ≤ port ∧ port ≤ Address.maxPort ∧ s.isFree port = true := by
  rw [bind]
  split
  · next h => exact ⟨fun hb => (by cases hb), fun hp => absurd h (by omega)⟩
  · next h =>
    split
    · next hf => exact ⟨fun _ => ⟨by omega, by omega, hf⟩, fun _ => rfl⟩
    · next hf => exact ⟨fun hb => (by cases hb), fun hp => absurd hp.2.2 hf⟩

theorem isRecorded_of_bind {port : Int} {f : Fault} (h : s.bind port = .error f) :
    f.isRecorded = true := by
  unfold bind at h
  split at h
  · cases h
    rfl
  · split at h <;> cases h
    rfl

structure AreApart (vs : List Server) : Prop where
  proper {i : Nat} {v : Server} (h : vs[i]? = some v) : v.IsProper
  exclusive {i j : Nat} {v w : Server} (hv : vs[i]? = some v) (hw : vs[j]? = some w)
    (hl : v.isListening = true) (hl' : w.isListening = true)
    (hp : v.spec.port = w.spec.port) : i = j

theorem Leads.areApart (hl : s.Leads t) (h : AreApart s.servers)
    (hlen : t.servers.length = s.servers.length) : AreApart t.servers := by
  have back : ∀ {i : Nat} {v' : Server}, t.servers[i]? = some v' →
      ∃ v, s.servers[i]? = some v ∧ v'.IsProper ∧ v'.spec = v.spec ∧
        (v'.isListening = true → v.isListening = true) := by
    intro i v' hv'
    obtain ⟨v, hv⟩ := getElem?_isSome_of_length_eq hlen hv'
    obtain ⟨w, hw, hs, rfl⟩ := hl.servers hv
    obtain rfl := Option.some.inj (hv'.symm.trans hw)
    exact ⟨v, hv, (h.proper hv).after hs⟩
  refine ⟨fun hv' => ?_, fun hv' hw' hlv hlw hp => ?_⟩
  · obtain ⟨v, -, hp, -⟩ := back hv'
    exact hp
  · obtain ⟨v, hv, -, hsv, hlv'⟩ := back hv'
    obtain ⟨w, hw, -, hsw, hlw'⟩ := back hw'
    exact h.exclusive hv hw (hlv' hlv) (hlw' hlw) (by rw [← hsv, ← hsw, hp])

theorem AreApart.start (h : AreApart s.servers) (spec : ServerSpec) :
    AreApart (s.servers ++ [Server.start spec (s.bind spec.port)]) := by
  have hspec := Server.start_spec spec (s.bind spec.port)
  have hnew : (Server.start spec (s.bind spec.port)).IsProper :=
    Server.isProper_start (fun _ => isRecorded_of_bind) fun hb =>
      ⟨(bind_eq_ok_iff.1 hb).1, (bind_eq_ok_iff.1 hb).2.1⟩
  have hfree : (Server.start spec (s.bind spec.port)).isListening = true →
      ∀ {i : Nat} {v : Server}, s.servers[i]? = some v → v.isListening = true →
        v.spec.port ≠ spec.port := by
    intro hl i v hv hlv
    cases hb : s.bind spec.port with
    | error f =>
      rw [hb] at hl
      have hp : (Server.start spec (.error f)).phase = .ended := Server.fail_phase ..
      exact absurd hp (Server.isListening_iff.1 hl)
    | ok =>
      obtain ⟨-, -, hf⟩ := bind_eq_ok_iff.1 hb
      exact (isFree_eq_true_iff.1 hf).2 v (List.mem_of_getElem? hv) hlv
  refine ⟨fun hv => ?_, fun {i j v w} hv hw hlv hlw hp => ?_⟩
  · rcases getElem?_concat_cases hv with hv | ⟨-, rfl⟩
    · exact h.proper hv
    · exact hnew
  · rcases getElem?_concat_cases hv with hv | ⟨rfl, rfl⟩
    · rcases getElem?_concat_cases hw with hw | ⟨rfl, rfl⟩
      · exact h.exclusive hv hw hlv hlw hp
      · exact absurd (hp.trans (congrArg _ hspec)) (hfree hlw hv hlv)
    · rcases getElem?_concat_cases hw with hw | ⟨rfl, rfl⟩
      · exact absurd (hp.symm.trans (congrArg _ hspec)) (hfree hlv hw hlw)
      · rfl

theorem startStep_servers (request : ServerRequest) :
    (startStep request s).2.servers = s.servers ∨
      ∃ port, (startStep request s).2.servers =
        s.servers ++ [Server.start (request.specAt port) (s.bind (request.boundTo port))] := by
  cases hp : request.port with
  | some port =>
    rw [startStep_of_port hp]
    exact .inr ⟨port, rfl⟩
  | none =>
    rw [startStep_of_nextPort hp]
    cases hn : s.nextPort request.allocator with
    | mk r q =>
      obtain ⟨t, log⟩ := q
      obtain ⟨a, rfl⟩ : ∃ a, t = s.setAllocator a request.allocator := by
        rw [nextPort_eq] at hn
        exact ⟨_, (congrArg (·.2.1) hn).symm⟩
      cases r with
      | error f => exact .inl (by cases request.allocator <;> rfl)
      | ok port => exact .inr ⟨port, by cases request.allocator <;> rfl⟩

theorem Effect.length_servers (he : Effect s st t) (hst : ∀ request, st ≠ .start request) :
    t.servers.length = s.servers.length := by
  cases he with
  | none hv => rw [hv]
  | start => exact absurd rfl (hst _)
  | server _ _ hv => rw [hv, List.length_modify]
  | arrival _ _ _ hv => rw [hv, List.length_set]
  | guest _ _ => exact List.length_set

/-- A session in which every port has one holder at most, and allocators have only ports. -/
structure IsProper (s : Session) : Prop where
  orderly : s.IsOrderly
  apart : AreApart s.servers
  allocator {source : Option Nat} {a : Allocator} (h : s.allocator? source = some a) : a.IsInRange

theorem isProper_empty : IsProper {} := by
  refine ⟨isOrderly_empty, ⟨nofun, nofun⟩, fun {source a} h => ?_⟩
  cases source with
  | none =>
    cases h
    exact ⟨by decide, by decide⟩
  | some i => cases h

theorem IsProper.step [Json.Stack] (h : s.IsProper) (st : Step) : (s.step st).2.IsProper := by
  have he := step_effect h.orderly st
  refine ⟨he.isOrderly h.orderly, ?_, fun {source a} ha => ?_⟩
  · cases st with
    | start request =>
      rw [Session.step]
      rcases startStep_servers (s := s) request with hs | ⟨port, hs⟩
      · rw [hs]
        exact h.apart
      · rw [hs]
        exact h.apart.start (request.specAt port)
    | _ => exact he.leads.areApart h.apart (he.length_servers fun _ => Step.noConfusion)
  · exact (step_continues h.orderly st source).isInRange (fun b hb => h.allocator hb) ha

theorem IsProper.after [Json.Stack] (h : s.IsProper) (steps : List Step) :
    (s.after steps).IsProper := by
  induction steps generalizing s with
  | nil => exact h
  | cons st steps ih => exact ih (h.step st)

theorem IsProper.listener?_eq_iff (h : s.IsProper) {i : Nat} {v : Server}
    (hv : s.servers[i]? = some v) :
    s.listener? v.spec.port = some i ↔ v.phase ≠ .ended := by
  rw [← Server.isListening_iff]
  constructor
  · intro hl
    obtain ⟨w, hw, hlw⟩ := exists_of_listener? hl
    obtain rfl := Option.some.inj (hv.symm.trans hw)
    exact hlw
  · intro hlv
    cases hl : s.listener? v.spec.port with
    | none =>
      have hn := List.findIdx?_eq_none_iff.1 hl v (List.mem_of_getElem? hv)
      simp [hlv] at hn
    | some k =>
      obtain ⟨hk, hp, -⟩ := List.findIdx?_eq_some_iff_getElem.1 hl
      obtain ⟨hport, hlk⟩ := Bool.and_eq_true_iff.1 hp
      rw [h.apart.exclusive hv (List.getElem?_eq_getElem hk) hlv hlk
        (decide_eq_true_iff.1 hport).symm]

def portOf (s : Session) (i : Nat) : Option Int := (s.servers[i]?).map fun v => v.spec.port

end Session

end LineHandshake
