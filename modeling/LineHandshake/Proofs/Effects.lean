import LineHandshake.Proofs.Reservation
import LineHandshake.Proofs.Scene

/-!
What a step of a session does to its servers and clients: nothing, or it adds a server, or it does
something to one of them. From this it follows that servers and clients never go away and that a
client who reaches a server later than another one is not served.
-/

namespace LineHandshake

namespace Allocator

variable {σ : Type} {probe : Int → σ → Bool × σ} {s : σ}

theorem search_host (hs : ∀ port, (probe port s).2 = s) (port : Int) (count : Nat) :
    (search probe port count s).2.2 = s := by
  induction count generalizing port with
  | zero => rfl
  | succ count ih =>
    have hp := hs port
    rw [search]
    split
    · next hf => rwa [hf] at hp
    · next hf =>
      rw [hf] at hp
      cases hp
      exact ih (port + 1)

theorem nextPort_host (hs : ∀ port, (probe port s).2 = s) (a : Allocator) :
    (a.nextPort probe s).2.2 = s := by
  have hh := search_host hs a.next (a.last + 1 - a.next).toNat
  unfold nextPort
  generalize search probe a.next (a.last + 1 - a.next).toNat s = r at hh ⊢
  obtain ⟨_ | port, probes, t⟩ := r
  · exact hh
  · exact hh

end Allocator

namespace Session

def ServerStep.isArrival : ServerStep → Bool
  | .connect .. | .dial .. => true
  | _ => false

def Step.isArrival : Step → Bool
  | .dialAlone .. => true
  | .server _ step => step.isArrival
  | _ => false

/-- What a step does to the servers and the clients of a session. -/
inductive Effect (s : Session) : Step → Session → Prop
  | none {st : Step} {t : Session} (hv : t.servers = s.servers) (hg : t.guests = s.guests) :
      Effect s st t
  | start {request : ServerRequest} {t : Session} (spec : ServerSpec) (bound : Except Fault Unit)
      (hv : t.servers = s.servers ++ [Server.start spec bound]) (hg : t.guests = s.guests) :
      Effect s (.start request) t
  | server {i : Nat} {step : ServerStep} {t : Session} {f : Server → Server}
      (hs : step.isArrival = false) (hf : ∀ v, ∃ hs, v.after hs = f v)
      (hv : t.servers = s.servers.modify i f) (hg : t.guests = s.guests) :
      Effect s (.server i step) t
  | arrival {st : Step} {t : Session} {host peer : Nat} {v : Server} {chunks : List Bytes}
      {ending : Option Ending} (hs : st.isArrival = true) (h : s.servers[host]? = some v)
      (hl : v.isListening = true)
      (hv : t.servers = s.servers.set host (v.accept peer (Server.arrived chunks ending)))
      (hg : t.guests = s.guests ∨ ∃ x : Guest, x.host = host ∧ x.isServed = isAccepting v ∧
        t.guests = s.guests ++ [x]) :
      Effect s st t
  | guest {g : Nat} {step : GuestStep} {c c' : Scene} (h : s.HasScene g c) (hl : c.Leads c') :
      Effect s (.guest g step) (s.put g c')

variable {s t : Session} {st : Step}

theorem isAccepting_eq_true_iff {v : Server} : isAccepting v = true ↔ v.phase = .accepting := by
  unfold isAccepting
  split
  · next h => exact ⟨fun _ => h, fun _ => rfl⟩
  · next h => exact ⟨nofun, fun hp => absurd hp h⟩

theorem tryPort_host (s : Session) (port : Int) : (tryPort port s).2 = s := rfl

theorem nextPort_unchanged (s : Session) (allocator : Option Nat) :
    (s.nextPort allocator).2.1.servers = s.servers ∧
      (s.nextPort allocator).2.1.guests = s.guests := by
  have hs (a : Allocator) : (a.nextPort tryPort s).2.2.servers = s.servers ∧
      (a.nextPort tryPort s).2.2.guests = s.guests := by
    rw [Allocator.nextPort_host (tryPort_host s) a]
    exact ⟨rfl, rfl⟩
  cases allocator <;> exact hs _

theorem nextPorts_unchanged (allocator : Option Nat) (count : Nat) (s : Session) :
    (nextPorts allocator count s).2.1.servers = s.servers ∧
      (nextPorts allocator count s).2.1.guests = s.guests := by
  induction count generalizing s with
  | zero => exact ⟨rfl, rfl⟩
  | succ count ih =>
    have hs := nextPort_unchanged s allocator
    rw [nextPorts]
    generalize s.nextPort allocator = r at hs ⊢
    obtain ⟨_ | port, s', log⟩ := r
    · exact hs
    · exact ⟨(ih s').1.trans hs.1, (ih s').2.trans hs.2⟩

theorem exists_of_listener? {port : Int} {host : Nat} (h : s.listener? port = some host) :
    ∃ v, s.servers[host]? = some v ∧ v.isListening = true := by
  obtain ⟨hi, hv, -⟩ := List.findIdx?_eq_some_iff_getElem.1 h
  exact ⟨_, List.getElem?_eq_getElem hi, (Bool.and_eq_true_iff.1 hv).2⟩

theorem connect_effect (hst : st.isArrival = true) (target : Nat) (port : Int)
    (chunks : List Bytes) (ending : Option Ending) (line : Option Dialled) :
    let t := (s.connect target port (Server.arrived chunks ending) line).2
    Effect s st t ∧ Effect s st { t with guests := s.guests } := by
  rw [connect]
  split
  · exact ⟨.none rfl rfl, .none rfl rfl⟩
  · next host hl =>
    obtain ⟨v, hv, hlisten⟩ := exists_of_listener? hl
    have hset : s.servers.modify host (fun v =>
        v.accept s.connections (Server.arrived chunks ending)) =
        s.servers.set host (v.accept s.connections (Server.arrived chunks ending)) :=
      modify_eq_set_of_getElem? hv _
    refine ⟨.arrival hst hv hlisten hset (.inr ⟨_, rfl, ?_, rfl⟩),
      .arrival hst hv hlisten hset (.inl rfl)⟩
    rw [hv, Option.any_some]

theorem dial_effect (hst : st.isArrival = true) (target : Nat) (host : Text) (port : Int)
    (limit : Duration) :
    let t := (s.dial target host port limit).2.1
    Effect s st t ∧ Effect s st { t with guests := s.guests } := by
  rw [dial]
  dsimp only
  split
  · exact ⟨.none rfl rfl, .none rfl rfl⟩
  · split
    · exact ⟨.none rfl rfl, .none rfl rfl⟩
    · next port _ =>
      have hc := connect_effect (s := s) hst target port [] none (some { limit })
      change Effect s st (s.connect target port {} (some { limit })).2 ∧
        Effect s st { (s.connect target port {} (some { limit })).2 with guests := s.guests } at hc
      generalize s.connect target port {} (some { limit }) = r at hc
      obtain ⟨_ | _, t⟩ := r
      · exact hc
      · exact hc

theorem tick_effect (i used count : Nat) (s : Session) :
    ∃ f : Server → Server, (∀ v, ∃ hs, v.after hs = f v) ∧
      (tick i used count s).2 = s.modifyServer i f := by
  induction count generalizing used s with
  | zero => exact ⟨id, fun v => ⟨[], rfl⟩, by simp [tick, modifyServer]⟩
  | succ count ih =>
    rw [tick]
    split
    · obtain ⟨f, hf, he⟩ := ih (used + 1) (s.modifyServer i Server.tick)
      refine ⟨fun v => f v.tick, fun v => ?_, ?_⟩
      · obtain ⟨hs, hv⟩ := hf v.tick
        exact ⟨.tick :: hs, hv⟩
      · rw [he]
        simp only [modifyServer, List.modify_modify_eq]
        rfl
    · exact ⟨id, fun v => ⟨[], rfl⟩, by simp [modifyServer]⟩

theorem serverStep_effect {i : Nat} {v : Server} (step : ServerStep) :
    Effect s (.server i step) (serverStep i v s step).2 := by
  cases step with
  | shutDown =>
    have hf : ∀ v : Server, ∃ hs, v.after hs = v.shutDown := fun v =>
      Server.exists_after_of_leads [.shutDown] (Server.leads_resume _)
    exact .server rfl hf rfl rfl
  | join => exact .none rfl rfl
  | summarize => exact .none rfl rfl
  | describe => exact .none rfl rfl
  | tick count =>
    obtain ⟨f, hf, he⟩ := tick_effect i 0 count s
    exact .server rfl hf (congrArg servers he) (by rw [serverStep, he]; rfl)
  | connect chunks ending =>
    have hst : Step.isArrival (.server i (.connect chunks ending)) = true := rfl
    have hc := (connect_effect (s := s) hst i v.spec.port chunks ending none).1
    cases ending <;> exact hc
  | dial host limit => exact (dial_effect rfl i host v.spec.port limit).1

theorem startStep_effect (request : ServerRequest) :
    Effect s (.start request) (startStep request s).2 := by
  rw [startStep]
  cases request.port with
  | some port => exact .start _ _ rfl rfl
  | none =>
    have hs := nextPort_unchanged s request.allocator
    generalize s.nextPort request.allocator = r at hs ⊢
    obtain ⟨_ | port, s', log⟩ := r
    · exact .none hs.1 hs.2
    · exact .start _ _ (congrArg (· ++ [_]) hs.1) hs.2

/-- A session in which whoever has reached a server came to one that has its client by now, and
the client that is served came first. -/
structure IsOrderly (s : Session) : Prop where
  reserved {i : Nat} {v : Server} (h : s.servers[i]? = some v) : v.IsReserved
  hosted {g : Nat} {x : Guest} (h : s.guests[g]? = some x) :
    ∃ v, s.servers[x.host]? = some v ∧ v.peer ≠ none
  first {g g' : Nat} {x x' : Guest} (h : s.guests[g]? = some x) (h' : s.guests[g']? = some x')
    (hh : x'.host = x.host) (hs : x.isServed = true) : g ≤ g'

theorem IsOrderly.exists_scene (h : s.IsOrderly) {g : Nat} {x : Guest}
    (hg : s.guests[g]? = some x) : ∃ c : Scene, s.HasScene g c ∧ c.guest = x := by
  obtain ⟨v, hv, -⟩ := h.hosted hg
  exact ⟨⟨x, v⟩, ⟨hg, hv⟩, rfl⟩

theorem step_effect [Json.Stack] (h : s.IsOrderly) (st : Step) : Effect s st (s.step st).2 := by
  cases st with
  | allocate first last =>
    simp only [step]
    split <;> exact .none rfl rfl
  | nextPorts allocator count =>
    have hs := nextPorts_unchanged allocator count s
    exact .none hs.1 hs.2
  | probe port => exact .none rfl rfl
  | occupy ports => exact .none rfl rfl
  | vacate ports => exact .none rfl rfl
  | dialAlone host port limit => exact (dial_effect rfl _ host port limit).2
  | start request => exact startStep_effect request
  | server i step =>
    simp only [Session.step]
    split
    · exact .none rfl rfl
    · exact serverStep_effect step
  | guest g step =>
    simp only [Session.step]
    split
    · exact .none rfl rfl
    · next x hg =>
      obtain ⟨c, hc, rfl⟩ := h.exists_scene hg
      obtain ⟨a, c', hl, he⟩ := guestStep_eq_put g c step
      rw [he s hc]
      exact .guest hc hl

structure Leads (s t : Session) : Prop where
  servers {i : Nat} {v : Server} (h : s.servers[i]? = some v) :
    ∃ v', t.servers[i]? = some v' ∧ ∃ hs, v.after hs = v'
  guests {g : Nat} {x : Guest} (h : s.guests[g]? = some x) :
    ∃ x', t.guests[g]? = some x' ∧ x'.host = x.host ∧ x'.isServed = x.isServed

theorem Leads.refl (s : Session) : s.Leads s :=
  ⟨fun h => ⟨_, h, [], rfl⟩, fun h => ⟨_, h, rfl, rfl⟩⟩

theorem Leads.trans {u : Session} (h : s.Leads t) (h' : t.Leads u) : s.Leads u := by
  constructor
  · intro i v hv
    obtain ⟨v₁, hv₁, hs, rfl⟩ := h.servers hv
    obtain ⟨v₂, hv₂, ks, rfl⟩ := h'.servers hv₁
    exact ⟨_, hv₂, hs ++ ks, Server.after_append ..⟩
  · intro g x hx
    obtain ⟨x₁, hx₁, hh, hs⟩ := h.guests hx
    obtain ⟨x₂, hx₂, hh', hs'⟩ := h'.guests hx₁
    exact ⟨x₂, hx₂, hh'.trans hh, hs'.trans hs⟩

theorem exists_of_set {as : List Server} {i j : Nat} {v v' w : Server} (hv : as[i]? = some v)
    (hf : ∃ hs, v.after hs = v') (hw : as[j]? = some w) :
    ∃ w', (as.set i v')[j]? = some w' ∧ ∃ hs, w.after hs = w' := by
  obtain ⟨hi, -⟩ := List.getElem?_eq_some_iff.1 hv
  by_cases h : i = j
  · subst h
    obtain rfl : v = w := Option.some.inj (hv.symm.trans hw)
    exact ⟨v', List.getElem?_set_self hi, hf⟩
  · exact ⟨w, by rw [List.getElem?_set_ne h, hw], [], rfl⟩

theorem getElem?_append_of_eq_some {α : Type} {as : List α} {i : Nat} {a : α}
    (h : as[i]? = some a) (bs : List α) : (as ++ bs)[i]? = some a := by
  rw [List.getElem?_append_left (List.getElem?_eq_some_iff.1 h).1, h]

theorem Effect.leads (h : Effect s st t) : s.Leads t := by
  cases h with
  | none hv hg => exact ⟨fun h => ⟨_, hv ▸ h, [], rfl⟩, fun h => ⟨_, hg ▸ h, rfl, rfl⟩⟩
  | start spec bound hv hg =>
    refine ⟨fun h => ⟨_, ?_, [], rfl⟩, fun h => ⟨_, hg ▸ h, rfl, rfl⟩⟩
    rw [hv]
    exact getElem?_append_of_eq_some h _
  | @server i _ _ f hs hf hv hg =>
    refine ⟨fun {j v} h => ?_, fun h => ⟨_, hg ▸ h, rfl, rfl⟩⟩
    rw [hv, List.getElem?_modify, h]
    refine ⟨_, rfl, ?_⟩
    dsimp only
    split
    · exact hf v
    · exact ⟨[], rfl⟩
  | @arrival _ _ _ peer v chunks ending hs h hl hv hg =>
    constructor
    · intro j w hw
      rw [hv]
      exact exists_of_set h (Server.exists_after_accept v peer chunks ending) hw
    · intro g x hx
      refine ⟨x, ?_, rfl, rfl⟩
      rcases hg with hg | ⟨y, -, -, hg⟩
      · rw [hg, hx]
      · rw [hg]
        exact getElem?_append_of_eq_some hx _
  | @guest g _ c c' hc hl =>
    constructor
    · intro j w hw
      rw [Session.put, hl.host]
      exact exists_of_set hc.2 hl.server hw
    · intro h x hx
      by_cases hgh : g = h
      · subst hgh
        obtain rfl : c.guest = x := Option.some.inj (hc.1.symm.trans hx)
        exact ⟨c'.guest, (hc.put hl).1, hl.host, hl.isServed⟩
      · exact ⟨x, by rw [Session.put, List.getElem?_set_ne hgh, hx], rfl, rfl⟩

theorem Leads.peer (hl : s.Leads t) (h : s.IsOrderly) {i : Nat} {v : Server}
    (hv : s.servers[i]? = some v) (hp : v.peer ≠ none) :
    ∃ v', t.servers[i]? = some v' ∧ v'.peer = v.peer := by
  obtain ⟨v', hv', hs, rfl⟩ := hl.servers hv
  exact ⟨_, hv', (h.reserved hv).peer_after hp hs⟩

theorem Leads.hosted (hl : s.Leads t) (h : s.IsOrderly) {g : Nat} {x : Guest}
    (hx : s.guests[g]? = some x) : ∃ v, t.servers[x.host]? = some v ∧ v.peer ≠ none := by
  obtain ⟨v, hv, hp⟩ := h.hosted hx
  obtain ⟨v', hv', he⟩ := hl.peer h hv hp
  exact ⟨v', hv', by rwa [he]⟩

theorem getElem?_isSome_of_length_eq {α : Type} {as bs : List α} (h : bs.length = as.length)
    {i : Nat} {b : α} (hb : bs[i]? = some b) : ∃ a, as[i]? = some a := by
  obtain ⟨hi, -⟩ := List.getElem?_eq_some_iff.1 hb
  rw [h] at hi
  exact ⟨_, List.getElem?_eq_getElem hi⟩

theorem Leads.isOrderly (hl : s.Leads t) (h : s.IsOrderly)
    (hr : ∀ {i : Nat} {v' : Server}, t.servers[i]? = some v' →
      (∃ v, s.servers[i]? = some v) ∨ v'.IsReserved)
    (hg : t.guests.length = s.guests.length) : t.IsOrderly := by
  have back : ∀ {g : Nat} {x' : Guest}, t.guests[g]? = some x' →
      ∃ x, s.guests[g]? = some x ∧ x'.host = x.host ∧ x'.isServed = x.isServed := by
    intro g x' hx'
    obtain ⟨x, hx⟩ := getElem?_isSome_of_length_eq hg hx'
    obtain ⟨y, hy, hh, hs⟩ := hl.guests hx
    obtain rfl : x' = y := Option.some.inj (hx'.symm.trans hy)
    exact ⟨x, hx, hh, hs⟩
  refine ⟨?_, ?_, ?_⟩
  · intro i v' hv'
    rcases hr hv' with ⟨v, hv⟩ | hn
    · obtain ⟨w, hw, hs, rfl⟩ := hl.servers hv
      obtain rfl := Option.some.inj (hv'.symm.trans hw)
      exact (h.reserved hv).after hs
    · exact hn
  · intro g x' hx'
    obtain ⟨x, hx, hh, -⟩ := back hx'
    rw [hh]
    exact hl.hosted h hx
  · intro g g' x x' hx hx' hh hs
    obtain ⟨y, hy, hyh, hys⟩ := back hx
    obtain ⟨y', hy', hyh', -⟩ := back hx'
    exact h.first hy hy' (by rw [← hyh', hh, hyh]) (by rw [← hys, hs])

theorem getElem?_concat_cases {α : Type} {as : List α} {i : Nat} {a b : α}
    (h : (as ++ [a])[i]? = some b) : as[i]? = some b ∨ (i = as.length ∧ b = a) := by
  rw [List.getElem?_append] at h
  split at h
  · exact .inl h
  · obtain ⟨hi, rfl⟩ := List.getElem?_eq_some_iff.1 h
    simp only [List.length_singleton] at hi
    exact .inr ⟨by omega, by simp⟩

theorem IsOrderly.add (h : s.IsOrderly) (hv : t.servers = s.servers) {x : Guest}
    (hg : t.guests = s.guests ++ [x]) (hx : ∃ v, s.servers[x.host]? = some v ∧ v.peer ≠ none)
    (hn : x.isServed = true → ∀ (g : Nat) (y : Guest), s.guests[g]? = some y →
      y.host ≠ x.host) : t.IsOrderly := by
  refine ⟨fun h' => h.reserved (hv ▸ h'), ?_, ?_⟩
  · intro g y hy
    rw [hv]
    rw [hg] at hy
    rcases getElem?_concat_cases hy with hy | ⟨-, rfl⟩
    · exact h.hosted hy
    · exact hx
  · intro g g' y y' hy hy' hh hs
    rw [hg] at hy hy'
    rcases getElem?_concat_cases hy with hy | ⟨rfl, rfl⟩
    · rcases getElem?_concat_cases hy' with hy' | ⟨rfl, -⟩
      · exact h.first hy hy' hh hs
      · exact (List.getElem?_eq_some_iff.1 hy).1.le
    · rcases getElem?_concat_cases hy' with hy' | ⟨rfl, rfl⟩
      · exact absurd hh (hn hs g' y' hy')
      · exact le_refl _

theorem Effect.isOrderly (h : s.IsOrderly) (he : Effect s st t) : t.IsOrderly := by
  have hl := he.leads
  cases he with
  | none hv hg =>
    exact hl.isOrderly h (fun hw => .inl ⟨_, hv ▸ hw⟩) (congrArg List.length hg)
  | start spec bound hv hg =>
    refine hl.isOrderly h (fun {i v'} hw => ?_) (congrArg List.length hg)
    rw [hv] at hw
    rcases getElem?_concat_cases hw with hw | ⟨-, rfl⟩
    · exact .inl ⟨_, hw⟩
    · exact .inr (Server.isReserved_start spec bound)
  | server hs hf hv hg =>
    have hlen : t.servers.length = s.servers.length := by rw [hv, List.length_modify]
    exact hl.isOrderly h (fun hw => .inl (getElem?_isSome_of_length_eq hlen hw))
      (congrArg List.length hg)
  | guest hc hs =>
    exact hl.isOrderly h (fun hw => .inl (getElem?_isSome_of_length_eq List.length_set hw))
      List.length_set
  | @arrival _ _ host peer v chunks ending hst hh hlisten hv hg =>
    have hlen : t.servers.length = s.servers.length := by rw [hv, List.length_set]
    rcases hg with hg | ⟨x, rfl, hserved, hg⟩
    · exact hl.isOrderly h (fun hw => .inl (getElem?_isSome_of_length_eq hlen hw))
        (congrArg List.length hg)
    · -- without the new client the session is one that nobody was told of
      have he : Effect s st { t with guests := s.guests } := .arrival hst hh hlisten hv (.inl rfl)
      have ho : IsOrderly { t with guests := s.guests } :=
        he.leads.isOrderly h (fun hw => .inl (getElem?_isSome_of_length_eq hlen hw)) rfl
      refine ho.add rfl hg ?_ ?_
      · obtain ⟨hi, -⟩ := List.getElem?_eq_some_iff.1 hh
        refine ⟨_, by rw [hv, List.getElem?_set_self hi], ?_⟩
        exact (h.reserved hh).accept_peer_ne hlisten peer _
      · intro hs g y hy hhost
        obtain ⟨w, hw, hp⟩ := h.hosted hy
        rw [hhost] at hw
        obtain rfl := Option.some.inj (hh.symm.trans hw)
        rw [hserved, isAccepting_eq_true_iff] at hs
        exact (h.reserved hh).phase_ne hp hs

def after [Json.Stack] (s : Session) (steps : List Step) : Session :=
  steps.foldl (fun s st => (s.step st).2) s

theorem isOrderly_empty : IsOrderly {} := by
  constructor <;> simp

theorem IsOrderly.after [Json.Stack] (h : s.IsOrderly) (steps : List Step) :
    (s.after steps).IsOrderly ∧ s.Leads (s.after steps) := by
  induction steps generalizing s with
  | nil => exact ⟨h, .refl s⟩
  | cons st steps ih =>
    have he := step_effect h st
    obtain ⟨ho, hl⟩ := ih (he.isOrderly h)
    exact ⟨ho, he.leads.trans hl⟩

end Session

end LineHandshake
