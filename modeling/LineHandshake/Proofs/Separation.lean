import LineHandshake.Proofs.Ports

/-!
Servers on different ports. A step aimed at one of them sees of a session only this server, its
clients and who listens on its port, and changes no more than the server and one client. So the
order of two steps aimed at different ones does not matter.
-/

namespace LineHandshake

namespace Server

open Session (Answer ServerStep isAccepting)

def tickUp (used : Nat) : (count : Nat) → Server → Nat × Server
  | 0, v => (used, v)
  | count + 1, v => if isAccepting v then tickUp (used + 1) count v.tick else (used, v)

/-- What comes of a step that is not a client's: its answer, and the server after it. -/
def respond (v : Server) : ServerStep → Answer × Server
  | .shutDown => (⟨.ok .done, [v.shutDownRecord]⟩, v.shutDown)
  | .join => (⟨.ok (.flag !v.isListening), []⟩, v)
  | .summarize => (⟨.ok (.summary v.summary), []⟩, v)
  | .describe => (⟨.ok (.line v.describe), []⟩, v)
  | .tick count => let r := v.tickUp 0 count; (⟨.ok (.number r.1), []⟩, r.2)
  | .connect .. | .dial .. => (⟨.ok .done, []⟩, v)

end Server

namespace Session

variable {s t : Session} {st st' : Step} {i j : Nat} {v w : Server}

def setServer (s : Session) (i : Nat) (v : Server) : Session :=
  { s with servers := s.servers.set i v }

theorem setServer_self (hv : s.servers[i]? = some v) : s.setServer i v = s := by
  rw [setServer, set_eq_self hv]

theorem tick_eq (hv : s.servers[i]? = some v) (used count : Nat) :
    tick i used count s = ((v.tickUp used count).1, s.setServer i (v.tickUp used count).2) := by
  induction count generalizing s v used with
  | zero => rw [tick, Server.tickUp, setServer_self hv]
  | succ count ih =>
    rw [tick, Server.tickUp, hv, Option.any_some]
    split
    · have hm : s.modifyServer i Server.tick = s.setServer i v.tick := by
        rw [modifyServer, modify_eq_set_of_getElem? hv, setServer]
      have hv' : (s.setServer i v.tick).servers[i]? = some v.tick :=
        List.getElem?_set_self (List.getElem?_eq_some_iff.1 hv).1
      rw [hm, ih hv', setServer, setServer, List.set_set, setServer]
    · rw [setServer_self hv]

theorem serverStep_eq {step : ServerStep} (hs : step.isArrival = false)
    (hv : s.servers[i]? = some v) :
    serverStep i v s step = ((v.respond step).1, s.setServer i (v.respond step).2) := by
  cases step with
  | shutDown =>
    rw [serverStep, modifyServer, modify_eq_set_of_getElem? hv]
    rfl
  | join => rw [serverStep, Server.respond, setServer_self hv]
  | summarize => rw [serverStep, Server.respond, setServer_self hv]
  | describe => rw [serverStep, Server.respond, setServer_self hv]
  | tick count =>
    rw [serverStep, tick_eq hv]
    rfl
  | connect => cases hs
  | dial => cases hs

def portTried (s : Session) : Step → Option Int
  | .server i (.connect ..) => s.portOf i
  | .server i (.dial host limit) =>
    if limit.isNegative then none
    else (s.portOf i).bind fun port => (Address.dialled host port).toOption
  | .dialAlone host port limit =>
    if limit.isNegative then none else (Address.dialled host port).toOption
  | _ => none

/-- A step aimed at the server `i` or at a client of it. A client that comes is aimed at the server
whose port it tries, whatever it was made for. -/
def IsAimedAt (s : Session) (i : Nat) : Step → Prop
  | .server j step =>
    if step.isArrival then
      s.portTried (.server j step) = s.portOf i ∨ (s.portTried (.server j step) = none ∧ j = i)
    else j = i
  | .dialAlone host port limit => s.portTried (.dialAlone host port limit) = s.portOf i
  | .guest g _ => ∃ x, s.guests[g]? = some x ∧ x.host = i
  | _ => False

theorem IsAimedAt.portTried (h : s.IsAimedAt i st) (ha : st.isArrival = true) :
    s.portTried st = s.portOf i ∨ s.portTried st = none := by
  cases st with
  | dialAlone host port limit => exact .inl h
  | server j step =>
    rw [IsAimedAt] at h
    split at h
    · exact h.imp_right And.left
    · next hn => exact absurd ha hn
  | _ => cases ha

def Step.brought : Step → Connection
  | .server _ (.connect chunks ending) => Server.arrived chunks ending
  | _ => {}

def Step.newGuests (host : Nat) (isServed : Bool) : Step → List Guest
  | .server target (.connect chunks ending) =>
    let hasEnded := (Server.arrived chunks ending).source.ending.isSome
    [{ target, host, isServed, hasEnded }]
  | .server target (.dial _ limit) => [{ target, host, isServed, line := some { limit } }]
  | _ => []

def joined (s : Session) (st : Step) (host : Nat) (v : Server) : Session :=
  { s with
    servers := s.servers.set host (v.accept s.connections st.brought)
    guests := s.guests ++ st.newGuests host (isAccepting v)
    connections := s.connections + 1 }

theorem connect_of_none {port : Int} (h : s.listener? port = none) (target : Nat) (c : Connection)
    (line : Option Dialled) : s.connect target port c line = (.error .connectionRefused, s) := by
  rw [connect, h]

theorem connect_of_some {port : Int} {host : Nat} (h : s.listener? port = some host)
    (hv : s.servers[host]? = some v) (target : Nat) (c : Connection) (line : Option Dialled) :
    s.connect target port c line =
      (.ok (),
        { s with
          servers := s.servers.set host (v.accept s.connections c)
          guests := s.guests ++
            [⟨target, host, isAccepting v, c.source.ending.isSome, 0, line⟩]
          connections := s.connections + 1 }) := by
  rw [connect, h]
  simp only [hv, Option.any_some, modifyServer, modify_eq_set_of_getElem? hv]

theorem arrived_eq (chunks : List Bytes) (ending : Option Ending) :
    ending.elim (chunks.foldl (fun c bs => c.deliver bs) ({} : Connection))
      (chunks.foldl (fun c bs => c.deliver bs) ({} : Connection)).hangUp =
        Server.arrived chunks ending := by
  cases ending <;> rfl

theorem portOf_eq (hv : s.servers[i]? = some v) : s.portOf i = some v.spec.port := by
  rw [portOf, hv, Option.map_some]

theorem dial_refused (host : Text) (port : Int) (limit : Duration) :
    ∃ e, ∀ (s : Session) (target : Nat),
      (∀ p, limit.isNegative = false → Address.dialled host port = .ok p →
        s.listener? p = none) →
      s.dial target host port limit = (.error e, s, []) := by
  cases hn : limit.isNegative with
  | true => exact ⟨_, fun s target _ => by rw [dial, hn, if_pos rfl]⟩
  | false =>
    cases hd : Address.dialled host port with
    | error e =>
      exact ⟨_, fun s target _ => by rw [dial, hn, if_neg Bool.false_ne_true, hd]⟩
    | ok p =>
      refine ⟨.port (.cannotOpen (Address.url host port) (.system .connectionRefused)),
        fun s target h => ?_⟩
      simp only [dial, hn, hd, connect_of_none (h p rfl rfl)]
      rfl

theorem dial_joined {host : Text} {port p : Int} {limit : Duration} {h : Nat}
    (hn : limit.isNegative = false) (hd : Address.dialled host port = .ok p)
    (hl : s.listener? p = some h) (hv : s.servers[h]? = some v) (target : Nat) :
    (s.dial target host port limit).2.1 =
      { s with
        servers := s.servers.set h (v.accept s.connections {})
        guests := s.guests ++ [⟨target, h, isAccepting v, false, 0, some { limit }⟩]
        connections := s.connections + 1 } := by
  simp only [dial, hn, hd, connect_of_some hl hv]
  rfl

theorem portTried_dial {host : Text} {limit : Duration} (hv : s.servers[i]? = some v) :
    s.portTried (.server i (.dial host limit)) =
      s.portTried (.dialAlone host v.spec.port limit) := by
  rw [portTried, portTried, portOf_eq hv]
  rfl

theorem portTried_dialAlone_iff {host : Text} {port p : Int} {limit : Duration} :
    s.portTried (.dialAlone host port limit) = some p ↔
      limit.isNegative = false ∧ Address.dialled host port = .ok p := by
  rw [portTried]
  cases limit.isNegative with
  | true => simp
  | false =>
    cases Address.dialled host port with
    | error e => simp [Except.toOption]
    | ok q => simp [Except.toOption]

theorem step_refused [Json.Stack] (hst : st.isArrival = true)
    (hports : ∀ j, t.portOf j = s.portOf j)
    (hs : ∀ port, s.portTried st = some port → s.listener? port = none)
    (ht : ∀ port, s.portTried st = some port → t.listener? port = none) :
    ∃ a, s.step st = (a, s) ∧ t.step st = (a, t) := by
  cases st with
  | dialAlone host port limit =>
    obtain ⟨e, he⟩ := dial_refused host port limit
    refine ⟨⟨.error e, []⟩, ?_, ?_⟩
    · rw [Session.step, he s _ fun p hn hd => hs p (portTried_dialAlone_iff.2 ⟨hn, hd⟩)]
      rfl
    · rw [Session.step, he t _ fun p hn hd => ht p (portTried_dialAlone_iff.2 ⟨hn, hd⟩)]
      rfl
  | server j step =>
    cases hv : s.servers[j]? with
    | none =>
      have hw : t.servers[j]? = none := by
        have hp := hports j
        rwa [portOf, portOf, hv, Option.map_none, Option.map_eq_none_iff] at hp
      exact ⟨⟨.ok .done, []⟩, by simp only [Session.step, hv], by simp only [Session.step, hw]⟩
    | some v =>
      obtain ⟨w, hw, hp⟩ : ∃ w, t.servers[j]? = some w ∧ w.spec.port = v.spec.port := by
        have hp := hports j
        rw [portOf_eq hv, portOf] at hp
        exact Option.map_eq_some_iff.1 hp
      simp only [Session.step, hv, hw]
      cases step with
      | connect chunks ending =>
        have hj : s.portTried (.server j (.connect chunks ending)) = some v.spec.port :=
          portOf_eq hv
        refine ⟨⟨.error (.system .connectionRefused), []⟩, ?_, ?_⟩
        · rw [serverStep, connect_of_none (hs _ hj)]
          rfl
        · rw [serverStep, hp, connect_of_none (ht _ hj)]
          rfl
      | dial host limit =>
        obtain ⟨e, he⟩ := dial_refused host v.spec.port limit
        rw [portTried_dial hv] at hs ht
        refine ⟨⟨.error e, []⟩, ?_, ?_⟩
        · rw [serverStep, he s _ fun p hn hd => hs p (portTried_dialAlone_iff.2 ⟨hn, hd⟩)]
          rfl
        · rw [serverStep, hp, he t _ fun p hn hd => ht p (portTried_dialAlone_iff.2 ⟨hn, hd⟩)]
          rfl
      | _ => cases hst
  | _ => cases hst

theorem step_joined [Json.Stack] {port : Int} {host : Nat} (hp : s.portTried st = some port)
    (hl : s.listener? port = some host) (hv : s.servers[host]? = some v) :
    (s.step st).2 = s.joined st host v := by
  cases st with
  | dialAlone name number limit =>
    obtain ⟨hn, hd⟩ := portTried_dialAlone_iff.1 hp
    rw [Session.step, dial_joined hn hd hl hv]
    simp only [joined, Step.newGuests, List.append_nil]
    rfl
  | server j step =>
    cases hw : s.servers[j]? with
    | none => cases step <;> simp [portTried, portOf, hw] at hp
    | some w =>
      simp only [Session.step, hw]
      cases step with
      | connect chunks ending =>
        have hj : s.portTried (.server j (.connect chunks ending)) = some w.spec.port :=
          portOf_eq hw
        obtain rfl : w.spec.port = port := Option.some.inj (hj.symm.trans hp)
        rw [serverStep, arrived_eq, connect_of_some hl hv]
        rfl
      | dial name limit =>
        rw [portTried_dial hw] at hp
        obtain ⟨hn, hd⟩ := portTried_dialAlone_iff.1 hp
        rw [serverStep, dial_joined hn hd hl hv]
        rfl
      | _ => cases hp
  | _ => cases hp

theorem refused_or_joined [Json.Stack] (s : Session) (st : Step) :
    (∀ port, s.portTried st = some port → s.listener? port = none) ∨
      ∃ port host v, s.portTried st = some port ∧ s.listener? port = some host ∧
        s.servers[host]? = some v ∧ (s.step st).2 = s.joined st host v := by
  cases hp : s.portTried st with
  | none => exact .inl nofun
  | some port =>
    cases hl : s.listener? port with
    | none =>
      refine .inl fun q hq => ?_
      rwa [← Option.some.inj hq]
    | some host =>
      obtain ⟨v, hv, -⟩ := exists_of_listener? hl
      exact .inr ⟨port, host, v, rfl, hl, hv, step_joined hp hl hv⟩

theorem connections_le [Json.Stack] (h : s.IsOrderly) {u : Session} (hst : u.IsAimedAt i st) :
    s.connections ≤ (s.step st).2.connections := by
  have harrival (ha : st.isArrival = true) : s.connections ≤ (s.step st).2.connections := by
    rcases s.refused_or_joined st with hr | ⟨port, host, v, -, -, -, he⟩
    · obtain ⟨a, he, -⟩ := step_refused ha (fun _ => rfl) hr hr
      rw [he]
    · rw [he]
      exact Nat.le_succ _
  cases st with
  | dialAlone host port limit => exact harrival rfl
  | server j step =>
    cases ha : step.isArrival with
    | true => exact harrival ha
    | false =>
      simp only [Session.step]
      split
      · exact Nat.le_refl _
      · next v hv =>
        rw [serverStep_eq ha hv]
        exact Nat.le_refl _
  | guest g step =>
    simp only [Session.step]
    split
    · exact Nat.le_refl _
    · next x hg =>
      obtain ⟨c, hc, rfl⟩ := h.exists_scene hg
      obtain ⟨a, c', -, he⟩ := guestStep_eq_put g c step
      rw [he s hc]
      exact Nat.le_refl _
  | _ => exact hst.elim

structure Patch where
  server : Server
  guest : Option (Nat × Guest) := none

def patch (s : Session) (i : Nat) (p : Patch) : Session :=
  { s with
    servers := s.servers.set i p.server
    guests := p.guest.elim s.guests fun q => s.guests.set q.1 q.2 }

structure Patch.Fits (p : Patch) (s : Session) (i : Nat) (v : Server) : Prop where
  spec : p.server.spec = v.spec
  guest {g : Nat} {x' : Guest} (h : p.guest = some (g, x')) :
    ∃ x, s.guests[g]? = some x ∧ x.host = i ∧ x'.host = i

/-- Two sessions of which a step aimed at the server `i` sees the same. -/
structure SameAt (i : Nat) (s t : Session) : Prop where
  server : t.servers[i]? = s.servers[i]?
  guest {g : Nat} {x : Guest} (hx : x.host = i) : t.guests[g]? = some x ↔ s.guests[g]? = some x
  portOf (j : Nat) : t.portOf j = s.portOf j
  listener {port : Int} (h : s.portOf i = some port) : t.listener? port = s.listener? port

theorem SameAt.refl (i : Nat) (s : Session) : SameAt i s s :=
  ⟨rfl, fun _ => Iff.rfl, fun _ => rfl, fun _ => rfl⟩

theorem SameAt.symm (h : SameAt i s t) : SameAt i t s :=
  ⟨h.server.symm, fun hx => (h.guest hx).symm, fun j => (h.portOf j).symm,
    fun hp => (h.listener ((h.portOf i).symm.trans hp)).symm⟩

theorem portTried_congr (h : ∀ j, t.portOf j = s.portOf j) (st : Step) :
    t.portTried st = s.portTried st := by
  cases st with
  | server j step => cases step <;> simp only [portTried, h]
  | _ => rfl

theorem SameAt.isAimedAt (h : SameAt i s t) (hst : s.IsAimedAt i st) : t.IsAimedAt i st := by
  cases st with
  | guest g step =>
    obtain ⟨x, hx, hi⟩ := hst
    exact ⟨x, (h.guest hi).2 hx, hi⟩
  | server j step =>
    rw [IsAimedAt] at hst ⊢
    rwa [portTried_congr h.portOf, h.portOf i]
  | dialAlone host port limit =>
    rw [IsAimedAt] at hst ⊢
    rwa [portTried_congr h.portOf, h.portOf i]
  | _ => exact hst.elim

theorem findIdx?_set_of_neg {α : Type} {as : List α} {f : α → Bool} {k : Nat} {a b : α}
    (ha : as[k]? = some a) (hfa : f a = false) (hfb : f b = false) :
    (as.set k b).findIdx? f = as.findIdx? f := by
  induction as generalizing k with
  | nil => cases ha
  | cons c as ih =>
    cases k with
    | zero =>
      obtain rfl := Option.some.inj ha
      rw [List.set_cons_zero, List.findIdx?_cons, List.findIdx?_cons, hfa, hfb]
    | succ k =>
      rw [List.set_cons_succ, List.findIdx?_cons, List.findIdx?_cons, ih ha]

theorem Patch.Fits.sameAt {p : Patch} (hp : p.Fits s j w) (hv : s.servers[i]? = some v)
    (hw : s.servers[j]? = some w) (hport : v.spec.port ≠ w.spec.port) :
    SameAt i s (s.patch j p) := by
  have hij : j ≠ i := by
    rintro rfl
    obtain rfl := Option.some.inj (hv.symm.trans hw)
    exact hport rfl
  refine ⟨List.getElem?_set_ne hij, fun {g x} hx => ?_, fun k => ?_, fun {port} hi => ?_⟩
  · cases hg : p.guest with
    | none => simp only [patch, hg, Option.elim_none]
    | some q =>
      obtain ⟨g', x'⟩ := q
      obtain ⟨y, hy, hyj, hxj⟩ := hp.guest hg
      simp only [patch, hg, Option.elim_some]
      by_cases hgg : g' = g
      · subst hgg
        rw [List.getElem?_set_self (List.getElem?_eq_some_iff.1 hy).1, hy]
        constructor
        · intro he
          obtain rfl := Option.some.inj he
          exact absurd (hxj.symm.trans hx) hij
        · intro he
          obtain rfl := Option.some.inj he
          exact absurd (hyj.symm.trans hx) hij
      · rw [List.getElem?_set_ne hgg]
  · by_cases hk : j = k
    · subst hk
      rw [portOf_eq hw, ← hp.spec]
      exact portOf_eq (List.getElem?_set_self (List.getElem?_eq_some_iff.1 hw).1)
    · rw [Session.portOf, Session.portOf, patch, List.getElem?_set_ne hk]
  · obtain rfl : v.spec.port = port := Option.some.inj ((portOf_eq hv).symm.trans hi)
    refine findIdx?_set_of_neg hw ?_ ?_
    · simp [hport.symm]
    · simp [hp.spec, hport.symm]

theorem listener?_of_connections [Json.Stack] (hc : (s.step st).2.connections = s.connections)
    {port : Int} (hp : s.portTried st = some port) : s.listener? port = none := by
  rcases s.refused_or_joined st with hr | ⟨_, host, v, -, -, -, he⟩
  · exact hr port hp
  · rw [he] at hc
    exact absurd hc (Nat.succ_ne_self _)

theorem patch_server (hv : s.servers[i]? = some v) : s.patch i { server := v } = s :=
  setServer_self hv

theorem exists_patch [Json.Stack] (h : s.IsProper) (hv : s.servers[i]? = some v)
    (hst : s.IsAimedAt i st) (hc : (s.step st).2.connections = s.connections) :
    ∃ a p, p.Fits s i v ∧ ∀ t, SameAt i s t → t.step st = (a, t.patch i p) := by
  have harrival (ha : st.isArrival = true) :
      ∃ a p, p.Fits s i v ∧ ∀ t, SameAt i s t → t.step st = (a, t.patch i p) := by
    have hr (port : Int) : s.portTried st = some port → s.listener? port = none :=
      listener?_of_connections hc
    refine ⟨(s.step st).1, { server := v }, ⟨rfl, fun h => by cases h⟩, fun t ht => ?_⟩
    obtain ⟨a, hs, ht'⟩ := step_refused ha ht.portOf hr fun port hport => by
      rcases hst.portTried ha with hp | hp
      · rw [ht.listener (hp.symm.trans hport), hr port hport]
      · cases hp.symm.trans hport
    rw [ht', hs, patch_server (ht.server.trans hv)]
  cases st with
  | dialAlone host port limit => exact harrival rfl
  | server j step =>
    cases ha : step.isArrival with
    | true => exact harrival ha
    | false =>
      obtain rfl : j = i := by simpa [IsAimedAt, ha] using hst
      obtain ⟨w, hw, hs, he⟩ := (step_effect h.orderly (.server j step)).leads.servers hv
      have hstep {t : Session} (ht : t.servers[j]? = some v) :
          t.step (.server j step) = ((v.respond step).1, t.setServer j (v.respond step).2) := by
        simp only [Session.step, ht]
        exact serverStep_eq ha ht
      refine ⟨(v.respond step).1, { server := (v.respond step).2 }, ⟨?_, fun h => by cases h⟩,
        fun t ht => hstep (ht.server.trans hv)⟩
      rw [hstep hv] at hw
      rw [← ((h.apart.proper hv).after hs).2.1, he]
      have hself := List.getElem?_set_self (l := s.servers) (a := (v.respond step).2)
        (List.getElem?_eq_some_iff.1 hv).1
      rw [Option.some.inj (hself.symm.trans hw)]
  | guest g step =>
    obtain ⟨x, hx, rfl⟩ := hst
    obtain ⟨a, c', hl, he⟩ := guestStep_eq_put g ⟨x, v⟩ step
    refine ⟨a, ⟨c'.server, some (g, c'.guest)⟩, ⟨?_, fun hg => ?_⟩, fun t ht => ?_⟩
    · obtain ⟨hs, hv'⟩ := hl.server
      rw [← hv']
      exact ((h.apart.proper hv).after hs).2.1
    · cases hg
      exact ⟨x, hx, rfl, hl.host⟩
    · have hg : t.guests[g]? = some x := (ht.guest rfl).2 hx
      have hput : t.put g c' = t.patch x.host ⟨c'.server, some (g, c'.guest)⟩ := by
        rw [put, patch, hl.host]
        rfl
      simp only [Session.step, hg]
      rw [he t ⟨hg, ht.server.trans hv⟩, hput]
  | _ => exact hst.elim

theorem patch_comm {p q : Patch} (hij : i ≠ j)
    (hg : ∀ g x g' x', p.guest = some (g, x) → q.guest = some (g', x') → g ≠ g') :
    (s.patch i p).patch j q = (s.patch j q).patch i p := by
  have hs : (s.servers.set i p.server).set j q.server = (s.servers.set j q.server).set i p.server :=
    List.set_comm _ _ hij
  obtain ⟨v, _ | ⟨g, x⟩⟩ := p
  · simp only [patch, Option.elim_none, hs]
  · obtain ⟨w, _ | ⟨g', x'⟩⟩ := q
    · simp only [patch, Option.elim_none, Option.elim_some, hs]
    · simp only [patch, Option.elim_some, hs, List.set_comm x x' (hg g x g' x' rfl rfl)]

theorem IsProper.steps_commute [Json.Stack] (h : s.IsProper) (hv : s.servers[i]? = some v)
    (hw : s.servers[j]? = some w) (hport : v.spec.port ≠ w.spec.port) (hst : s.IsAimedAt i st)
    (hst' : s.IsAimedAt j st') (hc : (s.after [st, st']).connections = s.connections) :
    (s.step st).1 = ((s.step st').2.step st).1 ∧ ((s.step st).2.step st').1 = (s.step st').1 ∧
      s.after [st, st'] = s.after [st', st] := by
  have hij : i ≠ j := by
    rintro rfl
    obtain rfl := Option.some.inj (hv.symm.trans hw)
    exact hport rfl
  -- neither step makes a client
  have hle := connections_le h.orderly hst
  have hle' := connections_le (h.step st).orderly hst'
  have hc' : ((s.step st).2.step st').2.connections = s.connections := hc
  obtain ⟨a, p, hp, hstep⟩ := exists_patch h hv hst (by omega)
  have hs := hstep s (.refl i s)
  have hsame : SameAt j s (s.patch i p) := hp.sameAt hw hv hport.symm
  have hproper := h.step st
  rw [hs] at hc' hproper
  obtain ⟨b, q, hq, hstep'⟩ := exists_patch hproper (hsame.server.trans hw)
    (hsame.isAimedAt hst') hc'
  have hs' := hstep' s hsame.symm
  have hsame' : SameAt i s (s.patch j q) := by
    refine Patch.Fits.sameAt ⟨hq.spec, fun {g x'} hg => ?_⟩ hv hw hport
    obtain ⟨x, hx, hi, hi'⟩ := hq.guest hg
    exact ⟨x, (hsame.guest hi).1 hx, hi, hi'⟩
  have ht := hstep _ hsame'
  have ht' := hstep' _ (.refl j _)
  refine ⟨by rw [hs, hs', ht], by rw [hs, hs', ht'], ?_⟩
  have hcomm : (s.patch i p).patch j q = (s.patch j q).patch i p := by
    refine patch_comm hij fun g x g' x' hg hg' hgg => ?_
    subst hgg
    obtain ⟨y, hy, hyi, -⟩ := hp.guest hg
    obtain ⟨z, hz, hzj, -⟩ := hq.guest hg'
    obtain rfl := Option.some.inj (hy.symm.trans ((hsame.guest hzj).1 hz))
    exact hij (hyi.symm.trans hzj)
  calc
    s.after [st, st']
    _ = ((s.step st).2.step st').2 := rfl
    _ = (s.patch i p).patch j q := by rw [hs, ht']
    _ = (s.patch j q).patch i p := hcomm
    _ = ((s.step st').2.step st).2 := by rw [hs', ht]

end Session

end LineHandshake
