import LineHandshake.Proofs.Dialling
import LineHandshake.Proofs.Separation

/-!
A server by itself. The steps aimed at a server and its clients are taken again in a session that
has nobody else, and there they bring the server and its clients to the same as all the steps of
the session did.
-/

namespace LineHandshake

section Filtering

variable {α : Type} {p : α → Bool} {as : List α} {k : Nat} {a b : α}

theorem getElem?_filter_of_pos (h : as[k]? = some a) (ha : p a = true) :
    (as.filter p)[(as.take k).countP p]? = some a := by
  induction as generalizing k with
  | nil => cases h
  | cons c as ih =>
    cases k with
    | zero =>
      obtain rfl := Option.some.inj h
      rw [List.filter_cons_of_pos ha]
      rfl
    | succ k =>
      rw [List.take_succ_cons]
      cases hc : p c with
      | true =>
        rw [List.filter_cons_of_pos hc, List.countP_cons_of_pos hc, List.getElem?_cons_succ, ih h]
      | false =>
        have hc := Bool.not_eq_true _ ▸ hc
        rw [List.filter_cons_of_neg hc, List.countP_cons_of_neg hc, ih h]

theorem filter_set_of_pos (h : as[k]? = some a) (ha : p a = true) (hb : p b = true) :
    (as.set k b).filter p = (as.filter p).set ((as.take k).countP p) b := by
  induction as generalizing k with
  | nil => cases h
  | cons c as ih =>
    cases k with
    | zero =>
      obtain rfl := Option.some.inj h
      rw [List.set_cons_zero, List.filter_cons_of_pos hb, List.filter_cons_of_pos ha]
      rfl
    | succ k =>
      rw [List.take_succ_cons, List.set_cons_succ]
      cases hc : p c with
      | true =>
        rw [List.filter_cons_of_pos hc, List.filter_cons_of_pos hc, List.countP_cons_of_pos hc,
          List.set_cons_succ, ih h]
      | false =>
        have hc := Bool.not_eq_true _ ▸ hc
        rw [List.filter_cons_of_neg hc, List.filter_cons_of_neg hc, List.countP_cons_of_neg hc,
          ih h]

theorem filter_set_of_neg (h : as[k]? = some a) (ha : ¬ p a = true) (hb : ¬ p b = true) :
    (as.set k b).filter p = as.filter p := by
  induction as generalizing k with
  | nil => rfl
  | cons c as ih =>
    cases k with
    | zero =>
      obtain rfl := Option.some.inj h
      rw [List.set_cons_zero, List.filter_cons_of_neg ha, List.filter_cons_of_neg hb]
    | succ k => rw [List.set_cons_succ, List.filter_cons, List.filter_cons, ih h]

end Filtering

namespace Server

open Session (Answer ServerStep isAccepting)

variable {s t : Server}

theorem Twins.isAccepting (h : Twins s t) : isAccepting t = isAccepting s := by
  rw [Session.isAccepting, Session.isAccepting, h.phase]

theorem Twins.tickUp (h : Twins s t) (used count : Nat) :
    GoAlike (s.tickUp used count) (t.tickUp used count) := by
  induction count generalizing s t used with
  | zero => exact ⟨rfl, h⟩
  | succ count ih =>
    rw [Server.tickUp, Server.tickUp, h.isAccepting]
    split
    · exact ih h.tick _
    · exact ⟨rfl, h⟩

theorem Twins.respond (h : Twins s t) (step : ServerStep) :
    GoAlike (s.respond step) (t.respond step) := by
  cases step with
  | shutDown =>
    refine ⟨?_, h.shutDown⟩
    obtain ⟨peer, log, hp, rfl⟩ := h
    rfl
  | join => exact ⟨by simp only [Server.respond, h.isListening], h⟩
  | summarize => exact ⟨by simp only [Server.respond, h.summary], h⟩
  | describe =>
    refine ⟨?_, h⟩
    obtain ⟨peer, log, hp, rfl⟩ := h
    rfl
  | tick count =>
    obtain ⟨hu, ht⟩ := h.tickUp 0 count
    exact ⟨by simp only [Server.respond, hu], ht⟩
  | connect => exact ⟨rfl, h⟩
  | dial => exact ⟨rfl, h⟩

end Server

def Guest.anonymous (x : Guest) : Guest := { x with target := 0, host := 0 }

theorem Guest.anonymous_eq_iff {x y : Guest} :
    y.anonymous = x.anonymous ↔ ∃ target host, y = { x with target, host } := by
  constructor
  · intro h
    refine ⟨y.target, y.host, ?_⟩
    obtain ⟨t, k, served, ended, taken, line⟩ := x
    obtain ⟨t', k', served', ended', taken', line'⟩ := y
    simpa [Guest.anonymous] using h
  · rintro ⟨target, host, rfl⟩
    rfl

namespace Session

variable {s u : Session} {st : Step} {i : Nat} {v w : Server}

instance (s : Session) (i : Nat) : (st : Step) → Decidable (s.IsAimedAt i st)
  | .server _ _ => inferInstanceAs (Decidable (ite _ _ _))
  | .dialAlone .. => inferInstanceAs (Decidable (_ = _))
  | .guest g _ =>
    decidable_of_iff ((s.guests[g]?).any fun x => decide (x.host = i)) (by
      rw [IsAimedAt]
      cases s.guests[g]? <;> simp)
  | .allocate .. | .nextPorts .. | .probe _ | .occupy _ | .vacate _ | .start _ =>
    inferInstanceAs (Decidable False)

def clientsOf (s : Session) (i : Nat) : List Guest := s.guests.filter fun x => x.host = i

def rank (s : Session) (i g : Nat) : Nat := (s.guests.take g).countP fun x => x.host = i

/-- A step aimed at the server `i`, with the numbers that it has if this server is the only one. A
client that was dialled for another server dials this one at the standard host. -/
def renumbered (s : Session) (i : Nat) : Step → Step
  | .server j (.dial host limit) =>
    .server 0 (.dial (if j = i then host else Address.defaultHost) limit)
  | .server _ step => .server 0 step
  | .guest g step => .guest (s.rank i g) step
  | st => st

/-- How the server `i` is made if a step makes it: on the same port, which somebody holds if
somebody does. -/
def opening [Json.Stack] (s : Session) (i : Nat) (st : Step) : List Step :=
  match st, (s.step st).2.servers[i]? with
  | .start request, some v =>
    (if s.isFree v.spec.port then [] else [.occupy [v.spec.port]]) ++
      [.start { request with port := some v.spec.asked, allocator := none }]
  | _, _ => []

def aloneAt [Json.Stack] (s : Session) (i : Nat) (st : Step) : List Step :=
  if s.servers.length ≤ i then s.opening i st
  else if s.IsAimedAt i st then [s.renumbered i st]
  else []

def alone [Json.Stack] (i : Nat) : Session → List Step → List Step
  | _, [] => []
  | s, st :: steps => s.aloneAt i st ++ alone i (s.step st).2 steps

/-- The server `i` and its clients are all that there is in `u`. -/
def Isolates (i : Nat) (s u : Session) : Prop :=
  ∃ v w, s.servers[i]? = some v ∧ u.servers = [w] ∧ v.Twins w ∧
    u.guests.map Guest.anonymous = (s.clientsOf i).map Guest.anonymous

theorem host_of_mem_newGuests {host : Nat} {isServed : Bool} {x : Guest}
    (h : x ∈ st.newGuests host isServed) : x.host = host := by
  cases st with
  | server target step => cases step <;> simp_all [Step.newGuests]
  | _ => cases h

theorem joined_elsewhere {host : Nat} (hne : host ≠ i) (hv : s.servers[i]? = some v) :
    (s.joined st host w).servers[i]? = some v ∧
      (s.joined st host w).clientsOf i = s.clientsOf i := by
  refine ⟨?_, ?_⟩
  · rw [joined, List.getElem?_set_ne hne, hv]
  · have hn : (st.newGuests host (isAccepting w)).filter (fun x => x.host = i) = [] :=
      List.filter_eq_nil_iff.2 fun x hx => by simp [host_of_mem_newGuests hx, hne]
    rw [clientsOf, joined, List.filter_append, hn, List.append_nil, clientsOf]

theorem arrival_elsewhere [Json.Stack] (hst : st.isArrival = true) (hv : s.servers[i]? = some v)
    (hne : ∀ port, s.portTried st = some port → s.listener? port ≠ some i) :
    (s.step st).2.servers[i]? = some v ∧ (s.step st).2.clientsOf i = s.clientsOf i := by
  rcases s.refused_or_joined st with hr | ⟨port, host, w, hp, hl, -, he⟩
  · obtain ⟨a, he, -⟩ := step_refused hst (fun _ => rfl) hr hr
    rw [he]
    exact ⟨hv, rfl⟩
  · rw [he]
    refine joined_elsewhere ?_ hv
    rintro rfl
    exact hne port hp hl

theorem listener?_port {port : Int} (hv : s.servers[i]? = some v)
    (hl : s.listener? port = some i) : v.spec.port = port := by
  obtain ⟨hi, hp, -⟩ := List.findIdx?_eq_some_iff_getElem.1 hl
  rw [← (List.getElem?_eq_some_iff.1 hv).2]
  exact of_decide_eq_true (Bool.and_eq_true_iff.1 hp).1

theorem step_elsewhere [Json.Stack] (h : s.IsOrderly) (hv : s.servers[i]? = some v)
    (hst : ¬ s.IsAimedAt i st) :
    (s.step st).2.servers[i]? = some v ∧ (s.step st).2.clientsOf i = s.clientsOf i := by
  have hport {port : Int} (hp : s.portTried st ≠ s.portOf i) (ht : s.portTried st = some port) :
      s.listener? port ≠ some i := fun hl =>
    hp (by rw [ht, portOf_eq hv, listener?_port hv hl])
  cases st with
  | allocate first last =>
    simp only [Session.step]
    split <;> exact ⟨hv, rfl⟩
  | nextPorts allocator count =>
    obtain ⟨hs, hg⟩ := nextPorts_unchanged allocator count s
    exact ⟨by rw [Session.step, hs, hv], by rw [Session.step, clientsOf, hg, clientsOf]⟩
  | probe port => exact ⟨hv, rfl⟩
  | occupy ports => exact ⟨hv, rfl⟩
  | vacate ports => exact ⟨hv, rfl⟩
  | start request =>
    have he := startStep_effect (s := s) request
    rw [Session.step]
    generalize (startStep request s).2 = t at he
    cases he with
    | none hs hg => exact ⟨by rw [hs, hv], by rw [clientsOf, hg, clientsOf]⟩
    | start spec bound hs hg =>
      exact ⟨by rw [hs, getElem?_append_of_eq_some hv], by rw [clientsOf, hg, clientsOf]⟩
    | arrival hs => cases hs
  | dialAlone host port limit => exact arrival_elsewhere rfl hv fun port => hport hst
  | server j step =>
    rw [IsAimedAt] at hst
    split at hst
    · next ha => exact arrival_elsewhere ha hv fun port => hport fun hp => hst (.inl hp)
    · next ha =>
      simp only [Session.step]
      split
      · exact ⟨hv, rfl⟩
      · next w hw =>
        rw [serverStep_eq (Bool.eq_false_iff.2 ha) hw]
        exact ⟨by rw [setServer, List.getElem?_set_ne hst, hv], rfl⟩
  | guest g step =>
    simp only [Session.step]
    split
    · exact ⟨hv, rfl⟩
    · next x hg =>
      have hne : x.host ≠ i := fun hx => hst ⟨x, hg, hx⟩
      obtain ⟨c, hc, rfl⟩ := h.exists_scene hg
      obtain ⟨a, c', hl, he⟩ := guestStep_eq_put g c step
      have hne' : c'.guest.host ≠ i := fun hx => hne (hl.host.symm.trans hx)
      rw [he s hc]
      refine ⟨by rw [put, List.getElem?_set_ne hne', hv], ?_⟩
      exact filter_set_of_neg hg (by simpa using hne) (by simpa using hne')

theorem Isolates.joined {st' : Step} (hv : s.servers[i]? = some v) (hw : u.servers = [w])
    (ht : v.Twins w)
    (hg : u.guests.map Guest.anonymous = (s.clientsOf i).map Guest.anonymous)
    (hb : st'.brought = st.brought)
    (hn : ∀ isServed, (st'.newGuests 0 isServed).map Guest.anonymous =
      (st.newGuests i isServed).map Guest.anonymous) :
    Isolates i (s.joined st i v) (u.joined st' 0 w) := by
  refine ⟨_, _, List.getElem?_set_self (List.getElem?_eq_some_iff.1 hv).1, ?_,
    ht.accept s.connections u.connections st.brought, ?_⟩
  · rw [Session.joined, hw, List.set_cons_zero, hb]
  · have hall : (st.newGuests i (isAccepting v)).filter (fun x => x.host = i) =
        st.newGuests i (isAccepting v) :=
      List.filter_eq_self.2 fun x hx => decide_eq_true (host_of_mem_newGuests hx)
    rw [Session.joined, Session.joined, clientsOf, List.filter_append, hall, List.map_append,
      List.map_append, hg, ht.isAccepting, hn, clientsOf]

theorem renumbered_newGuests (hst : st.isArrival = true) (isServed : Bool) :
    ((s.renumbered i st).newGuests 0 isServed).map Guest.anonymous =
      (st.newGuests i isServed).map Guest.anonymous := by
  cases st with
  | server j step => cases step <;> rfl
  | dialAlone => rfl
  | _ => cases hst

theorem renumbered_brought : (s.renumbered i st).brought = st.brought := by
  cases st with
  | server j step => cases step <;> rfl
  | _ => rfl

theorem renumbered_isArrival : (s.renumbered i st).isArrival = st.isArrival := by
  cases st with
  | server j step => cases step <;> rfl
  | _ => rfl

theorem portTried_renumbered (hst : st.isArrival = true) (haim : s.IsAimedAt i st) {port : Int}
    (hp : s.portOf i = some port) (hu : u.portOf 0 = some port)
    (hrange : 0 ≤ port ∧ port ≤ Address.maxPort) :
    u.portTried (s.renumbered i st) = s.portTried st := by
  cases st with
  | dialAlone host port limit => rfl
  | server j step =>
    have hst : step.isArrival = true := hst
    rw [IsAimedAt, if_pos hst] at haim
    cases step with
    | connect chunks ending =>
      rcases haim with haim | ⟨-, rfl⟩
      · rw [haim, hp]
        exact hu
      · exact hu.trans hp.symm
    | dial host limit =>
      rw [renumbered]
      split
      · next hj =>
        subst hj
        rw [portTried, portTried, hu, hp]
      · next hj =>
        have ht := haim.resolve_right fun h => hj h.2
        rw [ht, hp, portTried, hu, Option.bind_some, Address.dialled_defaultHost hrange.1 hrange.2]
        rw [portTried, hp] at ht
        split at ht
        · cases ht
        · next hn => rw [if_neg hn]; rfl
    | _ => cases hst
  | _ => cases hst

theorem getElem?_of_eq_singleton (hw : u.servers = [w]) : u.servers[0]? = some w := by
  rw [hw]
  rfl

theorem Isolates.arrival [Json.Stack] (h : s.IsProper) (hu : u.IsProper) (hi : Isolates i s u)
    (ha : st.isArrival = true) (hst : s.IsAimedAt i st) :
    Isolates i (s.step st).2 (u.step (s.renumbered i st)).2 := by
  obtain ⟨v, w, hv, hw, ht, hg⟩ := hi
  have hw0 := getElem?_of_eq_singleton hw
  have ha' : (s.renumbered i st).isArrival = true := renumbered_isArrival.trans ha
  cases hl : v.isListening with
  | false =>
    have hr : ∀ port, u.portTried (s.renumbered i st) = some port → u.listener? port = none := by
      intro port _
      rw [listener?, hw, List.findIdx?_singleton, ht.isListening, hl, Bool.and_false]
      rfl
    obtain ⟨hs, hc⟩ := arrival_elsewhere ha hv fun port _ hlp => by
      obtain ⟨v', hv', hl'⟩ := exists_of_listener? hlp
      obtain rfl := Option.some.inj (hv.symm.trans hv')
      exact Bool.false_ne_true (hl.symm.trans hl')
    obtain ⟨a, he, -⟩ := step_refused ha' (fun _ => rfl) hr hr
    rw [he]
    exact ⟨v, w, hs, hw, ht, by rw [hc, hg]⟩
  | true =>
    have hlv := (h.listener?_eq_iff hv).2 (Server.isListening_iff.1 hl)
    have hlw := (hu.listener?_eq_iff hw0).2
      (Server.isListening_iff.1 (ht.isListening.trans hl))
    have hp := portTried_renumbered (u := u) ha hst (portOf_eq hv)
      (by rw [portOf_eq hw0, ht.spec]) ((h.apart.proper hv).isPort hl)
    rw [ht.spec] at hlw
    rcases hst.portTried ha with htried | htried
    · rw [portOf_eq hv] at htried
      rw [step_joined htried hlv hv, step_joined (hp.trans htried) hlw hw0]
      exact Isolates.joined hv hw ht hg renumbered_brought (renumbered_newGuests ha)
    · have hrs : ∀ port, s.portTried st = some port → s.listener? port = none := fun port he => by
        cases htried.symm.trans he
      have hru : ∀ port, u.portTried (s.renumbered i st) = some port →
          u.listener? port = none := fun port he => by cases (hp.trans htried).symm.trans he
      obtain ⟨a, he, -⟩ := step_refused ha (fun _ => rfl) hrs hrs
      obtain ⟨a', he', -⟩ := step_refused ha' (fun _ => rfl) hru hru
      rw [he, he']
      exact ⟨v, w, hv, hw, ht, hg⟩

theorem Isolates.guestStep [Json.Stack] {g : Nat} {x : Guest} {step : GuestStep} (hu : u.IsOrderly)
    (hi : Isolates x.host s u) (hx : s.guests[g]? = some x) :
    Isolates x.host (s.step (.guest g step)).2
      (u.step (.guest (s.rank x.host g) step)).2 := by
  obtain ⟨v, w, hv, hw, ht, hg⟩ := hi
  have hw0 := getElem?_of_eq_singleton hw
  have hrank : (s.clientsOf x.host)[s.rank x.host g]? = some x :=
    getElem?_filter_of_pos hx (decide_eq_true rfl)
  obtain ⟨y, hy, hxy⟩ : ∃ y, u.guests[s.rank x.host g]? = some y ∧
      y.anonymous = x.anonymous := by
    have hm := congrArg (fun l => l[s.rank x.host g]?) hg
    simp only [List.getElem?_map, hrank, Option.map_some] at hm
    exact Option.map_eq_some_iff.1 hm
  have hy0 : y.host = 0 := by
    obtain ⟨w', hw', -⟩ := hu.hosted hy
    have hlt := (List.getElem?_eq_some_iff.1 hw').1
    rw [hw, List.length_singleton] at hlt
    omega
  -- both clients see the same scene
  obtain ⟨a, c, hc⟩ := actsOn_guestStep ⟨x, v⟩ step
  obtain ⟨d, hl, hm, he⟩ := hc g ⟨x, v⟩ (.refl _)
  obtain ⟨d', hl', hm', he'⟩ := hc (s.rank x.host g) ⟨y, w⟩ ⟨Guest.anonymous_eq_iff.1 hxy, ht⟩
  have hs : (s.step (.guest g step)).2 = s.put g d := by
    simp only [Session.step, hx]
    exact congrArg Prod.snd (he s ⟨hx, hv⟩)
  have hs' : (u.step (.guest (s.rank x.host g) step)).2 = u.put (s.rank x.host g) d' := by
    simp only [Session.step, hy]
    exact congrArg Prod.snd (he' u ⟨hy, by rw [hy0, hw0]⟩)
  have hh : d.guest.host = x.host := hl.host
  have hh' : d'.guest.host = 0 := hl'.host.trans hy0
  rw [hs, hs']
  refine ⟨d.server, d'.server, ?_, ?_, hm.server.symm.trans hm'.server, ?_⟩
  · rw [put, hh, List.getElem?_set_self (List.getElem?_eq_some_iff.1 hv).1]
  · rw [put, hh', hw, List.set_cons_zero]
  · have ha : d'.guest.anonymous = d.guest.anonymous :=
      (Guest.anonymous_eq_iff.2 hm'.guest).trans (Guest.anonymous_eq_iff.2 hm.guest).symm
    have hf : (s.put g d).clientsOf x.host =
        (s.clientsOf x.host).set (s.rank x.host g) d.guest :=
      filter_set_of_pos hx (decide_eq_true rfl) (decide_eq_true hh)
    rw [hf, put, List.map_set, List.map_set, hg, ha]

theorem Isolates.step [Json.Stack] (h : s.IsProper) (hu : u.IsProper) (hi : Isolates i s u)
    (hst : s.IsAimedAt i st) : Isolates i (s.step st).2 (u.step (s.renumbered i st)).2 := by
  cases st with
  | dialAlone host port limit => exact hi.arrival h hu rfl hst
  | server j step =>
    cases ha : step.isArrival with
    | true => exact hi.arrival h hu ha hst
    | false =>
      obtain rfl : j = i := by simpa [IsAimedAt, ha] using hst
      obtain ⟨v, w, hv, hw, ht, hg⟩ := hi
      have hw0 := getElem?_of_eq_singleton hw
      have he : s.renumbered j (.server j step) = .server 0 step := by
        cases step with
        | dial => cases ha
        | _ => rfl
      simp only [he, Session.step, hv, hw0]
      rw [serverStep_eq ha hv, serverStep_eq ha hw0]
      refine ⟨_, _, List.getElem?_set_self (List.getElem?_eq_some_iff.1 hv).1, ?_,
        (ht.respond step).2, hg⟩
      rw [setServer, hw, List.set_cons_zero]
  | guest g step =>
    obtain ⟨x, hx, rfl⟩ := hst
    exact hi.guestStep hu.orderly hx
  | _ => exact hst.elim

theorem bind_congr {port : Int} (h : u.isFree port = s.isFree port) :
    u.bind port = s.bind port := by
  rw [bind, bind, h]

def lent (s : Session) (port : Int) : Session :=
  { occupied := if s.isFree port then [] else [port] }

theorem isFree_occupied (ports : List Int) (port : Int) :
    isFree { occupied := ports } port = !ports.contains port := by
  rw [isFree]
  exact congrArg _ (Bool.or_false _)

theorem lent_isFree (port : Int) : (s.lent port).isFree port = s.isFree port := by
  rw [lent, isFree_occupied]
  cases s.isFree port <;> simp

theorem after_opening [Json.Stack] {request : ServerRequest} {asked : Int}
    (hv : (s.step (.start request)).2.servers[i]? = some v) (hs : v.spec = request.specAt asked) :
    after {} (s.opening i (.start request)) =
      (s.lent v.spec.port).startServer (request.specAt asked) := by
  have hasked : v.spec.asked = asked := by rw [hs]; rfl
  have hstart (t : Session) :
      (t.step (.start { request with port := some asked, allocator := none })).2 =
        t.startServer (request.specAt asked) := congrArg Prod.snd (startStep_of_port rfl)
  simp only [opening, hv, hasked]
  cases hf : s.isFree v.spec.port with
  | true =>
    have he : s.lent v.spec.port = {} := by rw [lent, hf, if_pos rfl]
    rw [he]
    exact hstart {}
  | false =>
    have he : s.lent v.spec.port = { occupied := [v.spec.port] } := by
      rw [lent, hf, if_neg Bool.false_ne_true]
    rw [he]
    exact hstart { occupied := [v.spec.port] }

theorem clientsOf_new (h : s.IsOrderly) : s.clientsOf s.servers.length = [] := by
  refine List.filter_eq_nil_iff.2 fun x hx hh => ?_
  obtain ⟨g, hg⟩ := List.mem_iff_getElem?.1 hx
  obtain ⟨v, hv, -⟩ := h.hosted hg
  rw [of_decide_eq_true hh, List.getElem?_eq_none (Nat.le_refl _)] at hv
  cases hv

theorem isolates_opening [Json.Stack] (h : s.IsOrderly) (hlen : s.servers.length ≤ i)
    (hi : i < (s.step st).2.servers.length) :
    Isolates i (s.step st).2 (after {} (s.opening i st)) := by
  have he := step_effect h st
  cases st with
  | start request =>
    have hguests : (s.step (.start request)).2.guests = s.guests := by
      generalize (s.step (.start request)).2 = t at he
      cases he with
      | none _ hg => exact hg
      | start _ _ _ hg => exact hg
      | arrival hs => cases hs
    have hservers := startStep_servers (s := s) request
    change (s.step (.start request)).2.servers = s.servers ∨ ∃ asked,
      (s.step (.start request)).2.servers = s.servers ++
        [Server.start (request.specAt asked) (s.bind (request.boundTo asked))] at hservers
    rcases hservers with hs | ⟨asked, hs⟩
    · rw [hs] at hi
      omega
    · obtain rfl : i = s.servers.length := by
        rw [hs, List.length_append, List.length_singleton] at hi
        omega
      have hv : (s.step (.start request)).2.servers[s.servers.length]? =
          some (Server.start (request.specAt asked) (s.bind (request.boundTo asked))) := by
        rw [hs, List.getElem?_concat_length]
      rw [after_opening hv (Server.start_spec ..), Server.start_spec]
      refine ⟨_, _, hv, rfl, ?_, ?_⟩
      · have hb : (s.lent (request.boundTo asked)).bind (request.boundTo asked) =
            s.bind (request.boundTo asked) := bind_congr (lent_isFree _)
        change (Server.start (request.specAt asked) _).Twins (Server.start (request.specAt asked) _)
        exact hb ▸ Server.Twins.refl _
      · have hc := clientsOf_new h
        rw [clientsOf] at hc ⊢
        rw [hguests, hc]
        rfl
  | _ => exact absurd (he.length_servers fun _ => Step.noConfusion) (by omega)

theorem after_append [Json.Stack] (s : Session) (steps steps' : List Step) :
    s.after (steps ++ steps') = (s.after steps).after steps' := List.foldl_append

theorem IsProper.isolates_after [Json.Stack] (h : s.IsProper) (hu : u.IsProper)
    (hi : Isolates i s u)
    (steps : List Step) : Isolates i (s.after steps) (u.after (alone i s steps)) := by
  induction steps generalizing s u with
  | nil => exact hi
  | cons st steps ih =>
    have hlen : ¬ s.servers.length ≤ i := by
      obtain ⟨v, -, hv, -⟩ := hi
      exact Nat.not_le.2 (List.getElem?_eq_some_iff.1 hv).1
    rw [alone, after_append, aloneAt, if_neg hlen]
    split
    · next hst => exact ih (h.step st) (hu.step _) (hi.step h hu hst)
    · next hst =>
      refine ih (h.step st) hu ?_
      obtain ⟨v, w, hv, hw, ht, hg⟩ := hi
      obtain ⟨hv', hc⟩ := step_elsewhere h.orderly hv hst
      exact ⟨v, w, hv', hw, ht, hg.trans (congrArg _ hc.symm)⟩

theorem isolates_alone [Json.Stack] (h : s.IsProper) (hlen : s.servers.length ≤ i)
    (steps : List Step) (hi : i < (s.after steps).servers.length) :
    Isolates i (s.after steps) (after {} (alone i s steps)) := by
  induction steps generalizing s with
  | nil => exact absurd hi (Nat.not_lt.2 hlen)
  | cons st steps ih =>
    rw [alone, after_append, aloneAt, if_pos hlen]
    by_cases hlen' : (s.step st).2.servers.length ≤ i
    · have ho : s.opening i st = [] := by
        cases st <;> simp only [opening, List.getElem?_eq_none hlen']
      rw [ho]
      exact ih (h.step st) hlen' hi
    · exact (h.step st).isolates_after (isProper_empty.after _)
        (isolates_opening h.orderly hlen (Nat.lt_of_not_le hlen')) steps

theorem Isolates.unread (hu : u.IsOrderly) (hi : Isolates i s u) :
    u.guests.map u.unread = (s.clientsOf i).map s.unread := by
  obtain ⟨v, w, hv, hw, ht, hg⟩ := hi
  let seen (x : Guest) : Bytes := Scene.unread ⟨x, v⟩
  have hs : ∀ x ∈ s.clientsOf i, s.unread x = (seen ∘ Guest.anonymous) x := by
    intro x hx
    have hscene : s.unread x = Scene.unread ⟨x, v⟩ := by
      rw [Session.unread, of_decide_eq_true (List.mem_filter.1 hx).2, hv]
      rfl
    exact hscene
  have hu : ∀ x ∈ u.guests, u.unread x = (seen ∘ Guest.anonymous) x := by
    intro x hx
    obtain ⟨g, hg⟩ := List.mem_iff_getElem?.1 hx
    obtain ⟨w', hw', -⟩ := hu.hosted hg
    have hm := List.mem_of_getElem? hw'
    rw [hw, List.mem_singleton] at hm
    have hscene : u.unread x = Scene.unread ⟨x, v⟩ := by
      rw [Session.unread, hw', hm, Scene.unread, ← ht.sent]
      rfl
    exact hscene
  calc
    u.guests.map u.unread
    _ = (u.guests.map Guest.anonymous).map seen := by rw [List.map_congr_left hu, List.map_map]
    _ = ((s.clientsOf i).map Guest.anonymous).map seen := by rw [hg]
    _ = (s.clientsOf i).map s.unread := by rw [List.map_congr_left hs, List.map_map]

/-- Servers on different ports do not affect each other, whatever steps were taken. Two steps aimed
at different ones that make no client have the same answers, and leave the same session, in either
order. And a server and its clients are where the steps aimed at them alone would have brought
them. -/
theorem servers_stand_apart [Json.Stack] (steps : List Step) :
    let s := after {} steps
    (∀ (i j : Nat) (v w : Server) (st st' : Step), s.servers[i]? = some v →
      s.servers[j]? = some w → v.spec.port ≠ w.spec.port → s.IsAimedAt i st → s.IsAimedAt j st' →
      (s.after [st, st']).connections = s.connections →
      (s.step st).1 = ((s.step st').2.step st).1 ∧ ((s.step st).2.step st').1 = (s.step st').1 ∧
        s.after [st, st'] = s.after [st', st]) ∧
    ∀ (i : Nat) (v : Server), s.servers[i]? = some v →
      let u := after {} (alone i {} steps)
      ∃ w, u.servers = [w] ∧ v.Twins w ∧ w.summary = v.summary ∧ w.sent = v.sent ∧
        u.guests.map u.unread = (s.clientsOf i).map s.unread := by
  intro s
  have h : s.IsProper := isProper_empty.after steps
  refine ⟨fun i j v w st st' hv hw hport hst hst' hc => h.steps_commute hv hw hport hst hst' hc, ?_⟩
  intro i v hv u
  have hi : Isolates i s u := isolates_alone isProper_empty (Nat.zero_le i) steps
    (List.getElem?_eq_some_iff.1 hv).1
  have hunread := hi.unread (isProper_empty.after _).orderly
  obtain ⟨v', w, hv', hw, ht, -⟩ := hi
  obtain rfl := Option.some.inj (hv.symm.trans hv')
  exact ⟨w, hw, ht, ht.summary, ht.sent, hunread⟩

theorem servers_stand_apart_pair :
    let steps : List Step :=
      [.start { port := some 14220 }, .start { port := some 14221 },
        .server 0 (.connect [] none), .server 1 (.connect [] none)]
    let s := after {} steps
    let u := after {} [.start { port := some 14221 }, .server 0 (.connect [] none)]
    s.after [.guest 0 (.send [[80]]), .server 1 .shutDown] =
        s.after [.server 1 .shutDown, .guest 0 (.send [[80]])] ∧
      u.guests.map u.unread = (s.clientsOf 1).map s.unread := by
  intro steps s u
  obtain ⟨hcomm, halone⟩ := servers_stand_apart steps
  obtain ⟨v, hv, hvp⟩ : ∃ v, s.servers[0]? = some v ∧ v.spec.port = 14220 := ⟨_, rfl, rfl⟩
  obtain ⟨w, hw, hwp⟩ : ∃ w, s.servers[1]? = some w ∧ w.spec.port = 14221 := ⟨_, rfl, rfl⟩
  have hg : s.IsAimedAt 0 (.guest 0 (.send [[80]])) := ⟨_, rfl, rfl⟩
  obtain ⟨-, -, he⟩ := hcomm 0 1 v w (.guest 0 (.send [[80]])) (.server 1 .shutDown) hv hw
    (by rw [hvp, hwp]; decide) hg rfl rfl
  obtain ⟨-, -, -, -, -, hunread⟩ := halone 1 w hw
  exact ⟨he, hunread⟩

end Session

end LineHandshake
