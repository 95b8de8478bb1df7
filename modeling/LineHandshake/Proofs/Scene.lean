import LineHandshake.Proofs.Schedule
import LineHandshake.Proofs.Twins
import LineHandshake.Session.Step

/-!
A client and the server that it reached, apart from the rest of a session. Whatever a client does
looks at these two only and changes nothing else; its answer is the same in every session that
shows them, under whatever numbers. A client that is not served does not even change its server.
-/

namespace LineHandshake

structure Scene where
  guest : Guest
  server : Server

namespace Scene

def unread (c : Scene) : Bytes :=
  if c.guest.isServed then c.server.sent.drop c.guest.taken else []

structure Leads (c c' : Scene) : Prop where
  host : c'.guest.host = c.guest.host
  isServed : c'.guest.isServed = c.guest.isServed
  server : ∃ hs, c.server.after hs = c'.server
  idle : c.guest.isServed = false → c'.server = c.server

/-- Two scenes in which the clients see the same. -/
structure Mirrors (c d : Scene) : Prop where
  guest : ∃ target host, d.guest = { c.guest with target, host }
  server : c.server.Twins d.server

variable {c c' c'' d : Scene}

theorem Leads.refl (c : Scene) : c.Leads c := ⟨rfl, rfl, ⟨[], rfl⟩, fun _ => rfl⟩

theorem Leads.trans (h : c.Leads c') (h' : c'.Leads c'') : c.Leads c'' := by
  refine ⟨h'.host.trans h.host, h'.isServed.trans h.isServed, ?_, fun hs => ?_⟩
  · obtain ⟨hs, hv⟩ := h.server
    obtain ⟨ks, hw⟩ := h'.server
    exact ⟨hs ++ ks, by rw [Server.after_append, hv, hw]⟩
  · exact (h'.idle (h.isServed.trans hs)).trans (h.idle hs)

theorem Mirrors.refl (c : Scene) : c.Mirrors c :=
  ⟨⟨c.guest.target, c.guest.host, rfl⟩, Server.Twins.refl c.server⟩

theorem Mirrors.isServed (h : c.Mirrors d) : d.guest.isServed = c.guest.isServed := by
  obtain ⟨target, host, hg⟩ := h.guest
  rw [hg]

theorem Mirrors.hasEnded (h : c.Mirrors d) : d.guest.hasEnded = c.guest.hasEnded := by
  obtain ⟨target, host, hg⟩ := h.guest
  rw [hg]

theorem Mirrors.line (h : c.Mirrors d) : d.guest.line = c.guest.line := by
  obtain ⟨target, host, hg⟩ := h.guest
  rw [hg]

theorem Mirrors.unread (h : c.Mirrors d) : d.unread = c.unread := by
  obtain ⟨target, host, hg⟩ := h.guest
  rw [Scene.unread, Scene.unread, hg, h.server.sent]

end Scene

namespace Client

/-- A property of families of tasks that each of a port's operations has and that is kept in
putting tasks together, so that everything a client does on the ports has it. -/
structure IsKept {ι σ : Type} (port : ι → LinePort σ)
    (P : ∀ {α : Type}, (ι → Task Fault σ α) → Prop) : Prop where
  bind {α β : Type} {x : ι → Task Fault σ α} {f : α → ι → Task Fault σ β} (hx : P x)
    (hf : ∀ a, P (f a)) : P fun i => x i >>= fun a => f a i
  lift {α : Type} (r : Except Fault α) : P fun _ => Task.lift r
  log (level : Level) (source : String) (message : Text) : P fun _ => Task.log level source message
  readLine : P fun i => Task.step fun s => let r := (port i).readLine s; (.ok r.1, r.2)
  write (bs : Bytes) : P fun i => Task.step fun s => let r := (port i).write bs s; (.ok r.1, r.2)
  close : P fun i => Task.step fun s => let r := (port i).close s; (.ok r.1, r.2)

namespace IsKept

variable {ι σ : Type} {port : ι → LinePort σ} {P : ∀ {α : Type}, (ι → Task Fault σ α) → Prop}

theorem of_readLine (h : IsKept port P) : P fun i => Client.readLine (port i) := by
  refine h.bind h.readLine fun r => ?_
  split
  · exact h.lift _
  · exact h.lift _
  · split
    · exact h.lift _
    · split
      · exact h.lift _
      · exact h.bind (h.log _ _ _) fun _ => h.lift (.ok _)

theorem of_writeLine (h : IsKept port P) (line : Text) : P fun i => writeLine (port i) line := by
  unfold writeLine
  split
  · exact h.lift _
  · refine h.bind (h.write _) fun r => ?_
    split
    · exact h.lift _
    · exact h.lift _
    · exact h.log _ _ _

theorem of_readInfo [Json.Stack] (h : IsKept port P) : P fun i => readInfo (port i) :=
  h.bind h.of_readLine fun _ => h.bind (h.lift _) fun _ => h.bind (h.log _ _ _) fun _ =>
    h.lift (.ok _)

theorem of_sendConnect (h : IsKept port P) (options : Option Json) :
    P fun i => sendConnect (port i) options :=
  h.bind (h.of_writeLine _) fun _ => h.log _ _ _

theorem of_waitPong (h : IsKept port P) : P fun i => waitPong (port i) :=
  h.bind h.of_readLine fun _ => h.bind (h.lift _) fun _ => h.log _ _ _

theorem of_handshake [Json.Stack] (h : IsKept port P) (options : Option Json) :
    P fun i => handshake (port i) options :=
  h.bind h.of_readInfo fun _ => h.bind (h.of_sendConnect options) fun _ =>
    h.bind (h.of_writeLine _) fun _ => h.bind h.of_waitPong fun _ => h.lift (.ok _)

theorem of_close (h : IsKept port P) : P fun i => Client.close (port i) := by
  refine h.bind h.close fun r => ?_
  split
  · exact h.log _ _ _
  · split
    · exact h.bind (h.lift _) fun _ => h.log _ _ _
    · exact h.lift _

theorem of_call [Json.Stack] (h : IsKept port P) (c : Call) : P fun i => call (port i) c := by
  cases c with
  | readLine => exact h.bind h.of_readLine fun _ => h.lift (.ok _)
  | writeLine line => exact h.bind (h.of_writeLine line) fun _ => h.lift (.ok _)
  | readInfo => exact h.bind h.of_readInfo fun _ => h.lift (.ok _)
  | sendConnect options => exact h.bind (h.of_sendConnect options) fun _ => h.lift (.ok _)
  | sendPing => exact h.bind (h.of_writeLine _) fun _ => h.lift (.ok _)
  | waitPong => exact h.bind h.of_waitPong fun _ => h.lift (.ok _)
  | handshake options => exact h.bind (h.of_handshake options) fun _ => h.lift (.ok _)
  | close => exact h.bind h.of_close fun _ => h.lift (.ok _)

end IsKept

end Client

namespace Session

def HasScene (s : Session) (g : Nat) (c : Scene) : Prop :=
  s.guests[g]? = some c.guest ∧ s.servers[c.guest.host]? = some c.server

def put (s : Session) (g : Nat) (c : Scene) : Session :=
  { s with
    servers := s.servers.set c.guest.host c.server
    guests := s.guests.set g c.guest }

variable {s : Session} {g : Nat} {c c' c'' d : Scene}

theorem set_eq_self {α : Type} {as : List α} {i : Nat} {a : α} (h : as[i]? = some a) :
    as.set i a = as := by
  obtain ⟨hi, rfl⟩ := List.getElem?_eq_some_iff.1 h
  exact List.set_getElem_self hi

theorem modify_eq_set_of_getElem? {α : Type} {as : List α} {i : Nat} {a : α} (h : as[i]? = some a)
    (f : α → α) : as.modify i f = as.set i (f a) := by
  rw [List.modify_eq_set_getElem?, h]
  rfl

theorem HasScene.put_self (h : s.HasScene g c) : s.put g c = s := by
  rw [put, set_eq_self h.1, set_eq_self h.2]

theorem HasScene.put (h : s.HasScene g c) (hl : c.Leads c') : (s.put g c').HasScene g c' := by
  obtain ⟨hg, -⟩ := List.getElem?_eq_some_iff.1 h.1
  obtain ⟨hv, -⟩ := List.getElem?_eq_some_iff.1 h.2
  rw [← hl.host] at hv
  exact ⟨List.getElem?_set_self hg, List.getElem?_set_self hv⟩

theorem put_put (h : c'.guest.host = c.guest.host) (s : Session) (g : Nat) :
    (s.put g c).put g c' = s.put g c' := by
  simp only [Session.put, h, List.set_set]

/-- What is done to a session on behalf of a client turns the scene `c` into `c'`, and no more. Of
a scene that mirrors `c` it makes one that mirrors `c'`. -/
def Changes (c c' : Scene) (t : Nat → Session → Session) : Prop :=
  ∀ (g : Nat) (d : Scene), c.Mirrors d →
    ∃ d', d.Leads d' ∧ c'.Mirrors d' ∧ ∀ s, s.HasScene g d → t g s = s.put g d'

theorem changes_id (c : Scene) : Changes c c fun _ s => s :=
  fun _ d hd => ⟨d, .refl d, hd, fun _ h => h.put_self.symm⟩

theorem Changes.trans {t t' : Nat → Session → Session} (h : Changes c c' t)
    (h' : Changes c' c'' t') : Changes c c'' fun g s => t' g (t g s) := by
  intro g d hd
  obtain ⟨d₁, hl, hd₁, he⟩ := h g d hd
  obtain ⟨d₂, hl', hd₂, he'⟩ := h' g d₁ hd₁
  refine ⟨d₂, hl.trans hl', hd₂, fun s hs => ?_⟩
  calc
    t' g (t g s)
    _ = t' g (s.put g d₁) := by rw [he s hs]
    _ = (s.put g d₁).put g d₂ := he' _ (hs.put hl)
    _ = s.put g d₂ := put_put hl'.host s g

theorem Changes.congr {t t' : Nat → Session → Session} (h : Changes c c' t)
    (ht : ∀ g d s, c.Mirrors d → s.HasScene g d → t' g s = t g s) : Changes c c' t' := by
  intro g d hd
  obtain ⟨d', hl, hd', he⟩ := h g d hd
  exact ⟨d', hl, hd', fun s hs => (ht g d s hd hs).trans (he s hs)⟩

theorem changes_modifyGuest (c : Scene) {f : Guest → Guest}
    (hf : ∀ (x : Guest) (target host : Nat), f { x with target, host } = { f x with target, host })
    (hs : ∀ x, (f x).isServed = x.isServed) :
    Changes c { c with guest := f c.guest } fun g s => s.modifyGuest g f := by
  intro g d hd
  have hh : (f d.guest).host = d.guest.host := by
    have he := congrArg Guest.host (hf d.guest d.guest.target d.guest.host)
    exact he
  refine ⟨{ d with guest := f d.guest }, ⟨hh, hs _, ⟨[], rfl⟩, fun _ => rfl⟩, ⟨?_, hd.server⟩,
    fun s h => ?_⟩
  · obtain ⟨target, host, hg⟩ := hd.guest
    exact ⟨target, host, by rw [hg, hf]⟩
  · dsimp only
    rw [modifyGuest, modify_eq_set_of_getElem? h.1, Session.put]
    simp only [hh, set_eq_self h.2]

theorem changes_take (c : Scene) (count : Nat) : ∃ c', Changes c c' fun g s => s.take g count :=
  ⟨_, changes_modifyGuest c (f := fun x => { x with taken := x.taken + count })
    (fun _ _ _ => rfl) fun _ => rfl⟩

theorem changes_onClient (c : Scene) {f : Connection → Connection}
    (hf : ∀ v : Server, ∃ hs, v.after hs = v.onClient f) :
    ∃ c', Changes c c' fun g s => (s.guests[g]?).elim s fun x =>
      if x.isServed then s.modifyServer x.host (·.onClient f) else s := by
  cases hs : c.guest.isServed with
  | false =>
    refine ⟨c, (changes_id c).congr fun g d s hd h => ?_⟩
    rw [h.1, Option.elim_some, hd.isServed, hs, if_neg Bool.false_ne_true]
  | true =>
    refine ⟨{ c with server := c.server.onClient f }, fun g d hd => ?_⟩
    have hs' : d.guest.isServed = true := hd.isServed.trans hs
    refine ⟨{ d with server := d.server.onClient f }, ⟨rfl, rfl, hf _, fun h => ?_⟩,
      ⟨hd.guest, hd.server.onClient f⟩, fun s h => ?_⟩
    · cases hs'.symm.trans h
    · dsimp only
      rw [h.1, Option.elim_some, if_pos hs', modifyServer, modify_eq_set_of_getElem? h.2,
        Session.put, set_eq_self h.1]

theorem changes_send (c : Scene) (bs : Bytes) : ∃ c', Changes c c' fun g s => s.send g bs := by
  obtain ⟨c', hc⟩ := changes_onClient c (f := Connection.deliver bs)
    fun v => Server.exists_after_of_leads [.deliver bs] (Server.leads_onClient _ v)
  refine ⟨c', hc.congr fun g d s _ h => ?_⟩
  rw [Session.send, h.1]
  rfl

theorem changes_sendAll (c : Scene) (chunks : List Bytes) :
    ∃ c', Changes c c' fun g s => chunks.foldl (fun s bs => s.send g bs) s := by
  induction chunks generalizing c with
  | nil => exact ⟨c, changes_id c⟩
  | cons bs chunks ih =>
    obtain ⟨c₁, h₁⟩ := changes_send c bs
    obtain ⟨c₂, h₂⟩ := ih c₁
    exact ⟨c₂, h₁.trans h₂⟩

theorem changes_hangUp (c : Scene) (e : Ending) : ∃ c', Changes c c' fun g s => s.hangUp g e := by
  have hg := changes_modifyGuest c (f := fun x => { x with hasEnded := true }) (fun _ _ _ => rfl)
    fun _ => rfl
  obtain ⟨c', hc⟩ := changes_onClient { c with guest := { c.guest with hasEnded := true } }
    (f := Connection.hangUp e)
    fun v => Server.exists_after_of_leads [.hangUp e] (Server.leads_onClient _ v)
  refine ⟨c', (hg.trans hc).congr fun g d s _ h => ?_⟩
  rw [Session.hangUp, h.1, modifyGuest, List.getElem?_modify_eq, h.1]
  rfl

section Answers

variable {α : Type}

/-- What a client does in the scene `c` has one answer and one outcome, in whatever session; and in
a scene that mirrors `c` it has the same answer, and an outcome that mirrors this one. -/
def ActsOn (c : Scene) (x : Nat → Guest → Session → α × Session) : Prop :=
  ∃ (a : α) (c' : Scene), ∀ (g : Nat) (d : Scene), c.Mirrors d →
    ∃ d', d.Leads d' ∧ c'.Mirrors d' ∧ ∀ s, s.HasScene g d → x g d.guest s = (a, s.put g d')

theorem Changes.actsOn {t : Nat → Session → Session} {a : α}
    {x : Nat → Guest → Session → α × Session} (h : Changes c c' t)
    (hx : ∀ g d s, c.Mirrors d → s.HasScene g d → x g d.guest s = (a, t g s)) : ActsOn c x := by
  refine ⟨a, c', fun g d hd => ?_⟩
  obtain ⟨d', hl, hd', he⟩ := h g d hd
  exact ⟨d', hl, hd', fun s hs => by rw [hx g d s hd hs, he s hs]⟩

theorem actsOn_of_looking {a : α} {x : Nat → Guest → Session → α × Session}
    (hx : ∀ g d s, c.Mirrors d → s.HasScene g d → x g d.guest s = (a, s)) : ActsOn c x :=
  (changes_id c).actsOn hx

theorem ActsOn.congr {x y : Nat → Guest → Session → α × Session} (h : ActsOn c y)
    (hx : ∀ g d s, c.Mirrors d → s.HasScene g d → x g d.guest s = y g d.guest s) :
    ActsOn c x := by
  obtain ⟨a, c', h⟩ := h
  refine ⟨a, c', fun g d hd => ?_⟩
  obtain ⟨d', hl, hd', he⟩ := h g d hd
  exact ⟨d', hl, hd', fun s hs => (hx g d s hd hs).trans (he s hs)⟩

theorem ActsOn.onPort {x : Nat → Guest → Session → Except Fault α × Session} (h : ActsOn c x)
    (make : α → Reply) : ActsOn c fun g y s => onPort (x g y s) make := by
  obtain ⟨a, c', h⟩ := h
  refine ⟨⟨a.map make, []⟩, c', fun g d hd => ?_⟩
  obtain ⟨d', hl, hd', he⟩ := h g d hd
  exact ⟨d', hl, hd', fun s hs => by simp only [Session.onPort, he s hs]⟩

theorem HasScene.unread (h : s.HasScene g d) (hd : c.Mirrors d) : s.unread d.guest = c.unread := by
  rw [← hd.unread, Session.unread, Scene.unread, h.2]
  rfl

theorem HasScene.isCut (h : s.HasScene g d) (hd : c.Mirrors d) :
    s.isCut d.guest = !c.server.isListening := by
  rw [← hd.server.isListening, Session.isCut, h.2]
  rfl

theorem HasScene.lineLimit? (h : s.HasScene g d) (hd : c.Mirrors d) :
    s.lineLimit? g = c.guest.line.map fun l => l.limit := by
  rw [← hd.line, Session.lineLimit?, h.1]
  rfl

theorem HasScene.isLineOpen (h : s.HasScene g d) (hd : c.Mirrors d) :
    s.isLineOpen g = c.guest.line.any fun l => l.isOpen := by
  rw [← hd.line, Session.isLineOpen, h.1]
  rfl

theorem actsOn_onLine {f : Nat → Guest → Dialled → Session → Except Fault α × Session}
    (hf : ∀ line, ActsOn c fun g x => f g x line) : ActsOn c fun g _ s => s.onLine g (f g) := by
  cases hl : c.guest.line with
  | none =>
    refine actsOn_of_looking (a := .error (.port .notOpen)) fun g d s hd h => ?_
    simp only [onLine, h.1, hd.line, hl]
  | some line =>
    cases ho : line.isOpen with
    | false =>
      refine actsOn_of_looking (a := .error (.port .notOpen)) fun g d s hd h => ?_
      simp only [onLine, h.1, hd.line, hl, ho, Bool.false_eq_true, if_false]
    | true =>
      refine (hf line).congr fun g d s hd h => ?_
      simp only [onLine, h.1, hd.line, hl, ho, if_true]

theorem actsOn_readThrough (pattern : Bytes) (c : Scene) :
    ActsOn c fun g _ => readThrough pattern g := by
  cases ht : (c.guest.line.map fun l => l.limit).any (·.isTooLarge) with
  | true =>
    exact actsOn_of_looking fun g d s hd h => by rw [readThrough, h.lineLimit? hd, if_pos ht]
  | false =>
    refine (actsOn_onLine (c := c) fun line => ?_).congr fun g d s hd h => by
      rw [readThrough, h.lineLimit? hd, if_neg (by simp [ht])]
    obtain ⟨c', hc⟩ := changes_take c (reach pattern line.limit c.unread).1.length
    exact hc.actsOn fun g d s hd h => by simp only [h.unread hd, h.isCut hd]; rfl

theorem actsOn_writeLine (c : Scene) (bs : Bytes) : ActsOn c fun g _ => writeLine g bs := by
  refine actsOn_onLine fun line => ?_
  dsimp only
  split
  · exact actsOn_of_looking fun g d s _ _ => rfl
  split
  · exact actsOn_of_looking fun g d s _ _ => rfl
  cases he : c.guest.hasEnded || !c.server.isListening with
  | true =>
    exact actsOn_of_looking fun g d s hd h => by rw [h.isCut hd, hd.hasEnded, he, if_pos rfl]
  | false =>
    obtain ⟨c', hc⟩ := changes_send c bs
    exact hc.actsOn fun g d s hd h => by
      rw [h.isCut hd, hd.hasEnded, he, if_neg Bool.false_ne_true]

theorem actsOn_isReadable (c : Scene) : ActsOn c fun g _ => isReadable g :=
  actsOn_onLine fun _ => actsOn_of_looking fun g d s hd h => by rw [h.unread hd, h.isCut hd]

theorem actsOn_dropUnread (c : Scene) : ActsOn c fun g _ => dropUnread g := by
  refine actsOn_onLine fun _ => ?_
  obtain ⟨c', hc⟩ := changes_take c c.unread.length
  exact hc.actsOn fun g d s hd h => by rw [h.unread hd]

theorem actsOn_closeLine (c : Scene) : ActsOn c fun g _ => closeLine g := by
  cases ho : c.guest.line.any fun l => l.isOpen with
  | false =>
    exact actsOn_of_looking fun g d s hd h => by
      rw [closeLine, h.isLineOpen hd, ho, if_neg Bool.false_ne_true]
  | true =>
    obtain ⟨c', hc⟩ := changes_hangUp c .endOfStream
    have hm := changes_modifyGuest c'
      (f := fun x => { x with line := x.line.map fun l => { l with isOpen := false } })
      (fun _ _ _ => rfl) fun _ => rfl
    exact (hc.trans hm).actsOn fun g d s hd h => by
      rw [closeLine, h.isLineOpen hd, ho, if_pos rfl]

def Plays {α : Type} (x : Nat → Task Fault Session α) : Prop :=
  ∀ (c : Scene) (l : Log), ∃ a c' l', ∀ (g : Nat) (d : Scene), c.Mirrors d →
    ∃ d', d.Leads d' ∧ Scene.Mirrors c' d' ∧
      ∀ s : Session, s.HasScene g d → x g (s, l) = (a, (s.put g d', l'))

theorem plays_step {op : Nat → Session → Except Fault α × Session}
    (h : ∀ c, ActsOn c fun g _ => op g) :
    Plays fun g => Task.step fun s => let r := op g s; ((.ok r.1 : Except Fault _), r.2) := by
  intro c l
  obtain ⟨a, c', h⟩ := h c
  refine ⟨.ok a, c', l, fun g d hd => ?_⟩
  obtain ⟨d', hl, hd', he⟩ := h g d hd
  exact ⟨d', hl, hd', fun s hs => by simp only [Task.step_apply, he s hs]⟩

theorem isKept_plays : Client.IsKept linePort Plays where
  bind {α β x f} hx hf := by
    intro c l
    obtain ⟨a, c₁, l₁, h₁⟩ := hx c l
    cases a with
    | error e =>
      refine ⟨.error e, c₁, l₁, fun g d hd => ?_⟩
      obtain ⟨d₁, hl₁, hd₁, e₁⟩ := h₁ g d hd
      exact ⟨d₁, hl₁, hd₁, fun s hs => by simp only [Task.bind_apply, e₁ s hs]⟩
    | ok a =>
      obtain ⟨b, c₂, l₂, h₂⟩ := hf a c₁ l₁
      refine ⟨b, c₂, l₂, fun g d hd => ?_⟩
      obtain ⟨d₁, hl₁, hd₁, e₁⟩ := h₁ g d hd
      obtain ⟨d₂, hl₂, hd₂, e₂⟩ := h₂ g d₁ hd₁
      refine ⟨d₂, hl₁.trans hl₂, hd₂, fun s hs => ?_⟩
      simp only [Task.bind_apply, e₁ s hs]
      rw [e₂ _ (hs.put hl₁), put_put hl₂.host]
  lift r := by
    refine fun c l => ⟨r, c, l, fun g d hd => ⟨d, .refl d, hd, fun s hs => ?_⟩⟩
    simp only [Task.lift_apply, hs.put_self]
  log level source message := by
    refine fun c l => ⟨.ok (), c, l ++ [⟨level, text source, message⟩], fun g d hd =>
      ⟨d, .refl d, hd, fun s hs => ?_⟩⟩
    rw [hs.put_self]
    rfl
  readLine := plays_step fun c => actsOn_readThrough Line.crlfBytes c
  write bs := plays_step fun c => actsOn_writeLine c bs
  close := plays_step fun c => actsOn_closeLine c

theorem actsOn_guestStep [Json.Stack] (c : Scene) (step : GuestStep) :
    ActsOn c fun g x s => guestStep g x s step := by
  cases step with
  | send chunks =>
    obtain ⟨c', hc⟩ := changes_sendAll c chunks
    exact hc.actsOn fun _ _ _ _ _ => rfl
  | hangUp e =>
    obtain ⟨c', hc⟩ := changes_hangUp c e
    exact hc.actsOn fun _ _ _ _ _ => rfl
  | receive =>
    obtain ⟨c', hc⟩ := changes_take c c.unread.length
    exact hc.actsOn fun g d s hd h => by simp only [guestStep, h.unread hd]; rfl
  | isReadable => exact (actsOn_isReadable c).onPort _
  | dropUnread => exact (actsOn_dropUnread c).onPort _
  | isOpen =>
    exact actsOn_of_looking fun g d s hd h => by simp only [guestStep, h.isLineOpen hd]; rfl
  | write bs => exact (actsOn_writeLine c bs).onPort _
  | readThrough pattern => exact (actsOn_readThrough pattern c).onPort _
  | call x =>
    obtain ⟨a, c', l', h⟩ := isKept_plays.of_call x c []
    refine ⟨⟨a.map .client, l'⟩, c', fun g d hd => ?_⟩
    obtain ⟨d', hl, hd', he⟩ := h g d hd
    refine ⟨d', hl, hd', fun s hs => ?_⟩
    simp only [guestStep, Task.perform_apply, he s hs]

theorem guestStep_eq_put [Json.Stack] (g : Nat) (c : Scene) (step : GuestStep) :
    ∃ a c', c.Leads c' ∧ ∀ s, s.HasScene g c → guestStep g c.guest s step = (a, s.put g c') := by
  obtain ⟨a, _, h⟩ := actsOn_guestStep c step
  obtain ⟨c', hl, -, he⟩ := h g c (.refl c)
  exact ⟨a, c', hl, he⟩

end Answers

end Session

end LineHandshake
