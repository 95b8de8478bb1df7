import LineHandshake.Proofs.Schedule
import LineHandshake.Session.Step

/-!
Networks that lose nothing and change no order. How fast a server is does not matter: before each
step of its client it may have done any number of its own, and what is written to a server that has
gone may be lost or refused. A session is such a network: a client that dialled a waiting server is
the one that it serves, whatever else is in the session.
-/

namespace LineHandshake

/-- What a read may give of a server of whose bytes `taken` were read before, and how many have
been read after it: the next line, or, if there is none, the end of a server that has gone, or what
there is of a server that has stopped. -/
inductive Receives (v : Server) (taken : Nat) : Except Fault Bytes → Nat → Prop
  | line {line rest : Bytes}
      (h : Bytes.cutThrough Line.crlfBytes (v.sent.drop taken) = some (line, rest)) :
      Receives v taken (.ok line) (taken + line.length)
  | cut {e : PortError} {taken' : Nat}
      (h : Bytes.cutThrough Line.crlfBytes (v.sent.drop taken) = none) (hp : v.phase = .ended) :
      Receives v taken (.error (.port e)) taken'
  | late {taken' : Nat} (h : Bytes.cutThrough Line.crlfBytes (v.sent.drop taken) = none)
      (hp : v.phase ≠ .ended) (hw : v.work = v) :
      Receives v taken (.ok (v.sent.drop taken)) taken'

inductive Sends (bs : Bytes) (v : Server) : Except Fault Unit → Server → Prop
  | sent (hp : v.phase ≠ .ended) (n : Nat) :
      Sends bs v (.ok ())
        ((v.change (Connection.deliver bs)).after (List.replicate n .work))
  | lost (hp : v.phase = .ended) : Sends bs v (.ok ()) v
  | refused (hp : v.phase = .ended) (e : PortError) : Sends bs v (.error (.port e)) v

/-- A port to a server through a network that is lossless and in order. `Shows s v taken` says that
the state `s` of the port has the server `v` at its other end, of whose bytes `taken` were read. -/
structure LinePort.IsLossless {σ : Type} (port : LinePort σ) (Shows : σ → Server → Nat → Prop) :
    Prop where
  read {s : σ} {v : Server} {taken : Nat} (h : Shows s v taken) :
    ∃ n taken', Receives (v.after (List.replicate n .work)) taken (port.readLine s).1 taken' ∧
      Shows (port.readLine s).2 (v.after (List.replicate n .work)) taken'
  write {s : σ} {v : Server} {taken : Nat} (bs : Bytes) (h : Shows s v taken) :
    ∃ n v', Sends bs (v.after (List.replicate n .work)) (port.write bs s).1 v' ∧
      Shows (port.write bs s).2 v' taken

/-- An open line that is served, with a limit that neither is over at once nor is too large, of
which `taken` bytes have been read. -/
structure Guest.IsReading (x : Guest) (taken : Nat) : Prop where
  served : x.isServed = true
  going : x.hasEnded = false
  taken : x.taken = taken
  line : ∃ l, x.line = some l ∧ l.isOpen = true ∧ l.limit.isInstant = false ∧
    l.limit.isTooLarge = false

theorem Server.isListening_iff {v : Server} : v.isListening = true ↔ v.phase ≠ .ended := by
  unfold Server.isListening
  split
  · next h => simp only [h, Bool.false_eq_true, ne_eq, not_true]
  · next h => exact ⟨fun _ => h, fun _ => rfl⟩

theorem Server.isListening_eq_false {v : Server} (h : v.phase = .ended) :
    v.isListening = false := by
  rw [Server.isListening, h]

theorem Connection.deliver_nil (c : Connection) : c.deliver [] = c := by
  have hs : c.source.deliver [] = c.source := by
    rw [TextSource.deliver]
    split
    · rfl
    · exact congrArg (fun ps => { c.source with packets := ps }) (List.append_nil _)
  rw [deliver, hs]

namespace Session

def Shows (g : Nat) (s : Session) (v : Server) (taken : Nat) : Prop :=
  ∃ guest, s.guests[g]? = some guest ∧ s.servers[guest.host]? = some v ∧
    guest.IsReading taken ∧ v.work = v

variable {g : Nat} {s : Session} {v : Server} {taken : Nat}

theorem Shows.rests (h : Shows g s v taken) : v.work = v := by
  obtain ⟨-, -, -, -, hw⟩ := h
  exact hw

theorem Shows.take (h : Shows g s v taken) (count : Nat) :
    Shows g (s.take g count) v (taken + count) := by
  obtain ⟨guest, hg, hv, hr, hw⟩ := h
  refine ⟨{ guest with taken := guest.taken + count }, ?_, hv, ?_, hw⟩
  · rw [Session.take, modifyGuest, List.getElem?_modify_eq, hg]
    rfl
  · exact ⟨hr.served, hr.going, by rw [hr.taken], hr.line⟩

theorem Shows.send (h : Shows g s v taken) (bs : Bytes) :
    Shows g (s.send g bs) (v.onClient (Connection.deliver bs)) taken := by
  obtain ⟨guest, hg, hv, hr, hw⟩ := h
  refine ⟨guest, ?_, ?_, hr, Server.work_onClient _ hw⟩
  · simp only [Session.send, hg, hr.served, if_true, modifyServer]
  · simp only [Session.send, hg, hr.served, if_true, modifyServer, List.getElem?_modify_eq, hv]
    rfl

theorem Shows.onLine (h : Shows g s v taken) :
    ∃ guest line, (∀ {α : Type} (f : Guest → Dialled → Session → Except Fault α × Session),
        s.onLine g f = f guest line s) ∧ s.unread guest = v.sent.drop taken ∧
      s.isCut guest = !v.isListening ∧ guest.hasEnded = false ∧
      s.lineLimit? g = some line.limit ∧ line.limit.isInstant = false ∧
      line.limit.isTooLarge = false := by
  obtain ⟨guest, hg, hv, hr, -⟩ := h
  obtain ⟨line, hl, ho, hi, hn⟩ := hr.line
  refine ⟨guest, line, ?_, ?_, ?_, hr.going, ?_, hi, hn⟩
  · intro α f
    simp only [Session.onLine, hg, hl, ho, if_true]
  · simp only [unread, hr.served, if_true, hv, Option.elim_some, hr.taken]
  · simp only [isCut, hv, Option.any_some]
  · simp only [lineLimit?, hg, hl, Option.bind_some, Option.map_some]

theorem Shows.readThrough_eq (h : Shows g s v taken) :
    readThrough Line.crlfBytes g s =
      match Bytes.cutThrough Line.crlfBytes (v.sent.drop taken) with
      | some (line, _) => (.ok line, s.take g line.length)
      | none =>
        (if v.isListening then .ok (v.sent.drop taken) else .error (.port .endOfStream),
          s.take g (v.sent.drop taken).length) := by
  obtain ⟨guest, line, ho, hu, hc, -, hl, hi, hn⟩ := h.onLine
  rw [readThrough, hl, Option.any_some, hn, if_neg Bool.false_ne_true, ho, hu, hc, reach, hi,
    if_neg Bool.false_ne_true, if_neg (by decide)]
  cases Bytes.cutThrough Line.crlfBytes (v.sent.drop taken) with
  | none => simp only [Bool.false_or, Bool.not_not]
  | some r => rfl

theorem Shows.writeLine_eq (h : Shows g s v taken) (bs : Bytes) :
    writeLine g bs s =
      if bs = [] then (.ok (), s)
      else if v.isListening then (.ok (), s.send g bs)
      else (.error (.port (.writeRefused .brokenPipe)), s) := by
  obtain ⟨guest, line, ho, -, hc, he, -, hi, hn⟩ := h.onLine
  rw [writeLine, ho, hn, he, hc, hi]
  cases v.isListening <;> rfl

theorem Shows.receives (h : Shows g s v taken) :
    ∃ taken', Receives v taken (readThrough Line.crlfBytes g s).1 taken' ∧
      Shows g (readThrough Line.crlfBytes g s).2 v taken' := by
  rw [h.readThrough_eq]
  cases hc : Bytes.cutThrough Line.crlfBytes (v.sent.drop taken) with
  | some r => exact ⟨_, .line hc, h.take _⟩
  | none =>
    by_cases hp : v.phase = .ended
    · rw [Server.isListening_eq_false hp]
      exact ⟨_, .cut hc hp, h.take _⟩
    · rw [Server.isListening_iff.2 hp]
      exact ⟨_, .late hc hp h.rests, h.take _⟩

theorem Shows.sends (h : Shows g s v taken) (bs : Bytes) :
    ∃ v', Sends bs v (writeLine g bs s).1 v' ∧ Shows g (writeLine g bs s).2 v' taken := by
  rw [h.writeLine_eq]
  by_cases hp : v.phase = .ended
  · rw [Server.isListening_eq_false hp]
    split
    · exact ⟨v, .lost hp, h⟩
    · exact ⟨v, .refused hp _, h⟩
  · rw [Server.isListening_iff.2 hp]
    split
    · next hb =>
      have hs : v.change (Connection.deliver bs) = v := by
        rw [hb, Server.change, Connection.deliver_nil]
        exact ite_self v
      have hd : Sends bs v (.ok ()) _ := .sent hp 0
      rw [hs] at hd
      exact ⟨v, hd, h⟩
    · obtain ⟨n, hn⟩ := Server.leads_onClient (Connection.deliver bs) v
      have hd : Sends bs v (.ok ()) _ := .sent hp n
      rw [hn] at hd
      exact ⟨_, hd, h.send bs⟩

theorem isLossless_linePort (g : Nat) : (linePort g).IsLossless (Shows g) where
  read h := ⟨0, h.receives⟩
  write bs h := ⟨0, h.sends bs⟩

theorem connect_waiting {i : Nat} {port : Int} (hv : s.servers[i]? = some v)
    (hp : v.phase = .accepting) (hi : s.listener? port = some i) (target : Nat) (c : Connection)
    (line : Option Dialled) :
    s.connect target port c line =
      (.ok (),
        { s with
          servers := s.servers.modify i fun v => v.accept s.connections c
          guests := s.guests ++ [⟨target, i, true, c.source.ending.isSome, 0, line⟩]
          connections := s.connections + 1 }) := by
  have ha : (s.servers[i]?).any isAccepting = true := by
    rw [hv, Option.any_some, isAccepting, hp]
  rw [connect, hi]
  simp only [ha]
  rfl

theorem shows_dial {i : Nat} {host : Text} {port listening : Int} {limit : Duration}
    (hv : s.servers[i]? = some v) (hp : v.phase = .accepting)
    (hd : Address.dialled host port = .ok listening) (hi : s.listener? listening = some i)
    (hneg : limit.isNegative = false) (hins : limit.isInstant = false)
    (hlarge : limit.isTooLarge = false) (target : Nat) :
    (s.dial target host port limit).1 = .ok () ∧
      ∃ n, Shows s.guests.length (s.dial target host port limit).2.1
        (v.after (.connect s.connections :: List.replicate n .work)) 0 := by
  obtain ⟨n, hn⟩ := Server.leads_accept hp s.connections
  rw [dial, hneg, if_neg Bool.false_ne_true, hd]
  simp only [connect_waiting hv hp hi]
  refine ⟨trivial, n, ⟨target, i, true, false, 0, some { limit }⟩, ?_, ?_, ?_, ?_⟩
  · exact List.getElem?_concat_length
  · rw [List.getElem?_modify_eq, hv, Server.after_cons, hn]
    rfl
  · exact ⟨rfl, rfl, rfl, _, rfl, rfl, hins, hlarge⟩
  · rw [Server.after_cons, hn, Server.accept, hp]
    exact Server.work_run _ _

def visit (e : ExitPoint) : Session :=
  ((startServer {} { port := 14220, exitPoint := e }).dial 0 (text "127.0.0.1") 14220
    Duration.readLimit).2.1

theorem shows_visit (e : ExitPoint) :
    ∃ n, Shows 0 (visit e)
      ((Server.start { port := 14220, exitPoint := e } (.ok ())).after
        (.connect 0 :: List.replicate n .work)) 0 := by
  have hd : Address.dialled (text "127.0.0.1") 14220 = .ok 14220 := by decide
  have hn : Duration.readLimit.isNegative = false := by decide
  have h := shows_dial (s := startServer {} { port := 14220, exitPoint := e }) (i := 0)
    (v := Server.start { port := 14220, exitPoint := e } (.ok ())) rfl rfl hd rfl hn
    (by decide) (by decide) 0
  exact h.2

end Session

end LineHandshake
