import LineHandshake.Fault
import LineHandshake.Utf8

/-!
The writing end of a connection. Text is encoded at once and passes two buffers: it is gathered in
the first, handed on to the second when the first is full, and sent when the second has no room. A
flush sends everything.

If the connection is broken, nothing more is sent. Bytes that were about to be handed on are then
lost, and what the second buffer holds stays, so the next flush fails as well.
-/

namespace LineHandshake

structure TextSink where
  gathered : Bytes := []
  stored : Bytes := []
  sent : Bytes := []
  isBroken : Bool := false
  isOpen : Bool := true
deriving DecidableEq

namespace TextSink

/-- The bytes that each of the two buffers holds at most. -/
def capacity : Nat := 8192

def accepted (s : TextSink) : Bytes := s.sent ++ s.stored ++ s.gathered

def send (bs : Bytes) (s : TextSink) : Except Fault Unit × TextSink :=
  if bs = [] then (.ok (), s)
  else if s.isBroken then (.error (.system .brokenPipe), s)
  else (.ok (), { s with sent := s.sent ++ bs })

def sendStored (s : TextSink) : Except Fault Unit × TextSink :=
  match s.send s.stored with
  | (.error f, s) => (.error f, s)
  | (.ok (), s) => (.ok (), { s with stored := [] })

/-- Stores bytes. If there is no room for them, what is stored is sent first; bytes that would not
fit even then are sent at once. -/
def store (bs : Bytes) (s : TextSink) : Except Fault Unit × TextSink :=
  if s.stored.length + bs.length ≤ capacity then (.ok (), { s with stored := s.stored ++ bs })
  else
    match s.sendStored with
    | (.error f, s) => (.error f, s)
    | (.ok (), s) =>
      if capacity < bs.length then s.send bs else (.ok (), { s with stored := bs })

def handOn (s : TextSink) : Except Fault Unit × TextSink :=
  { s with gathered := [] }.store s.gathered

def gather (bs : Bytes) (s : TextSink) : Except Fault Unit × TextSink :=
  let s := { s with gathered := s.gathered ++ bs }
  if capacity ≤ s.gathered.length then s.handOn else (.ok (), s)

/-- What was gathered before is handed on first if the text would not fit behind it. -/
def write (t : Text) (s : TextSink) : Except Fault Unit × TextSink :=
  if s.isOpen then
    match Utf8.encode t with
    | .error e => (.error (.unencodable e), s)
    | .ok bs =>
      if s.gathered.length + bs.length ≤ capacity then s.gather bs
      else
        match s.handOn with
        | (.error f, s) => (.error f, s)
        | (.ok (), s) => s.gather bs
  else (.error .streamClosed, s)

def sendAll (s : TextSink) : Except Fault Unit × TextSink :=
  match s.handOn with
  | (.error f, s) => (.error f, s)
  | (.ok (), s) => s.sendStored

def flush (s : TextSink) : Except Fault Unit × TextSink :=
  if s.isOpen then s.sendAll else (.error .streamClosed, s)

def close (s : TextSink) : Except Fault Unit × TextSink :=
  if s.isOpen then
    let r := s.sendAll
    (r.1, { r.2 with isOpen := false })
  else (.ok (), s)

theorem send_of_not_isBroken {s : TextSink} (h : s.isBroken = false) (bs : Bytes) :
    s.send bs = (.ok (), { s with sent := s.sent ++ bs }) := by
  cases s
  cases h
  by_cases hb : bs = [] <;> simp [send, hb]

theorem sendStored_of_not_isBroken {s : TextSink} (h : s.isBroken = false) :
    s.sendStored = (.ok (), { s with stored := [], sent := s.sent ++ s.stored }) := by
  simp only [sendStored, send_of_not_isBroken h]

theorem store_of_not_isBroken {s : TextSink} (h : s.isBroken = false) (bs : Bytes) :
    ∃ sent stored, s.store bs = (.ok (), { s with sent, stored }) ∧
      sent ++ stored = s.sent ++ s.stored ++ bs := by
  unfold store
  split
  · exact ⟨_, _, rfl, (List.append_assoc ..).symm⟩
  · rw [sendStored_of_not_isBroken h]
    dsimp only
    split
    · rw [send_of_not_isBroken (by exact h)]
      exact ⟨_, _, rfl, List.append_nil _⟩
    · exact ⟨_, _, rfl, rfl⟩

theorem handOn_of_not_isBroken {s : TextSink} (h : s.isBroken = false) :
    ∃ sent stored, s.handOn = (.ok (), { s with sent, stored, gathered := [] }) ∧
      sent ++ stored = s.accepted :=
  store_of_not_isBroken (s := { s with gathered := [] }) h s.gathered

theorem gather_of_not_isBroken {s : TextSink} (h : s.isBroken = false) (bs : Bytes) :
    ∃ sent stored gathered, s.gather bs = (.ok (), { s with sent, stored, gathered }) ∧
      sent ++ stored ++ gathered = s.accepted ++ bs := by
  unfold gather
  dsimp only
  split
  · obtain ⟨sent, stored, hr, he⟩ :=
      handOn_of_not_isBroken (s := { s with gathered := s.gathered ++ bs }) h
    exact ⟨sent, stored, [], hr, by rw [List.append_nil, he]; simp [accepted]⟩
  · exact ⟨s.sent, s.stored, s.gathered ++ bs, rfl, by simp [accepted]⟩

theorem write_of_not_isBroken {s : TextSink} {t : Text} {bs : Bytes} (h : s.isBroken = false)
    (ho : s.isOpen = true) (ht : Utf8.encode t = .ok bs) :
    ∃ sent stored gathered, s.write t = (.ok (), { s with sent, stored, gathered }) ∧
      sent ++ stored ++ gathered = s.accepted ++ bs := by
  rw [write, if_pos ho, ht]
  dsimp only
  split
  · exact gather_of_not_isBroken h bs
  · obtain ⟨sent, stored, hr, he⟩ := handOn_of_not_isBroken h
    obtain ⟨sent', stored', gathered, hr', he'⟩ :=
      gather_of_not_isBroken (s := { s with sent, stored, gathered := [] }) h bs
    rw [hr]
    refine ⟨sent', stored', gathered, hr', ?_⟩
    rw [he', accepted, List.append_nil, he]

theorem sendAll_of_not_isBroken {s : TextSink} (h : s.isBroken = false) :
    s.sendAll = (.ok (), { s with gathered := [], stored := [], sent := s.accepted }) := by
  obtain ⟨sent, stored, hr, he⟩ := handOn_of_not_isBroken h
  simp only [sendAll, hr]
  rw [sendStored_of_not_isBroken (by exact h)]
  simp only [he]

end TextSink

end LineHandshake
