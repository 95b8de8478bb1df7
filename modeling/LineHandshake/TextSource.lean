import LineHandshake.Fault
import LineHandshake.Line

/-!
The reading end of a connection, as text. Bytes come in packets; each packet is decoded as a
whole, and only when no line or not enough text is ready. A character cut by a packet's end is
held back, and so is a CR there, since an LF may follow it. A read for which the peer has not sent
enough waits: it leaves everything as it was, to be tried again.

A packet that cannot be decoded is lost together with the part of a line read before it; what is
held back stays. A read of so many code points asks for as much at once as it may still need, and
the machine may have no memory for that.
-/

namespace LineHandshake

inductive Ending
  | endOfStream
  | reset
deriving DecidableEq, Repr

inductive Interrupt
  | waiting
  | fault (f : Fault)
deriving DecidableEq

/-- What was held back: the bytes of a character begun, and whether a CR. -/
structure Decoder where
  held : Bytes := []
  heldCr : Bool := false
deriving DecidableEq, Repr

namespace Decoder

/-- Puts off each CR until the next code point. -/
def holdCr (heldCr : Bool) : Text → Text × Bool
  | [] => ([], heldCr)
  | c :: t =>
    let r := holdCr (c = CodePoint.cr) t
    ((if heldCr then [CodePoint.cr] else []) ++ (if c = CodePoint.cr then [] else [c]) ++ r.1, r.2)

theorem holdCr_append (heldCr : Bool) (t u : Text) :
    holdCr heldCr (t ++ u) =
      ((holdCr heldCr t).1 ++ (holdCr (holdCr heldCr t).2 u).1,
        (holdCr (holdCr heldCr t).2 u).2) := by
  induction t generalizing heldCr with
  | nil => rfl
  | cons c t ih => simp only [List.cons_append, holdCr, ih, List.append_assoc]

theorem holdCr_restored (heldCr : Bool) (t : Text) :
    (holdCr heldCr t).1 ++ (if (holdCr heldCr t).2 then [CodePoint.cr] else []) =
      (if heldCr then [CodePoint.cr] else []) ++ t := by
  induction t generalizing heldCr with
  | nil => cases heldCr <;> rfl
  | cons c t ih =>
    simp only [holdCr, List.append_assoc, ih]
    by_cases hc : c = CodePoint.cr <;> simp [hc]

def feed (d : Decoder) (bs : Bytes) : Except Utf8.DecodeError (Text × Decoder) :=
  match Utf8.run d.held 0 bs with
  | .error e => .error e
  | .ok (t, held) =>
    let r := holdCr d.heldCr t
    .ok (r.1, { held, heldCr := r.2 })

def feedLast (d : Decoder) (bs : Bytes) : Except Utf8.DecodeError Text :=
  match d.feed bs with
  | .error e => .error e
  | .ok (t, d') =>
    (Utf8.finish d'.held (d.held.length + bs.length - d'.held.length)).map fun _ =>
      t ++ if d'.heldCr then [CodePoint.cr] else []

end Decoder

def cutLine? : Text → Option (Text × Text)
  | [] => none
  | c :: t =>
    if c = CodePoint.lf then some ([c], t)
    else if c = CodePoint.cr then
      if t.head? = some CodePoint.lf then some ([c, CodePoint.lf], t.tail) else some ([c], t)
    else (cutLine? t).map fun r => (c :: r.1, r.2)

theorem append_of_cutLine? {t line rest : Text} (h : cutLine? t = some (line, rest)) :
    line ++ rest = t := by
  induction t generalizing line with
  | nil => cases h
  | cons c t ih =>
    simp only [cutLine?] at h
    split at h
    · cases h
      rfl
    · split at h
      · split at h
        · next hd =>
          cases h
          cases t with
          | nil => cases hd
          | cons d t => cases hd; rfl
        · cases h
          rfl
      · obtain ⟨⟨l, r⟩, hl, he⟩ := Option.map_eq_some_iff.1 h
        cases he
        rw [List.cons_append, ih hl]

def packetSize : Nat := 8192

def packets (room : Nat) (begun : Bytes) : Bytes → List Bytes
  | [] => if begun = [] then [] else [begun.reverse]
  | b :: bs =>
    match room with
    | 0 => begun.reverse :: packets (packetSize - 1) [b] bs
    | room + 1 => packets room (b :: begun) bs

theorem flatten_packets (room : Nat) (begun bs : Bytes) :
    (packets room begun bs).flatten = begun.reverse ++ bs := by
  induction bs generalizing room begun with
  | nil => by_cases h : begun = [] <;> simp [packets, h]
  | cons b bs ih => cases room <;> simp [packets, ih]

structure TextSource where
  packets : List Bytes := []
  ending : Option Ending := none
  decoder : Decoder := {}
  ready : Text := []
  isOpen : Bool := true
deriving DecidableEq

namespace TextSource

def deliver (s : TextSource) (bs : Bytes) : TextSource :=
  if s.ending.isSome then s
  else { s with packets := s.packets ++ LineHandshake.packets packetSize [] bs }

def hangUp (s : TextSource) (e : Ending) : TextSource :=
  if s.ending.isSome then s else { s with ending := some e }

abbrev Reading (α : Type) := Except Interrupt α × TextSource

def lost (s : TextSource) (f : Fault) (d : Decoder) (packets : List Bytes) : Reading Text :=
  (.error (.fault f), { s with packets, decoder := d, ready := [] })

def gained (s : TextSource) (t : Text) (d : Decoder) (packets : List Bytes) (ready : Text) :
    Reading Text :=
  (.ok t, { s with packets, decoder := d, ready })

/-- No packet is left: what a read gives that has got as far as `begun`. -/
def atEnd (s : TextSource) (begun : Text) (d : Decoder) : Reading Text :=
  match s.ending with
  | none => (.error .waiting, s)
  | some .reset => s.lost (.system .connectionReset) d []
  | some .endOfStream =>
    match d.feedLast [] with
    | .error e => s.lost (.undecodable e) d []
    | .ok t => s.gained (begun ++ t) {} [] []

/-- Which requests of a read get no memory. They are known by how many the read made before, and by
what it has got of its text. -/
abbrev Refusal := (before : Nat) → (begun : Text) → Bool

/-- Receives packets until what is there can be cut in two. -/
def receive (s : TextSource) (cut : Text → Option (Text × Text)) (refuses : Refusal)
    (before : Nat) (begun : Text) (d : Decoder) (ps : List Bytes) : Reading Text :=
  if refuses before begun then s.lost .outOfMemory d ps
  else
    match ps with
    | [] => s.atEnd begun d
    | p :: ps =>
      match d.feed p with
      | .error e => s.lost (.undecodable e) d ps
      | .ok (t, d') =>
        match cut (begun ++ t) with
        | some (got, rest) => s.gained got d' ps rest
        | none => s.receive cut refuses (before + 1) (begun ++ t) d' ps

def readUntil (s : TextSource) (cut : Text → Option (Text × Text)) (refuses : Refusal) :
    Reading Text :=
  if s.isOpen then
    match cut s.ready with
    | some (got, rest) => (.ok got, { s with ready := rest })
    | none => s.receive cut refuses 0 s.ready s.decoder s.packets
  else (.error (.fault .streamClosed), s)

def Refusal.never : Refusal := fun _ _ => false

def readLine (s : TextSource) : Reading Text := s.readUntil cutLine? .never

def cutCount? (count : Nat) (t : Text) : Option (Text × Text) :=
  if t.length < count then none else some (t.take count, t.drop count)

def readAll (s : TextSource) : Reading Text :=
  if s.isOpen then
    match s.ending with
    | none => (.error .waiting, s)
    | some .reset => (.error (.fault (.system .connectionReset)), { s with packets := [] })
    | some .endOfStream =>
      match s.decoder.feedLast s.packets.flatten with
      | .error e => (.error (.fault (.undecodable e)), { s with packets := [] })
      | .ok t => s.gained (s.ready ++ t) {} [] []
  else (.error (.fault .streamClosed), s)

def isCount (n : Int) : Bool := -Int.pow 2 63 ≤ n && n < Int.pow 2 63

/-- A machine that refuses requests for so many bytes, or more. A read asks for a byte for each
code point that it misses; a number that is rounded to 2^63 overflows, and then it asks for a packet
only. -/
def Refusal.beyond (memory : Nat) (count : Int) : Refusal := fun _ begun =>
  let missing := count.toNat - begun.length
  memory ≤ missing && (Binary64.nearest false missing 1).lt (.nearest false (Nat.pow 2 63) 1)

/-- The next `count` code points, fewer only at the end of the stream; all if it is negative. -/
def read (s : TextSource) (count : Int) (refuses : Refusal) : Reading Text :=
  if isCount count then
    match count with
    | .ofNat count => s.readUntil (cutCount? count) refuses
    | .negSucc _ => s.readAll
  else (.error (.fault .countTooLarge), s)

def close (s : TextSource) : TextSource := { s with isOpen := false }

end TextSource

end LineHandshake
