import LineHandshake.Text

/-!
UTF-8 in both directions. The decoder takes one byte at a time and holds the bytes of a sequence
begun, so what it makes of a stream does not depend on where the stream is cut (`run_append`).
An encoded surrogate is no character: its first two bytes are held, and whatever follows them,
the end included, shows that the first was wrong.
-/

namespace LineHandshake.Utf8

inductive Reason
  | badStart
  | badContinuation
  | endOfData
deriving DecidableEq, Repr

def Reason.message : Reason → Text
  | .badStart => text "invalid start byte"
  | .badContinuation => text "invalid continuation byte"
  | .endOfData => text "unexpected end of data"

/-- The first malformed sequence: where it starts, its first byte and how many bytes it has. -/
structure DecodeError where
  byte : UInt8
  start : Nat
  size : Nat
  reason : Reason
deriving DecidableEq, Repr

def DecodeError.message (e : DecodeError) : Text :=
  text "\x27utf-8\x27 codec can\x27t decode byte" ++
    (if e.size = 1 then
      text " 0x" ++ Text.hex 2 e.byte.toNat ++ text " in position " ++ Text.ofNat e.start
    else
      text "s in position " ++ Text.ofNat e.start ++ text "-" ++
        Text.ofNat (e.start + e.size - 1)) ++
    text ": " ++ e.reason.message

structure EncodeError where
  point : CodePoint
  start : Nat
  size : Nat
deriving DecidableEq, Repr

def EncodeError.message (e : EncodeError) : Text :=
  text "\x27utf-8\x27 codec can\x27t encode character" ++
    (if e.size = 1 then
      text " \x27\\u" ++ Text.hex 4 e.point.val ++ text "\x27 in position " ++ Text.ofNat e.start
    else
      text "s in position " ++ Text.ofNat e.start ++ text "-" ++
        Text.ofNat (e.start + e.size - 1)) ++
    text ": surrogates not allowed"

def encodePoint (c : CodePoint) : Bytes :=
  let n := c.val
  if n < 0x80 then [UInt8.ofNat n]
  else if n < 0x800 then [UInt8.ofNat (0xC0 + n / 64), UInt8.ofNat (0x80 + n % 64)]
  else if n < 0x10000 then
    [UInt8.ofNat (0xE0 + n / 4096), UInt8.ofNat (0x80 + n / 64 % 64), UInt8.ofNat (0x80 + n % 64)]
  else
    [UInt8.ofNat (0xF0 + n / 262144), UInt8.ofNat (0x80 + n / 4096 % 64),
      UInt8.ofNat (0x80 + n / 64 % 64), UInt8.ofNat (0x80 + n % 64)]

def encode (t : Text) : Except EncodeError Bytes :=
  match t.dropWhile (fun c => !decide c.IsSurrogate) with
  | [] => .ok (t.flatMap encodePoint)
  | c :: rest => .error
      { point := c
        start := t.length - (rest.length + 1)
        size := 1 + (rest.takeWhile fun c => decide c.IsSurrogate).length }

inductive Step
  | more
  | point (c : CodePoint)
  | bad (size : Nat) (reason : Reason)
deriving DecidableEq, Repr

def isContinuation (b : UInt8) : Bool := 0x80 ≤ b && b ≤ 0xBF

/-- Whether the second byte of a three or four byte sequence stays clear of the overlong forms
and of what lies above U+10FFFF. -/
def admits (lead b : UInt8) : Bool :=
  if lead = 0xE0 then 0xA0 ≤ b
  else if lead = 0xF0 then 0x90 ≤ b
  else if lead = 0xF4 then b ≤ 0x8F
  else true

def beginsSurrogate (lead b : UInt8) : Bool := lead = 0xED && 0xA0 ≤ b

def assemble (lead : Nat) (groups : List UInt8) : CodePoint :=
  Fin.ofNat _ (groups.foldl (fun n b => n * 64 + (b.toNat - 0x80)) lead)

def step (held : Bytes) (b : UInt8) : Step :=
  match held with
  | [] =>
    if b < 0x80 then .point (assemble b.toNat [])
    else if 0xC2 ≤ b ∧ b < 0xF5 then .more
    else .bad 1 .badStart
  | [a] =>
    if !isContinuation b then .bad 1 .badContinuation
    else if a < 0xE0 then .point (assemble (a.toNat - 0xC0) [b])
    else if admits a b then .more
    else .bad 1 .badContinuation
  | [a, a₁] =>
    if beginsSurrogate a a₁ then .bad 1 .badContinuation
    else if !isContinuation b then .bad 2 .badContinuation
    else if a < 0xF0 then .point (assemble (a.toNat - 0xE0) [a₁, b])
    else .more
  | a :: a₁ :: a₂ :: _ =>
    if !isContinuation b then .bad 3 .badContinuation
    else .point (assemble (a.toNat - 0xF0) [a₁, a₂, b])

/-- Decodes bytes after a sequence begun; `start` is where that sequence starts. Gives the text
and the bytes held at the end. -/
def run (held : Bytes) (start : Nat) : Bytes → Except DecodeError (Text × Bytes)
  | [] => .ok ([], held)
  | b :: bs =>
    match step held b with
    | .more => run (held ++ [b]) start bs
    | .point c => (run [] (start + held.length + 1) bs).map fun r => (c :: r.1, r.2)
    | .bad size reason => .error ⟨(held ++ [b]).headD 0, start, size, reason⟩

def finish (held : Bytes) (start : Nat) : Except DecodeError Unit :=
  match held with
  | [] => .ok ()
  | a :: rest =>
    if rest.any (beginsSurrogate a) then .error ⟨a, start, 1, .badContinuation⟩
    else .error ⟨a, start, held.length, .endOfData⟩

def decode (bs : Bytes) : Except DecodeError Text :=
  match run [] 0 bs with
  | .error e => .error e
  | .ok (t, held) => (finish held (bs.length - held.length)).map fun _ => t

/-- Decodes with U+FFFD for each malformed sequence; `fuel` bounds their number. -/
def decodeLossyFrom : (fuel : Nat) → Bytes → Text
  | 0, _ => []
  | fuel + 1, bs =>
    match decode bs with
    | .ok t => t
    | .error e =>
      (decode (bs.take e.start)).toOption.getD [] ++
        0xFFFD :: decodeLossyFrom fuel (bs.drop (e.start + e.size))

def decodeLossy (bs : Bytes) : Text := decodeLossyFrom (bs.length + 1) bs

theorem encode_of_no_surrogate {t : Text} (h : ∀ c ∈ t, ¬ c.IsSurrogate) :
    encode t = .ok (t.flatMap encodePoint) := by
  have : t.dropWhile (fun c => !decide c.IsSurrogate) = [] := by
    induction t with
    | nil => rfl
    | cons c t ih =>
      simp only [List.mem_cons, forall_eq_or_imp] at h
      simp [h.1, ih h.2]
  simp [encode, this]

theorem run_append (held : Bytes) (start : Nat) (as bs : Bytes) :
    run held start (as ++ bs) =
      match run held start as with
      | .error e => .error e
      | .ok (t, h) =>
        (run h (start + held.length + as.length - h.length) bs).map fun r => (t ++ r.1, r.2) := by
  induction as generalizing held start with
  | nil =>
    simp only [List.nil_append, run, List.length_nil, Nat.add_zero, Nat.add_sub_cancel]
    cases run held start bs <;> rfl
  | cons b as ih =>
    simp only [List.cons_append, run]
    cases step held b with
    | more =>
      simp only [ih, List.length_append, List.length_cons, List.length_nil]
      simp only [show start + (held.length + (0 + 1)) + as.length =
        start + held.length + (as.length + 1) by omega]
    | bad size reason => rfl
    | point c =>
      simp only [ih, List.length_nil, Nat.add_zero]
      cases run [] (start + held.length + 1) as with
      | error e => rfl
      | ok r =>
        simp only [Except.map, List.length_cons,
          show start + held.length + 1 + as.length = start + held.length + (as.length + 1) by omega]
        cases run r.2 _ bs <;> rfl

end LineHandshake.Utf8
