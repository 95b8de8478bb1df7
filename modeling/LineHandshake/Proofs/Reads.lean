import LineHandshake.Proofs.Exchange
import Mathlib.Algebra.Group.Int.Defs

/-!
Reads of a connection in any order, while its bytes arrive in any pieces, against the same reads of
a text that lies in memory whole. A read that has to wait changes nothing and is tried again, so
what it gives in the end, and what it leaves to the next one, is a matter of the text alone. That
is as long as the machine has the memory that the reads ask for.
-/

namespace LineHandshake

def Text.firstLine (t : Text) : Text := t.lines.headD []

theorem takeLine_append (t : Text) : (takeLine t).1 ++ (takeLine t).2 = t := by
  unfold takeLine
  cases h : cutLine? t with
  | none => exact List.append_nil t
  | some r => exact append_of_cutLine? h

theorem takeLine_eq (t : Text) : takeLine t = (t.firstLine, t.drop t.firstLine.length) := by
  have hf : t.firstLine = (takeLine t).1 := by
    by_cases ht : t = []
    · rw [ht]
      rfl
    · rw [Text.firstLine, Text.lines_eq_takeLine ht]
      rfl
  have hd : t.drop (takeLine t).1.length = (takeLine t).2 := by
    have h : ((takeLine t).1 ++ (takeLine t).2).drop (takeLine t).1.length = (takeLine t).2 :=
      List.drop_left
    rwa [takeLine_append] at h
  rw [hf, hd]

inductive Read
  | stage
  | line
  | chars (count : Int)
deriving DecidableEq

namespace Read

def exchange (refuses : TextSource.Refusal) : Read → Connection.Exchange Text
  | .stage => Connection.readLine
  | .line => Connection.onSource TextSource.readLine
  | .chars count => Connection.onSource (TextSource.read · count refuses)

/-- What a read of a text in memory gives and what it leaves. A number that no count can be is
refused. -/
def ofText (t : Text) : Read → Except Fault Text × Text
  | .stage =>
    (if t = [] then .error .clientGone else .ok t.firstLine, t.drop t.firstLine.length)
  | .line => (.ok t.firstLine, t.drop t.firstLine.length)
  | .chars count =>
    if !TextSource.isCount count then (.error .countTooLarge, t)
    else if 0 ≤ count then (.ok (t.take count.toNat), t.drop count.toNat)
    else (.ok t, [])

def results : List Read → Text → List (Except Fault Text)
  | [], _ => []
  | r :: rs, t => (r.ofText t).1 :: results rs (r.ofText t).2

def given (result : Except Fault Text) : Text := result.toOption.getD []

theorem given_append_ofText (r : Read) (t : Text) : given (r.ofText t).1 ++ (r.ofText t).2 = t := by
  have hl : t.firstLine ++ t.drop t.firstLine.length = t := by
    simpa only [takeLine_eq] using takeLine_append t
  cases r with
  | line => exact hl
  | stage =>
    by_cases ht : t = []
    · rw [ht]
      rfl
    · rw [ofText, if_neg ht]
      exact hl
  | chars count =>
    simp only [ofText]
    split
    · rfl
    · split
      · exact List.take_append_drop _ t
      · exact List.append_nil t

def rest : List Read → Text → Text
  | [], t => t
  | r :: rs, t => rest rs (r.ofText t).2

theorem flatten_given_append_rest (rs : List Read) (t : Text) :
    ((results rs t).map given).flatten ++ rest rs t = t := by
  induction rs generalizing t with
  | nil => rfl
  | cons r rs ih =>
    rw [results, List.map_cons, List.flatten_cons, List.append_assoc, rest, ih,
      given_append_ofText]

theorem results_append (rs ss : List Read) (t : Text) :
    results (rs ++ ss) t = results rs t ++ results ss (rest rs t) := by
  induction rs generalizing t with
  | nil => rfl
  | cons r rs ih => rw [List.cons_append, results, ih, results, List.cons_append, rest]

theorem length_results (rs : List Read) (t : Text) : (results rs t).length = rs.length := by
  induction rs generalizing t with
  | nil => rfl
  | cons r rs ih => rw [results, List.length_cons, ih, List.length_cons]

end Read

namespace TextSource

def takeCount (count : Nat) (t : Text) : Text × Text := (t.take count, t.drop count)

theorem cuts_count (count : Nat) : Cuts (cutCount? count) (takeCount count) where
  whole {x got rest} h := by
    unfold cutCount? at h
    split at h
    · cases h
    · cases h
      exact List.take_append_drop count x
  found {x got rest y} h _ := by
    unfold cutCount? at h
    split at h
    · cases h
    · next hl =>
      cases h
      rw [takeCount, List.take_append_of_le_length (Nat.le_of_not_lt hl),
        List.drop_append_of_le_length (Nat.le_of_not_lt hl)]
  missing {x} h heldCr := by
    have hl : x.length < count := by
      by_contra hl
      simp [cutCount?, hl] at h
    have hx : (x ++ heldText heldCr).length ≤ count := by
      have : (heldText heldCr).length ≤ 1 := by cases heldCr <;> simp [heldText]
      rw [List.length_append]
      omega
    rw [takeCount, List.take_of_length_le hx, List.drop_of_length_le hx]

variable {s : TextSource} {later : Bytes} {t : Text} {refuses : Refusal}

section Granted

variable {cut : Text → Option (Text × Text)} {before : Nat} {begun : Text} {d : Decoder}
  {ps : List Bytes}

theorem not_refused_of_receive
    (h : (s.receive cut refuses before begun d ps).1 ≠ .error (.fault .outOfMemory)) :
    refuses before begun = false := by
  cases hr : refuses before begun with
  | false => rfl
  | true =>
    rw [receive.eq_def, hr] at h
    exact absurd rfl h

theorem receive_eq_never
    (h : (s.receive cut refuses before begun d ps).1 ≠ .error (.fault .outOfMemory)) :
    s.receive cut refuses before begun d ps = s.receive cut .never before begun d ps := by
  have hr := not_refused_of_receive h
  induction ps generalizing before begun d with
  | nil => simp only [receive, hr, Refusal.never, Bool.false_eq_true, if_false]
  | cons p ps ih =>
    simp only [receive, hr, Refusal.never, Bool.false_eq_true, if_false] at h ⊢
    cases hf : d.feed p with
    | error e => rfl
    | ok r =>
      simp only [hf] at h ⊢
      cases hx : cut (begun ++ r.1) with
      | some c => rfl
      | none =>
        simp only [hx] at h
        exact ih h (not_refused_of_receive h)

theorem readUntil_eq_never
    (h : (s.readUntil cut refuses).1 ≠ .error (.fault .outOfMemory)) :
    s.readUntil cut refuses = s.readUntil cut .never := by
  unfold readUntil at h ⊢
  cases hx : cut s.ready with
  | some c => rfl
  | none =>
    split
    · next ho =>
      rw [if_pos ho, hx] at h
      exact receive_eq_never h
    · rfl

end Granted

theorem read_eq_never {count : Int}
    (h : (s.read count refuses).1 ≠ .error (.fault .outOfMemory)) :
    s.read count refuses = s.read count .never := by
  unfold read at h ⊢
  cases count with
  | negSucc n => rfl
  | ofNat n =>
    split
    · next hk =>
      rw [if_pos hk] at h
      exact readUntil_eq_never h
    · rfl

theorem Holds.readAll (h : s.Holds later t) :
    (s.readAll = (.error .waiting, s) ∧ s.ending = none) ∨
      ∃ s', s.readAll = (.ok t, s') ∧ s'.Holds later [] ∧ s'.ending = s.ending := by
  obtain ⟨hopen, -, ⟨u, hu, rfl⟩, hend⟩ := h
  rw [TextSource.readAll, if_pos hopen]
  rcases hend with hend | ⟨hend, rfl⟩
  · left
    simp only [hend, and_self]
  · right
    -- all that comes is there now, so the last feed decodes it whole and gives back a held CR
    rw [List.append_nil] at hu
    have hf : s.decoder.feedLast s.packets.flatten = .ok (heldText s.decoder.heldCr ++ u) := by
      rw [← Decoder.holdCr_append_heldText]
      simp only [Decoder.feedLast, Decoder.feed, hu, Utf8.finish, Except.map]
      rfl
    refine ⟨{ s with packets := [], decoder := {}, ready := [] }, ?_, ?_, rfl⟩
    · simp only [hend, hf, gained]
    · exact ⟨hopen, (by intro hl; cases hl), ⟨[], rfl, rfl⟩, .inr ⟨hend, rfl⟩⟩

end TextSource

namespace Read

variable {c : Connection} {later : Bytes} {t : Text} {refuses : TextSource.Refusal}

theorem exchange_eq_never (r : Read) {q : Connection × Log}
    (h : (r.exchange refuses q).1 ≠ .error (.fault .outOfMemory)) :
    r.exchange refuses q = r.exchange .never q := by
  cases r with
  | stage => rfl
  | line => rfl
  | chars count =>
    simp only [exchange, Connection.onSource, Task.step_apply] at h ⊢
    rw [TextSource.read_eq_never h]

def Takes (later : Bytes) (c : Connection) (q : Except Fault Text × Text)
    (r : TextSource.Reading Text) : Prop :=
  (r = (.error .waiting, c.source) ∧ c.source.ending = none) ∨
    ∃ s', r = (q.1.mapError .fault, s') ∧ s'.Holds later q.2 ∧ s'.ending = c.source.ending

theorem takes_line (h : c.source.Holds later t) :
    Takes later c (Read.line.ofText t) c.source.readLine := by
  rcases h.readLine with ⟨hr, he, -⟩ | hr
  · exact .inl ⟨hr, he⟩
  · rw [takeLine_eq] at hr
    exact .inr hr

theorem takes_chars (h : c.source.Holds later t) (count : Int) :
    Takes later c ((Read.chars count).ofText t) (c.source.read count .never) := by
  simp only [ofText, TextSource.read]
  by_cases hk : TextSource.isCount count = true
  · rw [if_pos hk, hk]
    cases count with
    | ofNat n =>
      rcases h.readUntil (TextSource.cuts_count n) with ⟨hr, he, -⟩ | hr
      · exact .inl ⟨hr, he⟩
      · exact .inr hr
    | negSucc n =>
      exact h.readAll
  · -- a count that is no machine number is refused before anything is read
    rw [if_neg hk, Bool.eq_false_iff.2 hk]
    exact .inr ⟨c.source, rfl, h, rfl⟩

theorem exchange_of_holds (r : Read) (h : c.source.Holds later t) (l : Log) :
    (r.exchange .never (c, l) = (.error .waiting, (c, l)) ∧ c.source.ending = none) ∨
      ∃ s' l', r.exchange .never (c, l) =
          ((r.ofText t).1.mapError .fault, ({ c with source := s' }, l')) ∧
        s'.Holds later (r.ofText t).2 ∧ s'.ending = c.source.ending := by
  cases r with
  | line =>
    rcases takes_line h with ⟨hs, he⟩ | ⟨s', hs, hh⟩
    · left
      simp only [exchange, Connection.onSource, Task.step_apply, hs]
      exact ⟨trivial, he⟩
    · right
      simp only [exchange, Connection.onSource, Task.step_apply, hs]
      exact ⟨s', l, rfl, hh⟩
  | chars count =>
    rcases takes_chars h count with ⟨hs, he⟩ | ⟨s', hs, hh⟩
    · left
      simp only [exchange, Connection.onSource, Task.step_apply, hs]
      exact ⟨trivial, he⟩
    · right
      simp only [exchange, Connection.onSource, Task.step_apply, hs]
      exact ⟨s', l, rfl, hh⟩
  | stage =>
    rw [exchange, Connection.readLine_apply]
    rcases takes_line h with ⟨hs, he⟩ | ⟨s', hs, hh⟩
    · left
      rw [hs]
      exact ⟨rfl, he⟩
    · right
      have hn : t.firstLine = [] ↔ t = [] := by
        simpa only [takeLine_eq] using takeLine_fst_eq_nil_iff (t := t)
      rw [hs]
      simp only [ofText, Except.mapError, hn]
      split
      · exact ⟨s', l, rfl, hh⟩
      · exact ⟨s', _, rfl, hh⟩

end Read

/-- What happens on a connection. With a read it is said which of its requests the machine
refuses. -/
inductive Traffic
  | arrive (bs : Bytes)
  | finish
  | read (r : Read) (refuses : TextSource.Refusal)

namespace Traffic

def stream : List Traffic → Bytes
  | [] => []
  | .arrive bs :: es => bs ++ stream es
  | .finish :: _ => []
  | .read _ _ :: es => stream es

def reads : List Traffic → List Read
  | [] => []
  | .read r _ :: es => r :: reads es
  | _ :: es => reads es

def late : List Traffic → List Read
  | [] => []
  | .finish :: es => reads es
  | _ :: es => late es

end Traffic

/-- The reads that went through, each with what it gave. One that waits is tried again by a later
one. -/
def Connection.readings : List Traffic → Connection × Log → List (Read × Except Fault Text)
  | [], _ => []
  | .arrive bs :: es, (c, l) => readings es (c.deliver bs, l)
  | .finish :: es, (c, l) => readings es (c.hangUp .endOfStream, l)
  | .read r refuses :: es, q =>
    match r.exchange refuses q with
    | (.error .waiting, q) => readings es q
    | (.error (.fault f), q) => (r, .error f) :: readings es q
    | (.ok t, q) => (r, .ok t) :: readings es q

namespace Connection

open Traffic (stream reads late)

variable {c : Connection} {l : Log} {t : Text} {es : List Traffic} {r : Read}
  {refuses : TextSource.Refusal}

theorem readings_of_waiting {q : Connection × Log}
    (h : r.exchange refuses q = (.error .waiting, q)) :
    readings (.read r refuses :: es) q = readings es q := by
  rw [readings, h]

theorem readings_of_done {q q' : Connection × Log} {result : Except Fault Text}
    (h : r.exchange refuses q = (result.mapError .fault, q')) :
    readings (.read r refuses :: es) q = (r, result) :: readings es q' := by
  rw [readings, h]
  cases result <;> rfl

theorem exchange_eq_never_of_readings {q : Connection × Log}
    (hm : ∀ d ∈ readings (.read r refuses :: es) q, d.2 ≠ .error .outOfMemory) :
    r.exchange refuses q = r.exchange .never q := by
  refine r.exchange_eq_never fun hx => ?_
  have hd : readings (.read r refuses :: es) q =
      (r, .error .outOfMemory) :: readings es (r.exchange refuses q).2 :=
    readings_of_done (Prod.ext hx rfl)
  rw [hd] at hm
  exact hm _ List.mem_cons_self rfl

theorem readings_of_ended (hs : c.source.Holds [] t)
    (he : c.source.ending = some .endOfStream)
    (hm : ∀ d ∈ readings es (c, l), d.2 ≠ .error .outOfMemory) :
    (readings es (c, l)).map Prod.fst = reads es ∧
      (readings es (c, l)).map Prod.snd = Read.results (reads es) t := by
  induction es generalizing c l t with
  | nil => exact ⟨rfl, rfl⟩
  | cons e es ih =>
    cases e with
    | arrive bs =>
      have hc : c.deliver bs = c := by simp [deliver, TextSource.deliver, he]
      rw [readings, hc] at hm ⊢
      exact ih hs he hm
    | finish =>
      have hc : c.hangUp .endOfStream = c := by simp [hangUp, TextSource.hangUp, he]
      rw [readings, hc] at hm ⊢
      exact ih hs he hm
    | read r refuses =>
      have hq := exchange_eq_never_of_readings hm
      rcases r.exchange_of_holds hs l with ⟨-, hn⟩ | ⟨s', l', hx, hs', he'⟩
      · rw [he] at hn
        cases hn
      · rw [readings_of_done (hq.trans hx)] at hm ⊢
        obtain ⟨h1, h2⟩ := ih (c := { c with source := s' }) (l := l') hs' (he'.trans he)
          (List.forall_mem_cons.1 hm).2
        exact ⟨congrArg (r :: ·) h1, congrArg ((r.ofText t).1 :: ·) h2⟩

theorem readings_of_holds (hs : c.source.Holds (stream es) t) (he : c.source.ending = none)
    (hm : ∀ d ∈ readings es (c, l), d.2 ≠ .error .outOfMemory) :
    (readings es (c, l)).map Prod.snd =
        Read.results ((readings es (c, l)).map Prod.fst) t ∧
      ((readings es (c, l)).map Prod.fst).Sublist (reads es) ∧
      late es <:+ (readings es (c, l)).map Prod.fst := by
  induction es generalizing c l t with
  | nil => exact ⟨rfl, .slnil, List.suffix_refl _⟩
  | cons e es ih =>
    cases e with
    | arrive bs =>
      have hd : (c.deliver bs).source.ending = none := by
        simp [deliver, TextSource.deliver, he]
      exact ih (c := c.deliver bs) (l := l) (hs.deliver he) hd hm
    | finish =>
      have hd : (c.hangUp .endOfStream).source.ending = some .endOfStream := by
        simp [hangUp, TextSource.hangUp, he]
      obtain ⟨h1, h2⟩ := readings_of_ended (l := l) hs.hangUp hd hm
      rw [readings, h1, h2]
      exact ⟨rfl, .refl _, List.suffix_refl _⟩
    | read r refuses =>
      have hq := exchange_eq_never_of_readings hm
      rcases r.exchange_of_holds hs l with ⟨hx, -⟩ | ⟨s', l', hx, hs', he'⟩
      · -- it does not go through, and the text is still all to come
        rw [readings_of_waiting (hq.trans hx)] at hm ⊢
        obtain ⟨h1, h2, h3⟩ := ih (l := l) hs he hm
        exact ⟨h1, h2.cons r, h3⟩
      · rw [readings_of_done (hq.trans hx)] at hm ⊢
        obtain ⟨h1, h2, h3⟩ := ih (c := { c with source := s' }) (l := l') hs' (he'.trans he)
          (List.forall_mem_cons.1 hm).2
        exact ⟨congrArg ((r.ofText t).1 :: ·) h1, h2.cons_cons r, h3.trans (List.suffix_cons r _)⟩

/-- However the bytes of a text are cut and whenever they come, each read of a connection gives
what it would give of the text in memory, and after the end of the stream none waits. A machine may
refuse a read its memory, which is all that is asked not to happen. -/
theorem readings_eq_results (es : List Traffic) (t : Text)
    (ht : Utf8.decode (stream es) = .ok t)
    (hm : ∀ d ∈ readings es ({}, []), d.2 ≠ .error .outOfMemory) :
    let done := readings es ({}, [])
    done.map Prod.snd = Read.results (done.map Prod.fst) t ∧
      (done.map Prod.fst).Sublist (reads es) ∧ late es <:+ done.map Prod.fst ∧
      (done.map fun d => Read.given d.2).flatten <+: t ∧
      ∀ before result after, done = before ++ (.stage, result) :: after →
        (before.map fun d => Read.given d.2).flatten = t → result = .error .clientGone := by
  intro done
  have hs : ({} : Connection).source.Holds (stream es) t := TextSource.holds_of_decode ht
  obtain ⟨h1, h2, h3⟩ := readings_of_holds (l := []) hs rfl hm
  refine ⟨h1, h2, h3, ?_, ?_⟩
  · have hp := Read.flatten_given_append_rest (done.map Prod.fst) t
    rw [← h1, List.map_map] at hp
    exact ⟨_, hp⟩
  · intro before result after hd hb
    have h1 : done.map Prod.snd = Read.results (done.map Prod.fst) t := h1
    rw [hd, List.map_append, List.map_append, Read.results_append] at h1
    obtain ⟨hf, hl⟩ := List.append_inj h1 (by rw [Read.length_results, List.length_map,
      List.length_map])
    -- what the reads before it gave is the whole text, so they left nothing
    have hr : Read.rest (before.map Prod.fst) t = [] := by
      have hp := Read.flatten_given_append_rest (before.map Prod.fst) t
      rw [← hf, List.map_map] at hp
      have hb : ((before.map (Read.given ∘ Prod.snd)).flatten) = t := hb
      rw [hb] at hp
      exact List.append_right_eq_self.1 hp
    rw [hr] at hl
    exact (List.cons.inj hl).1

theorem readings_eq_results_mixed :
    let limited (count : Int) : Traffic :=
      .read (.chars count) (.beyond Script.standardMemory count)
    let es : List Traffic := [.read .line .never, .arrive [97, 0xC3], .read .line .never,
      .arrive [0xA9, 13], limited 1, .read .line .never, .arrive [10, 98, 13],
      .read .line .never, .read .stage .never, .finish, .read .stage .never,
      limited (2 ^ 63), .read .line .never, .read .stage .never]
    readings es ({}, []) = [(.chars 1, .ok [97]), (.line, .ok [0xE9, 13, 10]),
        (.stage, .ok [98, 13]), (.chars (2 ^ 63), .error .countTooLarge), (.line, .ok []),
        (.stage, .error .clientGone)] ∧
      (readings es ({}, [])).map Prod.snd =
        Read.results ((readings es ({}, [])).map Prod.fst) [97, 0xE9, 13, 10, 98, 13] := by
  intro limited es
  have h := readings_eq_results es [97, 0xE9, 13, 10, 98, 13] (by decide) (by decide)
  exact ⟨by decide, h.1⟩

theorem readings_refused :
    readings [.arrive [97], .finish, .read (.chars (2 ^ 63)) .never] ({}, []) ≠
        [(.chars (2 ^ 63), .ok [97])] ∧
      readings [.arrive [97], .finish,
        .read (.chars (2 ^ 50)) (.beyond Script.standardMemory (2 ^ 50))] ({}, []) ≠
        [(.chars (2 ^ 50), .ok [97])] := by
  constructor <;> decide

end Connection

end LineHandshake
