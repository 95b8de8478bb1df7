import LineHandshake.Proofs.Schedule
import LineHandshake.Proofs.Writing

/-!
What the environment of a run sees of it: the bytes that came, the texts that the script has
written, and whether writing failed. Whatever the script does, its sink has sent a beginning of
what was written, and holds the rest until writing fails.
-/

namespace LineHandshake

/-- What the environment of a run has seen: the bytes that came while it served its client and the
client had not ended its side, the texts that its script has written, and whether writing failed. -/
structure Ledger where
  received : Bytes := []
  written : List Text := []
  hasFailed : Bool := false

namespace Ledger

def bytes (l : Ledger) : Bytes := l.written.flatMap (·.flatMap Utf8.encodePoint)

def note (t : Option Text) (hasFailed : Bool) (l : Ledger) : Ledger :=
  { l with written := l.written ++ t.toList, hasFailed := l.hasFailed || hasFailed }

@[simp]
theorem note_none_false (l : Ledger) : l.note none false = l := by
  simp [note]

@[simp]
theorem note_false_hasFailed (t : Option Text) (l : Ledger) :
    (l.note t false).hasFailed = l.hasFailed := Bool.or_false _

@[simp]
theorem note_true_hasFailed (t : Option Text) (l : Ledger) :
    (l.note t true).hasFailed = true := Bool.or_true _

@[simp]
theorem note_none_bytes (hasFailed : Bool) (l : Ledger) :
    (l.note none hasFailed).bytes = l.bytes := by
  simp [note, bytes]

end Ledger

namespace Action

def textOf : Action → Except Interrupt Gain → Option Text
  | .write t, .ok _ => some t
  | _, _ => none

def findsBreak : Action → Except Interrupt Gain → Bool
  | .write _, .error (.fault (.system .brokenPipe)) => true
  | .flush, .error (.fault (.system .brokenPipe)) => true
  | .closeWriter, .error (.fault (.system .brokenPipe)) => true
  | _, _ => false

end Action

namespace Server

def nextText? (s : Server) : Option Text :=
  match s.phase with
  | .serving (.play (.act a _) :: _) => a.textOf (s.act a).1
  | _ => none

def failsToClose (s : Server) : Bool :=
  match s.connection.sink.close.1 with
  | .ok () => false
  | .error _ => true

def failsToLeave : Performed × Server → Bool
  | (.leave, s) | (.failed _, s) => s.failsToClose
  | (.done, _) | (.wait _, _) => false

/-- Whether the next step fails to write: an action of the script, or the closing of the writer at
the end of the run. -/
def failsNext (s : Server) : Bool :=
  match s.phase with
  | .serving [] => s.isShutDown && s.failsToClose
  | .serving (.play (.act a _) :: _) => a.findsBreak (s.act a).1
  | .serving (i :: _) => failsToLeave (s.firstStep i)
  | _ => false

end Server

namespace Ledger

def next (l : Ledger) (s : Server) : Happening → Ledger
  | .work => l.note s.nextText? s.failsNext
  | .deliver bs =>
    if s.isServing && s.connection.source.ending.isNone then { l with received := l.received ++ bs }
    else l
  | _ => l

def after (l : Ledger) (s : Server) : List Happening → Ledger
  | [] => l
  | x :: hs => (l.next s x).after (s.happen x) hs

end Ledger

/-- What a sink has made of the texts `l.written`, if `w` was sent before them. -/
structure Carried (w : Bytes) (l : Ledger) (k : TextSink) : Prop where
  sent : ∃ u, k.sent = w ++ u ∧ u <+: l.bytes
  kept : l.hasFailed = false → k.accepted = w ++ l.bytes
  broken : l.hasFailed = true → k.isBroken = true
  closed : k.isOpen = false → l.hasFailed = false → k.IsIdle

namespace Carried

variable {w bs : Bytes} {l : Ledger} {k : TextSink} {r : Except Fault Unit × TextSink}

theorem sent_of_prefix {a b c : Bytes} (hk : k.sent <+: a) (ha : a = b ++ c)
    (hb : b <+: k.sent) : ∃ u, k.sent = b ++ u ∧ u <+: c := by
  obtain ⟨u, hu⟩ := hb
  refine ⟨u, hu.symm, ?_⟩
  rw [ha, ← hu] at hk
  exact (List.prefix_append_right_inj b).1 hk

theorem of_isIdle (hi : k.IsIdle) (hs : k.sent = w) (hb : l.bytes = [])
    (hf : l.hasFailed = false) : Carried w l k := by
  refine ⟨⟨[], ?_, List.nil_prefix⟩, fun _ => ?_, fun ht => ?_, fun _ _ => hi⟩
  · rw [hs, List.append_nil]
  · rw [hb, List.append_nil, ← hs]
    exact hi.accepted_eq
  · rw [hf] at ht
    cases ht

theorem moves (h : Carried w l k) (ho : k.isOpen = true)
    (hm : k.Moves (fun k' => k'.accepted = k.accepted ++ bs) r) (hr : r.1 = .ok ())
    {t : Option Text} (hb : bs = t.toList.flatMap (·.flatMap Utf8.encodePoint)) :
    Carried w (l.note t false) r.2 := by
  have hbytes : (l.note t false).bytes = l.bytes ++ bs := by
    rw [Ledger.bytes, Ledger.note, List.flatMap_append, hb]
    rfl
  obtain ⟨u, hu, hp⟩ := h.sent
  have hkept : l.hasFailed = false → r.2.accepted = w ++ (l.bytes ++ bs) := fun hf => by
    rw [hm.done hr, h.kept hf, List.append_assoc]
  refine ⟨?_, ?_, ?_, ?_⟩
  · rw [hbytes]
    cases hf : l.hasFailed with
    | true =>
      rw [hm.stuck (h.broken hf)]
      exact ⟨u, hu, hp.trans (List.prefix_append _ _)⟩
    | false =>
      refine sent_of_prefix ?_ (hkept hf) ((List.prefix_append w u).trans (hu ▸ hm.grows))
      rw [TextSink.accepted, List.append_assoc]
      exact List.prefix_append _ _
  · rwa [hbytes, Ledger.note_false_hasFailed]
  · rw [Ledger.note_false_hasFailed]
    exact fun hf => hm.isBroken.trans (h.broken hf)
  · intro hc
    rw [hm.isOpen, ho] at hc
    cases hc

theorem fails {done : TextSink → Prop} (h : Carried w l k) (hm : k.Moves done r) {f : Fault}
    (hr : r.1 = .error f) : Carried w (l.note none true) r.2 := by
  obtain ⟨-, hb⟩ := hm.fails f hr
  refine ⟨?_, by simp, fun _ => hm.isBroken.trans hb, by simp⟩
  rw [hm.stuck hb, Ledger.note_none_bytes]
  exact h.sent

theorem close (h : Carried w l k) :
    (k.close.1 = .ok () → Carried w l k.close.2 ∧
        (l.hasFailed = false → k.close.2.sent = w ++ l.bytes)) ∧
      ∀ f, k.close.1 = .error f →
        f = .system .brokenPipe ∧ Carried w (l.note none true) k.close.2 := by
  rcases k.close_cases with ⟨r, hm, he⟩ | ⟨hc, he⟩
  · rw [he]
    refine ⟨fun hr => ?_, fun f hr => ⟨(hm.fails f hr).1, ?_⟩⟩
    · obtain ⟨hi, hs⟩ := hm.done hr
      have hkept : l.hasFailed = false → r.2.sent = w ++ l.bytes := fun hf => by
        rw [hs, h.kept hf]
      refine ⟨⟨?_, fun hf => hi.accepted_eq.trans (hkept hf),
        fun hf => hm.isBroken.trans (h.broken hf), fun _ _ => ⟨hi.1, hi.2⟩⟩, hkept⟩
      cases hf : l.hasFailed with
      | true =>
        dsimp only
        rw [hm.stuck (h.broken hf)]
        exact h.sent
      | false => exact ⟨l.bytes, hkept hf, List.prefix_refl _⟩
    · obtain ⟨hs, hk, hb, -⟩ := h.fails hm hr
      exact ⟨hs, hk, hb, by simp⟩
  · rw [he]
    refine ⟨fun _ => ⟨h, fun hf => ?_⟩, nofun⟩
    rw [← (h.closed hc hf).accepted_eq, h.kept hf]

end Carried

theorem Action.findsBreak_of_ne {a : Action} {f : Fault} (h : f ≠ .system .brokenPipe) :
    a.findsBreak (.error (.fault f)) = false := by
  unfold findsBreak
  split <;> simp_all

theorem Server.act_carried {w : Bytes} {l : Ledger} {s : Server} (a : Action)
    (h : Carried w l s.connection.sink) :
    Carried w (l.note (a.textOf (s.act a).1) (a.findsBreak (s.act a).1))
      (s.act a).2.connection.sink := by
  have hact (f : TextSink → Except Fault Unit × TextSink) :
      s.gaining (fun _ => .nothing) (Connection.onSink f) =
        (((f s.connection.sink).1.mapError .fault).map fun _ => .nothing,
          { s with
            connection := { s.connection with sink := (f s.connection.sink).2 }
            log := s.log ++ [] }) := rfl
  have hself : Carried w (l.note none false) s.connection.sink := by
    rwa [Ledger.note_none_false]
  cases a with
  | write t =>
    rw [act, hact]
    rcases s.connection.sink.write_cases t with ⟨ho, bs, ht, hm⟩ | ⟨f, hf, hr⟩
    · generalize s.connection.sink.write t = r at hm
      obtain ⟨f | _, k⟩ := r
      · obtain ⟨rfl, -⟩ := hm.fails f rfl
        exact h.fails hm rfl
      · refine h.moves ho hm rfl (t := some t) ?_
        rw [Utf8.eq_flatMap_of_encode ht, Option.toList_some, List.flatMap_singleton]
    · rw [hr]
      simp only [Except.map, Except.mapError, Action.findsBreak_of_ne hf]
      exact hself
  | flush =>
    rw [act, hact]
    rcases s.connection.sink.flush_cases with ⟨ho, hm⟩ | hr
    · generalize s.connection.sink.flush = r at hm
      obtain ⟨f | _, k⟩ := r
      · obtain ⟨rfl, -⟩ := hm.fails f rfl
        exact h.fails hm rfl
      · refine h.moves ho (hm.imp fun k' hk => ?_) rfl (t := none) rfl
        rw [hk.1.accepted_eq, hk.2]
        exact (List.append_nil _).symm
    · rw [hr]
      exact hself
  | closeWriter =>
    rw [act, hact]
    obtain ⟨hok, hfails⟩ := h.close
    generalize s.connection.sink.close = r at hok hfails
    obtain ⟨f | _, k⟩ := r
    · obtain ⟨rfl, hc⟩ := hfails f rfl
      exact hc
    · change Carried w (l.note none false) k
      rw [Ledger.note_none_false]
      exact (hok rfl).1
  | readLine => exact hself
  | read n refuses => exact hself
  | observe => exact hself
  | note n => exact hself
  | shutDown => exact hself
  | join => exact hself
  | closeReader => exact hself

theorem Carried.close_sent {w : Bytes} {l : Ledger} {k : TextSink} (h : Carried w l k) :
    ∃ u, k.close.2.sent = w ++ u ∧ u <+: l.bytes ∧
      (l.hasFailed = false → k.close.1 = .ok () → u = l.bytes) := by
  obtain ⟨hok, hfails⟩ := h.close
  generalize k.close = r at hok hfails ⊢
  obtain ⟨f | _, k'⟩ := r
  · obtain ⟨-, hc⟩ := hfails f rfl
    obtain ⟨u, hu, hp⟩ := hc.sent
    rw [Ledger.note_none_bytes] at hp
    exact ⟨u, hu, hp, nofun⟩
  · obtain ⟨hc, hall⟩ := hok rfl
    cases hf : l.hasFailed with
    | true =>
      obtain ⟨u, hu, hp⟩ := hc.sent
      exact ⟨u, hu, hp, nofun⟩
    | false => exact ⟨l.bytes, hall hf, List.prefix_refl _, fun _ _ => rfl⟩

end LineHandshake
