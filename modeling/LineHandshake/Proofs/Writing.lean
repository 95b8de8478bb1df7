import LineHandshake.Proofs.Exchange

/-!
What a sink does, whether its connection works or not. A step that goes through has lost nothing;
one that does not has found the connection broken, and on a broken connection nothing more is
sent.
-/

namespace LineHandshake

namespace TextSink

structure IsIdle (s : TextSink) : Prop where
  gathered : s.gathered = []
  stored : s.stored = []

/-- A step that leaves the sink as `done` says if it goes through. -/
structure Moves (k : TextSink) (done : TextSink → Prop) (r : Except Fault Unit × TextSink) :
    Prop where
  isBroken : r.2.isBroken = k.isBroken
  isOpen : r.2.isOpen = k.isOpen
  grows : k.sent <+: r.2.sent
  stuck : k.isBroken = true → r.2.sent = k.sent
  fails : ∀ f, r.1 = .error f → f = .system .brokenPipe ∧ k.isBroken = true
  done : r.1 = .ok () → done r.2

variable {k k' : TextSink} {p q : TextSink → Prop} {r : Except Fault Unit × TextSink} {bs : Bytes}

theorem moves_ok (h : p k) : Moves k p (.ok (), k) :=
  ⟨rfl, rfl, List.prefix_refl _, fun _ => rfl, nofun, fun _ => h⟩

theorem Moves.imp (h : Moves k p r) (hp : ∀ k', p k' → q k') : Moves k q r :=
  { h with done := fun hr => hp _ (h.done hr) }

theorem Moves.andThen {next : TextSink → Except Fault Unit × TextSink} :
    Moves k p r → (∀ k', k'.isOpen = k.isOpen → p k' → Moves k' q (next k')) →
      Moves k q (match r with
        | (.error f, k') => (.error f, k')
        | (.ok (), k') => next k') := by
  intro h hn
  obtain ⟨f | _, k'⟩ := r
  · exact { h with done := nofun }
  · have hk := hn k' h.isOpen (h.done rfl)
    refine ⟨hk.isBroken.trans h.isBroken, hk.isOpen.trans h.isOpen, h.grows.trans hk.grows, ?_, ?_,
      hk.done⟩
    · exact fun hb => (hk.stuck (h.isBroken.trans hb)).trans (h.stuck hb)
    · exact fun f hf => (hk.fails f hf).imp_right fun hb => h.isBroken.symm.trans hb

theorem moves_send (k : TextSink) (bs : Bytes) :
    Moves k (· = { k with sent := k.sent ++ bs }) (k.send bs) := by
  unfold send
  split
  · next h => exact moves_ok (by rw [h, List.append_nil])
  · split
    · next hb =>
      refine ⟨rfl, rfl, List.prefix_refl _, fun _ => rfl, fun f hf => ?_, nofun⟩
      cases hf
      exact ⟨rfl, hb⟩
    · next hb =>
      exact ⟨rfl, rfl, List.prefix_append _ _, fun h => absurd h hb, nofun, fun _ => rfl⟩

theorem moves_sendStored (k : TextSink) :
    Moves k (· = { k with stored := [], sent := k.sent ++ k.stored }) k.sendStored := by
  have h := moves_send k k.stored
  unfold sendStored
  generalize k.send k.stored = r at h ⊢
  obtain ⟨f | _, k'⟩ := r
  · exact { h with done := nofun }
  · obtain rfl := h.done rfl
    exact ⟨h.isBroken, h.isOpen, h.grows, h.stuck, nofun, fun _ => rfl⟩

theorem moves_store (k : TextSink) (bs : Bytes) :
    Moves k (fun k' => k'.gathered = k.gathered ∧ k'.sent ++ k'.stored = k.sent ++ k.stored ++ bs)
      (k.store bs) := by
  unfold store
  split
  · exact ⟨rfl, rfl, List.prefix_refl _, fun _ => rfl, nofun,
      fun _ => ⟨rfl, (List.append_assoc ..).symm⟩⟩
  · refine (moves_sendStored k).andThen fun k' _ hk => ?_
    subst hk
    split
    · refine (moves_send _ bs).imp fun k' hk => ?_
      subst hk
      exact ⟨rfl, List.append_nil _⟩
    · exact ⟨rfl, rfl, List.prefix_refl _, fun _ => rfl, nofun, fun _ => ⟨rfl, rfl⟩⟩

theorem moves_handOn (k : TextSink) :
    Moves k (fun k' => k'.gathered = [] ∧ k'.sent ++ k'.stored = k.accepted) k.handOn := by
  have h := moves_store { k with gathered := [] } k.gathered
  exact ⟨h.isBroken, h.isOpen, h.grows, h.stuck, h.fails, h.done⟩

theorem moves_gather (k : TextSink) (bs : Bytes) :
    Moves k (fun k' => k'.accepted = k.accepted ++ bs) (k.gather bs) := by
  unfold gather
  dsimp only
  split
  · have h := moves_handOn { k with gathered := k.gathered ++ bs }
    refine ⟨h.isBroken, h.isOpen, h.grows, h.stuck, h.fails, fun hr => ?_⟩
    obtain ⟨hg, hs⟩ := h.done hr
    rw [accepted, hg, List.append_nil, hs, accepted, accepted, ← List.append_assoc]
  · refine ⟨rfl, rfl, List.prefix_refl _, fun _ => rfl, (by intro f hf; cases hf), fun _ => ?_⟩
    rw [accepted, accepted, ← List.append_assoc]

theorem moves_write {t : Text} (ho : k.isOpen = true) (ht : Utf8.encode t = .ok bs) :
    Moves k (fun k' => k'.accepted = k.accepted ++ bs) (k.write t) := by
  rw [write, if_pos ho, ht]
  dsimp only
  split
  · exact moves_gather k bs
  · refine (moves_handOn k).andThen fun k' _ hk => (moves_gather k' bs).imp fun k'' h => ?_
    rw [h, accepted, hk.1, List.append_nil, hk.2]

theorem moves_sendAll (k : TextSink) :
    Moves k (fun k' => k'.IsIdle ∧ k'.sent = k.accepted) k.sendAll := by
  refine (moves_handOn k).andThen fun k' _ hk => (moves_sendStored k').imp fun k'' h => ?_
  subst h
  exact ⟨⟨hk.1, rfl⟩, hk.2⟩

theorem IsIdle.sendAll_eq (h : k.IsIdle) : k.sendAll = (.ok (), k) := by
  obtain ⟨gathered, stored, sent, isBroken, isOpen⟩ := k
  obtain ⟨rfl, rfl⟩ := h
  rfl

theorem IsIdle.close_eq (h : k.IsIdle) : k.close = (.ok (), { k with isOpen := false }) := by
  unfold close
  split
  · rw [h.sendAll_eq]
  · next ho => rw [← Bool.eq_false_iff.2 ho]

theorem IsIdle.accepted_eq (h : k.IsIdle) : k.accepted = k.sent := by
  rw [accepted, h.gathered, h.stored, List.append_nil, List.append_nil]

theorem moves_flush (ho : k.isOpen = true) :
    Moves k (fun k' => k'.IsIdle ∧ k'.sent = k.accepted) k.flush := by
  rw [flush, if_pos ho]
  exact moves_sendAll k

theorem moves_write_flush {t : Text} (ho : k.isOpen = true) (ht : Utf8.encode t = .ok bs) :
    Moves k (fun k' => k'.IsIdle ∧ k'.sent = k.accepted ++ bs)
      (match k.write t with
        | (.error f, k') => (.error f, k')
        | (.ok (), k') => k'.flush) := by
  refine (moves_write ho ht).andThen fun k' ho' hk => (moves_flush (ho'.trans ho)).imp ?_
  exact fun k'' h => ⟨h.1, h.2.trans hk⟩

theorem write_cases (k : TextSink) (t : Text) :
    (k.isOpen = true ∧ ∃ bs, Utf8.encode t = .ok bs ∧
        Moves k (fun k' => k'.accepted = k.accepted ++ bs) (k.write t)) ∨
      ∃ f, f ≠ .system .brokenPipe ∧ k.write t = (.error f, k) := by
  cases ho : k.isOpen with
  | false => exact .inr ⟨.streamClosed, by simp, by simp [write, ho]⟩
  | true =>
    cases ht : Utf8.encode t with
    | error e => exact .inr ⟨.unencodable e, by simp, by simp [write, ho, ht]⟩
    | ok bs => exact .inl ⟨rfl, bs, rfl, moves_write ho ht⟩

theorem flush_cases (k : TextSink) :
    (k.isOpen = true ∧ Moves k (fun k' => k'.IsIdle ∧ k'.sent = k.accepted) k.flush) ∨
      k.flush = (.error .streamClosed, k) := by
  cases ho : k.isOpen with
  | false => exact .inr (by simp [flush, ho])
  | true => exact .inl ⟨rfl, moves_flush ho⟩

theorem isIdle_of_flush (h : k.flush.1 = .ok ()) : k.flush.2.IsIdle := by
  rcases k.flush_cases with ⟨-, hm⟩ | he
  · exact (hm.done h).1
  · rw [he] at h
    cases h

theorem close_cases (k : TextSink) :
    (∃ r, Moves k (fun k' => k'.IsIdle ∧ k'.sent = k.accepted) r ∧
        k.close = (r.1, { r.2 with isOpen := false })) ∨
      (k.isOpen = false ∧ k.close = (.ok (), k)) := by
  cases ho : k.isOpen with
  | false => exact .inr ⟨rfl, by simp [close, ho]⟩
  | true => exact .inl ⟨k.sendAll, moves_sendAll k, by simp [close, ho]⟩

theorem fault_of_write {t : Text} {f : Fault} (h : (k.write t).1 = .error f) :
    f = .system .brokenPipe ∨ f = .streamClosed ∨ ∃ e, f = .unencodable e := by
  cases ho : k.isOpen with
  | false =>
    rw [write, ho] at h
    cases h
    exact .inr (.inl rfl)
  | true =>
    cases ht : Utf8.encode t with
    | error e =>
      rw [write, if_pos ho, ht] at h
      cases h
      exact .inr (.inr ⟨e, rfl⟩)
    | ok bs => exact .inl ((moves_write ho ht).fails f h).1

theorem fault_of_flush {f : Fault} (h : k.flush.1 = .error f) :
    f = .system .brokenPipe ∨ f = .streamClosed := by
  rcases k.flush_cases with ⟨-, hm⟩ | he
  · exact .inl (hm.fails f h).1
  · rw [he] at h
    cases h
    exact .inr rfl

theorem fault_of_close {f : Fault} (h : k.close.1 = .error f) : f = .system .brokenPipe := by
  rcases k.close_cases with ⟨r, hm, he⟩ | ⟨-, he⟩
  · rw [he] at h
    exact (hm.fails f h).1
  · rw [he] at h
    cases h

theorem close_sent_of_isBroken (hb : k.isBroken = true) : k.close.2.sent = k.sent := by
  rcases k.close_cases with ⟨r, hm, he⟩ | ⟨-, he⟩
  · rw [he]
    exact hm.stuck hb
  · rw [he]

end TextSink

namespace Connection

theorem writeLine_moves {c : Connection} {line : Text} {bs : Bytes} (ho : c.sink.isOpen = true)
    (hl : Utf8.encode line = .ok bs) (log : Log) :
    ∃ r log', writeLine line (c, log) =
        (r.1.mapError .fault, ({ c with sink := r.2 }, log')) ∧
      c.sink.Moves (fun k => k.IsIdle ∧ k.sent = c.sink.accepted ++ bs) r := by
  have hm := TextSink.moves_write_flush ho hl
  rw [writeLine_apply]
  generalize c.sink.write line = r at hm ⊢
  obtain ⟨f | _, k⟩ := r
  · exact ⟨_, log, rfl, hm⟩
  · dsimp only at hm ⊢
    generalize k.flush = r at hm ⊢
    obtain ⟨f | _, k⟩ := r
    · exact ⟨_, log, rfl, hm⟩
    · exact ⟨_, _, rfl, hm⟩

end Connection

end LineHandshake
