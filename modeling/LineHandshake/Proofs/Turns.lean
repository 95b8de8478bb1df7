import LineHandshake.Proofs.ReadingOut
import LineHandshake.Proofs.Writing

/-!
One call after the other on a connection, while bytes and the end of the client's side come in
between. A call that reads and a call that writes have nothing to do with each other. While writing
works, a call sends its text whole or, if it is refused, nothing; once writing fails, nothing is
sent any more.
-/

namespace LineHandshake

structure TextSink.IsWorking (s : TextSink) : Prop where
  isOpen : s.isOpen = true
  isBroken : s.isBroken = false
  isIdle : s.IsIdle

namespace Connection

def Call.text? : Call → Option Text
  | .sendInfo => some (Greeting.encodeInfo Greeting.serverInfo)
  | .sendPong => some (Line.encode Keyword.pong none)
  | .writeLine line => some line
  | .readLine | .awaitConnect | .awaitPing | .release => none

def Call.isRead : Call → Bool
  | .readLine | .awaitConnect | .awaitPing => true
  | .sendInfo | .sendPong | .writeLine _ | .release => false

inductive Event
  | arrival (a : Arrival)
  | call (k : Call)

def Event.isWrite : Event → Bool
  | .arrival _ => false
  | .call k => k.text?.isSome

structure Turn where
  call : Call
  result : Except Interrupt (Option Text)
  sent : Bytes
  records : Log

def Turn.isRead (x : Turn) : Bool := x.call.isRead

def turn (k : Call) (c : Connection) : Turn × Connection :=
  let r := (call k).perform c
  (⟨k, r.1, r.2.1.sink.sent.drop c.sink.sent.length, r.2.2⟩, r.2.1)

def turns : List Event → Connection → List Turn × Connection
  | [], c => ([], c)
  | .arrival a :: es, c => turns es (c.receive a)
  | .call k :: es, c =>
    let r := c.turn k
    let rs := turns es r.2
    (r.1 :: rs.1, rs.2)

def Turn.given (x : Turn) : Bytes :=
  if x.result.isOk then (x.call.text?.getD []).flatMap Utf8.encodePoint else []

/-- A turn while writing works: its text goes out whole within it, unless it is refused. -/
structure Turn.IsWhole (x : Turn) : Prop where
  sent : x.sent = x.given
  succeeds : ∀ t, x.call.text? = some t → (∀ ch ∈ t, ¬ ch.IsSurrogate) → x.result = .ok none
  refused : ∀ t, x.call.text? = some t → (∃ ch ∈ t, ch.IsSurrogate) →
    ∃ e, x.result = .error (.fault (.unencodable e))

structure Turn.IsStuck (x : Turn) : Prop where
  sent : x.sent = []
  fails : ∀ t, x.call.text? = some t → t ≠ [] → (∀ ch ∈ t, ¬ ch.IsSurrogate) →
    x.result = .error (.fault (.system .brokenPipe))

variable {c : Connection} {k : Call} {t : Text} {es : List Event}

theorem turns_call (k : Call) (es : List Event) (c : Connection) :
    turns (.call k :: es) c =
      ((c.turn k).1 :: (turns es (c.turn k).2).1, (turns es (c.turn k).2).2) := rfl

theorem Call.cases_text (k : Call) :
    k = .release ∨ (k.isRead = true ∧ k.text? = none) ∨ ∃ t, k.text? = some t := by
  cases k <;> simp [isRead, text?]

section Reads

def IsOfSource {α : Type} (x : Exchange α) : Prop :=
  ∀ s, ∃ result s' l, ∀ sink isOpen,
    x (⟨s, sink, isOpen⟩, []) = (result, (⟨s', sink, isOpen⟩, l))

theorem readLine_isOfSource : IsOfSource readLine := by
  intro s
  simp only [readLine_apply]
  generalize s.readLine = r
  obtain ⟨i | line, s'⟩ := r
  · exact ⟨_, s', _, fun _ _ => rfl⟩
  · by_cases hl : line = []
    · simp only [hl, if_true]
      exact ⟨_, s', _, fun _ _ => rfl⟩
    · simp only [hl, if_false]
      exact ⟨_, s', _, fun _ _ => rfl⟩

theorem await_isOfSource (keyword : Text) : IsOfSource (await keyword) := by
  intro s
  obtain ⟨result, s', l, h⟩ := readLine_isOfSource s
  simp only [await_apply, h]
  cases result with
  | error i => exact ⟨_, s', l, fun _ _ => rfl⟩
  | ok line => exact ⟨_, s', l, fun _ _ => rfl⟩

theorem IsOfSource.returns {α β : Type} {x : Exchange α} (h : IsOfSource x) (f : α → β) :
    IsOfSource (do return f (← x)) := by
  intro s
  obtain ⟨result, s', l, hx⟩ := h s
  simp only [Task.bind_apply, hx]
  cases result with
  | error i => exact ⟨_, s', l, fun _ _ => rfl⟩
  | ok a => exact ⟨_, s', l, fun _ _ => rfl⟩

theorem exists_turn_of_isRead (hk : k.isRead = true) (s : TextSource) :
    ∃ result s' l, ∀ sink isOpen,
      turn k ⟨s, sink, isOpen⟩ = (⟨k, result, [], l⟩, ⟨s', sink, isOpen⟩) := by
  have hx : IsOfSource (call k) := by
    cases k with
    | readLine => exact readLine_isOfSource.returns some
    | awaitConnect => exact (await_isOfSource _).returns some
    | awaitPing => exact (await_isOfSource _).returns some
    | sendInfo | sendPong | writeLine line | release => cases hk
  obtain ⟨result, s', l, h⟩ := hx s
  refine ⟨result, s', l, fun sink isOpen => ?_⟩
  simp only [turn, Task.perform_apply, h, List.drop_length]

end Reads

section Writes

theorem call_of_text (hk : k.text? = some t) : call k = do writeLine t; return none := by
  cases k <;> cases hk <;> rfl

theorem turn_of_writeLine (hk : k.text? = some t) {r : Except Interrupt Unit} {c' : Connection}
    {l : Log} (h : writeLine t (c, []) = (r, (c', l))) :
    c.turn k = (⟨k, r.map fun _ => none, c'.sink.sent.drop c.sink.sent.length, l⟩, c') := by
  have hc : call k (c, []) = (r.map fun _ => none, (c', l)) := by
    rw [call_of_text hk, Task.bind_apply, h]
    cases r <;> rfl
  simp only [turn, Task.perform_apply, hc]

theorem exists_turn_of_text (hk : k.text? = some t) (c : Connection) :
    ∃ sink, (c.turn k).2 = { c with sink } := by
  obtain ⟨r, sink, l, h⟩ : ∃ r sink l, writeLine t (c, []) = (r, ({ c with sink }, l)) := by
    rw [writeLine_apply]
    generalize c.sink.write t = r
    obtain ⟨f | _, s⟩ := r
    · exact ⟨_, s, _, rfl⟩
    · dsimp only
      generalize s.flush = r
      obtain ⟨f | _, s⟩ := r <;> exact ⟨_, s, _, rfl⟩
  exact ⟨sink, by rw [turn_of_writeLine hk h]⟩

theorem turn_of_encode (hk : k.text? = some t) (ho : c.sink.isOpen = true) {bs : Bytes}
    (ht : Utf8.encode t = .ok bs) :
    ∃ r l, c.turn k = (⟨k, (r.1.mapError .fault).map fun _ => none,
        r.2.sent.drop c.sink.sent.length, l⟩, { c with sink := r.2 }) ∧
      c.sink.Moves (fun s => s.IsIdle ∧ s.sent = c.sink.accepted ++ bs) r := by
  obtain ⟨r, l, hw, hm⟩ := writeLine_moves ho ht []
  exact ⟨r, l, turn_of_writeLine hk hw, hm⟩

theorem turn_of_encode_error (hk : k.text? = some t) (ho : c.sink.isOpen = true)
    {e : Utf8.EncodeError} (ht : Utf8.encode t = .error e) :
    c.turn k = (⟨k, .error (.fault (.unencodable e)), [], []⟩, c) := by
  have hw : c.sink.write t = (.error (.unencodable e), c.sink) := by
    rw [TextSink.write, if_pos ho, ht]
  have hl : writeLine t (c, []) = (.error (.fault (.unencodable e)), (c, [])) := by
    rw [writeLine_apply, hw]
  rw [turn_of_writeLine hk hl, List.drop_length]
  rfl

end Writes

theorem turn_release_sink (c : Connection) : (c.turn .release).2.sink = c.sink.close.2 := by
  rw [← release_sink (text "Server") c []]
  simp only [turn, call, Task.perform_apply, Task.bind_apply, Task.mapError_apply]
  generalize release (text "Server") (c, []) = r
  obtain ⟨f | _, q⟩ := r <;> rfl

theorem receive_sink (c : Connection) (a : Arrival) :
    ∃ isReset, (c.receive a).sink = { c.sink with isBroken := c.sink.isBroken || isReset } := by
  cases a with
  | bytes bs => exact ⟨false, by rw [Bool.or_false]; rfl⟩
  | ending e => exact ⟨_, rfl⟩

section Broken

theorem turn_of_isBroken (ho : c.sink.isOpen = true) (hb : c.sink.isBroken = true)
    (hk : k ≠ .release) :
    (c.turn k).1.IsStuck ∧ (c.turn k).2.sink.isOpen = true ∧
      (c.turn k).2.sink.isBroken = true ∧ (c.turn k).2.sink.sent = c.sink.sent := by
  rcases k.cases_text with rfl | ⟨hr, hn⟩ | ⟨t, hn⟩
  · exact absurd rfl hk
  · obtain ⟨result, s, l, hx⟩ := exists_turn_of_isRead hr c.source
    rw [hx c.sink c.isOpen]
    exact ⟨⟨rfl, fun t ht => absurd (hn.symm.trans ht) nofun⟩, ho, hb, rfl⟩
  · cases ht : Utf8.encode t with
    | error e =>
      rw [turn_of_encode_error hn ho ht]
      refine ⟨⟨rfl, fun u hu _ hs => ?_⟩, ho, hb, rfl⟩
      obtain rfl := Option.some.inj (hn.symm.trans hu)
      rw [Utf8.encode_of_no_surrogate hs] at ht
      cases ht
    | ok bs =>
      obtain ⟨r, l, hx, hm⟩ := turn_of_encode hn ho ht
      have hsent := hm.stuck hb
      rw [hx]
      refine ⟨⟨?_, fun u hu hne hs => ?_⟩, hm.isOpen.trans ho, hm.isBroken.trans hb, hsent⟩
      · rw [hsent, List.drop_length]
      · obtain rfl := Option.some.inj (hn.symm.trans hu)
        obtain ⟨f | _, s⟩ := r
        · obtain ⟨rfl, -⟩ := hm.fails f rfl
          rfl
        · -- had it gone through, the bytes of the text would have been sent
          have hall := (hm.done rfl).2
          rw [hsent, TextSink.accepted, List.append_assoc, List.append_assoc] at hall
          have hbs := (List.append_eq_nil_iff.1 (List.append_right_eq_self.1 hall.symm)).2
          have hbs := (List.append_eq_nil_iff.1 hbs).2
          rw [Utf8.eq_flatMap_of_encode ht] at hbs
          exact absurd hbs (Utf8.flatMap_encodePoint_ne_nil hne)

theorem turns_of_isBroken (ho : c.sink.isOpen = true) (hb : c.sink.isBroken = true)
    (hs : .call .release ∉ es) :
    (∀ x ∈ (c.turns es).1, x.IsStuck) ∧ (c.turns es).2.sink.isBroken = true ∧
      (c.turns es).2.sink.sent = c.sink.sent := by
  induction es generalizing c with
  | nil => exact ⟨List.forall_mem_nil _, hb, rfl⟩
  | cons e es ih =>
    obtain ⟨he, hes⟩ := List.ne_and_not_mem_of_not_mem_cons hs
    cases e with
    | arrival a =>
      obtain ⟨isReset, hr⟩ := c.receive_sink a
      have hsent : (c.receive a).sink.sent = c.sink.sent := by rw [hr]
      rw [turns, ← hsent]
      exact ih (by rw [hr]; exact ho) (by rw [hr, hb]; rfl) hes
    | call k =>
      obtain ⟨hx, ho', hb', hsent⟩ := turn_of_isBroken ho hb fun hk => he (congrArg _ hk.symm)
      rw [turns, ← hsent]
      obtain ⟨hxs, h⟩ := ih ho' hb' hes
      exact ⟨List.forall_mem_cons.2 ⟨hx, hxs⟩, h⟩

end Broken

section Working

theorem given_of_no_text {x : Turn} (h : x.call.text? = none) : x.given = [] := by
  unfold Turn.given
  split
  · rw [h]
    rfl
  · rfl

theorem turn_of_isWorking (h : c.sink.IsWorking) (hk : k ≠ .release) :
    (c.turn k).1.IsWhole ∧ (c.turn k).2.sink.IsWorking ∧
      (c.turn k).2.sink.sent = c.sink.sent ++ (c.turn k).1.given := by
  rcases k.cases_text with rfl | ⟨hr, hn⟩ | ⟨t, hn⟩
  · exact absurd rfl hk
  · obtain ⟨result, s, l, hx⟩ := exists_turn_of_isRead hr c.source
    rw [hx c.sink c.isOpen]
    have hg := given_of_no_text (x := ⟨k, result, [], l⟩) hn
    refine ⟨⟨hg.symm, ?_, ?_⟩, h, ?_⟩
    · exact fun t ht => absurd (hn.symm.trans ht) nofun
    · exact fun t ht => absurd (hn.symm.trans ht) nofun
    · rw [hg, List.append_nil]
  · cases ht : Utf8.encode t with
    | error e =>
      rw [turn_of_encode_error hn h.isOpen ht]
      refine ⟨⟨rfl, fun u hu hs => ?_, fun _ _ _ => ⟨e, rfl⟩⟩, h, (List.append_nil _).symm⟩
      obtain rfl := Option.some.inj (hn.symm.trans hu)
      rw [Utf8.encode_of_no_surrogate hs] at ht
      cases ht
    | ok bs =>
      obtain ⟨⟨f | _, s⟩, l, hx, hm⟩ := turn_of_encode hn h.isOpen ht
      · have hb := (hm.fails f rfl).2
        rw [h.isBroken] at hb
        cases hb
      · obtain ⟨hi, hsent⟩ := hm.done rfl
        rw [h.isIdle.accepted_eq] at hsent
        have hg : (c.turn k).1.given = bs := by
          rw [hx, Utf8.eq_flatMap_of_encode ht]
          change (k.text?.getD []).flatMap _ = _
          rw [hn, Option.getD_some]
        rw [hg, hx]
        refine ⟨⟨?_, fun _ _ _ => rfl, fun u hu hs => ?_⟩, ?_, hsent⟩
        · rw [hx] at hg
          rw [hg, hsent, List.drop_left]
        · obtain rfl := Option.some.inj (hn.symm.trans hu)
          obtain ⟨e, he⟩ := Utf8.exists_encode_eq_error hs
          rw [ht] at he
          cases he
        · exact ⟨hm.isOpen.trans h.isOpen, hm.isBroken.trans h.isBroken, hi⟩

theorem turns_of_isWorking (h : c.sink.IsWorking) (hs : .call .release ∉ es)
    (hend : (c.turns es).2.sink.isBroken = false) :
    (∀ x ∈ (c.turns es).1, x.IsWhole) ∧ (c.turns es).2.sink.IsWorking ∧
      (c.turns es).2.sink.sent = c.sink.sent ++ (c.turns es).1.flatMap Turn.given := by
  induction es generalizing c with
  | nil => exact ⟨List.forall_mem_nil _, h, (List.append_nil _).symm⟩
  | cons e es ih =>
    obtain ⟨he, hes⟩ := List.ne_and_not_mem_of_not_mem_cons hs
    cases e with
    | arrival a =>
      obtain ⟨isReset, hr⟩ := c.receive_sink a
      have ho : (c.receive a).sink.isOpen = true := by rw [hr]; exact h.isOpen
      -- had this broken the connection, it would be broken still
      have hb : (c.receive a).sink.isBroken = false := by
        by_contra hb
        have hbroken := (turns_of_isBroken ho (Bool.not_eq_false _ ▸ hb) hes).2.1
        rw [turns, hbroken] at hend
        cases hend
      have hsent : (c.receive a).sink.sent = c.sink.sent := by rw [hr]
      have hi : (c.receive a).sink.IsIdle := by
        rw [hr]
        exact ⟨h.isIdle.gathered, h.isIdle.stored⟩
      rw [turns, ← hsent]
      exact ih ⟨ho, hb, hi⟩ hes hend
    | call k =>
      obtain ⟨hx, h', hsent⟩ := turn_of_isWorking h fun hk => he (congrArg _ hk.symm)
      obtain ⟨hxs, hw, hall⟩ := ih h' hes hend
      refine ⟨List.forall_mem_cons.2 ⟨hx, hxs⟩, hw, ?_⟩
      rw [turns, hall, hsent, List.flatMap_cons, List.append_assoc]

end Working

theorem turns_filter_isRead {c' : Connection} (h : c.source = c'.source)
    (hs : .call .release ∉ es) :
    (c.turns es).1.filter Turn.isRead = (c'.turns (es.filter fun e => !e.isWrite)).1 := by
  induction es generalizing c c' with
  | nil => rfl
  | cons e es ih =>
    obtain ⟨he, hes⟩ := List.ne_and_not_mem_of_not_mem_cons hs
    cases e with
    | arrival a =>
      have hr : (c.receive a).source = (c'.receive a).source := by
        cases a <;> simp only [receive, deliver, hangUp, h]
      exact ih hr hes
    | call k =>
      rcases k.cases_text with rfl | ⟨hr, hn⟩ | ⟨t, hn⟩
      · exact absurd rfl he
      · obtain ⟨result, s, l, hx⟩ := exists_turn_of_isRead hr c.source
        have hc : c.turn k = (⟨k, result, [], l⟩, ⟨s, c.sink, c.isOpen⟩) := hx c.sink c.isOpen
        have hc' : c'.turn k = (⟨k, result, [], l⟩, ⟨s, c'.sink, c'.isOpen⟩) := by
          rw [← hx, h]
        have hrest : (turns es (c.turn k).2).1.filter Turn.isRead =
            (turns (es.filter fun e => !e.isWrite) (c'.turn k).2).1 := ih (by rw [hc, hc']) hes
        rw [List.filter_cons_of_pos (by simp [Event.isWrite, hn]), turns_call, turns_call]
        have hread : (c.turn k).1.isRead = true := hr
        dsimp only
        rw [List.filter_cons_of_pos hread, hrest, hc, hc']
      · obtain ⟨sink, hx⟩ := exists_turn_of_text hn c
        have hr : k.isRead = false := by cases k <;> cases hn <;> rfl
        rw [List.filter_cons_of_neg (by simp [Event.isWrite, hn]), turns_call]
        rw [List.filter_cons_of_neg (by simp [turn, Turn.isRead, hr])]
        exact ih (by rw [hx]; exact h) hes

/-- On an open connection, each write is all or nothing. While writing works, every turn sends its
text whole or is refused; when it fails, nothing is sent, now or by a release. What the reads come
to is the same without the writes. -/
theorem writes_all_or_nothing (ho : c.sink.isOpen = true) (hi : c.sink.IsIdle) (es : List Event)
    (hs : .call .release ∉ es) :
    let q := c.turns es
    let released := (q.2.turn .release).2
    (q.2.sink.isBroken = false →
      (∀ x ∈ q.1, x.IsWhole) ∧ q.2.sink.sent = c.sink.sent ++ q.1.flatMap Turn.given ∧
        released.sink.sent = q.2.sink.sent) ∧
    (c.sink.isBroken = true →
      (∀ x ∈ q.1, x.IsStuck) ∧ q.2.sink.sent = c.sink.sent ∧
        released.sink.sent = c.sink.sent) ∧
    q.1.filter Turn.isRead = (c.turns (es.filter fun e => !e.isWrite)).1 := by
  intro q released
  have hr : released.sink = q.2.sink.close.2 := turn_release_sink q.2
  refine ⟨fun hend => ?_, fun hb => ?_, turns_filter_isRead rfl hs⟩
  · have hb : c.sink.isBroken = false := by
      by_contra hb
      have hbroken := (turns_of_isBroken ho (Bool.not_eq_false _ ▸ hb) hs).2.1
      exact absurd (hbroken.symm.trans hend) nofun
    obtain ⟨hx, hw, hsent⟩ := turns_of_isWorking ⟨ho, hb, hi⟩ hs hend
    refine ⟨hx, hsent, ?_⟩
    rw [hr, hw.isIdle.close_eq]
  · obtain ⟨hx, hbroken, hsent⟩ := turns_of_isBroken ho hb hs
    refine ⟨hx, hsent, ?_⟩
    rw [hr, TextSink.close_sent_of_isBroken hbroken]
    exact hsent

theorem writes_all_or_nothing_refused :
    let es : List Event := [.call .readLine, .call (.writeLine [0xD800]),
      .arrival (.bytes [97, 10]), .call .sendPong, .call .readLine, .call (.writeLine [0xE9])]
    let c : Connection := {}
    let broken : Connection := { sink.isBroken := true }
    c.sink.isOpen = true ∧ c.sink.IsIdle ∧ .call .release ∉ es ∧
      (c.turns es).2.sink.sent = pongBytes ++ [0xC3, 0xA9] ∧
      (broken.turns es).2.sink.sent = [] ∧
      ((broken.turns es).1.filter Turn.isRead).map (·.result) =
        [.error .waiting, .ok (some [97, 10])] := by
  intro es c broken
  have hs : .call .release ∉ es := by simp [es]
  have hi : c.sink.IsIdle := ⟨rfl, rfl⟩
  obtain ⟨hworks, -, -⟩ := writes_all_or_nothing (c := c) rfl hi es hs
  obtain ⟨-, hfails, hreads⟩ := writes_all_or_nothing (c := broken) rfl ⟨rfl, rfl⟩ es hs
  refine ⟨rfl, hi, hs, ?_, (hfails rfl).2.1, ?_⟩
  · rw [(hworks (by decide)).2.1]
    decide
  · rw [hreads]
    decide

end Connection

end LineHandshake
