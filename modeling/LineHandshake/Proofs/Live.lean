import LineHandshake.Proofs.EarlyExit
import LineHandshake.Proofs.Foresight

/-!
A server whose client has not ended its side. What it shows whenever it waits is a matter of the
bytes that have come, not of how they came: a read that waits for more is tried again from where
it began, so neither the packets nor the steps in between leave a trace. More bytes only take the
server further.
-/

namespace LineHandshake

/-- Bytes with which some well-formed stream begins. -/
def Utf8.WellBegun (bs : Bytes) : Prop := ∃ rest t, decode (bs ++ rest) = .ok t

namespace Decoder

variable {d d' : Decoder} {as bs : Bytes} {x : Text}

theorem feed_append (h : d.feed (as ++ bs) = .ok (x, d')) :
    ∃ u e v, d.feed as = .ok (u, e) ∧ e.feed bs = .ok (v, d') ∧ x = u ++ v := by
  unfold feed at h
  split at h
  · cases h
  · next t held ht =>
    obtain ⟨u, v, held', hu, hv, rfl⟩ := Utf8.run_append_ok ht
    cases h
    refine ⟨(holdCr d.heldCr u).1, ⟨held', (holdCr d.heldCr u).2⟩,
      (holdCr (holdCr d.heldCr u).2 v).1, ?_, ?_, ?_⟩
    · simp only [feed, hu]
    · simp only [feed, hv, holdCr_append]
    · rw [holdCr_append]

theorem feed_head (hc : d.heldCr = true) (h : d.feed bs = .ok (x, d')) (hx : x ≠ []) :
    x.head? = some CodePoint.cr := by
  unfold feed at h
  split at h
  · cases h
  · next t held ht =>
    cases h
    rw [hc] at hx ⊢
    cases t with
    | nil => exact absurd rfl hx
    | cons c t => rfl

theorem feed_of_wellBegun (h : Utf8.WellBegun bs) : ∃ x d, feed {} bs = .ok (x, d) := by
  obtain ⟨rest, t, ht⟩ := h
  obtain ⟨u, v, held, hu, -, -⟩ := Utf8.run_append_ok (Utf8.decode_eq_ok_iff.1 ht)
  exact ⟨(holdCr false u).1, ⟨held, (holdCr false u).2⟩, by simp only [feed, hu]⟩

end Decoder

namespace TextSource

/-- By the time the bytes `later` have come, `s` has `x` to give. -/
structure Gives (s : TextSource) (later : Bytes) (x : Text) : Prop where
  isOpen : s.isOpen = true
  ending : s.ending = none
  isReady : s.IsReady
  text : ∃ u d, s.decoder.feed (s.packets.flatten ++ later) = .ok (u, d) ∧ x = s.ready ++ u

variable {s : TextSource} {later bs : Bytes} {x begun got rest : Text} {d : Decoder}
  {p : Bytes} {ps : List Bytes} {before : Nat}

theorem Gives.of_feed
    (h : Gives { s with packets := p :: ps, decoder := d, ready := begun } later x) :
    ∃ u d', d.feed p = .ok (u, d') ∧
      Gives { s with packets := ps, decoder := d', ready := begun ++ u } later x := by
  obtain ⟨hopen, he, hr, u, d', hu, rfl⟩ := h
  dsimp only at hopen he hu
  rw [List.flatten_cons, List.append_assoc] at hu
  obtain ⟨v, e, w, hv, hw, rfl⟩ := Decoder.feed_append hu
  exact ⟨v, e, hv, hopen, he, isReady_feed hr hv, w, d', hw, (List.append_assoc ..).symm⟩

theorem Gives.cut_ready (h : s.Gives later x) (hc : cutLine? s.ready = some (got, rest)) :
    ∃ x', cutLine? x = some (got, x') ∧ Gives { s with ready := rest } later x' := by
  obtain ⟨hopen, he, hr, u, d, hu, rfl⟩ := h
  refine ⟨rest ++ u, ?_, hopen, he, (takes_ready cuts_line hr hc).isReady, u, d, hu, rfl⟩
  by_cases hx : u = []
  · rw [hx, List.append_nil, List.append_nil]
    exact hc
  · exact cutLine?_append hc fun hl => Decoder.feed_head (hr hl) hu hx

theorem Gives.receive
    (h : Gives { s with packets := ps, decoder := d, ready := begun } later x)
    (hc : cutLine? begun = none) :
    (s.receive cutLine? .never before begun d ps = (.error .waiting, s) ∧
        (later = [] → cutLine? x = none)) ∨
      ∃ got s' x', s.receive cutLine? .never before begun d ps = (.ok got, s') ∧
        cutLine? x = some (got, x') ∧ s'.Gives later x' := by
  induction ps generalizing before begun d with
  | nil =>
    left
    obtain ⟨-, he, -, u, d', hu, rfl⟩ := h
    refine ⟨?_, fun hl => ?_⟩
    · have he : s.ending = none := he
      simp only [TextSource.receive, Refusal.never, Bool.false_eq_true, if_false, atEnd, he]
    · subst hl
      obtain rfl : u = [] := (congrArg Prod.fst (Except.ok.inj hu)).symm
      rwa [List.append_nil]
  | cons p ps ih =>
    obtain ⟨u, d', hf, hu⟩ := h.of_feed
    simp only [TextSource.receive, Refusal.never, Bool.false_eq_true, if_false, hf]
    cases hx : cutLine? (begun ++ u) with
    | none => exact ih hu hx
    | some r =>
      obtain ⟨x', hx', hg⟩ := hu.cut_ready hx
      exact .inr ⟨_, _, x', rfl, hx', hg⟩

theorem Gives.readLine (h : s.Gives later x) :
    (s.readLine = (.error .waiting, s) ∧ (later = [] → cutLine? x = none)) ∨
      ∃ got s' x', s.readLine = (.ok got, s') ∧ cutLine? x = some (got, x') ∧
        s'.Gives later x' := by
  rw [TextSource.readLine, TextSource.readUntil, if_pos h.isOpen]
  cases hc : cutLine? s.ready with
  | none => exact h.receive hc
  | some r =>
    obtain ⟨x', hx, hg⟩ := h.cut_ready hc
    exact .inr ⟨_, _, x', rfl, hx, hg⟩

theorem Gives.deliver (h : s.Gives (bs ++ later) x) : (s.deliver bs).Gives later x := by
  obtain ⟨hopen, he, hr, u, d, hu, rfl⟩ := h
  simp only [TextSource.deliver, he, Option.isSome_none, Bool.false_eq_true, if_false]
  refine ⟨hopen, rfl, hr, u, d, ?_, rfl⟩
  simpa only [List.flatten_append, flatten_packets, List.reverse_nil, List.nil_append,
    List.append_assoc] using hu

end TextSource

theorem Connection.await_of_gives {keyword : Text} (hk : keyword ∈ Keyword.all) {c : Connection}
    {later : Bytes} {x : Text} (h : c.source.Gives later x) (log : Log) :
    (await keyword (c, log) = (.error .waiting, (c, log)) ∧ (later = [] → cutLine? x = none)) ∨
      ∃ line s x', cutLine? x = some (line, x') ∧ s.Gives later x' ∧
        await keyword (c, log) =
          (if keyword.isPrefixOf line then .ok line.chomp
            else .error (.fault (.unexpectedLine keyword line.chomp)),
            ({ c with source := s }, log ++ [receivedRecord line])) := by
  rw [await_apply, readLine_apply]
  rcases h.readLine with ⟨hr, hw⟩ | ⟨line, s, x', hr, hx, hs⟩
  · left
    rw [hr]
    exact ⟨rfl, hw⟩
  · right
    have hl : line ≠ [] := by
      rintro rfl
      have ht : takeLine x = ([], x') := by rw [takeLine, hx, Option.getD_some]
      obtain rfl : x = [] := takeLine_fst_eq_nil_iff.1 (by rw [ht])
      cases hx
    refine ⟨line, s, x', hx, hs, ?_⟩
    rw [hr]
    dsimp only
    rw [if_neg hl]
    simp only [Line.expect, Text.isPrefixOf_chomp (Keyword.not_isLineBreak hk)]
    split <;> rfl

def Happening.keepsOpen : Happening → Bool
  | .hangUp _ | .breakWrites => false
  | _ => true

def showingAwait (port : Int) (keyword : Text) (p : Progress) (w : Bytes)
    (next : Text → Summary × Bytes) (x : Text) : Summary × Bytes :=
  match cutLine? x with
  | none => (⟨port, p, .running, none⟩, w)
  | some (line, rest) =>
    if keyword.isPrefixOf line then next rest
    else (⟨port, p, .protocolViolation, some (.unexpectedLine keyword line.chomp)⟩, w)

/-- What a server shows when it can go on no further, if it has got to `p`, has sent `w`, has `todo`
before it and `x` to read, and its owner has or has not shut it down. -/
def showing (spec : ServerSpec) (isDown : Bool) (p : Progress) (w : Bytes) :
    (todo : List Instruction) → (x : Text) → Summary × Bytes
  | [], _ => (⟨spec.asked, p, if isDown then .completed else .running, none⟩, w)
  | .reach q :: todo, x => showing spec isDown q w todo x
  | .exitAt e :: todo, x =>
    if spec.exitPoint = e then (⟨spec.asked, p, .exited, none⟩, w)
    else showing spec isDown p w todo x
  | .sendInfo :: todo, x => showing spec isDown p (w ++ Connection.greetingBytes) todo x
  | .awaitConnect :: todo, x =>
    showingAwait spec.asked Keyword.connect p w (fun x => showing spec isDown p w todo x) x
  | .awaitPing :: todo, x =>
    showingAwait spec.asked Keyword.ping p w (fun x => showing spec isDown p w todo x) x
  | .sendPong :: todo, x => showing spec isDown p (w ++ Connection.pongBytes) todo x
  | .play _ :: todo, x => showing spec isDown p w todo x

theorem showing_progress (spec : ServerSpec) (d d' : Bool) (p : Progress) (w : Bytes)
    (todo : List Instruction) (x : Text) :
    (showing spec d p w todo x).1.progress = (showing spec d' p w todo x).1.progress := by
  have hawait {port keyword p w} {next next' : Text → Summary × Bytes}
      (hn : ∀ x, (next x).1.progress = (next' x).1.progress) (x : Text) :
      (showingAwait port keyword p w next x).1.progress =
        (showingAwait port keyword p w next' x).1.progress := by
    unfold showingAwait
    split
    · rfl
    · split
      · exact hn _
      · rfl
  induction todo generalizing p w x with
  | nil => rfl
  | cons i todo ih =>
    cases i with
    | reach q => exact ih q w x
    | exitAt e =>
      simp only [showing]
      split
      · rfl
      · exact ih p w x
    | sendInfo => exact ih p _ x
    | sendPong => exact ih p _ x
    | awaitConnect => exact hawait (ih p w) x
    | awaitPing => exact hawait (ih p w) x
    | play k => exact ih p w x

namespace Server

def shown (s : Server) : Summary × Bytes := (s.summary, s.sent)

variable {v : Summary × Bytes} {d : Bool} {later : Bytes} {todo : List Instruction}
  {i : Instruction} {s t : Server}

/-- The run that has `todo` before it will show `v` once the bytes `later` have come, if its owner
shuts it down or does not, as `d` says. -/
structure WillShow (v : Summary × Bytes) (d : Bool) (later : Bytes) (todo : List Instruction)
    (s : Server) : Prop where
  script : s.spec.script = none
  order : InOrder s.spec s.progress todo
  outcome : s.outcome = .running
  error : s.error = none
  isShutDown : s.isShutDown = true → d = true
  showing : ∃ x w, s.connection.source.Gives later x ∧ s.connection.sink = { sent := w } ∧
    showing s.spec d s.progress w todo x = v

def IsToShow (v : Summary × Bytes) (d : Bool) (later : Bytes) (s : Server) : Prop :=
  match s.phase with
  | .accepting => False
  | .serving todo => WillShow v d later todo s
  | .ended => s.shown = v

theorem finish_shown {w : Bytes} (hk : s.connection.sink = { sent := w }) (o : Outcome) :
    (s.finish o).shown = (⟨s.spec.asked, s.progress, o, s.error⟩, w) := by
  have hw := finish_sent hk o
  obtain ⟨c, l, hf⟩ := finish_eq s o
  rw [shown, hw, hf]
  rfl

theorem fail_shown {w : Bytes} (hk : s.connection.sink = { sent := w }) {f : Fault}
    (hf : f.isRecorded = true) :
    (s.fail f).shown = (⟨s.spec.asked, s.progress, outcomeOf f, some f⟩, w) := by
  rw [fail_of_isRecorded hf]
  exact finish_shown (s := (s.say .warning (failureHeadline f ++ f.message)).noteFault f) hk _

theorem shown_of_running {w : Bytes} (ho : s.outcome = .running) (he : s.error = none)
    (hk : s.connection.sink = { sent := w }) :
    s.shown = (⟨s.spec.asked, s.progress, .running, none⟩, w) := by
  rw [shown, summary, Server.sent, ho, he, hk]

/-- What performing an instruction comes to in a run that will show `v`: it goes on and still will,
or it ends and does, or it waits, and with nothing more to come it does so too. -/
inductive Leaves (v : Summary × Bytes) (d : Bool) (later : Bytes) (i : Instruction)
    (todo : List Instruction) (s : Server) : Performed × Server → Prop
  | done {t : Server} (h : WillShow v d later todo t) (hd : t.isShutDown = s.isShutDown) :
      Leaves v d later i todo s (.done, t)
  | leave {t : Server} (hv : (t.finish .exited).shown = v) :
      Leaves v d later i todo s (.leave, t)
  | failed {t : Server} {f : Fault} (hv : (t.fail f).shown = v) :
      Leaves v d later i todo s (.failed f, t)
  | wait (hv : later = [] → s.shown = v) : Leaves v d later i todo s (.wait i, s)

theorem leaves_write {w bs : Bytes} {line x : Text} (hl : Utf8.encode line = .ok bs)
    (h : WillShow v d later (i :: todo) s) (ho : InOrder s.spec s.progress todo)
    (hx : s.connection.source.Gives later x) (hw : s.connection.sink = { sent := w })
    (hv : LineHandshake.showing s.spec d s.progress (w ++ bs) todo x = v) :
    Leaves v d later i todo s (s.exchange i (Connection.writeLine line)) := by
  rw [exchange_of_ok (Connection.writeLine_idle hw hl [])]
  exact .done ⟨h.script, ho, h.outcome, h.error, h.isShutDown, x, w ++ bs, hx, rfl, hv⟩ rfl

theorem leaves_await {w : Bytes} {keyword x : Text} (hk : keyword ∈ Keyword.all)
    (h : WillShow v d later (i :: todo) s) (ho : InOrder s.spec s.progress todo)
    (hx : s.connection.source.Gives later x) (hw : s.connection.sink = { sent := w })
    (hv : showingAwait s.spec.asked keyword s.progress w
      (fun x => LineHandshake.showing s.spec d s.progress w todo x) x = v) :
    Leaves v d later i todo s (s.exchange i (Connection.await keyword)) := by
  rcases Connection.await_of_gives hk hx [] with ⟨hr, hn⟩ | ⟨line, src, x', hc, hs, hr⟩
  · rw [exchange_of_waiting hr]
    refine .wait fun hl => ?_
    rw [showingAwait, hn hl] at hv
    exact (shown_of_running h.outcome h.error hw).trans hv
  · rw [showingAwait, hc] at hv
    dsimp only at hv
    split at hr
    · next hp =>
      rw [if_pos hp] at hv
      rw [exchange_of_ok hr]
      exact .done ⟨h.script, ho, h.outcome, h.error, h.isShutDown, x', w, hs, hw, hv⟩ rfl
    · next hp =>
      rw [if_neg hp] at hv
      rw [exchange_of_fault hr]
      exact .failed ((fail_shown (s := { s with
        connection := { s.connection with source := src },
        log := s.log ++ ([] ++ [Connection.receivedRecord line]) }) hw rfl).trans hv)

theorem leaves_perform (h : WillShow v d later (i :: todo) s) :
    Leaves v d later i todo s (s.perform i) := by
  obtain ⟨hi, ho⟩ := h.order
  obtain ⟨x, w, hx, hw, hv⟩ := h.showing
  cases i with
  | reach q =>
    have hq : q.rank = s.progress.rank + 1 := hi
    have hp : s.progress.furthest q = q := if_pos (by omega)
    refine .done ⟨h.script, ?_, h.outcome, h.error, h.isShutDown, x, w, hx, hw, ?_⟩ rfl
    · change InOrder s.spec (s.progress.furthest q) todo
      rw [hp]
      exact ho
    · change LineHandshake.showing s.spec d (s.progress.furthest q) w todo x = v
      rw [hp]
      exact hv
  | exitAt e =>
    simp only [LineHandshake.showing] at hv
    rw [perform]
    split
    · next he =>
      rw [if_pos he] at hv
      have hf := finish_shown (s := s.say .info (text "exiting at " ++ e.name)) hw .exited
      change _ = (Summary.mk s.spec.asked s.progress .exited s.error, w) at hf
      rw [h.error] at hf
      exact .leave (hf.trans hv)
    · next he =>
      rw [if_neg he] at hv
      exact .done ⟨h.script, ho, h.outcome, h.error, h.isShutDown, x, w, hx, hw, hv⟩ rfl
  | sendInfo => exact leaves_write Connection.encode_greeting h ho hx hw hv
  | sendPong => exact leaves_write Connection.encode_pong h ho hx hw hv
  | awaitConnect => exact leaves_await (.tail _ (.head _)) h ho hx hw hv
  | awaitPing => exact leaves_await (.tail _ (.tail _ (.head _))) h ho hx hw hv
  | play k => exact absurd rfl (ne_play_of_inOrder h.script h.order k)

theorem WillShow.firstStep_eq (h : WillShow v d later (i :: todo) s) :
    s.firstStep i = s.perform i :=
  firstStep_of_ne_act (fun _ _ => ne_play_of_inOrder h.script h.order _) s

theorem WillShow.finish (h : WillShow v true later [] s) :
    (s.finish .completed).shown = v := by
  obtain ⟨x, w, -, hw, hv⟩ := h.showing
  have hf := finish_shown hw .completed
  rw [h.error] at hf
  exact hf.trans hv

theorem IsToShow.serving (h : IsToShow v d later s) (hp : s.phase = .serving todo) :
    WillShow v d later todo s := by
  simpa only [IsToShow, hp] using h

theorem IsToShow.ended (h : IsToShow v d later s) (hp : s.phase = .ended) : s.shown = v := by
  simpa only [IsToShow, hp] using h

theorem IsToShow.phase_ne (h : IsToShow v d later s) : s.phase ≠ .accepting := by
  intro hp
  simp only [IsToShow, hp] at h

theorem isToShow_of_ended (hp : s.phase = .ended) (hv : s.shown = v) : IsToShow v d later s := by
  simpa only [IsToShow, hp] using hv

theorem isToShow_of_serving (hp : s.phase = .serving todo) (h : WillShow v d later todo s) :
    IsToShow v d later s := by
  simpa only [IsToShow, hp] using h

theorem isToShow_goOn {r : Performed × Server} (h : WillShow v d later (i :: todo) s)
    (hr : Leaves v d later i todo s r) : IsToShow v d later (goOn todo r) := by
  cases hr with
  | done ht _ =>
    exact ⟨ht.script, ht.order, ht.outcome, ht.error, ht.isShutDown, ht.showing⟩
  | leave hv => exact isToShow_of_ended (finish_phase ..) hv
  | failed hv => exact isToShow_of_ended (fail_phase ..) hv
  | wait _ => exact ⟨h.script, h.order, h.outcome, h.error, h.isShutDown, h.showing⟩

theorem IsToShow.work (h : IsToShow v d later s) : IsToShow v d later s.work := by
  unfold Server.work
  split
  · next hp =>
    split
    · next hd =>
      have hs := h.serving hp
      obtain rfl := hs.isShutDown hd
      exact isToShow_of_ended (finish_phase ..) hs.finish
    · exact h
  · next i todo hp =>
    have hs := h.serving hp
    rw [hs.firstStep_eq]
    exact isToShow_goOn hs (leaves_perform hs)
  · exact h

theorem IsToShow.deliver {bs : Bytes} (h : IsToShow v d (bs ++ later) s) :
    IsToShow v d later (s.change (Connection.deliver bs)) := by
  cases hp : s.phase with
  | accepting => exact absurd hp h.phase_ne
  | serving todo =>
    have hs := h.serving hp
    obtain ⟨x, w, hx, hw, hv⟩ := hs.showing
    rw [change, if_pos (by simp only [Server.isServing, hp])]
    exact isToShow_of_serving hp
      ⟨hs.script, hs.order, hs.outcome, hs.error, hs.isShutDown, x, w, hx.deliver, hw, hv⟩
  | ended =>
    rw [change, if_neg (by simp [Server.isServing, hp])]
    exact isToShow_of_ended hp (h.ended hp)

theorem IsToShow.shutDown (h : IsToShow v true later s) :
    IsToShow v true later (s.happen .shutDown) := by
  cases hp : s.phase with
  | accepting => exact absurd hp h.phase_ne
  | serving todo =>
    have hs := h.serving hp
    exact isToShow_of_serving (s := s.happen .shutDown) hp
      ⟨hs.script, hs.order, hs.outcome, hs.error, fun _ => rfl, hs.showing⟩
  | ended => exact isToShow_of_ended (s := s.happen .shutDown) hp (h.ended hp)

theorem IsToShow.after {hs : List Happening} (h : IsToShow v d ((incoming hs).1 ++ later) s)
    (ho : hs.all Happening.keepsOpen) (hd : .shutDown ∈ hs → d = true) :
    IsToShow v d later (s.after hs) := by
  induction hs generalizing s with
  | nil => exact h
  | cons x hs ih =>
    obtain ⟨hx, ho⟩ := Bool.and_eq_true_iff.1 ho
    have hd' : .shutDown ∈ hs → d = true := fun hm => hd (.tail x hm)
    cases x with
    | work => exact ih h.work ho hd'
    | tick =>
      rw [after_cons, (happen_eq_self h.phase_ne).1]
      exact ih h ho hd'
    | connect peer =>
      rw [after_cons, (happen_eq_self h.phase_ne).2]
      exact ih h ho hd'
    | deliver bs =>
      rw [incoming, List.append_assoc] at h
      exact ih h.deliver ho hd'
    | hangUp e => cases hx
    | breakWrites => cases hx
    | shutDown =>
      obtain rfl := hd List.mem_cons_self
      exact ih h.shutDown ho hd'

theorem IsToShow.works (h : IsToShow v d later s) (n : Nat) :
    IsToShow v d later (s.after (List.replicate n .work)) := by
  induction n generalizing s with
  | zero => exact h
  | succ n ih => exact ih h.work

theorem WillShow.run (h : WillShow v d [] todo s) (hd : d = true → s.isShutDown = true) :
    (s.run todo).shown = v := by
  induction todo generalizing s with
  | nil =>
    rw [Server.run]
    split
    · next hs =>
      obtain rfl := h.isShutDown hs
      exact h.finish
    · next hs =>
      obtain rfl : d = false := Bool.not_eq_true _ ▸ fun he => hs (hd he)
      obtain ⟨x, w, -, hw, hv⟩ := h.showing
      exact (shown_of_running (s := s.inPhase (.serving [])) h.outcome h.error hw).trans hv
  | cons i todo ih =>
    have hl := leaves_perform h
    rw [Server.run]
    generalize s.perform i = r at hl
    cases hl with
    | done ht hs => exact ih ht fun he => hs.trans (hd he)
    | leave hv => exact hv
    | failed hv => exact hv
    | wait hv => exact hv rfl

theorem IsToShow.resume (h : IsToShow v d [] s) (hd : d = true → s.isShutDown = true) :
    s.resume.shown = v := by
  unfold Server.resume
  split
  · next hp => exact (h.serving hp).run hd
  · next hp =>
    cases he : s.phase with
    | accepting => exact absurd he h.phase_ne
    | serving todo => exact absurd he (hp todo)
    | ended => exact h.ended he

variable {spec : ServerSpec}

theorem isToShow_welcome (h : IsSound spec (.ok ()) s) (hsc : spec.script = none)
    (hp : s.phase = .accepting) (hd : s.isShutDown = true → d = true) (peer : Nat) {bs : Bytes}
    {x : Text} {e : Decoder} (hx : Decoder.feed {} bs = .ok (x, e)) :
    IsToShow (LineHandshake.showing spec d .noClient [] (program spec) x) d bs
      (s.happen (.connect peer)) := by
  obtain ⟨hspec, -, ho, he, hn⟩ := h.accepting hp
  subst hspec
  rw [happen, welcome_of_accepting hp]
  refine ⟨hsc, ?_, ho, he, hd, x, [], ⟨rfl, rfl, (by intro hl; cases hl), x, e, hx, rfl⟩, rfl, ?_⟩
  · change InOrder s.spec s.progress (program s.spec)
    rw [hn]
    exact inOrder_program s.spec
  · change LineHandshake.showing s.spec d s.progress [] (program s.spec) x = _
    rw [hn]

theorem isToShow_after (h : IsSound spec (.ok ()) s) (hsc : spec.script = none)
    (hp : s.phase = .accepting) (peer : Nat) {hs : List Happening}
    (ho : hs.all Happening.keepsOpen) {x : Text} {e : Decoder}
    (hx : Decoder.feed {} ((incoming hs).1 ++ later) = .ok (x, e))
    (hd : d = (s.isShutDown || decide (.shutDown ∈ hs))) :
    IsToShow (LineHandshake.showing spec d .noClient [] (program spec) x) d later
        ((s.happen (.connect peer)).after hs) ∧
      (d = true → ((s.happen (.connect peer)).after hs).isShutDown = true) := by
  subst hd
  refine ⟨(isToShow_welcome h hsc hp ?_ peer hx).after ho fun hm => ?_, fun hd => ?_⟩
  · exact fun hd => by rw [hd, Bool.true_or]
  · rw [decide_eq_true hm, Bool.or_true]
  · rcases Bool.or_eq_true_iff.1 hd with hd | hd
    · exact after_isShutDown (isShutDown_happen hd _) hs
    · exact isShutDown_of_mem (of_decide_eq_true hd)

theorem rank_le_resume {bound : Except Fault Unit} (h : IsSound spec bound s) :
    s.progress.rank ≤ s.resume.progress.rank := by
  obtain ⟨n, hn⟩ := leads_resume s
  rw [← hn]
  exact rank_le_after h _

theorem IsToShow.rank_resume_le {bound : Except Fault Unit} {more : Bytes}
    (h : IsToShow v d more s) (hd : d = true → s.isShutDown = true) (hs : IsSound spec bound s) :
    s.resume.progress.rank ≤ v.1.progress.rank := by
  obtain ⟨n, hn⟩ := leads_resume s
  have hrest := h.works n
  have hsound := sound_after hs (List.replicate n .work)
  have hdown : d = true → (s.after (List.replicate n .work)).isShutDown = true := fun he =>
    after_isShutDown (hd he) _
  rw [hn] at hrest hsound hdown
  rw [← List.append_nil more] at hrest
  have hv := hrest.deliver.resume fun he => isShutDown_happen (hdown he) (.deliver more)
  calc s.resume.progress.rank
      ≤ (s.resume.happen (.deliver more)).progress.rank := rank_le_happen hsound _
    _ ≤ (s.resume.happen (.deliver more)).resume.progress.rank :=
        rank_le_resume (sound_happen hsound _)
    _ = v.1.progress.rank := by
        rw [← hv]
        rfl

/-- How a client on an open connection sends its bytes makes no difference to what its server
shows when it waits or has ended, and sending more never takes the server back. -/
theorem live_state_of_bytes (spec : ServerSpec) (hsc : spec.script = none)
    (before : List Happening) (hp : ((start spec (.ok ())).after before).phase = .accepting)
    (peer : Nat) :
    let reached hs := ((start spec (.ok ())).after (before ++ .connect peer :: hs)).resume
    (∀ hs ks, hs.all Happening.keepsOpen → ks.all Happening.keepsOpen →
      (incoming hs).1 = (incoming ks).1 → Utf8.WellBegun (incoming hs).1 →
      (.shutDown ∈ hs ↔ .shutDown ∈ ks) →
        (reached hs).summary = (reached ks).summary ∧ (reached hs).sent = (reached ks).sent) ∧
    (∀ hs ks, hs.all Happening.keepsOpen → ks.all Happening.keepsOpen →
      (incoming hs).1 <+: (incoming ks).1 → Utf8.WellBegun (incoming ks).1 →
        (reached hs).progress.rank ≤ (reached ks).progress.rank) := by
  intro reached
  have hsound := sound_after (sound_start spec (.ok ())) before
  have hreached (hs) : reached hs =
      ((((start spec (.ok ())).after before).happen (.connect peer)).after hs).resume := by
    simp only [reached, after_append, after_cons]
  simp only [hreached]
  clear_value reached
  generalize (start spec (.ok ())).after before = s at hp hsound
  refine ⟨fun hs ks hh hk he hb hm => ?_, fun hs ks hh hk he hb => ?_⟩
  · obtain ⟨x, e, hx⟩ := Decoder.feed_of_wellBegun hb
    rw [← List.append_nil (incoming hs).1] at hx
    obtain ⟨hv, hd⟩ := isToShow_after hsound hsc hp peer hh hx rfl
    rw [he] at hx
    rw [decide_eq_decide.2 hm] at hv hd
    obtain ⟨kv, kd⟩ := isToShow_after hsound hsc hp peer hk hx rfl
    exact Prod.mk.inj ((hv.resume hd).trans (kv.resume kd).symm)
  · obtain ⟨x, e, hx⟩ := Decoder.feed_of_wellBegun hb
    obtain ⟨more, hmore⟩ := he
    obtain ⟨hv, hd⟩ := isToShow_after hsound hsc hp peer hh (by rw [hmore, hx]) rfl
    rw [← List.append_nil (incoming ks).1] at hx
    obtain ⟨kv, kd⟩ := isToShow_after hsound hsc hp peer hk hx rfl
    have hks := congrArg (fun v => v.1.progress.rank) (kv.resume kd)
    -- whether the one or the other was shut down does not bear on the progress
    calc ((s.happen (.connect peer)).after hs).resume.progress.rank
        ≤ (showing spec _ .noClient [] (program spec) x).1.progress.rank :=
          hv.rank_resume_le hd (sound_after (sound_happen hsound _) hs)
      _ = (showing spec _ .noClient [] (program spec) x).1.progress.rank :=
          congrArg Progress.rank (showing_progress ..)
      _ = ((s.happen (.connect peer)).after ks).resume.progress.rank := hks.symm

def piecemeal : List Happening :=
  [.deliver [67, 79, 78, 78, 69, 67, 84, 32, 0xC3], .work, .deliver [0xA9, 13], .work, .work,
    .work, .work, .work, .deliver [80, 73], .deliver [78, 71]]

def allAtOnce : List Happening :=
  [.deliver [67, 79, 78, 78, 69, 67, 84, 32, 0xC3, 0xA9, 13, 80, 73, 78, 71]]

theorem live_state_of_bytes_cut :
    let reached hs :=
      ((start { port := 14220 } (.ok ())).after ([.tick] ++ .connect 0 :: hs)).resume
    (((start { port := 14220 } (.ok ())).after [.tick]).phase = .accepting ∧
        (incoming piecemeal).1 = (incoming allAtOnce).1 ∧
        Utf8.WellBegun (incoming piecemeal).1) ∧
      ((reached piecemeal).summary = (reached allAtOnce).summary ∧
        (reached piecemeal).sent = (reached allAtOnce).sent) ∧
      (reached allAtOnce).summary = ⟨14220, .gotConnect, .running, none⟩ := by
  have hb : Utf8.WellBegun (incoming piecemeal).1 := ⟨[], text "CONNECT \u00e9\rPING", by decide⟩
  have hlive := (live_state_of_bytes { port := 14220 } rfl [.tick] (by rfl) 0).1
  exact ⟨⟨by rfl, by decide, hb⟩,
    hlive piecemeal allAtOnce (by decide) (by decide) (by decide) hb (by decide), by decide⟩

end Server

end LineHandshake
