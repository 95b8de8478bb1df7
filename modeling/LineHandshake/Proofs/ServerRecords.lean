import LineHandshake.Proofs.Agreement
import LineHandshake.Proofs.Greeting
import LineHandshake.Proofs.Reports
import LineHandshake.Proofs.Turns
import LineHandshake.Session

/-!
A client cannot write a line of its own into the log of its server, or into the text of the error
that ends the run: whatever it sends is told in quoted form. Only a script may tell something as it
is.
-/

namespace LineHandshake

open Text (Inert Visible)

namespace TextSink

variable {k : TextSink} {f : Fault}

theorem inert_write {t : Text} (h : (k.write t).1 = .error f) : f.Inert := by
  obtain rfl | rfl | ⟨e, rfl⟩ := fault_of_write h
  · exact Fault.inert_system _
  · exact Fault.inert_streamClosed
  · exact Fault.inert_unencodable e

theorem inert_flush (h : k.flush.1 = .error f) : f.Inert := by
  obtain rfl | rfl := fault_of_flush h
  · exact Fault.inert_system _
  · exact Fault.inert_streamClosed

end TextSink

def Interrupt.Inert : Interrupt → Prop
  | .waiting => True
  | .fault f => f.Inert

theorem Interrupt.inert_of_mapError {α : Type} {r : Except Fault α} {i : Interrupt}
    (hr : ∀ f, r = .error f → f.Inert) (h : r.mapError .fault = .error i) : i.Inert := by
  cases r with
  | ok a => cases h
  | error f =>
    cases h
    exact hr f rfl

namespace Connection

variable {q : Connection × Log}

theorem inert_readLine {s : TextSource} {i : Interrupt} (h : s.readLine.1 = .error i) :
    (lineFault i).Inert := by
  cases ho : s.isOpen with
  | false =>
    rw [TextSource.readLine, TextSource.readUntil, ho] at h
    cases h
    exact Fault.inert_streamClosed
  | true =>
    have hi := (TextSource.passes_readUntil .never ho cutLine?).2 i h
    cases i with
    | waiting => trivial
    | fault f =>
      obtain ⟨e, rfl⟩ | rfl | ⟨-, n, begun, hn⟩ := hi
      · exact Fault.inert_notUtf8 e
      · exact Fault.inert_system _
      · cases hn

/-- An exchange tells nothing of what it reads or writes but in quoted form. -/
def IsDiscreet {α : Type} (x : Exchange α) : Prop :=
  ∀ q, Task.Reports Interrupt.Inert Record.Inert x q

theorem reports_trace {what t : Text} (h : what.Visible) :
    Task.Reports Interrupt.Inert Record.Inert (trace (what ++ t.quoted)) q :=
  Task.reports_log (Record.inert_mk (.literal (by decide)) (h.inert.append t.inert_quoted))

theorem reports_onSink {α : Type} {f : TextSink → Except Fault α × TextSink}
    (h : ∀ k e, (f k).1 = .error e → e.Inert) :
    Task.Reports Interrupt.Inert Record.Inert (onSink f) q :=
  Task.reports_step fun _ => Interrupt.inert_of_mapError (h _)

theorem writeLine_isDiscreet (line : Text) : IsDiscreet (writeLine line) := fun _ =>
  .bind (reports_onSink fun _ _ => TextSink.inert_write) fun _ _ _ =>
    .bind (reports_onSink fun _ _ => TextSink.inert_flush) fun _ _ _ =>
      reports_trace (.literal (by decide))

theorem readLine_isDiscreet : IsDiscreet readLine := by
  refine fun q => .bind ?_ fun line _ _ => ?_
  · refine .mapError (Task.reports_step fun i hi => ?_) fun i (hi : (lineFault i).Inert) => hi
    exact inert_readLine hi
  · split
    · exact Task.reports_fail (Fault.inert_of_visible (.literal (by decide)))
    · exact .bind (reports_trace (.literal (by decide))) fun _ _ _ => Task.reports_pure _

theorem inert_expect {keyword line : Text} {f : Fault} (hk : keyword ∈ Keyword.all)
    (h : Line.expect keyword line = .error f) : f.Inert := by
  unfold Line.expect at h
  split at h
  · cases h
  · cases h
    have hhead : (text "Expected " ++ keyword ++ text ", got ").Visible :=
      ((Visible.literal (by decide)).append (Keyword.visible hk)).append (.literal (by decide))
    exact hhead.inert.append (Text.inert_quoted _)

theorem await_isDiscreet {keyword : Text} (hk : keyword ∈ Keyword.all) :
    IsDiscreet (await keyword) := fun q =>
  .bind (readLine_isDiscreet q) fun _ _ _ =>
    Task.reports_lift fun _ => Interrupt.inert_of_mapError fun _ => inert_expect hk

end Connection

namespace Resource

variable {σ : Type} {r : Resource σ} {rs : List (Resource σ)} {tag : Text} {q : σ × Log}

structure IsDiscreet (r : Resource σ) : Prop where
  name : r.name.Inert
  close : ∀ s f, (r.close s).1 = .error f → f.Inert ∧ f.shown = .ok f.message

theorem reports_closeQuietly (ht : tag.Inert) (hr : r.IsDiscreet) :
    Task.Reports Fault.Inert Record.Inert (r.closeQuietly tag) q := by
  refine .bind (Task.reports_step fun _ h => nomatch h) fun closed _ hc => ?_
  rw [Task.step_apply] at hc
  cases hc
  split
  · exact Task.reports_pure _
  · next f hf =>
    obtain ⟨hfault, hshown⟩ := hr.close q.1 f hf
    split
    · rw [hshown]
      refine .bind (Task.reports_lift nofun) fun shown q' hq => ?_
      cases hq
      refine Task.reports_log (Record.inert_mk (.literal (by decide)) ?_)
      have herror : (text ": error closing ").Inert := .literal (by decide)
      have hcolon : (text ": ").Inert := .literal (by decide)
      exact (((ht.append herror).append hr.name).append hcolon).append hfault
    · exact Task.reports_fail hfault

theorem reports_closeEach (ht : tag.Inert) (hr : ∀ r ∈ rs, r.IsDiscreet) :
    Task.Reports Fault.Inert Record.Inert (closeEach tag rs) q := by
  induction rs generalizing q with
  | nil => exact Task.reports_pure _
  | cons r rs ih =>
    obtain ⟨hr, hrs⟩ := List.forall_mem_cons.1 hr
    exact .bind (reports_closeQuietly ht hr) fun _ _ _ => ih hrs

theorem reports_release (ht : tag.Inert) (hr : ∀ r ∈ rs, r.IsDiscreet) :
    Task.Reports Fault.Inert Record.Inert (release tag rs) q := by
  refine .bind (reports_closeEach ht hr) fun _ _ _ => Task.reports_log ?_
  exact Record.inert_mk (.literal (by decide)) (ht.append (.literal (by decide)))

end Resource

namespace Connection

theorem writer_isDiscreet : writer.IsDiscreet := by
  have hname : (text "writer").Inert := .literal (by decide)
  refine ⟨hname, fun c f h => ?_⟩
  obtain rfl := TextSink.fault_of_close h
  exact ⟨Fault.inert_system _, rfl⟩

theorem resources_isDiscreet : ∀ r ∈ resources, r.IsDiscreet := by
  have hreader : (text "reader").Inert := .literal (by decide)
  have hsocket : (text "socket").Inert := .literal (by decide)
  refine List.forall_mem_cons.2 ⟨writer_isDiscreet, List.forall_mem_cons.2 ⟨?_, ?_⟩⟩
  · exact ⟨hreader, fun _ _ h => nomatch h⟩
  · exact List.forall_mem_singleton.2 ⟨hsocket, fun _ _ h => nomatch h⟩

theorem reports_release {tag : Text} (ht : tag.Inert) {q : Connection × Log} :
    Task.Reports Fault.Inert Record.Inert (release tag) q :=
  Resource.reports_release ht resources_isDiscreet

theorem call_isDiscreet (k : Call) : IsDiscreet (call k) := by
  have hreturns {α β : Type} {x : Exchange α} (hx : IsDiscreet x) (f : α → β) :
      IsDiscreet (do return f (← x)) :=
    fun q => (hx q).returns f
  cases k with
  | readLine => exact hreturns readLine_isDiscreet some
  | awaitConnect => exact hreturns (await_isDiscreet (.tail _ (.head _))) some
  | awaitPing => exact hreturns (await_isDiscreet (.tail _ (.tail _ (.head _)))) some
  | sendInfo => exact hreturns (writeLine_isDiscreet _) fun _ => none
  | sendPong => exact hreturns (writeLine_isDiscreet _) fun _ => none
  | writeLine line => exact hreturns (writeLine_isDiscreet line) fun _ => none
  | release =>
    refine hreturns (fun q => .mapError (reports_release ?_) fun _ => id) fun _ => none
    exact .literal (by decide)

structure Turn.IsInert (x : Turn) : Prop where
  records : ∀ r ∈ x.records, r.Inert
  fault : ∀ f, x.result = .error (.fault f) → f.Inert

theorem turn_isInert (k : Call) (c : Connection) : (c.turn k).1.IsInert := by
  obtain ⟨he, hl⟩ := (call_isDiscreet k (c, [])).perform
  exact ⟨hl, fun f => he (.fault f)⟩

theorem turns_isInert (es : List Event) (c : Connection) : ∀ x ∈ (c.turns es).1, x.IsInert := by
  induction es generalizing c with
  | nil => exact List.forall_mem_nil _
  | cons e es ih =>
    cases e with
    | arrival a => exact ih _
    | call k => exact List.forall_mem_cons.2 ⟨turn_isInert k c, ih _⟩

end Connection

theorem ExitPoint.inert_name (e : ExitPoint) : e.name.Inert := by
  cases e <;> exact .literal (by decide)

theorem Progress.inert_name (p : Progress) : p.name.Inert := by
  cases p <;> exact .literal (by decide)

theorem Outcome.inert_name (o : Outcome) : o.name.Inert := by
  cases o <;> exact .literal (by decide)

namespace Server

variable {s : Server} {i : Instruction}

structure IsInert (s : Server) : Prop where
  log : ∀ r ∈ s.log, r.Inert
  error : ∀ f, s.error = some f → f.Inert

theorem inert_tag (s : Server) : s.tag.Inert :=
  ((Visible.literal (by decide)).append (.ofInt _)).inert

theorem IsInert.say (h : s.IsInert) {what : Text} (hw : what.Inert) (level : Level) :
    (s.say level what).IsInert := by
  refine ⟨List.forall_mem_append.2 ⟨h.log, List.forall_mem_singleton.2 ?_⟩, h.error⟩
  have hcolon : (text ": ").Inert := .literal (by decide)
  exact Record.inert_mk (.literal (by decide)) ((s.inert_tag.append hcolon).append hw)

theorem IsInert.onConnection {ε α : Type} {E : ε → Prop} {x : Task ε Connection α}
    (h : s.IsInert) (hx : x.Reports E Record.Inert (s.connection, [])) :
    (∀ e, (s.onConnection x).1 = .error e → E e) ∧ (s.onConnection x).2.IsInert := by
  obtain ⟨he, hl⟩ := hx.perform
  exact ⟨he, List.forall_mem_append.2 ⟨h.log, hl⟩, h.error⟩

theorem IsInert.release (h : s.IsInert) : s.release.2.IsInert := by
  have hr : ∀ r ∈ (if s.peer.isSome then Connection.resources else []), r.IsDiscreet := by
    split
    · exact Connection.resources_isDiscreet
    · exact List.forall_mem_nil _
  exact (h.onConnection (Resource.reports_release s.inert_tag hr)).2

theorem IsInert.finish (h : s.IsInert) (o : Outcome) : (s.finish o).IsInert := by
  have hs := IsInert.release (s := { s with outcome := o, phase := .ended }) ⟨h.log, h.error⟩
  unfold Server.finish
  split
  · next hr =>
    rw [hr] at hs
    exact hs.say (((Inert.literal (by decide)).append (Outcome.inert_name _)).append
      (.literal (by decide))) _
  · next hr =>
    rw [hr] at hs
    exact hs

theorem IsInert.fail (h : s.IsInert) {f : Fault} (hf : f.Inert) : (s.fail f).IsInert := by
  cases hr : f.isRecorded with
  | true =>
    have hhead : (failureHeadline f).Inert := by
      unfold failureHeadline
      split <;> exact .literal (by decide)
    have hs := h.say (hhead.append hf) .warning
    have hn : ((s.say .warning (failureHeadline f ++ f.message)).noteFault f).IsInert := by
      refine ⟨hs.log, ?_⟩
      rintro _ ⟨⟩
      exact hf
    rw [fail_of_isRecorded hr]
    exact hn.finish _
  | false =>
    rw [fail_of_not_isRecorded hr]
    exact IsInert.release (s := { s with phase := .ended }) ⟨h.log, h.error⟩

def Performed.IsInert : Performed × Server → Prop
  | (.failed f, t) => t.IsInert ∧ f.Inert
  | (_, t) => t.IsInert

theorem IsInert.exchange {α : Type} {x : Connection.Exchange α} (h : s.IsInert)
    (hx : Connection.IsDiscreet x) (i : Instruction) : Performed.IsInert (s.exchange i x) := by
  obtain ⟨he, ht⟩ := h.onConnection (hx (s.connection, []))
  unfold Server.exchange
  generalize s.onConnection x = r at he ht
  obtain ⟨(_ | f) | a, t⟩ := r
  · exact h
  · exact ⟨ht, he _ rfl⟩
  · exact ht

theorem IsInert.perform (h : s.IsInert) (hi : ∀ k, i ≠ .play k) :
    Performed.IsInert (s.perform i) := by
  cases i with
  | reach q =>
    have hs := h.say (Progress.inert_name q) .info
    exact ⟨hs.log, hs.error⟩
  | exitAt e =>
    rw [Server.perform]
    split
    · exact h.say ((Inert.literal (by decide)).append (ExitPoint.inert_name e)) _
    · exact h
  | sendInfo => exact h.exchange (Connection.writeLine_isDiscreet _) _
  | sendPong => exact h.exchange (Connection.writeLine_isDiscreet _) _
  | awaitConnect => exact h.exchange (Connection.await_isDiscreet (.tail _ (.head _))) _
  | awaitPing =>
    exact h.exchange (Connection.await_isDiscreet (.tail _ (.tail _ (.head _)))) _
  | play k => exact absurd rfl (hi k)

theorem IsInert.goOn {r : Performed × Server} (hr : Performed.IsInert r)
    (todo : List Instruction) : (goOn todo r).IsInert := by
  obtain ⟨p, t⟩ := r
  cases p with
  | done => exact ⟨hr.log, hr.error⟩
  | leave => exact IsInert.finish hr _
  | wait left => exact ⟨hr.log, hr.error⟩
  | failed f => exact hr.1.fail hr.2

theorem IsInert.wait (h : s.IsInert) : s.wait.IsInert := by
  unfold Server.wait
  split
  · refine h.fail (Fault.inert_of_visible ?_)
    exact ((Visible.literal (by decide)).append (Duration.visible_toText _)).append
      (.literal (by decide))
  · split
    · exact (h.say (.literal (by decide)) _).finish _
    · exact h

theorem IsInert.change (h : s.IsInert) (f : Connection → Connection) :
    (s.change f).IsInert := by
  unfold Server.change
  split
  · exact ⟨h.log, h.error⟩
  · exact h

theorem inert_peerName (peer : Nat) : (peerName peer).Inert :=
  (((Visible.literal (by decide)).append (.ofNat _)).append (.literal (by decide))).inert

variable {spec : ServerSpec} {bound : Except Fault Unit}

theorem IsInert.work (h : s.IsInert) (hs : IsSound spec bound s) (hsc : spec.script = none) :
    s.work.IsInert := by
  unfold Server.work
  split
  · split
    · exact h.finish _
    · exact h
  · next i todo hp =>
    have hi := ne_play_of_inOrder hsc (hs.serving hp).order
    rw [firstStep_of_ne_act fun _ _ => hi _]
    exact .goOn (h.perform hi) todo
  · exact h

theorem IsInert.happen (h : s.IsInert) (hs : IsSound spec bound s) (hsc : spec.script = none)
    (x : Happening) : (s.happen x).IsInert := by
  cases x with
  | work => exact h.work hs hsc
  | tick =>
    rw [Server.happen, Server.tick]
    split
    · exact IsInert.wait (s := { s with ticks := s.ticks + 1 }) ⟨h.log, h.error⟩
    · exact h
  | connect peer =>
    rw [Server.happen, Server.welcome]
    split
    · have hw : (text "got client " ++ peerName peer).Inert :=
        .append (.literal (by decide)) (inert_peerName peer)
      have ht := IsInert.say (s := { s with peer := some peer, connection := {} })
        ⟨h.log, h.error⟩ hw .info
      exact ⟨ht.log, ht.error⟩
    · exact h
  | deliver bs => exact h.change _
  | hangUp e => exact h.change _
  | breakWrites => exact h.change _
  | shutDown => exact ⟨h.log, h.error⟩

theorem IsInert.after (h : s.IsInert) (hs : IsSound spec bound s) (hsc : spec.script = none)
    (xs : List Happening) : (s.after xs).IsInert := by
  induction xs generalizing s with
  | nil => exact h
  | cons x xs ih => exact ih (h.happen hs hsc x) (sound_happen hs x)

theorem isInert_start (spec : ServerSpec) (hb : ∀ f, bound = .error f → f.Inert) :
    (start spec bound).IsInert := by
  have hnew : IsInert { spec } := ⟨List.forall_mem_nil _, fun _ h => nomatch h⟩
  cases bound with
  | error f => exact hnew.fail (hb f rfl)
  | ok => exact (hnew.say (.literal (by decide)) _).wait

end Server

theorem Session.inert_bind {host : Session} {port : Int} {f : Fault}
    (h : host.bind port = .error f) : f.Inert := by
  unfold bind at h
  split at h
  · cases h
    exact Fault.inert_of_visible (.literal (by decide))
  · split at h <;> cases h
    exact Fault.inert_system _

namespace Server

/-- A server without a script tells only what is inert, whatever its client does: in the records of
its run, at any time, and in the error that ends it. The same holds of the calls on a connection
one by one, whatever state the connection is in and whatever comes in between. -/
theorem records_and_errors_inert (spec : ServerSpec) (hsc : spec.script = none) (host : Session) :
    let new := start spec (host.bind spec.port)
    (∀ s, Reached spec (host.bind spec.port) s → ∃ hs, new.after hs = s) ∧
    (∀ hs, (new.after hs).IsInert ∧ (new.after hs).shutDownRecord.Inert) ∧
    ∀ (c : Connection) (es : List Connection.Event), ∀ x ∈ (c.turns es).1, x.IsInert := by
  intro new
  refine ⟨fun s h => h.exists_after, fun hs => ⟨?_, ?_⟩, fun c es => c.turns_isInert es⟩
  · have hnew : new.IsInert := isInert_start spec fun _ => Session.inert_bind
    exact hnew.after (sound_start spec _) hsc hs
  · exact Record.inert_mk (.literal (by decide)) ((inert_tag _).append (.literal (by decide)))

def forgery : Text := [80, 27, 91, 50, 74, 0x85, 0x2028, 39, 73]

def forgerySchedule : List Happening :=
  .connect 0 :: List.replicate 5 .work ++
    [.deliver ((forgery ++ [CodePoint.lf]).flatMap Utf8.encodePoint), .work]

theorem records_and_errors_inert_forgery :
    let s := (start { port := 14220 } (Session.bind {} 14220)).after forgerySchedule
    let f : Fault := .unexpectedLine Keyword.connect forgery
    ¬ forgery.Inert ∧ s.error = some f ∧ s.log.length = 9 ∧ (∀ r ∈ s.log, r.Inert) ∧ f.Inert ∧
      f.message = text "Expected CONNECT, got \"P\\x1b[2J\\x85\\u2028\x27I\"" := by
  have hf : ((start { port := 14220 } (Session.bind {} 14220)).after forgerySchedule).error =
      some (.unexpectedLine Keyword.connect forgery) := rfl
  have hforged : ¬ forgery.Inert := fun h => h 27 (by decide) (by decide)
  obtain ⟨-, hs, -⟩ := records_and_errors_inert { port := 14220 } rfl {}
  obtain ⟨hlog, herror⟩ := (hs forgerySchedule).1
  exact ⟨hforged, hf, rfl, hlog, herror _ hf, by decide +kernel⟩

end Server

end LineHandshake
