import LineHandshake.Proofs.ClientFaults
import LineHandshake.Proofs.Reports
import LineHandshake.Session.Dialled

/-!
What a client tells of its server. In every error and in every record but one it quotes what it
read. The record of a greeting shows the name that the server gives itself as it is, so a server
whose name is not inert writes what it likes into the log of its client, and only such a server.
-/

namespace LineHandshake

open Text (Inert Visible)

structure LinePort.FailsInertly {σ : Type} (port : LinePort σ) : Prop where
  readLine : ∀ s f, (port.readLine s).1 = .error f → f.Inert
  write : ∀ bs s f, (port.write bs s).1 = .error f → f.Inert

theorem MemoryPort.failsInertly : linePort.FailsInertly := by
  constructor
  · intro p f h
    simp only [linePort, MemoryPort.readLine] at h
    split at h
    · cases h
    · split at h <;> cases h
      exact Fault.inert_port (by simp)
  · intro bs p f h
    simp only [linePort, MemoryPort.write] at h
    split at h <;> cases h
    exact Fault.inert_port (by simp)

namespace Session

theorem inert_onLine {α : Type} {g : Nat}
    {act : Guest → Dialled → Session → Except Fault α × Session} {s : Session} {f : Fault}
    (ha : ∀ guest line, (act guest line s).1 = .error f → f.Inert)
    (h : (s.onLine g act).1 = .error f) : f.Inert := by
  have hclosed : (Fault.port .notOpen).Inert := Fault.inert_port (by simp)
  unfold onLine at h
  split at h
  · cases h
    exact hclosed
  · split at h
    · cases h
      exact hclosed
    · split at h
      · exact ha _ _ h
      · cases h
        exact hclosed

theorem linePort_failsInertly (g : Nat) : (linePort g).FailsInertly := by
  have hlimit : Fault.limitTooLarge.Inert := Fault.inert_of_visible (.literal (by decide))
  constructor
  · intro s f h
    simp only [linePort, readThrough] at h
    split at h
    · cases h
      exact hlimit
    · refine inert_onLine (fun guest line h => ?_) h
      dsimp only at h
      split at h <;> cases h
      exact Fault.inert_port (by simp)
  · intro bs s f h
    refine inert_onLine (fun guest line h => ?_) h
    dsimp only at h
    split at h
    · cases h
      exact hlimit
    · split at h
      · cases h
      · split at h
        · cases h
          exact Fault.inert_port (by simp)
        · dsimp only at h
          split at h <;> cases h
          exact Fault.inert_port (by simp)

end Session

theorem Line.inert_decode {line : Text} {e : FormatError} (h : Line.decode line = .error e) :
    e.message.Inert := by
  unfold decode at h
  split at h <;> cases h
  exact .literal (by decide)

theorem Greeting.inert_decodeInfo [Json.Stack] {payload : Text} {f : Fault}
    (h : decodeInfo payload = .error f) : f.Inert := by
  unfold decodeInfo at h
  split at h
  · next e _ =>
    cases h
    exact Fault.inert_of_visible ((Visible.literal (by decide)).append e.visible_message)
  · next e _ _ =>
    cases h
    exact Fault.inert_of_visible e.visible_message
  · cases h
  · next v _ _ =>
    cases h
    exact Fault.inert_of_visible ((Visible.literal (by decide)).append v.visible_typeName)

theorem Json.inert_plain (v : Json) : v.plain.Inert ∨ ∃ t, v = .str t := by
  cases v with
  | str t => exact .inr ⟨t, rfl⟩
  | _ => exact .inl (inert_shown _)

namespace Client

variable {σ : Type} {port : LinePort σ} {s : σ} {q : σ × Log} {line t : Text} {f : Fault}

theorem inert_unexpected {expected : Text} (h : expected.Visible) (got : Text) :
    (Fault.handshake (.unexpectedKeyword expected got)).Inert := by
  have hhead : (text "Client: expected " ++ expected ++ text ", got ").Visible :=
    ((Visible.literal (by decide)).append h).append (.literal (by decide))
  exact hhead.inert.append (Text.inert_quoted _)

theorem inert_badGreeting {e : FormatError} (h : e.message.Inert) :
    (Fault.handshake (.badGreeting e)).Inert :=
  Inert.append (.literal (by decide)) h

theorem inert_greeting [Json.Stack] (h : greeting line = .error f) : f.Inert := by
  unfold greeting at h
  split at h
  · next e he =>
    cases h
    exact inert_badGreeting (Line.inert_decode he)
  · split at h
    · cases h
      exact inert_unexpected (Keyword.visible (.head _)) _
    · split at h
      · next e he =>
        cases h
        exact inert_badGreeting (Greeting.inert_decodeInfo he)
      · exact Greeting.inert_decodeInfo h

theorem inert_reply (h : reply line = .error f) : f.Inert := by
  unfold reply at h
  split at h
  · next e he =>
    cases h
    exact Inert.append (.literal (by decide)) (Line.inert_decode he)
  · split at h <;> cases h
    exact inert_unexpected (Keyword.visible (by decide)) _

theorem reports_log {level : Level} {message : Text} (h : message.Inert) :
    (Task.log level source message : Task Fault σ Unit).Reports Fault.Inert Record.Inert q :=
  Task.reports_log (Record.inert_mk (.literal (by decide)) h)

theorem reports_readLine (hport : port.FailsInertly) :
    (readLine port).Reports Fault.Inert Record.Inert q := by
  refine .bind (Task.reports_step fun _ h => nomatch h) fun r q' hr => ?_
  rw [Task.step_apply] at hr
  have hp := hport.readLine q.1
  cases hr
  split
  · next e he =>
    exact Task.reports_fail (Inert.append (.literal (by decide)) (hp _ he))
  · next he =>
    exact Task.reports_fail (hp _ he)
  · next got _ =>
    split
    · refine Task.reports_fail (Visible.inert ?_)
      exact ((Visible.literal (by decide)).append (Bytes.visible_quoted got)).append
        (.literal (by decide))
    · split
      · next e _ =>
        exact Task.reports_fail
          (Visible.inert ((Visible.literal (by decide)).append e.visible_message))
      · refine .bind (reports_log ?_) fun _ _ _ => Task.reports_pure _
        exact Inert.append (.literal (by decide)) (Text.inert_quoted _)

theorem reports_writeLine (hport : port.FailsInertly) (line : Text) :
    (writeLine port line).Reports Fault.Inert Record.Inert q := by
  unfold writeLine
  split
  · next e _ => exact Task.reports_fail (Fault.inert_unencodable e)
  · next bs _ =>
    refine .bind (Task.reports_step fun _ h => nomatch h) fun r q' hr => ?_
    rw [Task.step_apply] at hr
    have hp := hport.write bs q.1
    cases hr
    split
    · next e he =>
      exact Task.reports_fail (Inert.append (.literal (by decide)) (hp _ he))
    · next he =>
      exact Task.reports_fail (hp _ he)
    · exact reports_log (Inert.append (.literal (by decide)) (Text.inert_quoted _))

theorem reports_sendConnect (hport : port.FailsInertly) (options : Option Json) :
    (sendConnect port options).Reports Fault.Inert Record.Inert q :=
  .bind (reports_writeLine hport _) fun _ _ _ => reports_log (.literal (by decide))

theorem reports_sendPing (hport : port.FailsInertly) :
    (sendPing port).Reports Fault.Inert Record.Inert q := reports_writeLine hport _

theorem reports_waitPong (hport : port.FailsInertly) :
    (waitPong port).Reports Fault.Inert Record.Inert q :=
  .bind (reports_readLine hport) fun _ _ _ =>
    .bind (Task.reports_lift fun _ => inert_reply) fun _ _ _ =>
      reports_log (.literal (by decide))

def greetedRecord (t : Text) : Record :=
  ⟨.info, text "client.handshake", text "Client: received INFO (server_id=" ++ t ++ text ")"⟩

theorem inert_greetedRecord_iff : (greetedRecord t).Inert ↔ t.Inert := by
  have hhead : (text "Client: received INFO (server_id=").Inert := .literal (by decide)
  have hend : (text ")").Inert := .literal (by decide)
  refine ⟨fun h => ?_, fun h => ?_⟩
  · exact (Text.inert_append_iff.1 (Text.inert_append_iff.1 h.message).1).2
  · exact Record.inert_mk (.literal (by decide)) ((hhead.append h).append hend)

/-- What a client gets to read at `s` is a greeting in which the server names itself `t`. -/
def IsGreetedBy [Json.Stack] (port : LinePort σ) (s : σ) (t : Text) : Prop :=
  ∃ got line info, (port.readLine s).1 = .ok got ∧ Line.crlfBytes <:+ got ∧
    Utf8.decode got = .ok line ∧ greeting line = .ok info ∧ serverId info = .str t

def IsTold [Json.Stack] (port : LinePort σ) (s : σ) (x : Record) : Prop :=
  x.Inert ∨ ∃ t, IsGreetedBy port s t ∧ ¬ t.Inert ∧ x = greetedRecord t

theorem reports_readInfo [Json.Stack] (hport : port.FailsInertly) (s : σ) (l : Log) :
    (readInfo port).Reports Fault.Inert (IsTold port s) (s, l) := by
  refine .bind ((reports_readLine hport).imp fun _ => .inl) fun line q hl => ?_
  refine .bind (Task.reports_lift fun _ => inert_greeting) fun info q' hi => ?_
  refine .bind (Task.reports_log ?_) fun _ _ _ => Task.reports_pure _
  by_cases hplain : (serverId info).plain.Inert
  · exact .inl (inert_greetedRecord_iff.2 hplain)
  · obtain ⟨t, ht⟩ := (serverId info).inert_plain.resolve_left hplain
    obtain ⟨got, hg, hs, hd⟩ := readLine_eq_ok_iff.1 (congrArg Prod.fst hl)
    rw [ht] at hplain ⊢
    exact .inr ⟨t, ⟨got, line, info, hg, hs, hd, congrArg Prod.fst hi, ht⟩, hplain, rfl⟩

theorem greetedRecord_mem_readInfo [Json.Stack] (h : IsGreetedBy port s t) (l : Log) :
    greetedRecord t ∈ (readInfo port (s, l)).2.2 := by
  obtain ⟨got, line, info, hg, hs, hd, hi, ht⟩ := h
  have hl : (readLine port (s, l)).1 = .ok line := readLine_eq_ok_iff.2 ⟨got, hg, hs, hd⟩
  rw [readInfo, Task.bind_apply]
  generalize readLine port (s, l) = r at hl
  obtain ⟨_, q⟩ := r
  cases hl
  simp only [Task.bind_apply, Task.lift_apply, hi, ht]
  exact List.mem_append_right _ (.head _)

theorem reports_rest (hport : port.FailsInertly) (options : Option Json) (info : Json.Members) :
    (do
      sendConnect port options
      sendPing port
      waitPong port
      return ⟨serverId info, info⟩ : Task Fault σ ServerInfo).Reports
      Fault.Inert Record.Inert q :=
  .bind (reports_sendConnect hport options) fun _ _ _ =>
    .bind (reports_sendPing hport) fun _ _ _ =>
      .bind (reports_waitPong hport) fun _ _ _ => Task.reports_pure _

def Call.Logs [Json.Stack] (c : Call) (port : LinePort σ) (s : σ) (x : Record) : Prop :=
  x.Inert ∨ c.ReadsInfo ∧ ∃ t, IsGreetedBy port s t ∧ ¬ t.Inert ∧ x = greetedRecord t

theorem reports_call [Json.Stack] (hport : port.FailsInertly) {c : Call} (hc : c ≠ .close) (s : σ)
    (l : Log) : (call port c).Reports Fault.Inert (c.Logs port s) (s, l) := by
  have hinfo (hread : c.ReadsInfo) :
      (readInfo port).Reports Fault.Inert (c.Logs port s) (s, l) :=
    (reports_readInfo hport s l).imp fun _ hx => hx.imp_right (And.intro hread)
  have hplain {α : Type} {x : Task Fault σ α} (hx : x.Reports Fault.Inert Record.Inert (s, l))
      (make : α → Result) :
      (do return make (← x) : Task Fault σ Result).Reports Fault.Inert (c.Logs port s) (s, l) :=
    (hx.imp fun _ => .inl).returns make
  cases c with
  | readLine => exact hplain (reports_readLine hport) .line
  | writeLine line => exact hplain (reports_writeLine hport line) fun _ => .done
  | sendConnect options => exact hplain (reports_sendConnect hport options) fun _ => .done
  | sendPing => exact hplain (reports_sendPing hport) fun _ => .done
  | waitPong => exact hplain (reports_waitPong hport) fun _ => .done
  | readInfo => exact (hinfo trivial).returns Result.info
  | handshake options =>
    refine Task.Reports.returns ((hinfo trivial).bind fun info _ _ => ?_) Result.established
    exact (reports_rest hport options info).imp fun _ => .inl
  | close => exact absurd rfl hc

theorem greetedRecord_mem_call [Json.Stack] (hport : port.FailsInertly) {c : Call}
    (hc : c.ReadsInfo)
    (h : IsGreetedBy port s t) : greetedRecord t ∈ ((call port c).perform s).2.2 := by
  have hinfo := greetedRecord_mem_readInfo h []
  rw [Task.perform_apply]
  cases c with
  | readInfo => exact Task.mem_log_bind hinfo fun _ _ => id
  | handshake options =>
    refine Task.mem_log_bind (Task.mem_log_bind hinfo fun info _ => ?_) fun _ _ => id
    exact (reports_rest hport options info).keeps _
  | _ => exact hc.elim

/-- Whatever a server sends, its client tells only what is inert, in every error and in every
record but that of a greeting in which the server names itself by a text that is not inert. -/
theorem records_and_errors_inert_iff [Json.Stack] (hport : port.FailsInertly) {c : Call}
    (hc : c ≠ .close) (s : σ) :
    let r := (call port c).perform s
    (∀ f, r.1 = .error f → f.Inert) ∧
    (∀ x ∈ r.2.2, (x.Inert ∧ x.toText.lines = [x.toText]) ∨
      c.ReadsInfo ∧ ∃ t, IsGreetedBy port s t ∧ ¬ t.Inert ∧ x = greetedRecord t) ∧
    ((∀ x ∈ r.2.2, x.Inert) ↔ (c.ReadsInfo → ∀ t, IsGreetedBy port s t → t.Inert)) := by
  intro r
  obtain ⟨herror, hlog⟩ := (reports_call hport hc s []).perform
  refine ⟨herror, fun x hx => (hlog x hx).imp_left fun hi => ⟨hi, hi.lines⟩, ?_, ?_⟩
  · intro h hread t ht
    exact inert_greetedRecord_iff.1 (h _ (greetedRecord_mem_call hport hread ht))
  · intro h x hx
    rcases hlog x hx with hi | ⟨hread, t, ht, hnot, -⟩
    · exact hi
    · exact absurd (h hread t ht) hnot

def splitGreeting : Text := text "INFO \x7b\"server_id\":\"a\\nb\"\x7d\r\n"

def splitPort : MemoryPort := { incoming := splitGreeting.flatMap Utf8.encodePoint }

theorem isGreetedBy_split : IsGreetedBy MemoryPort.linePort splitPort [97, 10, 98] := by
  have hread : (MemoryPort.readLine splitPort).1 =
      .ok (splitGreeting.flatMap Utf8.encodePoint) := rfl
  have hgreeting : greeting splitGreeting = .ok [(text "server_id", .str [97, 10, 98])] := by
    decide +kernel
  exact ⟨_, _, _, hread, by decide, by decide, hgreeting, rfl⟩

theorem records_and_errors_inert_iff_split :
    (∀ f, ((call MemoryPort.linePort .readInfo).perform splitPort).1 = .error f → f.Inert) ∧
      ¬ (∀ x ∈ ((call MemoryPort.linePort .readInfo).perform splitPort).2.2, x.Inert) ∧
      greetedRecord [97, 10, 98] ∈ ((call MemoryPort.linePort .readInfo).perform splitPort).2.2 ∧
      (greetedRecord [97, 10, 98]).toText.lines =
        [text "INFO client.handshake: Client: received INFO (server_id=a\n", text "b)"] := by
  have hnot : ¬ Text.Inert [97, 10, 98] := fun h => h 10 (by decide) (by decide)
  obtain ⟨herror, -, hiff⟩ := records_and_errors_inert_iff MemoryPort.failsInertly
    (c := .readInfo) nofun splitPort
  refine ⟨herror, fun h => hnot (hiff.1 h trivial _ isGreetedBy_split), ?_, by decide +kernel⟩
  exact greetedRecord_mem_call (c := .readInfo) MemoryPort.failsInertly trivial isGreetedBy_split

end Client

end LineHandshake
