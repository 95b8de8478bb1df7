import LineHandshake.Proofs.Client
import LineHandshake.Proofs.Json.Limits
import LineHandshake.Proofs.MemoryPort

/-!
What a client can fail with, whatever its server sends. All that it looks at by itself fails as a
handshake error. Only the reader of JSON has limits of its own, on the digits of a whole number and
on depth, and a greeting that goes beyond them ends a handshake with the reader's fault.
-/

namespace LineHandshake

/-- What goes wrong at a port is an error of the port. -/
structure LinePort.FailsByItself {σ : Type} (port : LinePort σ) : Prop where
  readLine : ∀ s f, (port.readLine s).1 = .error f → ∃ e, f = .port e
  write : ∀ bs s f, (port.write bs s).1 = .error f → ∃ e, f = .port e

theorem MemoryPort.failsByItself : linePort.FailsByItself := by
  constructor
  · intro p f h
    simp only [linePort, MemoryPort.readLine] at h
    split at h
    · cases h
    · split at h <;> cases h
      exact ⟨_, rfl⟩
  · intro bs p f h
    simp only [linePort, MemoryPort.write] at h
    split at h <;> cases h
    exact ⟨_, rfl⟩

namespace Task

variable {σ α β : Type} {P : Fault → Prop}

def FailsOnly (P : Fault → Prop) (x : Task Fault σ α) : Prop := ∀ q f, (x q).1 = .error f → P f

theorem failsOnly_pure (a : α) : FailsOnly P (pure a : Task Fault σ α) := nofun

theorem failsOnly_log (level : Level) (source : String) (message : Text) :
    FailsOnly P (log level source message : Task Fault σ Unit) := nofun

theorem bind_error {x : Task Fault σ α} {f : α → Task Fault σ β} {q : σ × Log} {e : Fault}
    (h : ((x >>= f) q).1 = .error e) :
    (x q).1 = .error e ∨ ∃ a q', x q = (.ok a, q') ∧ (f a q').1 = .error e := by
  rw [bind_apply] at h
  generalize x q = r at h
  obtain ⟨e' | a, q'⟩ := r
  · exact .inl (congrArg Except.error (Except.error.inj h))
  · exact .inr ⟨a, q', rfl, h⟩

theorem bind_of_error {x : Task Fault σ α} {q : σ × Log} {e : Fault} (h : (x q).1 = .error e)
    (f : α → Task Fault σ β) : ((x >>= f) q).1 = .error e := by
  rw [bind_apply]
  generalize x q = r at h
  obtain ⟨e' | a, q'⟩ := r
  · exact congrArg Except.error (Except.error.inj h)
  · cases h

theorem FailsOnly.bind {x : Task Fault σ α} {f : α → Task Fault σ β} (hx : x.FailsOnly P)
    (hf : ∀ a, (f a).FailsOnly P) : (x >>= f).FailsOnly P := by
  intro q e h
  rcases bind_error h with h | ⟨a, q', -, h⟩
  · exact hx q e h
  · exact hf a q' e h

end Task

namespace Client

variable {σ : Type} {port : LinePort σ} {s : σ} {line : Text} {e : Json.ReadError}

def IsHandshakeError (f : Fault) : Prop := ∃ x, f = .handshake x

theorem readLine_failsOnly (hport : port.FailsByItself) :
    (readLine port).FailsOnly IsHandshakeError := by
  rintro ⟨s, l⟩ f h
  obtain ⟨l', hl⟩ := readLine_eq_lineOf port s l
  have hp := hport.readLine s
  rw [hl] at h
  generalize (port.readLine s).1 = r at h hp
  cases r with
  | error e =>
    obtain ⟨e, rfl⟩ := hp e rfl
    cases h
    exact ⟨_, rfl⟩
  | ok got =>
    simp only [lineOf] at h
    split at h
    · cases h
      exact ⟨_, rfl⟩
    · cases hd : Utf8.decode got <;> rw [hd] at h <;> cases h
      exact ⟨_, rfl⟩

theorem writeLine_failsOnly (hport : port.FailsByItself) {bs : Bytes}
    (hl : Utf8.encode line = .ok bs) : (writeLine port line).FailsOnly IsHandshakeError := by
  rintro ⟨s, l⟩ f h
  have hp := hport.write bs s
  simp only [writeLine, hl, Task.bind_apply, Task.step_apply] at h
  generalize port.write bs s = r at h hp
  obtain ⟨e | _, s'⟩ := r
  · obtain ⟨e, rfl⟩ := hp e rfl
    cases h
    exact ⟨_, rfl⟩
  · cases h

theorem sendConnect_failsOnly (hport : port.FailsByItself) (options : Option Json.Members) :
    (sendConnect port (options.map .obj)).FailsOnly IsHandshakeError := by
  obtain ⟨bs, hl⟩ := encode_connectLine options
  exact (writeLine_failsOnly hport hl).bind fun _ => Task.failsOnly_log _ _ _

theorem sendPing_failsOnly (hport : port.FailsByItself) :
    (sendPing port).FailsOnly IsHandshakeError := writeLine_failsOnly hport encode_pingLine

theorem reply_failsOnly (line : Text) :
    (Task.lift (reply line) : Task Fault σ Unit).FailsOnly IsHandshakeError := by
  intro q f h
  rw [Task.lift_apply] at h
  dsimp only [reply] at h
  split at h
  · cases h
    exact ⟨_, rfl⟩
  · split at h <;> cases h
    exact ⟨_, rfl⟩

theorem waitPong_failsOnly (hport : port.FailsByItself) :
    (waitPong port).FailsOnly IsHandshakeError :=
  (readLine_failsOnly hport).bind fun line =>
    (reply_failsOnly line).bind fun _ => Task.failsOnly_log _ _ _

theorem rest_failsOnly (hport : port.FailsByItself) (options : Option Json.Members)
    (info : Json.Members) :
    (do
      sendConnect port (options.map .obj)
      sendPing port
      waitPong port
      return ⟨serverId info, info⟩ : Task Fault σ ServerInfo).FailsOnly IsHandshakeError :=
  (sendConnect_failsOnly hport options).bind fun _ =>
    (sendPing_failsOnly hport).bind fun _ =>
      (waitPong_failsOnly hport).bind fun _ => Task.failsOnly_pure _

/-- A greeting whose payload is beyond a limit of the reader. -/
def Overtaxes [Json.Stack] (line : Text) (e : Json.ReadError) : Prop :=
  e.IsLimit ∧ ∃ payload, Line.decode line = .ok (Keyword.info, payload) ∧
    Json.read payload = .error e

theorem greeting_error [Json.Stack] {f : Fault} (h : greeting line = .error f) :
    IsHandshakeError f ∨ ∃ e, f = .unreadable e ∧ Overtaxes line e := by
  unfold greeting at h
  split at h
  · cases h
    exact .inl ⟨_, rfl⟩
  · next keyword payload hl =>
    split at h
    · cases h
      exact .inl ⟨_, rfl⟩
    · next hk =>
      obtain rfl : keyword = Keyword.info := not_not.1 hk
      -- the line is one of INFO, so only its payload can be wrong
      split at h
      · cases h
        exact .inl ⟨_, rfl⟩
      · next hf =>
        rcases Greeting.decodeInfo_error h with ⟨e, rfl⟩ | ⟨e, rfl, he, hr⟩
        · exact absurd h (hf e)
        · exact .inr ⟨e, rfl, he, payload, hl, hr⟩

theorem greeting_of_overtaxes [Json.Stack] (h : Overtaxes line e) :
    greeting line = .error (.unreadable e) := by
  obtain ⟨he, payload, hl, hr⟩ := h
  simp only [greeting, hl, Greeting.decodeInfo_of_limit he hr, ne_eq, not_true, if_false]

theorem readLine_eq_ok_iff {l : Log} : (readLine port (s, l)).1 = .ok line ↔
    ∃ got, (port.readLine s).1 = .ok got ∧ Line.crlfBytes <:+ got ∧ Utf8.decode got = .ok line := by
  obtain ⟨l', hl⟩ := readLine_eq_lineOf port s l
  rw [hl, lineOf_eq_ok_iff]

/-- What a client gets to read at `s` is a greeting that is beyond a limit. -/
def IsOvertaxed [Json.Stack] (port : LinePort σ) (s : σ) (e : Json.ReadError) : Prop :=
  ∃ got line, (port.readLine s).1 = .ok got ∧ Line.crlfBytes <:+ got ∧
    Utf8.decode got = .ok line ∧ Overtaxes line e

theorem readInfo_error [Json.Stack] (hport : port.FailsByItself) {l : Log} {f : Fault}
    (h : (readInfo port (s, l)).1 = .error f) :
    IsHandshakeError f ∨ ∃ e, f = .unreadable e ∧ IsOvertaxed port s e := by
  rcases Task.bind_error h with h | ⟨line, q, hl, h⟩
  · exact .inl (readLine_failsOnly hport _ f h)
  · rcases Task.bind_error h with h | ⟨info, q', -, h⟩
    · rcases greeting_error h with h | ⟨e, rfl, he⟩
      · exact .inl h
      · obtain ⟨got, hg, hs, hd⟩ := readLine_eq_ok_iff.1 (congrArg Prod.fst hl)
        exact .inr ⟨e, rfl, got, line, hg, hs, hd, he⟩
    · cases h

theorem readInfo_bind_error [Json.Stack] (hport : port.FailsByItself) {α : Type}
    {next : Json.Members → Task Fault σ α} (hn : ∀ info, (next info).FailsOnly IsHandshakeError)
    {l : Log} {f : Fault} (h : ((readInfo port >>= next) (s, l)).1 = .error f) :
    IsHandshakeError f ∨ ∃ e, f = .unreadable e ∧ IsOvertaxed port s e := by
  rcases Task.bind_error h with h | ⟨info, q, -, h⟩
  · exact readInfo_error hport h
  · exact .inl (hn info q f h)

theorem readInfo_of_overtaxed [Json.Stack] (h : IsOvertaxed port s e) (l : Log) :
    (readInfo port (s, l)).1 = .error (.unreadable e) := by
  obtain ⟨got, line, hg, hs, hd, he⟩ := h
  have hl : (readLine port (s, l)).1 = .ok line := readLine_eq_ok_iff.2 ⟨got, hg, hs, hd⟩
  rw [readInfo, Task.bind_apply]
  generalize readLine port (s, l) = r at hl
  obtain ⟨_, q⟩ := r
  cases hl
  simp only [Task.bind_apply, Task.lift_apply, greeting_of_overtaxes he]

def Call.IsOfHandshake : Call → Prop
  | .readLine | .readInfo | .sendPing | .waitPong => True
  | .sendConnect options | .handshake options =>
    ∃ members : Option Json.Members, options = members.map .obj
  | .writeLine _ | .close => False

def Call.ReadsInfo : Call → Prop
  | .readInfo | .handshake _ => True
  | _ => False

theorem failsOnly_result {α : Type} {x : Task Fault σ α} (hx : x.FailsOnly IsHandshakeError)
    (make : α → Result) : (x >>= fun a => pure (make a)).FailsOnly IsHandshakeError :=
  hx.bind fun _ => Task.failsOnly_pure _

/-- Whatever a server sends, a call of the handshake fails with a handshake error, but for a
greeting beyond a limit of the reader. -/
theorem call_error_cases [Json.Stack] (hport : port.FailsByItself) {c : Call}
    (hc : c.IsOfHandshake) (s : σ) (l : Log) :
    (∀ f, (call port c (s, l)).1 = .error f → IsHandshakeError f ∨
      ∃ e, f = .unreadable e ∧ c.ReadsInfo ∧ IsOvertaxed port s e) ∧
    ∀ e, c.ReadsInfo → IsOvertaxed port s e →
      (call port c (s, l)).1 = .error (.unreadable e) := by
  -- for the two calls that read a greeting; the others have handshake errors only
  have hread : ∀ f, (IsHandshakeError f ∨ ∃ e, f = .unreadable e ∧ IsOvertaxed port s e) →
      c.ReadsInfo →
      IsHandshakeError f ∨ ∃ e, f = .unreadable e ∧ c.ReadsInfo ∧ IsOvertaxed port s e := by
    rintro f (h | ⟨e, rfl, he⟩) hi
    · exact .inl h
    · exact .inr ⟨e, rfl, hi, he⟩
  cases c with
  | readLine =>
    refine ⟨?_, fun e he => he.elim⟩
    exact fun f h => .inl (failsOnly_result (readLine_failsOnly hport) _ _ f h)
  | sendPing =>
    refine ⟨?_, fun e he => he.elim⟩
    exact fun f h => .inl (failsOnly_result (sendPing_failsOnly hport) _ _ f h)
  | waitPong =>
    refine ⟨?_, fun e he => he.elim⟩
    exact fun f h => .inl (failsOnly_result (waitPong_failsOnly hport) _ _ f h)
  | sendConnect options =>
    obtain ⟨members, rfl⟩ := hc
    refine ⟨?_, fun e he => he.elim⟩
    exact fun f h => .inl (failsOnly_result (sendConnect_failsOnly hport members) _ _ f h)
  | readInfo =>
    refine ⟨?_, fun e _ he => Task.bind_of_error (readInfo_of_overtaxed he l) _⟩
    intro f h
    exact hread f (readInfo_bind_error hport (fun _ => Task.failsOnly_pure _) h) trivial
  | handshake options =>
    obtain ⟨members, rfl⟩ := hc
    refine ⟨?_, fun e _ he =>
      Task.bind_of_error (Task.bind_of_error (readInfo_of_overtaxed he l) _) _⟩
    intro f h
    rcases Task.bind_error h with h | ⟨info, q, -, h⟩
    · exact hread f (readInfo_bind_error hport (rest_failsOnly hport members) h) trivial
    · cases h
  | writeLine line => exact hc.elim
  | close => exact hc.elim

theorem isOvertaxed_nested [Json.Stack] {n : Nat} (h : Json.maxDepth < n) :
    IsOvertaxed MemoryPort.linePort
      { incoming := [73, 78, 70, 79, 32] ++ List.replicate n 91 ++ Line.crlfBytes }
      (.tooDeep .array) := by
  have hl : MemoryPort.IsLine ([73, 78, 70, 79, 32] ++ List.replicate n 91 ++ Line.crlfBytes) := by
    apply MemoryPort.isLine_append_crlf
    simp [List.mem_replicate]
  have hb : Utf8.encode (List.replicate n CodePoint.openBracket) = .ok (List.replicate n 91) := by
    have hp : Utf8.encodePoint CodePoint.openBracket = [91] := by decide
    rw [Utf8.encode_of_no_surrogate, List.flatMap_replicate, hp, List.flatten_replicate_singleton]
    intro c hc
    rw [List.eq_of_mem_replicate hc]
    decide
  have he : Utf8.encode (text "INFO " ++ List.replicate n CodePoint.openBracket ++ Line.crlf) =
      .ok ([73, 78, 70, 79, 32] ++ List.replicate n 91 ++ Line.crlfBytes) :=
    Utf8.encode_append (Utf8.encode_append (by decide) hb) (by decide)
  have hn : List.replicate n CodePoint.openBracket ≠ [] := by
    rw [ne_eq, List.replicate_eq_nil_iff]
    omega
  have hd : Line.decode (Line.encode Keyword.info
      (some (List.replicate n CodePoint.openBracket))) =
      .ok (Keyword.info, List.replicate n CodePoint.openBracket) := by
    refine Line.decode_encode_some (by decide) hn ?_
    intro c hc
    rw [List.eq_of_mem_replicate (List.mem_of_getLast? hc)]
    decide
  rw [Line.encode_some hn] at hd
  refine ⟨_, _, ?_, List.suffix_append _ _, Utf8.decode_encode he, trivial, _, hd,
    Json.read_nested h⟩
  rw [MemoryPort.readLine_of_line (List.append_nil _).symm hl]

theorem call_error_cases_nested :
    let p : MemoryPort :=
      { incoming := [73, 78, 70, 79, 32] ++ List.replicate 4000 91 ++ Line.crlfBytes }
    (call MemoryPort.linePort .readInfo (p, [])).1 = .error (.unreadable (.tooDeep .array)) ∧
      (call MemoryPort.linePort (.handshake none) (p, [])).1 =
        .error (.unreadable (.tooDeep .array)) ∧
      ∀ f, (call MemoryPort.linePort .waitPong (p, [])).1 = .error f → IsHandshakeError f := by
  intro p
  have ho : IsOvertaxed MemoryPort.linePort p (.tooDeep .array) :=
    isOvertaxed_nested (by decide)
  refine ⟨?_, ?_, ?_⟩
  · exact (call_error_cases MemoryPort.failsByItself (c := .readInfo) trivial p []).2 _ trivial ho
  · exact (call_error_cases MemoryPort.failsByItself (c := .handshake none) ⟨none, rfl⟩ p []).2 _
      trivial ho
  · intro f h
    rcases (call_error_cases MemoryPort.failsByItself (c := .waitPong) trivial p []).1 f h with
      h | ⟨e, -, hr, -⟩
    · exact h
    · exact hr.elim

end Client

end LineHandshake
