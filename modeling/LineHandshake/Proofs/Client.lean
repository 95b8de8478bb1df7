import LineHandshake.Client
import LineHandshake.Proofs.Exchange
import LineHandshake.Proofs.Greeting

/-!
The steps of a client's handshake on any port, one equation for each way that a step can go with a
server that keeps to the protocol: the line comes or the connection is gone.
-/

namespace LineHandshake.Client

variable {σ : Type} {port : LinePort σ} {s s' : σ}

def greetingMembers : Json.Members := [(text "server_id", .str (text "test"))]

def lineOf : Except Fault Bytes → Except Fault Text
  | .error (.port e) => .error (.handshake (.connectionLost e))
  | .error f => .error f
  | .ok got =>
    if !Line.crlfBytes.isSuffixOf got then .error (.handshake (.timeout got))
    else (Utf8.decode got).mapError fun e => .handshake (.undecodable e)

theorem readLine_eq_lineOf (port : LinePort σ) (s : σ) (l : Log) :
    ∃ l', readLine port (s, l) = (lineOf (port.readLine s).1, ((port.readLine s).2, l')) := by
  simp only [readLine, Task.bind_apply, Task.step_apply]
  generalize port.readLine s = r
  obtain ⟨f | got, s'⟩ := r
  · cases f <;> exact ⟨l, rfl⟩
  · simp only [lineOf]
    split
    · exact ⟨l, rfl⟩
    · cases Utf8.decode got <;> exact ⟨_, rfl⟩

theorem lineOf_eq_ok_iff {r : Except Fault Bytes} {line : Text} : lineOf r = .ok line ↔
    ∃ got, r = .ok got ∧ Line.crlfBytes <:+ got ∧ Utf8.decode got = .ok line := by
  cases r with
  | error f => cases f <;> simp [lineOf]
  | ok got =>
    by_cases hs : Line.crlfBytes <:+ got
    · have hb := List.isSuffixOf_iff_suffix.2 hs
      cases hd : Utf8.decode got <;> simp [lineOf, hb, hs, hd, Except.mapError]
    · have hb := Bool.eq_false_iff.2 (mt List.isSuffixOf_iff_suffix.1 hs)
      simp [lineOf, hb, hs]

theorem readLine_of_line {got : Bytes} {line : Text} (h : port.readLine s = (.ok got, s'))
    (hs : Line.crlfBytes.isSuffixOf got = true) (hd : Utf8.decode got = .ok line) (l : Log) :
    ∃ l', readLine port (s, l) = (.ok line, (s', l')) := by
  have hl : lineOf (.ok got) = .ok line :=
    lineOf_eq_ok_iff.2 ⟨got, rfl, List.isSuffixOf_iff_suffix.1 hs, hd⟩
  have hr := readLine_eq_lineOf port s l
  rwa [h, hl] at hr

theorem readLine_of_error {e : PortError} (h : port.readLine s = (.error (.port e), s'))
    (l : Log) :
    readLine port (s, l) = (.error (.handshake (.connectionLost e)), (s', l)) := by
  simp only [readLine, Task.bind_apply, Task.step_apply, h]
  rfl

theorem writeLine_of_ok {bs : Bytes} {line : Text} (hl : Utf8.encode line = .ok bs)
    (h : port.write bs s = (.ok (), s')) (l : Log) :
    ∃ l', writeLine port line (s, l) = (.ok (), (s', l')) := by
  simp only [writeLine, hl, Task.bind_apply, Task.step_apply, h]
  exact ⟨_, rfl⟩

theorem writeLine_of_error {bs : Bytes} {line : Text} {e : PortError}
    (hl : Utf8.encode line = .ok bs) (h : port.write bs s = (.error (.port e), s')) (l : Log) :
    writeLine port line (s, l) = (.error (.handshake (.writeFailed e)), (s', l)) := by
  simp only [writeLine, hl, Task.bind_apply, Task.step_apply, h]
  rfl

theorem regular_greeting : Json.Regular 1 (.obj greetingMembers) := by
  refine .obj (by decide) ?_ ?_
  · refine List.forall_mem_singleton.2 ?_
    exact Text.Visible.unpaired (.of_all (by decide))
  · refine List.forall_mem_singleton.2 ?_
    exact .str (Text.Visible.unpaired (.of_all (by decide)))

theorem greeting_serverInfo [Json.Stack] (hd : 0 < Json.maxDepth) :
    greeting (Greeting.encodeInfo Greeting.serverInfo) = .ok greetingMembers := by
  have hl : Line.decode (Greeting.encodeInfo Greeting.serverInfo) =
      .ok (Keyword.info, (Json.obj greetingMembers).print) :=
    Greeting.line_decode_encodeInfo greetingMembers
  have hi := Greeting.decodeInfo_print regular_greeting hd
  simp only [greeting, hl, hi, ne_eq, not_true, if_false]

theorem reply_pong : reply (Line.encode Keyword.pong none) = .ok () := by decide

theorem readInfo_of_line [Json.Stack] (hd : 0 < Json.maxDepth)
    (h : port.readLine s = (.ok Connection.greetingBytes, s')) (l : Log) :
    ∃ l', readInfo port (s, l) = (.ok greetingMembers, (s', l')) := by
  obtain ⟨l', hr⟩ := readLine_of_line h (by decide)
    (Utf8.decode_encode Connection.encode_greeting) l
  simp only [readInfo, Task.bind_apply, hr, Task.lift_apply, greeting_serverInfo hd]
  exact ⟨_, rfl⟩

theorem readInfo_of_error [Json.Stack] {e : PortError}
    (h : port.readLine s = (.error (.port e), s')) (l : Log) :
    readInfo port (s, l) = (.error (.handshake (.connectionLost e)), (s', l)) := by
  simp only [readInfo, Task.bind_apply, readLine_of_error h]

theorem waitPong_of_line (h : port.readLine s = (.ok Connection.pongBytes, s')) (l : Log) :
    ∃ l', waitPong port (s, l) = (.ok (), (s', l')) := by
  obtain ⟨l', hr⟩ := readLine_of_line h (by decide)
    (Utf8.decode_encode Connection.encode_pong) l
  simp only [waitPong, Task.bind_apply, hr, Task.lift_apply, reply_pong]
  exact ⟨_, rfl⟩

theorem waitPong_of_error {e : PortError} (h : port.readLine s = (.error (.port e), s'))
    (l : Log) :
    waitPong port (s, l) = (.error (.handshake (.connectionLost e)), (s', l)) := by
  simp only [waitPong, Task.bind_apply, readLine_of_error h]

def connectLine (options : Option Json) : Text :=
  Line.encode Keyword.connect (some (options.getD Greeting.defaultOptions).print)

def pingLine : Text := Line.encode Keyword.ping none

theorem exists_members (options : Option Json.Members) :
    ∃ members, (options.map Json.obj).getD Greeting.defaultOptions = .obj members := by
  cases options with
  | none => exact ⟨_, rfl⟩
  | some members => exact ⟨members, rfl⟩

theorem encode_connectLine (options : Option Json.Members) :
    ∃ bs, Utf8.encode (connectLine (options.map .obj)) = .ok bs := by
  obtain ⟨members, hm⟩ := exists_members options
  rw [connectLine, hm]
  exact ⟨_, Line.encode_encode_some (Keyword.visible (.tail _ (.head _)))
    (Json.visible_print (.obj members)) (Greeting.print_obj_ne_nil members)⟩

def pingBytes : Bytes := (text "PING\r\n").flatMap Utf8.encodePoint

theorem encode_pingLine : Utf8.encode pingLine = .ok pingBytes := by decide

theorem sendPing_eq (port : LinePort σ) : sendPing port = writeLine port pingLine := rfl

variable {options : Option Json} {connect ping : Bytes}

theorem sendConnect_of_ok (hl : Utf8.encode (connectLine options) = .ok connect)
    (h : port.write connect s = (.ok (), s')) (l : Log) :
    ∃ l', sendConnect port options (s, l) = (.ok (), (s', l')) := by
  obtain ⟨l', hw⟩ := writeLine_of_ok hl h l
  rw [connectLine] at hw
  simp only [sendConnect, Task.bind_apply, hw]
  exact ⟨_, rfl⟩

theorem sendConnect_of_error {e : PortError} (hl : Utf8.encode (connectLine options) = .ok connect)
    (h : port.write connect s = (.error (.port e), s')) (l : Log) :
    sendConnect port options (s, l) = (.error (.handshake (.writeFailed e)), (s', l)) := by
  have hw := writeLine_of_error hl h l
  rw [connectLine] at hw
  simp only [sendConnect, Task.bind_apply, hw]

end LineHandshake.Client
