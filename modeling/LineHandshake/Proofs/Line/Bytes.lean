import LineHandshake.Proofs.ClientGrammar
import LineHandshake.Proofs.Utf8.Sequences

/-!
A line taken apart from its bytes, and from its text. The bytes that are refused for their encoding
are exactly those that no text has for its encoding. On all others the two ways agree, and so does
a client, which makes a text of the line it has read before it takes it apart: it gets the same two
parts, and fails where the bytes by themselves are refused.
-/

namespace LineHandshake

namespace Line

variable {s : Text} {b : Bytes}

theorem decodeBytes_of_encode (h : Utf8.encode s = .ok b) : decodeBytes b = decode s := by
  simp only [decodeBytes, Utf8.decode_encode h]

theorem decode_ne_notUtf8 (s : Text) (e : Utf8.DecodeError) : decode s ≠ .error (.notUtf8 e) := by
  unfold decode
  split <;> nofun

theorem decodeBytes_eq_ok_iff {parts : Text × Text} : decodeBytes b = .ok parts ↔
    ∃ line, Utf8.decode b = .ok line ∧ decode line = .ok parts := by
  unfold decodeBytes
  cases Utf8.decode b with
  | error e => simp
  | ok line => simp

theorem decodeBytes_notUtf8_iff :
    (∃ e, decodeBytes b = .error (.notUtf8 e)) ↔ ¬ ∃ s, Utf8.encode s = .ok b := by
  simp only [← Utf8.decode_eq_ok_iff_encode, decodeBytes]
  cases Utf8.decode b with
  | error e => simp
  | ok s => simp [decode_ne_notUtf8]

theorem exists_encode_iff_no_surrogate : (∃ s, Utf8.encode s = .ok b) ↔
    ∃ s : Text, (∀ c ∈ s, ¬ c.IsSurrogate) ∧ Utf8.encode s = .ok b :=
  exists_congr fun _ => (and_iff_right_of_imp Utf8.no_surrogate_of_encode).symm

end Line

namespace Client

variable {σ : Type} {port : LinePort σ} {s s' : σ} {b payload : Bytes} {line : Text}

def readParts (port : LinePort σ) : Task Fault σ (Text × Text) := do
  let line ← readLine port
  Task.lift ((Line.decode line).mapError .format)

def refusal : FormatError → Fault
  | .notUtf8 e => .handshake (.undecodable e)
  | e => .format e

theorem mapError_decode (line : Text) :
    (Line.decode line).mapError Fault.format = (Line.decode line).mapError refusal := by
  unfold Line.decode
  split <;> rfl

theorem readParts_of_read (hr : port.readLine s = (.ok b, s')) (hb : Line.crlfBytes <:+ b)
    (l : Log) :
    ∃ l', readParts port (s, l) = ((Line.decodeBytes b).mapError refusal, (s', l')) := by
  obtain ⟨l', hl⟩ := readLine_eq_lineOf port s l
  have hs : (!Line.crlfBytes.isSuffixOf b) = false := by
    rw [List.isSuffixOf_iff_suffix.2 hb, Bool.not_true]
  refine ⟨l', ?_⟩
  rw [readParts, Task.bind_apply, hl, hr]
  simp only [lineOf, hs, Line.decodeBytes]
  cases Utf8.decode b with
  | error e => rfl
  | ok line =>
    rw [← mapError_decode]
    rfl

theorem Looks.eq_ok_iff_of_read {α : Type} {look : Text → Except Fault α} {x : Task Fault σ α}
    {a : α} (h : Looks port look x) (hr : port.readLine s = (.ok b, s'))
    (hb : Line.crlfBytes <:+ b) (l : Log) :
    (x (s, l)).1 = .ok a ↔ ∃ line, Utf8.decode b = .ok line ∧ look line = .ok a := by
  simp only [h.eq_ok_iff, readLine_eq_ok_iff, hr, Except.ok.injEq, exists_eq_left', hb, true_and]

theorem readInfo_eq_ok_iff_of_read [Json.Stack] {members : Json.Members}
    (hr : port.readLine s = (.ok b, s'))
    (hb : Line.crlfBytes <:+ b) (l : Log) : (readInfo port (s, l)).1 = .ok members ↔
      ∃ payload, Line.decodeBytes b = .ok (Keyword.info, payload) ∧
        Greeting.decodeInfo payload = .ok members := by
  simp only [(readInfo_looks port).eq_ok_iff_of_read hr hb, greeting_eq_ok_iff_decode,
    Line.decodeBytes_eq_ok_iff]
  constructor
  · rintro ⟨line, hu, payload, hl, hi⟩
    exact ⟨payload, ⟨line, hu, hl⟩, hi⟩
  · rintro ⟨payload, ⟨line, hu, hl⟩, hi⟩
    exact ⟨line, hu, payload, hl, hi⟩

theorem waitPong_eq_ok_iff_of_read (hr : port.readLine s = (.ok b, s'))
    (hb : Line.crlfBytes <:+ b) (l : Log) : (waitPong port (s, l)).1 = .ok () ↔
      ∃ rest, Line.decodeBytes b = .ok (Keyword.pong, rest) := by
  simp only [(waitPong_looks port).eq_ok_iff_of_read hr hb, reply_eq_ok_iff_decode,
    Line.decodeBytes_eq_ok_iff]
  constructor
  · rintro ⟨line, hu, rest, hl⟩
    exact ⟨rest, line, hu, hl⟩
  · rintro ⟨rest, line, hu, hl⟩
    exact ⟨line, hu, rest, hl⟩

end Client

/-- The byte way and the text way of taking a line apart are one. They agree on what is a text
encoded; the encoding is blamed for just the bytes that are none, which are those that do not fall
into the sequences of code points; and a client at a port that hands it a line has the same two
parts of it, and fails if the bytes do. -/
theorem byte_and_text_agree [Json.Stack] :
    (∀ s : Text, (∀ c ∈ s, ¬ c.IsSurrogate) →
      ∃ b, Utf8.encode s = .ok b ∧ Line.decodeBytes b = Line.decode s) ∧
    (∀ b, ((∃ e, Line.decodeBytes b = .error (.notUtf8 e)) ↔
        ¬ ∃ s : Text, (∀ c ∈ s, ¬ c.IsSurrogate) ∧ Utf8.encode s = .ok b) ∧
      ((∃ e, Line.decodeBytes b = .error (.notUtf8 e)) ↔
        ¬ ∃ qs : List Bytes, (∀ q ∈ qs, Utf8.IsSequence q) ∧ b = qs.flatten)) ∧
    (∀ (p : MemoryPort) (b rest : Bytes) (l : Log), p.incoming = b ++ rest →
      MemoryPort.IsLine b → ∃ l', Client.readParts MemoryPort.linePort (p, l) =
        ((Line.decodeBytes b).mapError Client.refusal, ({ p with incoming := rest }, l'))) ∧
    ∀ (σ : Type) (port : LinePort σ) (s s' : σ) (b : Bytes) (l : Log),
      port.readLine s = (.ok b, s') → Line.crlfBytes <:+ b →
      (∃ l', Client.readParts port (s, l) =
        ((Line.decodeBytes b).mapError Client.refusal, (s', l'))) ∧
      (∀ members, (Client.readInfo port (s, l)).1 = .ok members ↔
        ∃ payload, Line.decodeBytes b = .ok (Keyword.info, payload) ∧
          Greeting.decodeInfo payload = .ok members) ∧
      ((Client.waitPong port (s, l)).1 = .ok () ↔
        ∃ rest, Line.decodeBytes b = .ok (Keyword.pong, rest)) := by
  refine ⟨fun s hs => ?_, fun b => ⟨?_, ?_⟩, fun p b rest l hi hb => ?_, ?_⟩
  · have he := Utf8.encode_of_no_surrogate hs
    exact ⟨_, he, Line.decodeBytes_of_encode he⟩
  · rw [Line.decodeBytes_notUtf8_iff, Line.exists_encode_iff_no_surrogate]
  · rw [Line.decodeBytes_notUtf8_iff, Utf8.exists_encode_iff_sequences]
  · exact Client.readParts_of_read (MemoryPort.readLine_of_line hi hb) hb.1 l
  · intro σ port s s' b l hr hb
    exact ⟨Client.readParts_of_read hr hb l,
      fun members => Client.readInfo_eq_ok_iff_of_read hr hb l,
      Client.waitPong_eq_ok_iff_of_read hr hb l⟩

theorem byte_and_text_agree_pong :
    let pong : Bytes := [80, 79, 78, 71, 32, 0xC3, 0xA9, 13, 10]
    (∀ c ∈ text "PONG é\r\n", ¬ c.IsSurrogate) ∧ MemoryPort.IsLine pong ∧
      (∃ l, Client.readParts MemoryPort.linePort ({ incoming := pong ++ [80] }, []) =
        (.ok (Keyword.pong, text "é"), ({ incoming := [80] }, l))) ∧
      ¬ ∃ s : Text, (∀ c ∈ s, ¬ c.IsSurrogate) ∧ Utf8.encode s = .ok [0xC0, 0xAF, 13, 10] := by
  intro pong
  have he : Utf8.encode (text "PONG é\r\n") = .ok pong := by rfl
  have hs := Utf8.no_surrogate_of_encode he
  have hline : MemoryPort.IsLine ([80, 79, 78, 71, 32, 0xC3, 0xA9] ++ Line.crlfBytes) :=
    MemoryPort.isLine_append_crlf (by decide)
  obtain ⟨htext, hbytes, hclient, -⟩ := byte_and_text_agree
  obtain ⟨l, hl⟩ := hclient { incoming := pong ++ [80] } pong [80] [] rfl hline
  obtain ⟨b, hb, hd⟩ := htext _ hs
  obtain rfl : b = pong := Except.ok.inj (hb.symm.trans he)
  refine ⟨hs, hline, ⟨l, ?_⟩, (hbytes _).1.1 ⟨_, rfl⟩⟩
  rw [hl, hd]
  rfl

end LineHandshake
