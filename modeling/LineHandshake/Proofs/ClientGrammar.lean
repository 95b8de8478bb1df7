import LineHandshake.Proofs.ClientFaults
import LineHandshake.Proofs.Utf8.WellFormed

/-!
Which bytes a client takes for a handshake. The first two lines decide: a greeting and a reply to
PING, each well-formed UTF-8 up to and including its CRLF. What comes behind them is left alone,
and what the client writes depends on the greeting only.
-/

namespace LineHandshake

namespace Client

open MemoryPort (IsLine linePort)

/-- A line of bytes that is a greeting, with these members for its payload. -/
def IsGreeting [Json.Stack] (r : Bytes) (members : Json.Members) : Prop :=
  IsLine r ∧ ∃ line payload, Utf8.encode line = .ok r ∧ line.chomp = text "INFO " ++ payload ∧
    Greeting.decodeInfo payload = .ok members

/-- A line of bytes that is PONG, or starts with it and a space. -/
def IsReply (r : Bytes) : Prop :=
  IsLine r ∧ ∃ line, Utf8.encode line = .ok r ∧
    (line.chomp = Keyword.pong ∨ ∃ rest, line.chomp = Keyword.pong ++ CodePoint.space :: rest)

theorem text_info_append (payload : Text) :
    text "INFO " ++ payload = Keyword.info ++ CodePoint.space :: payload := rfl

variable {line : Text}

theorem greeting_eq_ok_iff_decode [Json.Stack] {members : Json.Members} :
    greeting line = .ok members ↔
    ∃ payload, Line.decode line = .ok (Keyword.info, payload) ∧
      Greeting.decodeInfo payload = .ok members := by
  unfold greeting
  constructor
  · intro h
    split at h
    · cases h
    · next keyword payload hl =>
      split at h
      · cases h
      · next hk =>
        obtain rfl := not_not.1 hk
        refine ⟨payload, hl, ?_⟩
        split at h
        · cases h
        · exact h
  · rintro ⟨payload, hl, hi⟩
    simp only [hl, hi, ne_eq, not_true, if_false]

theorem reply_eq_ok_iff_decode :
    reply line = .ok () ↔ ∃ rest, Line.decode line = .ok (Keyword.pong, rest) := by
  unfold reply
  constructor
  · intro h
    split at h
    · cases h
    · next keyword rest hl =>
      split at h
      · cases h
      · next hk =>
        obtain rfl := not_not.1 hk
        exact ⟨rest, hl⟩
  · rintro ⟨rest, hl⟩
    simp only [hl, ne_eq, not_true, if_false]

theorem greeting_eq_ok_iff [Json.Stack] {members : Json.Members} :
    greeting line = .ok members ↔ ∃ payload, line.chomp = text "INFO " ++ payload ∧
      Greeting.decodeInfo payload = .ok members := by
  have hs : CodePoint.space ∉ Keyword.info := by decide
  simp only [text_info_append, greeting_eq_ok_iff_decode, Line.decode_eq_ok_iff]
  constructor
  · rintro ⟨payload, ⟨-, hk, rfl⟩, hd⟩
    refine ⟨line.chomp.afterSpace, ?_, hd⟩
    rcases line.chomp.beforeSpace_cases with ⟨-, ha⟩ | hc
    · -- without a payload there is no object
      rw [ha, Greeting.decodeInfo_nil] at hd
      cases hd
    · rwa [← hk] at hc
  · rintro ⟨payload, hc, hd⟩
    refine ⟨payload, ?_, hd⟩
    rw [hc, Text.beforeSpace_append_space hs, Text.afterSpace_append_space hs]
    exact ⟨List.append_ne_nil_of_right_ne_nil _ (List.cons_ne_nil _ _), rfl, rfl⟩

theorem reply_eq_ok_iff :
    reply line = .ok () ↔ line.chomp = Keyword.pong ∨
      ∃ rest, line.chomp = Keyword.pong ++ CodePoint.space :: rest := by
  have hs : CodePoint.space ∉ Keyword.pong := by decide
  rw [reply_eq_ok_iff_decode]
  constructor
  · rintro ⟨rest, hl⟩
    obtain ⟨-, hk, -⟩ := Line.decode_eq_ok_iff.1 hl
    rcases line.chomp.beforeSpace_cases with ⟨hc, -⟩ | hc
    · exact .inl (hc.symm.trans hk.symm)
    · exact .inr ⟨_, by rwa [← hk] at hc⟩
  · rintro (hc | ⟨rest, hc⟩)
    · refine ⟨[], Line.decode_eq_ok_iff.2 ?_⟩
      rw [hc]
      exact ⟨by decide, rfl, rfl⟩
    · refine ⟨rest, Line.decode_eq_ok_iff.2 ?_⟩
      rw [hc, Text.beforeSpace_append_space hs, Text.afterSpace_append_space hs]
      exact ⟨List.append_ne_nil_of_right_ne_nil _ (List.cons_ne_nil _ _), rfl, rfl⟩

section Looks

variable {σ α : Type} {port : LinePort σ} {look : Text → Except Fault α} {x : Task Fault σ α}
  {s : σ} {l : Log} {a : α}

def Looks (port : LinePort σ) (look : Text → Except Fault α) (x : Task Fault σ α) : Prop :=
  ∃ next : α → Task Fault σ α, (∀ a q, ∃ l, next a q = (.ok a, (q.1, l))) ∧
    x = readLine port >>= fun line => Task.lift (look line) >>= next

theorem readInfo_looks [Json.Stack] (port : LinePort σ) : Looks port greeting (readInfo port) :=
  ⟨_, fun _ _ => ⟨_, rfl⟩, rfl⟩

theorem waitPong_looks (port : LinePort σ) : Looks port reply (waitPong port) :=
  ⟨_, fun _ _ => ⟨_, rfl⟩, rfl⟩

theorem readLine_state (port : LinePort σ) (s : σ) (l : Log) :
    (readLine port (s, l)).2.1 = (port.readLine s).2 := by
  obtain ⟨l', hl⟩ := readLine_eq_lineOf port s l
  rw [hl]

theorem Looks.state (h : Looks port look x) (s : σ) (l : Log) :
    (x (s, l)).2.1 = (port.readLine s).2 := by
  obtain ⟨next, hn, rfl⟩ := h
  rw [← readLine_state port s l, Task.bind_apply]
  generalize readLine port (s, l) = r
  obtain ⟨f | line, q⟩ := r
  · rfl
  · simp only [Task.bind_apply, Task.lift_apply]
    cases look line with
    | error f => rfl
    | ok a =>
      obtain ⟨l', hl⟩ := hn a q
      simp only [hl]

theorem Looks.eq_ok_iff (h : Looks port look x) : (x (s, l)).1 = .ok a ↔
    ∃ line, (readLine port (s, l)).1 = .ok line ∧ look line = .ok a := by
  obtain ⟨next, hn, rfl⟩ := h
  rw [Task.bind_apply]
  generalize readLine port (s, l) = r
  obtain ⟨f | line, q⟩ := r
  · simp
  · simp only [Task.bind_apply, Task.lift_apply, Except.ok.injEq, exists_eq_left']
    cases look line with
    | error f => simp
    | ok b =>
      obtain ⟨l', hl⟩ := hn b q
      simp only [hl]

end Looks

section Memory

variable {p : MemoryPort} {l : Log} {r rest : Bytes} {line : Text}

theorem readLine_eq_ok_iff_line : (readLine linePort (p, l)).1 = .ok line ↔
    ∃ r rest, p.incoming = r ++ rest ∧ IsLine r ∧ Utf8.encode line = .ok r := by
  rw [readLine_eq_ok_iff]
  constructor
  · rintro ⟨got, hg, hs, hd⟩
    obtain ⟨rest, hi, hr⟩ := MemoryPort.isLine_of_readLine hg hs
    exact ⟨got, rest, hi, hr, Utf8.decode_eq_ok_iff_encode.1 hd⟩
  · rintro ⟨r, rest, hi, hr, he⟩
    rw [MemoryPort.readLine_of_line hi hr]
    exact ⟨r, rfl, hr.1, Utf8.decode_encode he⟩

theorem readInfo_eq_ok_iff [Json.Stack] {members : Json.Members} :
    (readInfo linePort (p, l)).1 = .ok members ↔
      ∃ r rest, p.incoming = r ++ rest ∧ IsGreeting r members := by
  simp only [(readInfo_looks linePort).eq_ok_iff, readLine_eq_ok_iff_line, greeting_eq_ok_iff]
  constructor
  · rintro ⟨line, ⟨r, rest, hi, hr, he⟩, payload, hc, hd⟩
    exact ⟨r, rest, hi, hr, line, payload, he, hc, hd⟩
  · rintro ⟨r, rest, hi, hr, line, payload, he, hc, hd⟩
    exact ⟨line, ⟨r, rest, hi, hr, he⟩, payload, hc, hd⟩

theorem waitPong_eq_ok_iff : (waitPong linePort (p, l)).1 = .ok () ↔
    ∃ r rest, p.incoming = r ++ rest ∧ IsReply r := by
  simp only [(waitPong_looks linePort).eq_ok_iff, readLine_eq_ok_iff_line, reply_eq_ok_iff]
  constructor
  · rintro ⟨line, ⟨r, rest, hi, hr, he⟩, hc⟩
    exact ⟨r, rest, hi, hr, line, he, hc⟩
  · rintro ⟨r, rest, hi, hr, line, he, hc⟩
    exact ⟨line, ⟨r, rest, hi, hr, he⟩, hc⟩

theorem Looks.written {α : Type} {look : Text → Except Fault α} {x : Task Fault MemoryPort α}
    (h : Looks linePort look x) (p : MemoryPort) (l : Log) :
    (x (p, l)).2.1.written = p.written := by
  rw [h.state p l]
  exact MemoryPort.readLine_written p

theorem writeLine_of_isConnected (hp : p.isConnected = true) {bs : Bytes}
    (hl : Utf8.encode line = .ok bs) (l : Log) :
    ∃ l', writeLine linePort line (p, l) =
      (.ok (), ({ p with written := p.written ++ bs }, l')) :=
  writeLine_of_ok hl (MemoryPort.write_of_isConnected hp bs) l

variable {members : Json.Members} {options : Option Json.Members} {connect : Bytes}

theorem handshake_of_greeting [Json.Stack] (hp : p.isConnected = true)
    (hc : Utf8.encode (connectLine (options.map .obj)) = .ok connect)
    (hi : p.incoming = r ++ rest) (hr : IsGreeting r members) (l : Log) :
    ∃ l', handshake linePort (options.map .obj) (p, l) =
      let p' := { p with incoming := rest, written := p.written ++ connect ++ pingBytes }
      let answer := waitPong linePort (p', l')
      (answer.1.map fun _ => ⟨serverId members, members⟩, answer.2) := by
  have hinfo : (readInfo linePort (p, l)).1 = .ok members := readInfo_eq_ok_iff.2 ⟨r, rest, hi, hr⟩
  have hstate : (readInfo linePort (p, l)).2.1 = { p with incoming := rest } := by
    rw [(readInfo_looks linePort).state p l, MemoryPort.readLine_of_line hi hr.1]
  obtain ⟨l₁, hread⟩ : ∃ l', readInfo linePort (p, l) =
      (.ok members, ({ p with incoming := rest }, l')) :=
    ⟨_, Prod.ext hinfo (Prod.ext hstate rfl)⟩
  -- reading does not cut the client off, so its two lines go through
  have hp₁ : ({ p with incoming := rest } : MemoryPort).isConnected = true := hp
  obtain ⟨l₂, hconnect⟩ := sendConnect_of_ok hc (MemoryPort.write_of_isConnected hp₁ connect) l₁
  have hp₂ : ({ p with incoming := rest, written := p.written ++ connect } :
    MemoryPort).isConnected = true := hp
  obtain ⟨l₃, hping⟩ := writeLine_of_isConnected hp₂ encode_pingLine l₂
  refine ⟨l₃, ?_⟩
  rw [handshake]
  simp only [Task.bind_apply, hread, hconnect, sendPing_eq, hping]
  generalize waitPong linePort _ = answer
  obtain ⟨_ | _, q⟩ := answer <;> rfl

theorem ok_of_map_const {x : Except Fault Unit} {v info : ServerInfo}
    (h : x.map (fun _ => v) = .ok info) : x = .ok () ∧ v = info := by
  cases x with
  | error f => cases h
  | ok => exact ⟨rfl, Except.ok.inj h⟩

theorem handshake_of_no_greeting [Json.Stack] (h : ¬ ∃ r rest members, p.incoming = r ++ rest ∧
    IsGreeting r members) (options : Option Json) (l : Log) :
    (∃ f, (handshake linePort options (p, l)).1 = .error f) ∧
      (handshake linePort options (p, l)).2.1.written = p.written := by
  -- the first read fails, and it is all that the handshake comes to
  have hn : ∀ members, (readInfo linePort (p, l)).1 ≠ .ok members := by
    intro members hi
    obtain ⟨r, rest, hi, hr⟩ := readInfo_eq_ok_iff.1 hi
    exact h ⟨r, rest, members, hi, hr⟩
  have hw := (readInfo_looks linePort).written p l
  rw [handshake, Task.bind_apply]
  generalize readInfo linePort (p, l) = q at hn hw
  obtain ⟨f | members, q⟩ := q
  · exact ⟨⟨f, rfl⟩, hw⟩
  · exact absurd rfl (hn members)

/-- A client takes exactly a greeting and a reply for a handshake. It leaves what comes behind
them, and writes its two lines just if it has got a greeting. -/
theorem handshake_eq_ok_iff [Json.Stack] (hp : p.isConnected = true)
    (options : Option Json.Members) (l : Log) :
    ∃ connect, Utf8.encode (connectLine (options.map .obj)) = .ok connect ∧
      let q := handshake linePort (options.map .obj) (p, l)
      (∀ info, q.1 = .ok info ↔ ∃ r₁ r₂ rest members, p.incoming = r₁ ++ r₂ ++ rest ∧
        IsGreeting r₁ members ∧ IsReply r₂ ∧ info = ⟨serverId members, members⟩) ∧
      (∀ r₁ r₂ rest members, p.incoming = r₁ ++ r₂ ++ rest → IsGreeting r₁ members →
        IsReply r₂ → q.2.1 =
          { p with incoming := rest, written := p.written ++ connect ++ pingBytes }) ∧
      ((¬ ∃ r₁ rest members, p.incoming = r₁ ++ rest ∧ IsGreeting r₁ members) →
        q.2.1.written = p.written) ∧
      ∀ r₁ rest members, p.incoming = r₁ ++ rest → IsGreeting r₁ members →
        q.2.1.written = p.written ++ connect ++ pingBytes := by
  obtain ⟨connect, hc⟩ := encode_connectLine options
  refine ⟨connect, hc, ?_⟩
  intro q
  refine ⟨?_, ?_, ?_, ?_⟩
  · intro info
    constructor
    · intro h
      by_cases hg : ∃ r₁ rest members, p.incoming = r₁ ++ rest ∧ IsGreeting r₁ members
      · obtain ⟨r₁, rest₁, members, hi, hr₁⟩ := hg
        obtain ⟨l', hq⟩ := handshake_of_greeting hp hc hi hr₁ l
        rw [show q = _ from hq] at h
        obtain ⟨ha, rfl⟩ := ok_of_map_const h
        obtain ⟨r₂, rest, hi₂, hr₂⟩ := waitPong_eq_ok_iff.1 ha
        exact ⟨r₁, r₂, rest, members, by rw [hi, List.append_assoc, ← hi₂], hr₁, hr₂, rfl⟩
      · obtain ⟨f, hf⟩ := (handshake_of_no_greeting hg (options.map .obj) l).1
        exact absurd (hf.symm.trans h) nofun
    · rintro ⟨r₁, r₂, rest, members, hi, hr₁, hr₂, rfl⟩
      rw [List.append_assoc] at hi
      obtain ⟨l', hq⟩ := handshake_of_greeting hp hc hi hr₁ l
      rw [show q = _ from hq]
      exact congrArg (Except.map _) (waitPong_eq_ok_iff.2 ⟨r₂, rest, rfl, hr₂⟩)
  · intro r₁ r₂ rest members hi hr₁ hr₂
    rw [List.append_assoc] at hi
    obtain ⟨l', hq⟩ := handshake_of_greeting hp hc hi hr₁ l
    rw [show q = _ from hq, (waitPong_looks linePort).state,
      MemoryPort.readLine_of_line rfl hr₂.1]
  · intro hg
    exact (handshake_of_no_greeting hg (options.map .obj) l).2
  · intro r₁ rest members hi hr₁
    obtain ⟨l', hq⟩ := handshake_of_greeting hp hc hi hr₁ l
    rw [show q = _ from hq, (waitPong_looks linePort).written]

theorem handshake_eq_ok_iff_spaced :
    let r₁ := (text "INFO \x7b\x7d\n\r\n").flatMap Utf8.encodePoint
    let r₂ := (text "PONG \u00e9\r\n").flatMap Utf8.encodePoint
    let p : MemoryPort := { incoming := r₁ ++ r₂ ++ [13, 10] }
    p.isConnected = true ∧ (handshake linePort none (p, [])).1 = .ok ⟨.null, []⟩ ∧
      (handshake linePort none (p, [])).2.1.incoming = [13, 10] := by
  have hr₁ : IsGreeting ((text "INFO \x7b\x7d\n\r\n").flatMap Utf8.encodePoint) [] :=
    ⟨⟨by decide, by decide⟩, text "INFO \x7b\x7d\n\r\n", text "\x7b\x7d", by decide, by decide,
      by rfl⟩
  have hr₂ : IsReply ((text "PONG \u00e9\r\n").flatMap Utf8.encodePoint) :=
    ⟨⟨by decide, by decide⟩, text "PONG \u00e9\r\n", by decide, .inr ⟨text "\u00e9", by decide⟩⟩
  intro r₁ r₂ p
  -- from here on the bytes themselves do not matter
  change IsGreeting r₁ [] at hr₁
  change IsReply r₂ at hr₂
  clear_value r₁ r₂
  obtain ⟨connect, -, hok, hstate, -⟩ := handshake_eq_ok_iff (p := p) rfl none []
  refine ⟨rfl, (hok _).2 ⟨r₁, r₂, [13, 10], [], rfl, hr₁, hr₂, rfl⟩, ?_⟩
  have hs := hstate r₁ r₂ [13, 10] [] rfl hr₁ hr₂
  exact congrArg MemoryPort.incoming hs

end Memory

end Client

end LineHandshake
