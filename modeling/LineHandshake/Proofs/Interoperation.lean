import LineHandshake.Proofs.Client
import LineHandshake.Proofs.Course
import LineHandshake.Proofs.Network

/-!
The reference client with a server, over a network that loses nothing. Between any two steps of the
client the server may have gone on or have left, so each read and each write either goes through or
finds the connection gone.
-/

namespace LineHandshake

open Server (Proceeds Exited OnCourse)
open Connection (greetingBytes pongBytes)

variable {u : Server} {e : ExitPoint} {l1 l2 : Text} {later bs : Bytes} {v v' : Server}
  {taken taken' : Nat}
  {r : Except Fault Bytes}

theorem Server.OnCourse.cutThrough_first {k : Nat} (h : OnCourse u e l1 l2 later k v) :
    Bytes.cutThrough Line.crlfBytes v.sent =
      if k < 3 then none else some (greetingBytes, if k < 12 then [] else pongBytes) := by
  rw [h.sent]
  split
  · rfl
  · split <;> decide

theorem Server.OnCourse.cutThrough_rest {k : Nat} (h : OnCourse u e l1 l2 later k v) :
    Bytes.cutThrough Line.crlfBytes (v.sent.drop greetingBytes.length) =
      if k < 12 then none else some (pongBytes, []) := by
  rw [h.sent]
  by_cases hk : k < 12
  · rw [if_pos hk, if_pos hk]
    split <;> decide
  · have hk' : ¬ k < 3 := by omega
    rw [if_neg hk', if_neg hk, if_neg hk]
    decide

theorem Server.Exited.cutThrough_first (h : Exited e v) :
    Bytes.cutThrough Line.crlfBytes v.sent =
      if e = .beforeInfo then none else some (greetingBytes, []) := by
  rw [h.sent]
  split
  · rfl
  · decide

theorem Server.Exited.cutThrough_rest (h : Exited e v) :
    Bytes.cutThrough Line.crlfBytes (v.sent.drop greetingBytes.length) = none := by
  rw [h.sent]
  split <;> decide

theorem Receives.first (hl : AreOpening l1 l2) (h : Proceeds u e l1 l2 later v)
    (hr : Receives v 0 r taken') :
    (r = .ok greetingBytes ∧ taken' = greetingBytes.length) ∨
      (∃ x, r = .error (.port x)) ∧ Exited e v := by
  cases hr with
  | @line line rest hc =>
    left
    rw [List.drop_zero] at hc
    have hline : line = greetingBytes := by
      rcases h with ⟨k, h⟩ | h
      · rw [h.cutThrough_first] at hc
        split at hc <;> cases hc
        rfl
      · rw [h.cutThrough_first] at hc
        split at hc <;> cases hc
        rfl
    rw [hline, Nat.zero_add]
    exact ⟨rfl, rfl⟩
  | @cut x _ _ hp =>
    right
    rcases h with ⟨k, h⟩ | h
    · exact absurd hp h.phase_ne
    · exact ⟨⟨x, rfl⟩, h⟩
  | late hc hp hw =>
    exfalso
    rcases h with ⟨k, h⟩ | h
    · have hk : ¬ k < 3 := by
        rcases h.of_work_eq hl hw with rfl | ⟨-, rfl | rfl⟩ <;> decide
      rw [List.drop_zero, h.cutThrough_first, if_neg hk] at hc
      cases hc
    · exact hp h.phase

theorem Sends.proceeds {r : Except Fault Unit} (hl : AreOpening l1 l2)
    (h : Proceeds u e l1 l2 (bs ++ later) v) (hs : Sends bs v r v') :
    (r = .ok () ∧ Proceeds u e l1 l2 later v') ∨ (∃ x, r = .error (.port x)) ∧ Exited e v' := by
  cases hs with
  | sent hp n =>
    left
    rcases h with ⟨k, h⟩ | h
    · exact ⟨rfl, Proceeds.after_work hl (.inl ⟨k, h.deliver⟩) n⟩
    · exact absurd h.phase hp
  | lost hp =>
    left
    rcases h with ⟨k, h⟩ | h
    · exact absurd hp h.phase_ne
    · exact ⟨rfl, .inr h⟩
  | refused hp x =>
    right
    rcases h with ⟨k, h⟩ | h
    · exact absurd hp h.phase_ne
    · exact ⟨⟨x, rfl⟩, h⟩

theorem Receives.last (hl : AreOpening l1 l2) (h : Proceeds u e l1 l2 [] v)
    (hr : Receives v greetingBytes.length r taken') :
    (r = .ok pongBytes ∧ taken' = greetingBytes.length + pongBytes.length ∧
        ∃ k, 12 ≤ k ∧ OnCourse u e l1 l2 [] k v) ∨
      (∃ x, r = .error (.port x)) ∧ Exited e v := by
  cases hr with
  | @line line rest hc =>
    rcases h with ⟨k, h⟩ | h
    · left
      rw [h.cutThrough_rest] at hc
      split at hc
      · cases hc
      · next hk =>
        cases hc
        exact ⟨rfl, rfl, k, Nat.not_lt.1 hk, h⟩
    · rw [h.cutThrough_rest] at hc
      cases hc
  | @cut x _ _ hp =>
    right
    rcases h with ⟨k, h⟩ | h
    · exact absurd hp h.phase_ne
    · exact ⟨⟨x, rfl⟩, h⟩
  | late hc hp hw =>
    exfalso
    rcases h with ⟨k, h⟩ | h
    · obtain rfl := h.eq_of_work_eq hl hw
      rw [h.cutThrough_rest] at hc
      cases hc
    · exact hp h.phase

namespace Client

def connectText (options : Option Json) : Text :=
  text "CONNECT " ++ (options.getD Greeting.defaultOptions).print

theorem connectLine_eq (options : Option Json.Members) :
    connectLine (options.map .obj) = connectText (options.map .obj) ++ Line.crlf := by
  obtain ⟨members, hm⟩ := exists_members options
  rw [connectLine, connectText, hm, Line.encode_some (Greeting.print_obj_ne_nil members)]
  rfl

theorem visible_connectText (options : Option Json) : (connectText options).Visible :=
  (Text.Visible.of_all (by decide)).append (Json.visible_print _)

theorem areOpening (options : Option Json.Members) :
    AreOpening (connectLine (options.map .obj)) pingLine := by
  have hping := takeLine_append_crlf (Keyword.not_isLineBreak (k := Keyword.ping)
    (.tail _ (.tail _ (.head _)))) []
  rw [List.append_nil] at hping
  refine ⟨?_, hping, ?_, by decide, by decide⟩
  · rw [connectLine_eq]
    exact takeLine_append_crlf (visible_connectText _).no_lineBreak pingLine
  · rw [connectLine_eq, connectText]
    exact ⟨text " " ++ (((options.map Json.obj).getD Greeting.defaultOptions).print ++ Line.crlf),
      by simp [Keyword.connect, text]⟩

theorem trimBlank_connectLine (options : Option Json.Members) :
    (connectLine (options.map .obj)).trimBlank = connectText (options.map .obj) := by
  obtain ⟨members, hm⟩ := exists_members options
  rw [connectLine_eq]
  apply Text.trimBlank_append_crlf
  rw [connectText, hm, Json.print_obj]
  intro c hc
  obtain rfl : c = Json.closeBrace := by
    rw [List.getLast?_append, List.getLast?_cons, List.getLast?_append] at hc
    simpa using hc.symm
  decide

variable {σ : Type} {port : LinePort σ} {Shows : σ → Server → Nat → Prop} {s : σ}

theorem handshake_cases [Json.Stack] (hd : 0 < Json.maxDepth) (hport : port.IsLossless Shows)
    {options : Option Json} {connect : Bytes}
    (hc : Utf8.encode (connectLine options) = .ok connect) (hl : AreOpening l1 l2)
    (h : Proceeds u e l1 l2 (connect ++ pingBytes) v) (hs : Shows s v 0) (l : Log) :
    (∃ s' v' l' k, handshake port options (s, l) =
        (.ok ⟨.str (text "test"), greetingMembers⟩, (s', l')) ∧
      Shows s' v' (greetingBytes.length + pongBytes.length) ∧
      12 ≤ k ∧ OnCourse u e l1 l2 [] k v') ∨
    (∃ s' v' l' x taken, handshake port options (s, l) = (.error (.handshake x), (s', l')) ∧
      Shows s' v' taken ∧ Exited e v') := by
  obtain ⟨n₁, t₁, hr₁, hs₁⟩ := hport.read hs
  rcases hr₁.first hl (h.after_work hl n₁) with ⟨he₁, rfl⟩ | ⟨⟨x, he₁⟩, hx⟩
  swap
  · right
    have hi := readInfo_of_error (Prod.ext he₁ rfl) l
    exact ⟨_, _, _, _, _, by simp only [handshake, Task.bind_apply, hi]; rfl, hs₁, hx⟩
  obtain ⟨l₁, hi⟩ := readInfo_of_line hd (Prod.ext he₁ rfl) l
  have h₁ := h.after_work hl n₁
  obtain ⟨n₂, v₂, hr₂, hs₂⟩ := hport.write connect hs₁
  rcases hr₂.proceeds hl (h₁.after_work hl n₂) with ⟨he₂, h₂⟩ | ⟨⟨x, he₂⟩, hx⟩
  swap
  · right
    have hw := sendConnect_of_error hc (Prod.ext he₂ rfl) l₁
    exact ⟨_, _, _, _, _, by simp only [handshake, Task.bind_apply, hi, hw]; rfl, hs₂, hx⟩
  obtain ⟨l₂, hw₂⟩ := sendConnect_of_ok hc (Prod.ext he₂ rfl) l₁
  obtain ⟨n₃, v₃, hr₃, hs₃⟩ := hport.write pingBytes hs₂
  rw [← List.append_nil pingBytes] at h₂
  rcases hr₃.proceeds hl (h₂.after_work hl n₃) with ⟨he₃, h₃⟩ | ⟨⟨x, he₃⟩, hx⟩
  swap
  · right
    have hw := writeLine_of_error encode_pingLine (Prod.ext he₃ rfl) l₂
    exact ⟨_, _, _, _, _, by simp only [handshake, sendPing_eq, Task.bind_apply, hi, hw₂, hw]; rfl,
      hs₃, hx⟩
  obtain ⟨l₃, hw₃⟩ := writeLine_of_ok encode_pingLine (Prod.ext he₃ rfl) l₂
  obtain ⟨n₄, t₄, hr₄, hs₄⟩ := hport.read hs₃
  rcases hr₄.last hl (h₃.after_work hl n₄) with ⟨he₄, rfl, k, hk, h₄⟩ | ⟨⟨x, he₄⟩, hx⟩
  · left
    obtain ⟨l₄, hw₄⟩ := waitPong_of_line (Prod.ext he₄ rfl) l₃
    exact ⟨_, _, _, k, by
      simp only [handshake, sendPing_eq, Task.bind_apply, hi, hw₂, hw₃, hw₄]; rfl, hs₄, hk, h₄⟩
  · right
    have hw := waitPong_of_error (Prod.ext he₄ rfl) l₃
    exact ⟨_, _, _, _, _, by
      simp only [handshake, sendPing_eq, Task.bind_apply, hi, hw₂, hw₃, hw]; rfl, hs₄, hx⟩

def traced (what : String) (line : Text) : Record :=
  ⟨.trace, text "server.handshake", text what ++ line.quoted⟩

def traceOf (connect : Text) : Log :=
  [traced "Server: sent " (text "INFO \x7b\"server_id\":\"test\"\x7d"),
    traced "Server: received " connect, traced "Server: received " (text "PING"),
    traced "Server: sent " (text "PONG")]

theorem trace_at_end (options : Option Json.Members) :
    (Standing.at (connectLine (options.map .obj)) pingLine 13).trace =
      traceOf (connectText (options.map .obj)) := by
  have hl := areOpening options
  have ht : (Standing.at (connectLine (options.map .obj)) pingLine 13).trace =
      [Connection.sentRecord (Greeting.encodeInfo Greeting.serverInfo),
        Connection.receivedRecord (takeLine (connectLine (options.map .obj) ++ pingLine)).1,
        Connection.receivedRecord
          (takeLine (takeLine (connectLine (options.map .obj) ++ pingLine)).2).1,
        Connection.sentRecord (Line.encode Keyword.pong none)] := rfl
  rw [ht, hl.first, hl.second, Connection.receivedRecord, trimBlank_connectLine]
  rfl

theorem accepted_at_end (options : Option Json.Members) :
    (Standing.at (connectLine (options.map .obj)) pingLine 13).accepted =
      [connectText (options.map .obj), Keyword.ping] := by
  have hl := areOpening options
  have ha : (Standing.at (connectLine (options.map .obj)) pingLine 13).accepted =
      [(takeLine (connectLine (options.map .obj) ++ pingLine)).1.chomp,
        (takeLine (takeLine (connectLine (options.map .obj) ++ pingLine)).2).1.chomp] := rfl
  have hc : (connectLine (options.map .obj)).chomp = connectText (options.map .obj) := by
    rw [connectLine_eq]
    exact Text.chomp_append_crlf fun c hc =>
      (visible_connectText _).no_lineBreak c (List.mem_of_getLast? hc)
  rw [ha, hl.first, hl.second, hc]
  rfl

theorem decode_opening {options : Option Json.Members} {bs : Bytes}
    (hc : Utf8.encode (connectLine (options.map .obj)) = .ok bs) :
    Utf8.decode (bs ++ pingBytes) = .ok (connectLine (options.map .obj) ++ pingLine) :=
  Utf8.decode_encode (Utf8.encode_append hc encode_pingLine)

/-- The reference client gets through its handshake with a server that does not leave, which has
then accepted its two lines and nothing else, and learns of one that does, whatever it asks for and
however fast each side is. -/
theorem handshake_interoperates [Json.Stack] (hd : 0 < Json.maxDepth)
    (hport : port.IsLossless Shows) (spec : ServerSpec) (hsc : spec.script = none) (waited : Nat)
    (hp : ((Server.start spec (.ok ())).after (List.replicate waited .tick)).phase = .accepting)
    (peer n : Nat)
    (hs : Shows s ((Server.start spec (.ok ())).after
      (List.replicate waited .tick ++ [.connect peer] ++ List.replicate n .work)) 0)
    (options : Option Json.Members) :
    let r := (handshake port (options.map .obj)).perform s
    ∃ v taken, Shows r.2.1 v taken ∧
      (spec.exitPoint = .noExit →
        r.1 = .ok ⟨.str (text "test"), [(text "server_id", .str (text "test"))]⟩ ∧
        v.resume.phase = .serving [] ∧ v.resume.progress = .sentPong ∧
        v.resume.outcome = .running ∧ v.resume.error = none ∧
        (∃ hs, (Server.start spec (.ok ())).after hs = v.resume ∧
          (Server.start spec (.ok ())).accepted hs =
            [connectText (options.map .obj), Keyword.ping]) ∧
        v.resume.trace = traceOf (connectText (options.map .obj)) ∧
        v.resume.sent.drop taken = [] ∧ v.resume.connection.source.IsDrained) ∧
      (spec.exitPoint ≠ .noExit →
        (∃ x, r.1 = .error (.handshake x)) ∧
        v.resume.phase = .ended ∧ v.resume.outcome = .exited ∧
        spec.exitPoint.stage = some v.resume.progress ∧ v.resume.error = none ∧
        v.resume.outcome.isProtocolFailure = false) := by
  intro r
  obtain ⟨connect, hc⟩ := encode_connectLine options
  have hl := areOpening options
  have h := (Server.proceeds_welcome hsc (decode_opening hc) peer hp).after_work hl n
  rw [← Server.after_append] at h
  rcases handshake_cases hd hport hc hl h hs [] with
    ⟨s', v, l', k, hr, hv, hk, ho⟩ | ⟨s', v, l', x, taken, hr, hv, hx⟩
  · have hr : r = (.ok ⟨.str (text "test"), greetingMembers⟩, (s', l')) := hr
    rw [hr]
    have he := noExit_of_not_mem_take hk ho.ahead
    refine ⟨v, _, hv, fun _ => ⟨rfl, ?_⟩, fun hne => absurd he hne⟩
    rcases Proceeds.resume hl (.inl ⟨k, ho⟩) with ho | hx
    · have hlines := ho.taken
      rw [accepted_at_end] at hlines
      refine ⟨ho.stands.phase, ho.stands.progress, ho.stands.outcome, ho.stands.error, hlines,
        ho.stands.trace.trans (trace_at_end options), ?_, ?_⟩
      · rw [ho.sent]
        decide
      · apply TextSource.Holds.isDrained
        rw [← hl.left_end]
        exact ho.stands.source
    · have hst := hx.stage
      rw [he] at hst
      cases hst
  · have hr : r = (.error (.handshake x), (s', l')) := hr
    rw [hr]
    refine ⟨v, taken, hv, fun he => ?_, fun _ => ⟨⟨x, rfl⟩, ?_⟩⟩
    · have hst := hx.stage
      rw [he] at hst
      cases hst
    · rw [hx.resume_eq]
      refine ⟨hx.phase, hx.outcome, hx.stage, hx.error, ?_⟩
      rw [hx.outcome]
      rfl

theorem handshake_interoperates_visit :
    (∃ v taken,
      Session.Shows 0 ((handshake (Session.linePort 0) none).perform (.visit .noExit)).2.1 v
        taken ∧
      ((handshake (Session.linePort 0) none).perform (.visit .noExit)).1 =
        .ok ⟨.str (text "test"), [(text "server_id", .str (text "test"))]⟩ ∧
      v.resume.progress = .sentPong ∧ v.resume.outcome = .running ∧
      (∃ hs, (Server.start { port := 14220 } (.ok ())).after hs = v.resume ∧
        (Server.start { port := 14220 } (.ok ())).accepted hs =
          [connectText none, Keyword.ping]) ∧
      v.resume.trace = traceOf (connectText none) ∧ v.resume.sent.drop taken = []) ∧
    ∃ v taken x,
      Session.Shows 0 ((handshake (Session.linePort 0) none).perform (.visit .afterConnect)).2.1 v
        taken ∧
      ((handshake (Session.linePort 0) none).perform (.visit .afterConnect)).1 =
        .error (.handshake x) ∧
      v.resume.outcome = .exited ∧ v.resume.progress = .gotConnect := by
  constructor
  · obtain ⟨n, hs⟩ := Session.shows_visit .noExit
    obtain ⟨v, taken, hv, hr, -⟩ := handshake_interoperates (by decide)
      (Session.isLossless_linePort 0)
      { port := 14220 } rfl 0 rfl 0 n hs none
    obtain ⟨hi, -, hp, ho, -, hl, ht, hu, -⟩ := hr rfl
    simp only [Option.map_none] at hv hi hl ht
    exact ⟨v, taken, hv, hi, hp, ho, hl, ht, hu⟩
  · obtain ⟨n, hs⟩ := Session.shows_visit .afterConnect
    obtain ⟨v, taken, hv, -, hr⟩ := handshake_interoperates (by decide)
      (Session.isLossless_linePort 0)
      { port := 14220, exitPoint := .afterConnect } rfl 0 rfl 0 n hs none
    obtain ⟨⟨x, hi⟩, -, ho, hp, -⟩ := hr (by decide)
    simp only [Option.map_none] at hv hi
    exact ⟨v, taken, x, hv, hi, ho, (Option.some.inj hp).symm⟩

end Client

end LineHandshake
