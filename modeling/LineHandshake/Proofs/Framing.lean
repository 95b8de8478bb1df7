import LineHandshake.Proofs.ClientGrammar
import LineHandshake.Proofs.Line.RoundTrip
import LineHandshake.Proofs.ReadingOut

/-!
One encoded line is one received line, at either end. A client looks for CRLF in bytes, a server
for CRLF, LF or a lone CR in text, so both take apart what was written as long as no line holds a
CR or an LF of its own. A single line that does is whole at one end and may be cut at the other.
-/

namespace LineHandshake

namespace Utf8

variable {c : CodePoint} {t : Text} {b : UInt8} {u v : Bytes}

theorem le_toNat_ofNat {n : Nat} (h : 0x80 ≤ n) (h' : n < 256) : 0x80 ≤ (UInt8.ofNat n).toNat := by
  rwa [toNat_ofNat h']

theorem encodePoint_cases (c : CodePoint) :
    (c.val < 0x80 ∧ encodePoint c = [UInt8.ofNat c.val]) ∨ ∀ b ∈ encodePoint c, 0x80 ≤ b.toNat := by
  have hlt := c.isLt
  by_cases h : c.val < 0x80
  · exact .inl ⟨h, by rw [encodePoint, if_pos h]⟩
  · right
    simp only [encodePoint, if_neg h]
    split
    · simp only [List.forall_mem_cons]
      exact ⟨le_toNat_ofNat (by omega) (by omega), le_toNat_ofNat (by omega) (by omega),
        List.forall_mem_nil _⟩
    split
    · simp only [List.forall_mem_cons]
      exact ⟨le_toNat_ofNat (by omega) (by omega), le_toNat_ofNat (by omega) (by omega),
        le_toNat_ofNat (by omega) (by omega), List.forall_mem_nil _⟩
    · simp only [List.forall_mem_cons]
      exact ⟨le_toNat_ofNat (by omega) (by omega), le_toNat_ofNat (by omega) (by omega),
        le_toNat_ofNat (by omega) (by omega), le_toNat_ofNat (by omega) (by omega),
        List.forall_mem_nil _⟩

theorem eq_of_mem_encodePoint (hb : b.toNat < 0x80) (h : b ∈ encodePoint c) :
    encodePoint c = [b] ∧ c.val = b.toNat := by
  rcases encodePoint_cases c with ⟨hc, he⟩ | hall
  · rw [he, List.mem_singleton] at h
    subst h
    exact ⟨he, (toNat_ofNat (by omega)).symm⟩
  · exact absurd (hall b h) (by omega)

theorem exists_of_flatMap_encodePoint (hb : b.toNat < 0x80)
    (h : t.flatMap encodePoint = u ++ b :: v) :
    ∃ before c after, t = before ++ c :: after ∧ before.flatMap encodePoint = u ∧
      c.val = b.toNat ∧ after.flatMap encodePoint = v := by
  induction t generalizing u with
  | nil => simp at h
  | cons c t ih =>
    rw [List.flatMap_cons, List.append_eq_append_iff] at h
    rcases h with ⟨w, rfl, hw⟩ | ⟨w, hc, hw⟩
    · obtain ⟨before, d, after, rfl, rfl, hd, ha⟩ := ih hw
      exact ⟨c :: before, d, after, rfl, rfl, hd, ha⟩
    · cases w with
      | nil =>
        obtain ⟨before, d, after, rfl, he, hd, ha⟩ := ih (u := []) hw.symm
        refine ⟨c :: before, d, after, rfl, ?_, hd, ha⟩
        rw [List.flatMap_cons, he, hc, List.append_nil, List.append_nil]
      | cons b' w =>
        obtain ⟨rfl, rfl⟩ := List.cons.inj hw
        obtain ⟨he, hv⟩ := eq_of_mem_encodePoint hb (by rw [hc]; simp)
        -- the byte is the whole code point, so nothing of it stands before or behind
        rw [he] at hc
        obtain ⟨rfl, hw⟩ : u = [] ∧ b :: w = [b] := by
          simpa [List.singleton_eq_append_iff] using hc
        obtain rfl : w = [] := (List.cons.inj hw).2
        exact ⟨[], c, t, rfl, rfl, hv, rfl⟩

end Utf8

namespace Line

variable {keyword : Text} {payload : Option Text}

theorem exists_encode_eq (keyword : Text) (payload : Option Text) :
    ∃ body, encode keyword payload = body ++ crlf ∧ ∀ p : CodePoint → Prop, p CodePoint.space →
      ((∀ c ∈ body, p c) ↔ ∀ c ∈ keyword ++ payload.getD [], p c) := by
  by_cases h : payload.getD [] = []
  · refine ⟨keyword, encode_of_empty h, fun p _ => ?_⟩
    rw [h, List.append_nil]
  · obtain ⟨payload, rfl⟩ := exists_some_of_getD_ne_nil h
    refine ⟨keyword ++ CodePoint.space :: payload, encode_some h, fun p hs => ?_⟩
    simp only [List.forall_mem_append, List.forall_mem_cons, hs, true_and, Option.getD_some]

def IsPlain (t : Text) : Prop :=
  ∃ body, t = body ++ crlf ∧ ∀ c ∈ body, ¬ c.IsSurrogate ∧ ¬ c.IsLineBreak

theorem isPlain_encode (h : ∀ c ∈ keyword ++ payload.getD [], ¬ c.IsSurrogate ∧ ¬ c.IsLineBreak) :
    IsPlain (encode keyword payload) := by
  obtain ⟨body, he, hb⟩ := exists_encode_eq keyword payload
  exact ⟨body, he, (hb _ (by decide)).2 h⟩

theorem no_surrogate_append_crlf {body : Text} (h : ∀ c ∈ body, ¬ c.IsSurrogate) :
    ∀ c ∈ body ++ crlf, ¬ c.IsSurrogate :=
  List.forall_mem_append.2 ⟨h, List.forall_mem_cons.2 ⟨by decide,
    List.forall_mem_singleton.2 (by decide)⟩⟩

theorem IsPlain.no_surrogate {t : Text} (h : IsPlain t) : ∀ c ∈ t, ¬ c.IsSurrogate := by
  obtain ⟨body, rfl, hb⟩ := h
  exact no_surrogate_append_crlf fun c hc => (hb c hc).1

end Line

section Server

variable {body t : Text}

theorem takeLine_append_crlf_snd_iff :
    (takeLine (body ++ Line.crlf)).2 = [] ↔ ∀ c ∈ body, ¬ c.IsLineBreak := by
  constructor
  · intro h
    induction body with
    | nil => exact List.forall_mem_nil _
    | cons c body ih =>
      by_cases hl : c = CodePoint.lf
      · simp [takeLine, cutLine?, hl, Line.crlf] at h
      by_cases hc : c = CodePoint.cr
      · -- a CR takes at most one LF with it, so something of the end is left
        have hlen : (body ++ Line.crlf).length ≤ 1 := by
          simp only [takeLine, cutLine?, List.cons_append, hc, CodePoint.cr_ne_lf, if_false,
            if_true] at h
          split at h
          · have hl := congrArg List.length h
            simp only [Option.getD_some, List.length_tail, List.length_nil] at hl
            omega
          · simp [Line.crlf] at h
        simp [Line.crlf] at hlen
      · rw [List.cons_append, takeLine_cons hl hc] at h
        exact List.forall_mem_cons.2 ⟨not_or.2 ⟨hc, hl⟩, ih h⟩
  · intro h
    have ht := takeLine_append_crlf h []
    rw [List.append_nil] at ht
    rw [ht]

theorem head?_lines_eq_iff (ht : t ≠ []) : t.lines.head? = some t ↔ (takeLine t).2 = [] := by
  have happ := takeLine_append t
  rw [Text.lines_eq_takeLine ht, List.head?_cons, Option.some.injEq]
  constructor
  · intro h
    rw [h] at happ
    exact List.append_right_eq_self.1 happ
  · intro h
    rwa [h, List.append_nil] at happ

theorem lines_flatten {texts : List Text} (h : ∀ t ∈ texts, Line.IsPlain t) :
    Text.lines texts.flatten = texts := by
  induction texts with
  | nil => rfl
  | cons t texts ih =>
    obtain ⟨⟨body, rfl, hb⟩, hts⟩ := List.forall_mem_cons.1 h
    have ht := takeLine_append_crlf (fun c hc => (hb c hc).2) texts.flatten
    have hn : body ++ Line.crlf ≠ [] := List.append_ne_nil_of_right_ne_nil _ (by decide)
    rw [List.flatten_cons, Text.lines_of_takeLine ht hn, ih hts]

end Server

namespace Connection

variable {bs : Bytes} {t : Text} {chunks : List Bytes} {e : Ending}

theorem endsAs_of_encode (h : Utf8.encode t = .ok bs) (hc : chunks.flatten = bs)
    {lines : List Text} {f : Fault} (hr : ReadsOut (arrivals chunks e) ({}, []) lines f) :
    EndsAs t True e lines f := by
  have hd := Utf8.decode_encode h
  have hh := holding_arrivals chunks e
  have hw : Utf8.WellFormed chunks.flatten := ⟨t, by rwa [hc]⟩
  have hrun := Utf8.decode_eq_ok_iff.1 hd
  have ht : Utf8.readable [] chunks.flatten = t := by
    have ha := Utf8.readable_append hrun []
    simpa [hc, Utf8.readable] using ha
  have hend := endsAs_of_readsOut hr hh
  rwa [ht, eq_true hw] at hend

theorem readsOut_encode_iff (h : Utf8.encode t = .ok bs) (hc : chunks.flatten = bs)
    {lines : List Text} {f : Fault} :
    ReadsOut (arrivals chunks .endOfStream) ({}, []) lines f ↔
      lines = t.lines ∧ f = .clientGone := by
  have hall : ∀ lines f, ReadsOut (arrivals chunks .endOfStream) ({}, []) lines f →
      lines = t.lines ∧ f = .clientGone := by
    intro lines f hr
    cases endsAs_of_encode h hc hr with
    | flawed hw => exact absurd trivial hw
    | gone => exact ⟨rfl, rfl⟩
    | isReset he => cases he
  refine ⟨hall lines f, ?_⟩
  rintro ⟨rfl, rfl⟩
  obtain ⟨lines, f, hr⟩ := exists_readsOut (c := {}) (holding_arrivals chunks .endOfStream) []
  obtain ⟨rfl, rfl⟩ := hall lines f hr
  exact hr

theorem head?_eq_iff_of_readsOut {body : Text} (h : Utf8.encode (body ++ Line.crlf) = .ok bs)
    (hc : chunks.flatten = bs) {lines : List Text} {f : Fault}
    (hr : ReadsOut (arrivals chunks e) ({}, []) lines f) :
    lines.head? = some (body ++ Line.crlf) ↔ ∀ c ∈ body, ¬ c.IsLineBreak := by
  have hn : body ++ Line.crlf ≠ [] := List.append_ne_nil_of_right_ne_nil _ (by decide)
  rw [← takeLine_append_crlf_snd_iff, ← head?_lines_eq_iff hn]
  -- the text ends with an LF, so a reset behind it takes no line away
  have hl : (body ++ Line.crlf).settledLines = (body ++ Line.crlf).lines :=
    if_pos (by simp [Line.crlf])
  cases endsAs_of_encode h hc hr with
  | flawed hw => exact absurd trivial hw
  | gone => exact .rfl
  | isReset => rw [hl]

end Connection

namespace Client

open MemoryPort (IsLine linePort)

variable {body t : Text} {texts : List Text} {p : MemoryPort}

def readLines {σ : Type} (port : LinePort σ) : Nat → Task Fault σ (List Text)
  | 0 => return []
  | n + 1 => do
    let line ← readLine port
    let lines ← readLines port n
    return line :: lines

theorem encodePoint_crlf : Line.crlf.flatMap Utf8.encodePoint = Line.crlfBytes := by decide

theorem crlf_infix_iff : Line.crlfBytes <:+: t.flatMap Utf8.encodePoint ↔ Line.crlf <:+: t := by
  constructor
  · rintro ⟨u, v, h⟩
    rw [Line.crlfBytes, List.append_assoc] at h
    obtain ⟨before, c, after, rfl, -, hc, ha⟩ :=
      Utf8.exists_of_flatMap_encodePoint (by decide) h.symm
    obtain ⟨before', c', after, rfl, hb', hc', -⟩ :=
      Utf8.exists_of_flatMap_encodePoint (u := []) (by decide) ha
    obtain rfl : before' = [] := by
      by_contra hn
      exact Utf8.flatMap_encodePoint_ne_nil hn hb'
    obtain rfl : c = CodePoint.cr := Fin.ext hc
    obtain rfl : c' = CodePoint.lf := Fin.ext hc'
    exact ⟨before, after, by simp [Line.crlf]⟩
  · rintro ⟨u, v, rfl⟩
    rw [List.flatMap_append, List.flatMap_append, encodePoint_crlf]
    exact List.infix_append _ _ _

theorem isLine_encode_iff : IsLine ((body ++ Line.crlf).flatMap Utf8.encodePoint) ↔
    ¬ Line.crlf <:+: body := by
  rw [List.flatMap_append, encodePoint_crlf, ← crlf_infix_iff]
  generalize body.flatMap Utf8.encodePoint = bs
  have hd : (bs ++ Line.crlfBytes).dropLast = bs ++ [13] := by
    rw [show bs ++ Line.crlfBytes = bs ++ [13] ++ [10] by simp [Line.crlfBytes],
      List.dropLast_concat]
  have hs : ¬ Line.crlfBytes <:+ bs ++ [13] := by
    intro h
    have hl := h.getLast (by decide)
    simp [Line.crlfBytes] at hl
  rw [IsLine, Bytes.EndsFirst, hd, List.infix_concat_iff]
  simp only [List.suffix_append, true_and, hs, false_or]

theorem readLine_encode_iff {bs : Bytes} (h : Utf8.encode (body ++ Line.crlf) = .ok bs)
    (p : MemoryPort) (l : Log) :
    (readLine linePort ({ p with incoming := bs }, l)).1 = .ok (body ++ Line.crlf) ↔
      ¬ Line.crlf <:+: body := by
  rw [readLine_eq_ok_iff_line, ← isLine_encode_iff, h]
  obtain rfl := Utf8.eq_flatMap_of_encode h
  constructor
  · rintro ⟨r, rest, -, hr, he⟩
    rwa [Except.ok.inj he]
  · intro hr
    exact ⟨_, [], (List.append_nil _).symm, hr, rfl⟩

theorem readLine_of_encode {bs rest : Bytes} (ht : Utf8.encode t = .ok bs) (hb : IsLine bs)
    (hi : p.incoming = bs ++ rest) (l : Log) :
    ∃ l', readLine linePort (p, l) = (.ok t, ({ p with incoming := rest }, l')) :=
  readLine_of_line (MemoryPort.readLine_of_line hi hb) (List.isSuffixOf_iff_suffix.2 hb.1)
    (Utf8.decode_encode ht) l

theorem exists_isLine (h : Line.IsPlain t) : ∃ bs, Utf8.encode t = .ok bs ∧ IsLine bs := by
  refine ⟨_, Utf8.encode_of_no_surrogate h.no_surrogate, ?_⟩
  obtain ⟨body, rfl, hb⟩ := h
  refine isLine_encode_iff.2 fun hi => ?_
  have hcr : CodePoint.cr ∈ body := hi.subset (by decide)
  exact (hb _ hcr).2 (by decide)

theorem readLines_of_isLine (h : ∀ t ∈ texts, ∃ bs, Utf8.encode t = .ok bs ∧ IsLine bs)
    (hi : p.incoming = texts.flatten.flatMap Utf8.encodePoint) (l : Log) :
    ∃ l', readLines linePort texts.length (p, l) =
      (.ok texts, ({ p with incoming := [] }, l')) := by
  induction texts generalizing p l with
  | nil =>
    obtain ⟨incoming, written, isConnected, closeFault, closeCalls⟩ := p
    obtain rfl : incoming = [] := hi
    exact ⟨l, rfl⟩
  | cons t texts ih =>
    obtain ⟨⟨bs, ht, hb⟩, hts⟩ := List.forall_mem_cons.1 h
    rw [List.flatten_cons, List.flatMap_append, ← Utf8.eq_flatMap_of_encode ht] at hi
    obtain ⟨l₁, hr⟩ := readLine_of_encode ht hb hi l
    obtain ⟨l₂, hrs⟩ := ih hts
      (p := { p with incoming := texts.flatten.flatMap Utf8.encodePoint }) rfl l₁
    refine ⟨l₂, ?_⟩
    rw [List.length_cons, readLines, Task.bind_apply, hr]
    dsimp only
    rw [Task.bind_apply, hrs]
    rfl

end Client

open Connection (ReadsOut arrivals exists_readsOut holding_arrivals)
open MemoryPort (linePort)

theorem forM_writes {ε σ : Type} {write : Text → Task ε σ Unit} {s : Bytes → σ}
    (hw : ∀ {t bs}, Utf8.encode t = .ok bs → ∀ sent l,
      ∃ l', write t (s sent, l) = (.ok (), (s (sent ++ bs), l')))
    {texts : List Text} (h : ∀ t ∈ texts, ∀ c ∈ t, ¬ c.IsSurrogate) (sent : Bytes) (l : Log) :
    ∃ l', forM texts write (s sent, l) =
      (.ok (), (s (sent ++ texts.flatten.flatMap Utf8.encodePoint), l')) := by
  induction texts generalizing sent l with
  | nil => exact ⟨l, by simp; rfl⟩
  | cons t texts ih =>
    obtain ⟨ht, hts⟩ := List.forall_mem_cons.1 h
    obtain ⟨l₁, hone⟩ := hw (Utf8.encode_of_no_surrogate ht) sent l
    obtain ⟨l₂, hrest⟩ := ih hts (sent ++ t.flatMap Utf8.encodePoint) l₁
    refine ⟨l₂, ?_⟩
    rw [List.forM_cons, Task.bind_apply, hone]
    dsimp only
    rw [hrest, List.flatten_cons, List.flatMap_append, List.append_assoc]

theorem lines_framed_toServer {texts : List Text} (h : ∀ t ∈ texts, Line.IsPlain t) :
    ∃ port log, forM texts (Client.writeLine linePort) ({}, []) = (.ok (), (port, log)) ∧
      ∀ chunks : List Bytes, chunks.flatten = port.written → ∀ lines f,
        ReadsOut (arrivals chunks .endOfStream) ({}, []) lines f ↔
          lines = texts ∧ f = .clientGone := by
  have hs : ∀ t ∈ texts, ∀ c ∈ t, ¬ c.IsSurrogate := fun t ht => (h t ht).no_surrogate
  obtain ⟨log, hw⟩ := forM_writes (s := fun bs => ({ written := bs } : MemoryPort))
    (fun he _ l => Client.writeLine_of_isConnected rfl he l) hs [] []
  refine ⟨_, log, hw, fun chunks hc lines f => ?_⟩
  have he : Utf8.encode texts.flatten = .ok (texts.flatten.flatMap Utf8.encodePoint) := by
    refine Utf8.encode_of_no_surrogate fun c hc => ?_
    obtain ⟨t, ht, hct⟩ := List.mem_flatten.1 hc
    exact hs t ht c hct
  rw [Connection.readsOut_encode_iff he hc, lines_flatten h]

theorem lines_framed_toClient {texts : List Text} (h : ∀ t ∈ texts, Line.IsPlain t) :
    ∃ c log, forM texts Connection.writeLine ({}, []) = (.ok (), (c, log)) ∧
      ∀ (p : MemoryPort) l, ∃ l', Client.readLines linePort texts.length
          ({ p with incoming := c.sink.sent }, l) =
        (.ok texts, ({ p with incoming := [] }, l')) := by
  have hs : ∀ t ∈ texts, ∀ c ∈ t, ¬ c.IsSurrogate := fun t ht => (h t ht).no_surrogate
  obtain ⟨log, hw⟩ := forM_writes (s := fun bs => ({ sink := { sent := bs } } : Connection))
    (fun he _ l => ⟨_, Connection.writeLine_idle rfl he l⟩) hs [] []
  refine ⟨_, log, hw, fun p l => ?_⟩
  exact Client.readLines_of_isLine (fun t ht => Client.exists_isLine (h t ht)) rfl l

/-- Lines without a CR or LF of their own are received as they were written, at either end, and
nothing else is. A single line with such a code point never is at the server; at the client it is
as long as its end is the first CRLF in it. -/
theorem lines_framed :
    (∀ pairs : List (Text × Option Text),
      (∀ p ∈ pairs, ∀ c ∈ p.1 ++ p.2.getD [], ¬ c.IsSurrogate ∧ ¬ c.IsLineBreak) →
      let texts := pairs.map fun p => Line.encode p.1 p.2
      (∃ port log, forM texts (Client.writeLine linePort) ({}, []) = (.ok (), (port, log)) ∧
        ∀ chunks : List Bytes, chunks.flatten = port.written → ∀ lines f,
          ReadsOut (arrivals chunks .endOfStream) ({}, []) lines f ↔
            lines = texts ∧ f = .clientGone) ∧
      ∃ c log, forM texts Connection.writeLine ({}, []) = (.ok (), (c, log)) ∧
        ∀ (p : MemoryPort) l, ∃ l', Client.readLines linePort texts.length
            ({ p with incoming := c.sink.sent }, l) =
          (.ok texts, ({ p with incoming := [] }, l'))) ∧
    ∀ (keyword : Text) (payload : Option Text),
      (∀ c ∈ keyword ++ payload.getD [], ¬ c.IsSurrogate) →
      let t := Line.encode keyword payload
      ∃ bs body, Utf8.encode t = .ok bs ∧ t = body ++ Line.crlf ∧
        (∀ chunks e, chunks.flatten = bs → ∃ lines f,
          ReadsOut (arrivals chunks e) ({}, []) lines f ∧
          ∀ lines f, ReadsOut (arrivals chunks e) ({}, []) lines f →
            (lines.head? = some t ↔ ∀ c ∈ keyword ++ payload.getD [], ¬ c.IsLineBreak)) ∧
        ∀ (p : MemoryPort) l,
          (Client.readLine linePort ({ p with incoming := bs }, l)).1 = .ok t ↔
            ¬ Line.crlf <:+: body := by
  constructor
  · intro pairs h texts
    have hs : ∀ t ∈ texts, Line.IsPlain t :=
      List.forall_mem_map.2 fun p hp => Line.isPlain_encode (h p hp)
    exact ⟨lines_framed_toServer hs, lines_framed_toClient hs⟩
  · intro keyword payload h
    obtain ⟨body, ht, hb⟩ := Line.exists_encode_eq keyword payload
    rw [ht]
    have hbody := (hb _ (by decide)).2 h
    have hc := Utf8.encode_of_no_surrogate (Line.no_surrogate_append_crlf hbody)
    refine ⟨_, body, hc, rfl, fun chunks e hbs => ?_, Client.readLine_encode_iff hc⟩
    · obtain ⟨lines, f, hr⟩ := exists_readsOut (c := {}) (holding_arrivals chunks e) []
      refine ⟨lines, f, hr, fun lines f hr => ?_⟩
      rw [← hb _ (by decide)]
      exact Connection.head?_eq_iff_of_readsOut hc hbs hr

theorem lines_framed_stray :
    (∃ port log, forM [text "A \u00e9\r\n", text "\r\n"] (Client.writeLine linePort) ({}, []) =
        (.ok (), (port, log)) ∧
      ReadsOut (arrivals [port.written] .endOfStream) ({}, []) [text "A \u00e9\r\n", text "\r\n"]
        .clientGone) ∧
    ∃ bs lines f, (Client.readLine linePort ({ incoming := bs }, [])).1 = .ok (text "A\r\r\n") ∧
      ReadsOut (arrivals [bs] .reset) ({}, []) lines f ∧ lines.head? ≠ some (text "A\r\r\n") := by
  have hplain : ∀ p ∈ [(text "A", some (text "\u00e9")), ([], none)],
      ∀ c ∈ p.1 ++ p.2.getD [], ¬ c.IsSurrogate ∧ ¬ c.IsLineBreak := by
    refine List.forall_mem_cons.2 ⟨?_, List.forall_mem_singleton.2 (List.forall_mem_nil _)⟩
    exact List.forall_mem_cons.2 ⟨by decide, List.forall_mem_singleton.2 (by decide)⟩
  obtain ⟨port, log, hw, hr⟩ := (lines_framed.1 _ hplain).1
  have hscalar : ∀ c ∈ text "A\r" ++ (none : Option Text).getD [], ¬ c.IsSurrogate :=
    List.forall_mem_cons.2 ⟨by decide, List.forall_mem_singleton.2 (by decide)⟩
  obtain ⟨bs, body, -, hb, hserver, hclient⟩ := lines_framed.2 _ _ hscalar
  obtain ⟨lines, f, hs, hall⟩ := hserver [bs] .reset List.flatten_singleton
  obtain rfl : text "A\r" = body := List.append_cancel_right hb
  refine ⟨⟨port, log, hw, (hr _ List.flatten_singleton _ _).2 ⟨rfl, rfl⟩⟩, bs, lines, f, ?_, hs, ?_⟩
  · exact (hclient {} []).2 (by decide)
  · exact mt (hall lines f hs).1 fun hn => hn CodePoint.cr (by decide) (.inl rfl)

end LineHandshake
