import LineHandshake.Proofs.Exchange

/-!
What a source has to give whatever comes later, also if what comes is not all well-formed. A read
that goes through takes the same part of it off as if it lay there whole, so what was read is
settled: nothing that comes later changes it.
-/

namespace LineHandshake

namespace Utf8

/-- What bytes after a sequence begun say up to their first flaw. -/
def readable (held : Bytes) : Bytes → Text
  | [] => []
  | b :: bs =>
    match step held b with
    | .more => readable (held ++ [b]) bs
    | .point c => c :: readable [] bs
    | .bad _ _ => []

theorem readable_append {held : Bytes} {start : Nat} {as : Bytes} {t : Text} {held' : Bytes}
    (h : run held start as = .ok (t, held')) (bs : Bytes) :
    readable held (as ++ bs) = t ++ readable held' bs := by
  induction as generalizing held start t with
  | nil =>
    cases h
    rfl
  | cons b as ih =>
    rw [run] at h
    rw [List.cons_append, readable]
    generalize step held b = r at h ⊢
    cases r with
    | more => exact ih h
    | bad size reason => cases h
    | point c =>
      obtain ⟨⟨t', h'⟩, hr, he⟩ : ∃ r, run [] (start + held.length + 1) as = .ok r ∧
          (c :: r.1, r.2) = (t, held') := by
        cases hr : run [] (start + held.length + 1) as with
        | error e => simp [hr, Except.map] at h
        | ok r => exact ⟨r, rfl, by simpa [hr, Except.map] using h⟩
      cases he
      exact congrArg (List.cons c) (ih hr)

end Utf8

namespace TextSource

def IsReady (s : TextSource) : Prop :=
  s.ready.getLast? = some CodePoint.cr → s.decoder.heldCr = true

/-- What may still come: nothing once the peer has ended its side. -/
def Allows (s : TextSource) (later : Bytes) : Prop := s.ending = none ∨ later = []

/-- What `s` has to give once `later` has come, up to the first flaw in it. -/
def foresees (s : TextSource) (later : Bytes) : Text :=
  s.ready ++ (heldText s.decoder.heldCr ++
    Utf8.readable s.decoder.held (s.packets.flatten ++ later))

variable {cut : Text → Option (Text × Text)} {take : Text → Text × Text} {s s' : TextSource}
  {got : Text} {later : Bytes}

structure Takes (take : Text → Text × Text) (s : TextSource) (got : Text) (s' : TextSource) :
    Prop where
  isReady : s'.IsReady
  ending : s'.ending = s.ending
  text : ∀ later, s.Allows later → take (s.foresees later) = (got, s'.foresees later)

theorem Takes.of_foresees {s₀ : TextSource} (h : Takes take s₀ got s')
    (he : s₀.ending = s.ending)
    (hf : ∀ later, s₀.Allows later → s₀.foresees later = s.foresees later) :
    Takes take s got s' := by
  refine ⟨h.isReady, h.ending.trans he, fun later hl => ?_⟩
  rw [← hf later (by rwa [Allows, he]), h.text later (by rwa [Allows, he])]

theorem takes_ready (hc : Cuts cut take) (h : s.IsReady) {rest : Text}
    (hcut : cut s.ready = some (got, rest)) : Takes take s got { s with ready := rest } := by
  refine ⟨fun hl => h ?_, rfl, fun later _ => ?_⟩
  · rw [← hc.whole hcut, List.getLast?_append]
    dsimp only at hl
    rw [hl]
    rfl
  · refine hc.found hcut fun hl => ?_
    rw [h hl]
    rfl

theorem isReady_feed {d d' : Decoder} {p : Bytes} {begun u : Text}
    (h : begun.getLast? = some CodePoint.cr → d.heldCr = true) (hf : d.feed p = .ok (u, d')) :
    (begun ++ u).getLast? = some CodePoint.cr → d'.heldCr = true := by
  unfold Decoder.feed at hf
  split at hf
  · cases hf
  · cases hf
    exact Decoder.heldCr_of_getLast? h _

theorem foresees_feed {d d' : Decoder} {p : Bytes} {ps : List Bytes} {begun u : Text}
    (hf : d.feed p = .ok (u, d')) (later : Bytes) :
    foresees { s with packets := ps, decoder := d', ready := begun ++ u } later =
      foresees { s with packets := p :: ps, decoder := d, ready := begun } later := by
  unfold Decoder.feed at hf
  split at hf
  · cases hf
  · next v held hv =>
    cases hf
    simp only [foresees, List.flatten_cons, List.append_assoc, Utf8.readable_append hv]
    rw [← List.append_assoc (heldText _) v, ← Decoder.holdCr_append_heldText d.heldCr v,
      List.append_assoc]

theorem feedLast_nil {d : Decoder} {t : Text} (h : d.feedLast [] = .ok t) :
    t = heldText d.heldCr := by
  simp only [Decoder.feedLast, Decoder.feed, Utf8.run, Decoder.holdCr] at h
  generalize Utf8.finish d.held _ = r at h
  cases r with
  | error e => cases h
  | ok _ => exact (Except.ok.inj h).symm

theorem takes_atEnd (hc : Cuts cut take) {begun : Text} {d : Decoder} (hcut : cut begun = none)
    (hr : s.atEnd begun d = (.ok got, s')) :
    Takes take { s with packets := [], decoder := d, ready := begun } got s' := by
  unfold atEnd at hr
  split at hr
  · cases hr
  · cases hr
  · next he =>
    split at hr
    · cases hr
    · next t ht =>
      obtain rfl := feedLast_nil ht
      cases hr
      refine ⟨(by intro hl; cases hl), rfl, fun later hl => ?_⟩
      obtain rfl : later = [] := hl.resolve_left (by simp [he])
      simp only [foresees, Utf8.readable, List.flatten_nil, List.append_nil]
      exact hc.missing hcut d.heldCr

theorem takes_receive (hc : Cuts cut take) {refuses : Refusal} {before : Nat} {begun : Text}
    {d : Decoder} {ps : List Bytes} (h : begun.getLast? = some CodePoint.cr → d.heldCr = true)
    (hcut : cut begun = none) (hr : s.receive cut refuses before begun d ps = (.ok got, s')) :
    Takes take { s with packets := ps, decoder := d, ready := begun } got s' := by
  induction ps generalizing before begun d with
  | nil =>
    unfold receive at hr
    split at hr
    · cases hr
    · exact takes_atEnd hc hcut hr
  | cons p ps ih =>
    unfold receive at hr
    split at hr
    · cases hr
    · dsimp only at hr
      split at hr
      · cases hr
      next u d' hf =>
      have hready := isReady_feed h hf
      split at hr
      · next got' rest hx =>
        cases hr
        have ht := takes_ready (s := { s with packets := ps, decoder := d', ready := begun ++ u })
          hc hready hx
        exact ht.of_foresees rfl fun later _ => foresees_feed hf later
      · next hx =>
        exact (ih hready hx hr).of_foresees rfl fun later _ => foresees_feed hf later

theorem takes_readUntil (hc : Cuts cut take) {refuses : Refusal} (h : s.IsReady)
    (hr : s.readUntil cut refuses = (.ok got, s')) : Takes take s got s' := by
  unfold readUntil at hr
  split at hr
  · split at hr
    · next hx =>
      cases hr
      exact takes_ready hc h hx
    · next hx => exact takes_receive hc h hx hr
  · cases hr

end TextSource

namespace Connection

inductive AwaitsLine (keyword : Text) (c : Connection) :
    Except Interrupt Text × Connection × Log → Prop
  | taken {t line : Text} {source : TextSource} {log : Log}
      (takes : c.source.Takes takeLine line source) (starts : keyword <+: line) :
      AwaitsLine keyword c (.ok t, ({ c with source }, log))
  | waits {q : Connection × Log} : AwaitsLine keyword c (.error .waiting, q)
  | fails {f : Fault} {source : TextSource} {log : Log} :
      AwaitsLine keyword c (.error (.fault f), ({ c with source }, log))

theorem await_awaitsLine {keyword : Text} (hk : keyword ∈ Keyword.all) {c : Connection}
    (h : c.source.IsReady) (log : Log) : AwaitsLine keyword c (await keyword (c, log)) := by
  rw [await_apply, readLine_apply]
  rcases hr : c.source.readLine with ⟨(_ | f) | line, source⟩
  · exact .waits
  · cases f <;> exact .fails
  · have htakes := TextSource.takes_readUntil cuts_line h hr
    by_cases hl : line = []
    · simp only [if_pos hl]
      exact .fails
    · simp only [if_neg hl, Line.expect, Text.isPrefixOf_chomp (Keyword.not_isLineBreak hk)]
      split
      · next hp => exact .taken htakes (List.isPrefixOf_iff_prefix.1 hp)
      · exact .fails

end Connection

/-- Of the bytes `bs` that came, so many lines were taken, and they start as they should. Nothing
that comes later changes them. -/
def Taken (bs : Bytes) (source : TextSource) : (lines : Nat) → Prop
  | 0 =>
    source.IsReady ∧
      ∀ later, source.Allows later → source.foresees later = Utf8.readable [] (bs ++ later)
  | 1 =>
    source.IsReady ∧ ∃ l1, Keyword.connect <+: l1 ∧ ∀ later, source.Allows later →
      takeLine (Utf8.readable [] (bs ++ later)) = (l1, source.foresees later)
  | _ =>
    ∃ l1 l2, Keyword.connect <+: l1 ∧ Keyword.ping <+: l2 ∧ ∀ later, source.Allows later →
      ∃ rest, (Utf8.readable [] (bs ++ later)).lines = l1 :: l2 :: rest

namespace Taken

variable {bs : Bytes} {source source' : TextSource} {line : Text} {n : Nat}

theorem ne_nil_of_takeLine {t line rest : Text} {keyword : Text} (hk : keyword ∈ Keyword.all)
    (hp : keyword <+: line) (h : takeLine t = (line, rest)) : t ≠ [] := by
  rintro rfl
  cases h
  rw [List.prefix_nil.1 hp] at hk
  exact absurd hk (by decide)

theorem nothing : Taken [] {} 0 := ⟨nofun, fun _ _ => rfl⟩

theorem connect (h : Taken bs source 0) (ht : source.Takes takeLine line source')
    (hp : Keyword.connect <+: line) : Taken bs source' 1 := by
  obtain ⟨-, hf⟩ := h
  refine ⟨ht.isReady, line, hp, fun later hl => ?_⟩
  have hl' : source.Allows later := by rwa [TextSource.Allows, ← ht.ending]
  rw [← hf later hl', ht.text later hl']

theorem ping (h : Taken bs source 1) (ht : source.Takes takeLine line source')
    (hp : Keyword.ping <+: line) : Taken bs source' 2 := by
  obtain ⟨-, l1, h1, hf⟩ := h
  refine ⟨l1, line, h1, hp, fun later hl => ?_⟩
  have hl' : source.Allows later := by rwa [TextSource.Allows, ← ht.ending]
  have hfirst := hf later hl'
  have hsecond := ht.text later hl'
  rw [Text.lines_eq_takeLine (ne_nil_of_takeLine (.tail _ (.head _)) h1 hfirst), hfirst]
  dsimp only
  rw [Text.lines_eq_takeLine (ne_nil_of_takeLine (.tail _ (.tail _ (.head _))) hp hsecond), hsecond]
  exact ⟨_, rfl⟩

theorem of_foresees {bs' : Bytes} (h : Taken bs source n) (hr : source.IsReady → source'.IsReady)
    (hf : ∀ later, source'.Allows later → ∃ later', source.Allows later' ∧
      source'.foresees later = source.foresees later' ∧ bs' ++ later = bs ++ later') :
    Taken bs' source' n := by
  match n with
  | 0 =>
    refine ⟨hr h.1, fun later hl => ?_⟩
    obtain ⟨later', hl', hs, hb⟩ := hf later hl
    rw [hs, hb, h.2 later' hl']
  | 1 =>
    obtain ⟨hready, l1, h1, ht⟩ := h
    refine ⟨hr hready, l1, h1, fun later hl => ?_⟩
    obtain ⟨later', hl', hs, hb⟩ := hf later hl
    rw [hs, hb, ht later' hl']
  | _ + 2 =>
    obtain ⟨l1, l2, h1, h2, ht⟩ := h
    refine ⟨l1, l2, h1, h2, fun later hl => ?_⟩
    obtain ⟨later', hl', -, hb⟩ := hf later hl
    rw [hb]
    exact ht later' hl'

theorem deliver (h : Taken bs source n) (he : source.ending = none) (more : Bytes) :
    Taken (bs ++ more) (source.deliver more) n := by
  have hd : source.deliver more = { source with
      packets := source.packets ++ packets packetSize [] more } := by
    simp [TextSource.deliver, he]
  refine h.of_foresees (by rw [hd]; exact id) fun later _ =>
    ⟨more ++ later, .inl he, ?_, List.append_assoc ..⟩
  rw [hd]
  simp only [TextSource.foresees, List.flatten_append, flatten_packets, List.reverse_nil,
    List.nil_append, List.append_assoc]

theorem deliver_over (h : Taken bs source n) (he : source.ending ≠ none) (more : Bytes) :
    Taken bs (source.deliver more) n := by
  rwa [TextSource.deliver, if_pos (Option.isSome_iff_ne_none.2 he)]

theorem hangUp (h : Taken bs source n) (e : Ending) : Taken bs (source.hangUp e) n := by
  unfold TextSource.hangUp
  split
  · exact h
  · next hn =>
    have he : source.ending = none := by simpa using hn
    exact h.of_foresees id fun later _ => ⟨later, .inl he, rfl, rfl⟩

theorem of_ending (h : Taken bs source 2) (he : source'.ending = source.ending) :
    Taken bs source' 2 := by
  obtain ⟨l1, l2, h1, h2, ht⟩ := h
  exact ⟨l1, l2, h1, h2, fun later hl => ht later (by rwa [TextSource.Allows, ← he])⟩

end Taken
def HasBothLines (bs : Bytes) : Prop :=
  ∃ l1 l2 rest, (Utf8.readable [] bs).lines = l1 :: l2 :: rest ∧ Keyword.connect <+: l1 ∧
    Keyword.ping <+: l2

theorem Taken.hasBothLines {bs : Bytes} {source : TextSource} (h : Taken bs source 2) :
    HasBothLines bs := by
  obtain ⟨l1, l2, h1, h2, ht⟩ := h
  obtain ⟨rest, hr⟩ := ht [] (.inr rfl)
  rw [List.append_nil] at hr
  exact ⟨l1, l2, rest, hr, h1, h2⟩
end LineHandshake
