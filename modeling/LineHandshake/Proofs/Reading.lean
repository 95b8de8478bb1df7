import LineHandshake.Proofs.Utf8
import LineHandshake.TextSource

/-!
What reading gives is a matter of the text alone, not of the packets in which its bytes come. A
source holds a text if that is what it has still to give once the bytes that are yet to come have
come; a read takes the same part of it off as if the text lay there whole.
-/

namespace LineHandshake

/-- A line ends after CRLF, LF or a lone CR; a last piece without an end is a line too. -/
def Text.lines : Text → List Text
  | [] => []
  | c :: t =>
    if c = CodePoint.lf ∨ (c = CodePoint.cr ∧ t.head? ≠ some CodePoint.lf) then [c] :: lines t
    else
      match lines t with
      | [] => [[c]]
      | l :: ls => (c :: l) :: ls

def takeLine (t : Text) : Text × Text := (cutLine? t).getD (t, [])

theorem CodePoint.cr_ne_lf : CodePoint.cr ≠ CodePoint.lf := by decide

theorem takeLine_cons {c : CodePoint} {t : Text} (hl : c ≠ CodePoint.lf) (hc : c ≠ CodePoint.cr) :
    takeLine (c :: t) = (c :: (takeLine t).1, (takeLine t).2) := by
  simp only [takeLine, cutLine?, hl, hc, if_false]
  cases cutLine? t <;> rfl

theorem takeLine_append_crlf {body : Text} (h : ∀ c ∈ body, ¬ c.IsLineBreak) (rest : Text) :
    takeLine (body ++ Line.crlf ++ rest) = (body ++ Line.crlf, rest) := by
  induction body with
  | nil => simp [takeLine, cutLine?, Line.crlf, CodePoint.cr_ne_lf]
  | cons c body ih =>
    obtain ⟨hc, hb⟩ := List.forall_mem_cons.1 h
    obtain ⟨hcr, hlf⟩ := not_or.1 hc
    rw [List.cons_append, List.cons_append, takeLine_cons hlf hcr, ih hb]

theorem Text.lines_eq_takeLine {t : Text} (ht : t ≠ []) :
    t.lines = (takeLine t).1 :: (takeLine t).2.lines := by
  induction t with
  | nil => exact absurd rfl ht
  | cons c t ih =>
    by_cases hl : c = CodePoint.lf
    · simp [lines, takeLine, cutLine?, hl]
    by_cases hc : c = CodePoint.cr
    · subst hc
      by_cases hh : t.head? = some CodePoint.lf
      · obtain ⟨t', rfl⟩ := List.head?_eq_some_iff.1 hh
        simp [lines, takeLine, cutLine?, CodePoint.cr_ne_lf]
      · simp [lines, takeLine, cutLine?, CodePoint.cr_ne_lf, hh]
    rw [takeLine_cons hl hc]
    cases t with
    | nil => simp [lines, takeLine, cutLine?, hl, hc]
    | cons d t =>
      have hd := ih (List.cons_ne_nil d t)
      generalize d :: t = r at hd
      simp only [lines, hl, hc, hd, false_or, false_and, if_false]

theorem takeLine_fst_eq_nil_iff {t : Text} : (takeLine t).1 = [] ↔ t = [] := by
  constructor
  · intro h
    by_contra ht
    cases t with
    | nil => exact ht rfl
    | cons c t =>
      simp only [takeLine, cutLine?] at h
      split at h
      · cases h
      split at h
      · split at h <;> cases h
      cases ht : cutLine? t <;> simp [ht] at h
  · rintro rfl
    rfl

def heldText (heldCr : Bool) : Text := if heldCr then [CodePoint.cr] else []

theorem Decoder.holdCr_append_heldText (heldCr : Bool) (t : Text) :
    (holdCr heldCr t).1 ++ heldText (holdCr heldCr t).2 = heldText heldCr ++ t :=
  holdCr_restored heldCr t

theorem Decoder.heldCr_of_getLast? {x : Text} {heldCr : Bool}
    (h : x.getLast? = some CodePoint.cr → heldCr = true) (t : Text) :
    (x ++ (holdCr heldCr t).1).getLast? = some CodePoint.cr → (holdCr heldCr t).2 = true := by
  induction t generalizing x heldCr with
  | nil => simpa [holdCr] using h
  | cons c t ih =>
    simp only [holdCr]
    rw [List.append_assoc, ← List.append_assoc, ← List.append_assoc]
    apply ih
    intro hx
    by_cases hc : c = CodePoint.cr
    · simpa using hc
    · simp [hc] at hx

/-- What `cut` finds in a beginning of a text, `take` takes off the whole. The text may go on with
anything, but after a CR at the end of its beginning only with a CR. -/
structure Cuts (cut : Text → Option (Text × Text)) (take : Text → Text × Text) : Prop where
  whole : ∀ {x got rest}, cut x = some (got, rest) → got ++ rest = x
  found : ∀ {x got rest y}, cut x = some (got, rest) →
    (x.getLast? = some CodePoint.cr → y.head? = some CodePoint.cr) →
      take (x ++ y) = (got, rest ++ y)
  missing : ∀ {x}, cut x = none → ∀ heldCr,
    take (x ++ heldText heldCr) = (x ++ heldText heldCr, [])

theorem cutLine?_append {x got rest y : Text} (h : cutLine? x = some (got, rest))
    (hy : x.getLast? = some CodePoint.cr → y.head? = some CodePoint.cr) :
    cutLine? (x ++ y) = some (got, rest ++ y) := by
  induction x generalizing got with
  | nil => cases h
  | cons c x ih =>
    simp only [cutLine?, List.cons_append] at h ⊢
    split at h
    · next hc =>
      cases h
      rw [if_pos hc]
    · next hl =>
      rw [if_neg hl]
      split at h
      · next hc =>
        subst hc
        rw [if_pos rfl]
        cases x with
        | nil =>
          cases h
          have hcr := hy rfl
          simp [hcr, CodePoint.cr_ne_lf]
        | cons d x =>
          by_cases hd : d = CodePoint.lf
          · simp only [hd, List.head?_cons, if_true, List.tail_cons, List.cons_append] at h ⊢
            cases h
            rfl
          · simp only [List.head?_cons, Option.some.injEq, hd, if_false, List.cons_append] at h ⊢
            cases h
            rfl
      · next hc =>
        rw [if_neg hc]
        obtain ⟨⟨g, r⟩, hx, he⟩ := Option.map_eq_some_iff.1 h
        cases he
        cases x with
        | nil => cases hx
        | cons d x =>
          rw [ih hx (by simpa only [List.getLast?_cons_cons] using hy)]
          rfl

theorem cutLine?_eq_none_iff {t : Text} :
    cutLine? t = none ↔ CodePoint.lf ∉ t ∧ CodePoint.cr ∉ t := by
  induction t with
  | nil => simp [cutLine?]
  | cons c t ih =>
    simp only [cutLine?]
    split
    · next h => simp [h]
    · next hl =>
      split
      · next h =>
        split <;> simp [h]
      · next hc =>
        simp [ih, Ne.symm hl, Ne.symm hc]

theorem cuts_line : Cuts cutLine? takeLine where
  whole := append_of_cutLine?
  found h hy := by
    simp only [takeLine, cutLine?_append h hy, Option.getD_some]
  missing {x} h heldCr := by
    cases heldCr with
    | false => simp [heldText, takeLine, h]
    | true =>
      -- a CR at the very end is a line's end with nothing behind it
      have hx := cutLine?_eq_none_iff.1 h
      induction x with
      | nil => rfl
      | cons c x ih =>
        obtain ⟨hl, hc⟩ := hx
        simp only [List.mem_cons, not_or] at hl hc
        have hr := ih (cutLine?_eq_none_iff.2 ⟨hl.2, hc.2⟩) ⟨hl.2, hc.2⟩
        rw [List.cons_append, takeLine_cons (Ne.symm hl.1) (Ne.symm hc.1), hr]

namespace TextSource

/-- Once the bytes `later` have come, `s` has the text `t` to give and nothing else. -/
structure Holds (s : TextSource) (later : Bytes) (t : Text) : Prop where
  isOpen : s.isOpen = true
  ready : s.ready.getLast? = some CodePoint.cr → s.decoder.heldCr = true
  text : ∃ u, Utf8.run s.decoder.held 0 (s.packets.flatten ++ later) = .ok (u, []) ∧
    t = s.ready ++ (heldText s.decoder.heldCr ++ u)
  ending : s.ending = none ∨ (s.ending = some .endOfStream ∧ later = [])

/-- What is left to give once all that came has been looked at and `x` of it is ready. -/
def Stuck (s : TextSource) (cut : Text → Option (Text × Text)) (later : Bytes) (t : Text) : Prop :=
  ∃ x d, cut x = none ∧ Holds { s with packets := [], decoder := d, ready := x } later t

variable {cut : Text → Option (Text × Text)} {take : Text → Text × Text}

theorem Holds.of_feed {s : TextSource} {begun : Text} {d : Decoder} {p : Bytes} {ps : List Bytes}
    {later : Bytes} {t : Text}
    (h : Holds { s with packets := p :: ps, decoder := d, ready := begun } later t) :
    ∃ u d', d.feed p = .ok (u, d') ∧
      Holds { s with packets := ps, decoder := d', ready := begun ++ u } later t := by
  obtain ⟨hopen, hready, ⟨u, hu, rfl⟩, hend⟩ := h
  dsimp only at hopen hready hu hend
  rw [List.flatten_cons, List.append_assoc] at hu
  obtain ⟨v, w, held, hv, hw, rfl⟩ := Utf8.run_append_ok hu
  refine ⟨(Decoder.holdCr d.heldCr v).1, ⟨held, (Decoder.holdCr d.heldCr v).2⟩,
    by simp only [Decoder.feed, hv], ?_⟩
  refine ⟨hopen, Decoder.heldCr_of_getLast? hready v, ⟨w, hw, ?_⟩, hend⟩
  dsimp only
  rw [List.append_assoc, ← List.append_assoc _ v w, ← Decoder.holdCr_append_heldText,
    List.append_assoc]

theorem Holds.cut_ready {s : TextSource} {later : Bytes} {t got rest : Text}
    (hc : Cuts cut take) (h : s.Holds later t) (hcut : cut s.ready = some (got, rest)) :
    take t = (got, (take t).2) ∧ Holds { s with ready := rest } later (take t).2 := by
  obtain ⟨hopen, hready, ⟨u, hu, rfl⟩, hend⟩ := h
  have hy : s.ready.getLast? = some CodePoint.cr →
      (heldText s.decoder.heldCr ++ u).head? = some CodePoint.cr := by
    intro hl
    rw [hready hl]
    rfl
  rw [hc.found hcut hy]
  refine ⟨rfl, hopen, ?_, ⟨u, hu, rfl⟩, hend⟩
  intro hl
  apply hready
  rw [← hc.whole hcut, List.getLast?_append, hl]
  rfl

theorem Holds.atEnd {s : TextSource} {begun : Text} {d : Decoder} {later : Bytes} {t : Text}
    (hc : Cuts cut take)
    (h : Holds { s with packets := [], decoder := d, ready := begun } later t)
    (hcut : cut begun = none) :
    (s.atEnd begun d = (.error .waiting, s) ∧ s.ending = none) ∨
      ∃ s', s.atEnd begun d = (.ok (take t).1, s') ∧ s'.Holds later (take t).2 ∧
        s'.ending = s.ending := by
  obtain ⟨hopen, hready, ⟨u, hu, rfl⟩, hend⟩ := h
  dsimp only at hopen hready hu hend
  rcases hend with hend | ⟨hend, rfl⟩
  · left
    simp only [TextSource.atEnd, hend, and_self]
  · right
    obtain ⟨rfl, hh⟩ : [] = u ∧ d.held = [] := by simpa [Utf8.run] using hu
    have hf : d.feedLast [] = .ok (heldText d.heldCr) := by
      simp [Decoder.feedLast, Decoder.feed, Utf8.run, Decoder.holdCr, Utf8.finish, Except.map,
        heldText, hh]
    refine ⟨{ s with packets := [], decoder := {}, ready := [] }, ?_, ?_, rfl⟩
    · simp only [TextSource.atEnd, hend, hf, gained, List.append_nil, hc.missing hcut]
    · rw [List.append_nil, hc.missing hcut]
      exact ⟨hopen, (by intro hl; cases hl), ⟨[], rfl, rfl⟩, .inr ⟨hend, rfl⟩⟩

theorem Holds.receive (hc : Cuts cut take) {s : TextSource} {before : Nat} {begun : Text}
    {d : Decoder} {ps : List Bytes} {later : Bytes} {t : Text}
    (h : Holds { s with packets := ps, decoder := d, ready := begun } later t)
    (hcut : cut begun = none) :
    (s.receive cut .never before begun d ps = (.error .waiting, s) ∧ s.ending = none ∧
        s.Stuck cut later t) ∨
      ∃ s', s.receive cut .never before begun d ps = (.ok (take t).1, s') ∧
        s'.Holds later (take t).2 ∧ s'.ending = s.ending := by
  induction ps generalizing before begun d with
  | nil =>
    simp only [TextSource.receive, Refusal.never, Bool.false_eq_true, if_false]
    rcases h.atEnd hc hcut with ⟨hr, he⟩ | hr
    · exact .inl ⟨hr, he, begun, d, hcut, h⟩
    · exact .inr hr
  | cons p ps ih =>
    obtain ⟨u, d', hf, hu⟩ := h.of_feed
    simp only [TextSource.receive, Refusal.never, Bool.false_eq_true, if_false, hf]
    cases hx : cut (begun ++ u) with
    | none => exact ih hu hx
    | some r =>
      obtain ⟨got, rest⟩ := r
      obtain ⟨ht, hh⟩ := hu.cut_ready hc hx
      exact .inr ⟨_, by rw [ht]; rfl, hh, rfl⟩

theorem Holds.readUntil (hc : Cuts cut take) {s : TextSource} {later : Bytes} {t : Text}
    (h : s.Holds later t) :
    (s.readUntil cut .never = (.error .waiting, s) ∧ s.ending = none ∧ s.Stuck cut later t) ∨
      ∃ s', s.readUntil cut .never = (.ok (take t).1, s') ∧ s'.Holds later (take t).2 ∧
        s'.ending = s.ending := by
  rw [TextSource.readUntil, if_pos h.isOpen]
  cases hx : cut s.ready with
  | none => exact h.receive hc hx
  | some r =>
    obtain ⟨got, rest⟩ := r
    obtain ⟨ht, hh⟩ := h.cut_ready hc hx
    exact .inr ⟨_, by rw [ht], hh, rfl⟩

theorem Holds.readLine {s : TextSource} {later : Bytes} {t : Text} (h : s.Holds later t) :
    (s.readLine = (.error .waiting, s) ∧ s.ending = none ∧ s.Stuck cutLine? later t) ∨
      ∃ s', s.readLine = (.ok (takeLine t).1, s') ∧ s'.Holds later (takeLine t).2 ∧
        s'.ending = s.ending :=
  h.readUntil cuts_line

theorem Stuck.not_mem_lf {s : TextSource} {t : Text} (h : s.Stuck cutLine? [] t) :
    t.getLast? ≠ some CodePoint.lf := by
  obtain ⟨x, d, hx, -, -, ⟨u, hu, rfl⟩, -⟩ := h
  obtain ⟨rfl, -⟩ : [] = u ∧ d.held = [] := by simpa [Utf8.run] using hu
  intro hl
  have hlf := List.mem_of_getLast? hl
  dsimp only at hlf hl
  cases hd : d.heldCr with
  | false =>
    simp only [hd, heldText, Bool.false_eq_true, if_false, List.append_nil] at hlf
    exact (cutLine?_eq_none_iff.1 hx).1 hlf
  | true =>
    simp [hd, heldText, CodePoint.cr_ne_lf] at hl

theorem Holds.deliver {s : TextSource} {bs later : Bytes} {t : Text}
    (h : s.Holds (bs ++ later) t) (he : s.ending = none) : (s.deliver bs).Holds later t := by
  obtain ⟨hopen, hready, ⟨u, hu, rfl⟩, -⟩ := h
  simp only [TextSource.deliver, he, Option.isSome_none, Bool.false_eq_true, if_false]
  refine ⟨hopen, hready, ⟨u, ?_, rfl⟩, .inl rfl⟩
  simpa only [List.flatten_append, flatten_packets, List.reverse_nil, List.nil_append,
    List.append_assoc] using hu

theorem Holds.hangUp {s : TextSource} {t : Text} (h : s.Holds [] t) :
    (s.hangUp .endOfStream).Holds [] t := by
  obtain ⟨hopen, hready, ht, hend⟩ := h
  unfold TextSource.hangUp
  split
  · exact ⟨hopen, hready, ht, hend⟩
  · exact ⟨hopen, hready, ht, .inr ⟨rfl, rfl⟩⟩

structure IsDrained (s : TextSource) : Prop where
  packets : s.packets.flatten = []
  decoder : s.decoder = {}
  ready : s.ready = []

theorem Holds.isDrained {s : TextSource} (h : s.Holds [] []) : s.IsDrained := by
  obtain ⟨-, -, ⟨u, hu, ht⟩, -⟩ := h
  obtain ⟨hready, hrest⟩ := List.append_eq_nil_iff.1 ht.symm
  obtain ⟨hcr, rfl⟩ := List.append_eq_nil_iff.1 hrest
  obtain ⟨hheld, hp⟩ := Utf8.eq_nil_of_run_eq_nil hu
  rw [List.append_nil] at hp
  have hc : s.decoder.heldCr = false := by
    cases hd : s.decoder.heldCr with
    | false => rfl
    | true => simp [heldText, hd] at hcr
  refine ⟨hp, ?_, hready⟩
  cases hd : s.decoder
  simp only [hd] at hheld hc
  rw [hheld, hc]

theorem holds_of_decode {bs : Bytes} {t : Text} (h : Utf8.decode bs = .ok t) :
    ({} : TextSource).Holds bs t :=
  ⟨rfl, (by intro hl; cases hl), ⟨t, Utf8.decode_eq_ok_iff.1 h, rfl⟩, .inl rfl⟩

end TextSource

end LineHandshake
