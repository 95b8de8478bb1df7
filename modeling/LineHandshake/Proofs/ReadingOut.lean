import LineHandshake.Proofs.Foresight
import LineHandshake.Proofs.Reads
import LineHandshake.Proofs.Utf8.WellFormed

/-!
A connection read line by line until a read fails, while its bytes and its end come in any pieces.
The lines are those of the text up to the first flaw, in order. Which failure ends them tells
whether there is a flaw: a stream without one ends with the client gone, or with its reset.
-/

namespace LineHandshake

namespace Utf8

def WellFormed (bs : Bytes) : Prop := ∃ t, decode bs = .ok t

structure IsSoundPart (bs good : Bytes) (t : Text) : Prop where
  begins : good <+: bs
  text : decode good = .ok t
  longest : ∀ {good' t'}, good' <+: bs → decode good' = .ok t' → good' <+: good

theorem flatMap_encodePoint_readable {held : Bytes} (hb : IsBegun held) (bs : Bytes) :
    (∀ c ∈ readable held bs, ¬ c.IsSurrogate) ∧
      (readable held bs).flatMap encodePoint <+: held ++ bs := by
  induction bs generalizing held with
  | nil => exact ⟨List.forall_mem_nil _, List.nil_prefix⟩
  | cons b bs ih =>
    rw [readable]
    cases hs : step held b with
    | more =>
      have hr := ih (isBegun_of_more hb hs)
      rwa [List.append_assoc] at hr
    | point c =>
      obtain ⟨hc, hp⟩ := encodePoint_of_point hb hs
      have h0 : IsBegun [] := trivial
      obtain ⟨ht, hr⟩ := ih h0
      refine ⟨List.forall_mem_cons.2 ⟨hc, ht⟩, ?_⟩
      rw [List.flatMap_cons, hp, List.append_assoc, List.prefix_append_right_inj]
      exact List.cons_prefix_cons.2 ⟨rfl, hr⟩
    | bad size reason => exact ⟨List.forall_mem_nil _, List.nil_prefix⟩

theorem isSoundPart_readable (bs : Bytes) :
    IsSoundPart bs ((readable [] bs).flatMap encodePoint) (readable [] bs) := by
  have h0 : IsBegun [] := trivial
  obtain ⟨hs, hp⟩ := flatMap_encodePoint_readable h0 bs
  refine ⟨hp, decode_eq_ok_iff_encode.2 (encode_of_no_surrogate hs), ?_⟩
  rintro good t ⟨more, rfl⟩ ht
  have he := decode_eq_ok_iff_encode.1 ht
  rw [encode_of_no_surrogate (no_surrogate_of_encode he)] at he
  rw [readable_append (decode_eq_ok_iff.1 ht), List.flatMap_append, Except.ok.inj he]
  exact List.prefix_append good _

theorem run_append_ends_iff {held held' as bs : Bytes} {t : Text}
    (h : run held 0 as = .ok (t, held')) :
    (∃ u, run held 0 (as ++ bs) = .ok (u, [])) ↔ ∃ u, run held' 0 bs = .ok (u, []) := by
  constructor
  · rintro ⟨u, hu⟩
    obtain ⟨t', u', held'', ha, hb, -⟩ := run_append_ok hu
    rw [h] at ha
    cases ha
    exact ⟨u', hb⟩
  · rintro ⟨u, hu⟩
    rw [run_append, h]
    dsimp only
    rw [run_ok_of_start hu]
    exact ⟨t ++ u, rfl⟩

end Utf8

namespace Text

def settledLines (t : Text) : List Text :=
  if t.getLast? = some CodePoint.lf then t.lines else t.lines.dropLast

variable {t got rest : Text}

theorem settledLines_begins (t : Text) : t.settledLines <+: t.lines := by
  unfold settledLines
  split
  · exact List.prefix_refl _
  · exact List.dropLast_prefix _

theorem lines_of_takeLine (h : takeLine t = (got, rest)) (hg : got ≠ []) :
    t.lines = got :: rest.lines := by
  have ht : t ≠ [] := by
    rintro rfl
    exact hg (congrArg Prod.fst h).symm
  rw [lines_eq_takeLine ht, h]

theorem settledLines_of_takeLine (h : takeLine t = (got, rest)) (hg : got ≠ [])
    (hl : rest = [] → got.getLast? = some CodePoint.lf) :
    t.settledLines = got :: rest.settledLines := by
  have hlines := lines_of_takeLine h hg
  have happ : got ++ rest = t := by simpa only [h] using takeLine_append t
  rw [settledLines, settledLines, hlines, ← happ]
  by_cases hr : rest = []
  · rw [hr, List.append_nil, hl hr]
    rfl
  · obtain ⟨l, ls, he⟩ : ∃ l ls, rest.lines = l :: ls := ⟨_, _, lines_eq_takeLine hr⟩
    rw [List.getLast?_append_of_ne_nil got hr, he]
    split <;> rfl

end Text

theorem append_heldText_false (t : Text) : t ++ heldText false = t := List.append_nil t

theorem takeLine_of_cutLine?_eq_none {t : Text} (h : cutLine? t = none) (heldCr : Bool) :
    takeLine (t ++ heldText heldCr) = (t ++ heldText heldCr, []) :=
  cuts_line.missing h heldCr

theorem settledLines_of_cutLine?_eq_none {t : Text} (h : cutLine? t = none) (heldCr : Bool) :
    (t ++ heldText heldCr).settledLines = [] := by
  have hlf : (t ++ heldText heldCr).getLast? ≠ some CodePoint.lf := by
    intro hl
    cases heldCr with
    | true => simp [heldText, CodePoint.cr_ne_lf] at hl
    | false =>
      rw [append_heldText_false] at hl
      exact (cutLine?_eq_none_iff.1 h).1 (List.mem_of_getLast? hl)
  rw [Text.settledLines, if_neg hlf]
  by_cases hn : t ++ heldText heldCr = []
  · rw [hn]
    rfl
  · rw [Text.lines_of_takeLine (takeLine_of_cutLine?_eq_none h heldCr) hn]
    rfl

def Text.AreSettled (t : Text) (lines : List Text) : Prop :=
  ∀ before l after, lines = before ++ l :: after →
    l.getLast? = some CodePoint.lf ∨
      (l.getLast? = some CodePoint.cr ∧ (before ++ [l]).flatten ≠ t)

theorem ne_nil_of_cutLine? {t got rest : Text} (h : cutLine? t = some (got, rest)) : got ≠ [] := by
  intro hg
  have ht : takeLine t = (got, rest) := by rw [takeLine, h, Option.getD_some]
  obtain rfl : t = [] := takeLine_fst_eq_nil_iff.1 (by rw [ht, hg])
  cases h

theorem getLast?_of_cutLine? {t got rest : Text} (h : cutLine? t = some (got, rest)) :
    got.getLast? = some CodePoint.lf ∨ got.getLast? = some CodePoint.cr := by
  induction t generalizing got with
  | nil => cases h
  | cons c t ih =>
    rw [cutLine?] at h
    split at h
    · next hc =>
      cases h
      exact .inl (congrArg some hc)
    · split at h
      · next hc =>
        split at h
        · cases h
          exact .inl rfl
        · cases h
          exact .inr (congrArg some hc)
      · obtain ⟨⟨g, r⟩, hr, he⟩ := Option.map_eq_some_iff.1 h
        cases he
        have hl := ih hr
        dsimp only
        rw [List.getLast?_cons]
        rcases hl with hl | hl <;> rw [hl]
        · exact .inl rfl
        · exact .inr rfl

theorem settledLines_cases {t got rest : Text} (h : cutLine? t = some (got, rest)) :
    (t.settledLines = [] ∧ rest = []) ∨ (t.settledLines = got :: rest.settledLines ∧
      (got.getLast? = some CodePoint.lf ∨ (got.getLast? = some CodePoint.cr ∧ rest ≠ []))) := by
  have ht : takeLine t = (got, rest) := by rw [takeLine, h, Option.getD_some]
  have hg := ne_nil_of_cutLine? h
  rcases getLast?_of_cutLine? h with hl | hc
  · exact .inr ⟨Text.settledLines_of_takeLine ht hg fun _ => hl, .inl hl⟩
  · by_cases hr : rest = []
    · left
      have happ := append_of_cutLine? h
      rw [hr, List.append_nil] at happ
      rw [Text.settledLines, Text.lines_of_takeLine ht hg, hr, ← happ, hc]
      exact ⟨rfl, rfl⟩
    · exact .inr ⟨Text.settledLines_of_takeLine ht hg fun hn => absurd hn hr, .inr ⟨hc, hr⟩⟩

theorem exists_of_cons_prefix_settledLines {t l : Text} {lines : List Text}
    (h : l :: lines <+: t.settledLines) : ∃ rest, l ++ rest = t ∧ lines <+: rest.settledLines ∧
      (l.getLast? = some CodePoint.lf ∨ (l.getLast? = some CodePoint.cr ∧ rest ≠ [])) := by
  cases hc : cutLine? t with
  | none =>
    have hs := settledLines_of_cutLine?_eq_none hc false
    rw [append_heldText_false] at hs
    rw [hs] at h
    cases List.prefix_nil.1 h
  | some r =>
    obtain ⟨got, rest⟩ := r
    rcases settledLines_cases hc with ⟨hs, -⟩ | ⟨hs, hl⟩
    · rw [hs] at h
      cases List.prefix_nil.1 h
    · rw [hs] at h
      obtain ⟨rfl, hp⟩ := List.cons_prefix_cons.1 h
      exact ⟨rest, append_of_cutLine? hc, hp, hl⟩

theorem areSettled_of_prefix {t : Text} {lines : List Text} (h : lines <+: t.settledLines) :
    t.AreSettled lines := by
  intro before l after he
  subst he
  induction before generalizing t with
  | nil =>
    obtain ⟨rest, rfl, -, hl⟩ := exists_of_cons_prefix_settledLines h
    refine hl.imp_right fun hc => ⟨hc.1, ?_⟩
    simpa using hc.2
  | cons b before ih =>
    obtain ⟨rest, rfl, hp, -⟩ := exists_of_cons_prefix_settledLines h
    refine (ih hp).imp_right fun hc => ⟨hc.1, ?_⟩
    simpa using hc.2

namespace TextSource

def EndsWell (s : TextSource) (later : Bytes) : Prop :=
  ∃ u, Utf8.run s.decoder.held 0 (s.packets.flatten ++ later) = .ok (u, [])

structure IsFedFrom (s₁ s : TextSource) : Prop where
  isOpen : s₁.isOpen = s.isOpen
  ending : s₁.ending = s.ending
  isReady : s.IsReady → s₁.IsReady
  foresees (later : Bytes) : s₁.foresees later = s.foresees later
  endsWell (later : Bytes) : s₁.EndsWell later ↔ s.EndsWell later

theorem IsFedFrom.refl (s : TextSource) : s.IsFedFrom s :=
  ⟨rfl, rfl, id, fun _ => rfl, fun _ => .rfl⟩

theorem IsFedFrom.trans {s₂ s₁ s : TextSource} (h : s₂.IsFedFrom s₁) (h' : s₁.IsFedFrom s) :
    s₂.IsFedFrom s :=
  ⟨h.isOpen.trans h'.isOpen, h.ending.trans h'.ending, h.isReady ∘ h'.isReady,
    fun later => (h.foresees later).trans (h'.foresees later),
    fun later => (h.endsWell later).trans (h'.endsWell later)⟩

variable {s s₁ : TextSource} {begun u : Text} {d d' : Decoder} {p : Bytes} {ps : List Bytes}
  {before : Nat}

theorem isFedFrom_feed (hf : d.feed p = .ok (u, d')) :
    IsFedFrom { s with packets := ps, decoder := d', ready := begun ++ u }
      { s with packets := p :: ps, decoder := d, ready := begun } := by
  refine ⟨rfl, rfl, fun h => isReady_feed h hf, foresees_feed hf, fun later => ?_⟩
  unfold Decoder.feed at hf
  split at hf
  · cases hf
  · next hr =>
    cases hf
    rw [EndsWell, EndsWell, List.flatten_cons, List.append_assoc]
    exact (Utf8.run_append_ends_iff hr).symm

theorem not_endsWell_of_feed {e : Utf8.DecodeError} (hf : s.decoder.feed p = .error e)
    (hp : s.packets = p :: ps) (later : Bytes) : ¬ s.EndsWell later := by
  rintro ⟨u, hu⟩
  rw [hp, List.flatten_cons, List.append_assoc] at hu
  obtain ⟨t, -, held, ha, -⟩ := Utf8.run_append_ok hu
  rw [Decoder.feed, ha] at hf
  cases hf

inductive ReadsLine (s : TextSource) : Reading Text → Prop
  | found {s₁ : TextSource} {got rest : Text} (h : s₁.IsFedFrom s)
      (hc : cutLine? s₁.ready = some (got, rest)) : ReadsLine s (.ok got, { s₁ with ready := rest })
  | flawed {s₁ s' : TextSource} {e : Utf8.DecodeError} (h : s₁.IsFedFrom s)
      (he : ∀ later, s₁.Allows later → ¬ s₁.EndsWell later) :
      ReadsLine s (.error (.fault (.undecodable e)), s')
  | waits {s' : TextSource} (he : s.ending = none) : ReadsLine s (.error .waiting, s')
  | isReset {s₁ s' : TextSource} (h : s₁.IsFedFrom s) (he : s.ending = some .reset)
      (hp : s₁.packets = []) (hc : cutLine? s₁.ready = none) :
      ReadsLine s (.error (.fault (.system .connectionReset)), s')
  | last {s₁ : TextSource} (h : s₁.IsFedFrom s) (he : s.ending = some .endOfStream)
      (hp : s₁.packets = []) (hh : s₁.decoder.held = []) (hc : cutLine? s₁.ready = none) :
      ReadsLine s (.ok (s₁.ready ++ heldText s₁.decoder.heldCr),
        { s₁ with packets := [], decoder := {}, ready := [] })

theorem ReadsLine.of_isFedFrom {r : Reading Text} (hr : s₁.ReadsLine r) (h : s₁.IsFedFrom s) :
    s.ReadsLine r := by
  cases hr with
  | found h' hc => exact .found (h'.trans h) hc
  | flawed h' he => exact .flawed (h'.trans h) he
  | waits he => exact .waits (h.ending ▸ he)
  | isReset h' he hp hc => exact .isReset (h'.trans h) (h.ending ▸ he) hp hc
  | last h' he hp hh hc => exact .last (h'.trans h) (h.ending ▸ he) hp hh hc

theorem feedLast_nil_eq_ok_iff {t : Text} :
    d.feedLast [] = .ok t ↔ d.held = [] ∧ t = heldText d.heldCr := by
  simp only [Decoder.feedLast, Decoder.feed, Utf8.run, Decoder.holdCr]
  cases d.held with
  | nil => exact ⟨fun h => ⟨rfl, (Except.ok.inj h).symm⟩, fun h => congrArg Except.ok h.2.symm⟩
  | cons a held =>
    simp only [Utf8.finish]
    generalize held.any (Utf8.beginsSurrogate a) = b
    cases b <;> simp [Except.map]

theorem readsLine_atEnd (hc : cutLine? begun = none) :
    ReadsLine { s with packets := [], decoder := d, ready := begun } (s.atEnd begun d) := by
  unfold atEnd
  split
  · next he => exact .waits he
  · next he => exact .isReset (.refl _) he rfl hc
  · next he =>
    split
    · next e hf =>
      refine .flawed (.refl _) fun later hl => ?_
      obtain rfl : later = [] := hl.resolve_left (by simp [he])
      rintro ⟨u, hu⟩
      obtain ⟨-, hd⟩ : [] = u ∧ d.held = [] := by simpa [Utf8.run] using hu
      rw [feedLast_nil_eq_ok_iff.2 ⟨hd, rfl⟩] at hf
      cases hf
    · next t hf =>
      obtain ⟨hd, rfl⟩ := feedLast_nil_eq_ok_iff.1 hf
      exact .last (.refl _) he rfl hd hc

theorem readsLine_receive (hc : cutLine? begun = none) :
    ReadsLine { s with packets := ps, decoder := d, ready := begun }
      (s.receive cutLine? .never before begun d ps) := by
  induction ps generalizing before begun d with
  | nil => exact readsLine_atEnd hc
  | cons p ps ih =>
    simp only [receive, Refusal.never, Bool.false_eq_true, if_false]
    cases hf : d.feed p with
    | error e => exact .flawed (.refl _) fun later _ => not_endsWell_of_feed hf rfl later
    | ok r =>
      obtain ⟨u, d'⟩ := r
      have hfed : IsFedFrom { s with packets := ps, decoder := d', ready := begun ++ u }
          { s with packets := p :: ps, decoder := d, ready := begun } := isFedFrom_feed hf
      dsimp only
      cases hx : cutLine? (begun ++ u) with
      | none => exact (ih hx).of_isFedFrom hfed
      | some r => exact .found hfed hx

theorem readsLine_readLine (ho : s.isOpen = true) : s.ReadsLine s.readLine := by
  rw [readLine, readUntil, if_pos ho]
  cases hx : cutLine? s.ready with
  | none => exact readsLine_receive hx
  | some r => exact .found (.refl s) hx

theorem IsReady.getLast?_of_foresees_nil (h : s.IsReady) {got rest : Text} {later : Bytes}
    (hc : cutLine? s.ready = some (got, rest))
    (hn : foresees { s with ready := rest } later = []) : got.getLast? = some CodePoint.lf := by
  obtain ⟨rfl, hrest⟩ := List.append_eq_nil_iff.1 hn
  have hcr : s.decoder.heldCr ≠ true := by
    intro hcr
    have hheld := (List.append_eq_nil_iff.1 hrest).1
    simp [heldText, hcr] at hheld
  have hready : got = s.ready := by
    have happ := append_of_cutLine? hc
    rwa [List.append_nil] at happ
  refine (getLast?_of_cutLine? hc).resolve_right fun hl => hcr (h ?_)
  rwa [← hready]

end TextSource

inductive Arrival
  | bytes (bs : Bytes)
  | ending (e : Ending)

namespace Connection

def receive (c : Connection) : Arrival → Connection
  | .bytes bs => c.deliver bs
  | .ending e => c.hangUp e

/-- Lines are read until a read fails, while `as` is still to come. A read that waits is tried
again once something has come. -/
inductive ReadsOut : (as : List Arrival) → Connection × Log → List Text → Fault → Prop
  | arrival {a : Arrival} {as : List Arrival} {c : Connection} {l : Log} {lines : List Text}
      {f : Fault} (h : ReadsOut as (c.receive a, l) lines f) : ReadsOut (a :: as) (c, l) lines f
  | line {as : List Arrival} {q q' : Connection × Log} {line : Text} {lines : List Text}
      {f : Fault} (hr : readLine q = (.ok line, q')) (h : ReadsOut as q' lines f) :
      ReadsOut as q (line :: lines) f
  | fault {as : List Arrival} {q q' : Connection × Log} {f : Fault}
      (hr : readLine q = (.error (.fault f), q')) : ReadsOut as q [] f

def arrivals (chunks : List Bytes) (e : Ending) : List Arrival :=
  chunks.map .bytes ++ [.ending e]

/-- How reading out a text ends, if `isWell` says whether the stream has no flaw. Behind a flaw or
a reset a last line that may still go on is not given. -/
inductive EndsAs (t : Text) (isWell : Prop) (e : Ending) : List Text → Fault → Prop
  | flawed {lines : List Text} {x : Utf8.DecodeError} (hw : ¬ isWell)
      (hl : lines <+: t.settledLines) : EndsAs t isWell e lines (.format (.notUtf8 x))
  | gone (he : e = .endOfStream) (hw : isWell) : EndsAs t isWell e t.lines .clientGone
  | isReset (he : e = .reset) : EndsAs t isWell e t.settledLines (.system .connectionReset)

variable {e : Ending} {isWell : Prop} {as : List Arrival} {later : Bytes} {x : Text}

theorem EndsAs.cons {got rest : Text} {lines : List Text} {f : Fault}
    (h : EndsAs rest isWell e lines f) (ht : takeLine x = (got, rest)) (hg : got ≠ [])
    (hl : rest = [] → got.getLast? = some CodePoint.lf ∨ (e = .endOfStream ∧ isWell)) :
    EndsAs x isWell e (got :: lines) f := by
  cases h with
  | flawed hw hp =>
    have hlf : rest = [] → got.getLast? = some CodePoint.lf := fun hr =>
      (hl hr).resolve_right fun hw' => hw hw'.2
    refine .flawed hw ?_
    rw [Text.settledLines_of_takeLine ht hg hlf]
    exact List.cons_prefix_cons.2 ⟨rfl, hp⟩
  | gone he hw =>
    rw [← Text.lines_of_takeLine ht hg]
    exact .gone he hw
  | isReset he =>
    have hlf : rest = [] → got.getLast? = some CodePoint.lf := fun hr =>
      (hl hr).resolve_right fun hw => nomatch he.symm.trans hw.1
    rw [← Text.settledLines_of_takeLine ht hg hlf]
    exact .isReset he

/-- The source has `x` to give up to the first flaw, once `as` has come, which is the bytes `later`
and the end. -/
structure Holding (e : Ending) (isWell : Prop) (as : List Arrival) (later : Bytes) (x : Text)
    (s : TextSource) : Prop where
  isOpen : s.isOpen = true
  isReady : s.IsReady
  coming : (s.ending = none ∧ ∃ chunks, as = arrivals chunks e ∧ later = chunks.flatten) ∨
    (s.ending = some e ∧ as = [] ∧ later = [])
  foresees : s.foresees later = x
  endsWell : s.EndsWell later ↔ isWell

theorem Holding.allows {s : TextSource} (h : Holding e isWell as later x s) : s.Allows later := by
  rcases h.coming with ⟨he, -⟩ | ⟨-, -, hl⟩
  · exact .inl he
  · exact .inr hl

theorem Holding.of_isFedFrom {s s₁ : TextSource} (h : Holding e isWell as later x s)
    (hf : s₁.IsFedFrom s) : Holding e isWell as later x s₁ := by
  refine ⟨hf.isOpen.trans h.isOpen, hf.isReady h.isReady, ?_, ?_, ?_⟩
  · rw [hf.ending]
    exact h.coming
  · rw [hf.foresees, h.foresees]
  · rw [hf.endsWell, h.endsWell]

theorem Holding.ended {s : TextSource} {e' : Ending} (h : Holding e isWell as later x s)
    (he : s.ending = some e') : e' = e ∧ as = [] ∧ later = [] := by
  rcases h.coming with ⟨hn, -⟩ | ⟨hs, ha, hl⟩
  · rw [he] at hn
    cases hn
  · rw [he] at hs
    exact ⟨Option.some.inj hs, ha, hl⟩

theorem Holding.ending_ne_none {s : TextSource} (h : Holding e isWell [] later x s) :
    s.ending ≠ none := by
  rcases h.coming with ⟨-, chunks, ha, -⟩ | ⟨hs, -⟩
  · cases chunks <;> cases ha
  · simp [hs]

theorem Holding.text_eq {s : TextSource} (h : Holding e isWell as [] x s) (hp : s.packets = []) :
    s.ready ++ heldText s.decoder.heldCr = x := by
  rw [← h.foresees, TextSource.foresees, hp]
  simp [Utf8.readable]

inductive ReadsNext (e : Ending) (isWell : Prop) (as : List Arrival) (later : Bytes) (x : Text)
    (c : Connection) : Except Interrupt Text × Connection × Log → Prop
  | waits {q : Connection × Log} (he : c.source.ending = none) :
      ReadsNext e isWell as later x c (.error .waiting, q)
  | line {got rest : Text} {c' : Connection} {l : Log} (ht : takeLine x = (got, rest))
      (hg : got ≠ [])
      (hl : rest = [] → got.getLast? = some CodePoint.lf ∨ (e = .endOfStream ∧ isWell))
      (h : Holding e isWell as later rest c'.source) :
      ReadsNext e isWell as later x c (.ok got, (c', l))
  | fault {f : Fault} {q : Connection × Log} (h : EndsAs x isWell e [] f) :
      ReadsNext e isWell as later x c (.error (.fault f), q)

theorem Holding.readLine {c : Connection} (h : Holding e isWell as later x c.source) (l : Log) :
    ReadsNext e isWell as later x c (readLine (c, l)) := by
  rw [readLine_apply]
  have hr := TextSource.readsLine_readLine h.isOpen
  generalize c.source.readLine = r at hr
  cases hr with
  | waits he => exact .waits he
  | @flawed s₁ _ _ hf he =>
    have h₁ := h.of_isFedFrom hf
    refine .fault (.flawed (fun hw => he later h₁.allows (h₁.endsWell.2 hw)) ?_)
    exact List.nil_prefix
  | @isReset s₁ _ hf he hp hc =>
    have h₁ := h.of_isFedFrom hf
    obtain ⟨rfl, -, rfl⟩ := h.ended he
    -- a reset gives nothing of a last piece, and a piece that is not cut is the last
    have hs := settledLines_of_cutLine?_eq_none hc s₁.decoder.heldCr
    rw [h₁.text_eq hp] at hs
    have hend : EndsAs x isWell .reset x.settledLines (.system .connectionReset) := .isReset rfl
    rw [hs] at hend
    exact .fault hend
  | @found s₁ got rest hf hc =>
    have h₁ := h.of_isFedFrom hf
    have hg := ne_nil_of_cutLine? hc
    have ht := TextSource.takes_ready cuts_line h₁.isReady hc
    have htext := ht.text later h₁.allows
    rw [h₁.foresees] at htext
    dsimp only
    rw [if_neg hg]
    exact .line htext hg (fun hn => .inl (h₁.isReady.getLast?_of_foresees_nil hc hn))
      ⟨h₁.isOpen, ht.isReady, h₁.coming, rfl, h₁.endsWell⟩
  | @last s₁ hf he hp hh hc =>
    have h₁ := h.of_isFedFrom hf
    obtain ⟨rfl, rfl, rfl⟩ := h.ended he
    have hw : isWell := h₁.endsWell.1 ⟨[], by rw [hp, hh]; rfl⟩
    have ht := takeLine_of_cutLine?_eq_none hc s₁.decoder.heldCr
    rw [h₁.text_eq hp] at ht ⊢
    dsimp only
    by_cases hn : x = []
    · rw [if_pos hn, hn]
      exact .fault (.gone rfl hw)
    · rw [if_neg hn]
      refine .line ht hn (fun _ => .inr ⟨rfl, hw⟩) ⟨h₁.isOpen, ?_, h₁.coming, rfl, ?_⟩
      · simp [TextSource.IsReady]
      · exact ⟨fun _ => hw, fun _ => ⟨[], rfl⟩⟩

theorem Holding.deliver {s : TextSource} {bs : Bytes} {chunks : List Bytes}
    (h : Holding e isWell (arrivals (bs :: chunks) e) later x s) :
    Holding e isWell (arrivals chunks e) chunks.flatten x (s.deliver bs) := by
  obtain ⟨ho, hr, ⟨he, cs, ha, rfl⟩ | ⟨-, ha, -⟩, hf, hw⟩ := h
  · obtain rfl : bs :: chunks = cs := by
      have hmap := List.append_cancel_right ha
      exact List.map_injective_iff.2 (fun _ _ h => Arrival.bytes.inj h) hmap
    have hp : (s.packets ++ packets packetSize [] bs).flatten ++ chunks.flatten =
        s.packets.flatten ++ (bs :: chunks).flatten := by
      simp only [List.flatten_append, flatten_packets, List.reverse_nil, List.nil_append,
        List.flatten_cons, List.append_assoc]
    rw [TextSource.deliver, if_neg (by simp [he])]
    refine ⟨ho, hr, .inl ⟨he, chunks, rfl, rfl⟩, ?_, ?_⟩
    · rw [← hf, TextSource.foresees, TextSource.foresees, hp]
    · rw [← hw, TextSource.EndsWell, TextSource.EndsWell, hp]
  · cases ha

theorem Holding.hangUp {s : TextSource} (h : Holding e isWell (arrivals [] e) later x s) :
    Holding e isWell [] [] x (s.hangUp e) := by
  obtain ⟨ho, hr, ⟨he, cs, ha, rfl⟩ | ⟨-, ha, -⟩, hf, hw⟩ := h
  · obtain rfl : cs = [] := by
      cases cs with
      | nil => rfl
      | cons c cs => cases ha
    rw [TextSource.hangUp, if_neg (by simp [he])]
    exact ⟨ho, hr, .inr ⟨rfl, rfl, rfl⟩, hf, hw⟩
  · cases ha

theorem Holding.receive {c : Connection} {a : Arrival}
    (h : Holding e isWell (a :: as) later x c.source) :
    ∃ later', Holding e isWell as later' x (c.receive a).source := by
  rcases h.coming with ⟨-, cs, ha, -⟩ | ⟨-, ha, -⟩
  · cases cs with
    | nil =>
      obtain ⟨rfl, rfl⟩ := List.cons.inj ha
      exact ⟨_, h.hangUp⟩
    | cons bs cs =>
      obtain ⟨rfl, rfl⟩ := List.cons.inj ha
      exact ⟨_, h.deliver⟩
  · cases ha

theorem endsAs_of_readsOut {q : Connection × Log} {lines : List Text} {f : Fault}
    (hr : ReadsOut as q lines f) (h : Holding e isWell as later x q.1.source) :
    EndsAs x isWell e lines f := by
  induction hr generalizing later x with
  | arrival _ ih =>
    obtain ⟨later', h'⟩ := h.receive
    exact ih h'
  | @line _ q _ _ _ _ hr _ ih =>
    have hn := h.readLine q.2
    rw [hr] at hn
    cases hn with
    | line ht hg hl h' => exact (ih h').cons ht hg hl
  | @fault _ q _ _ hr =>
    have hn := h.readLine q.2
    rw [hr] at hn
    cases hn with
    | fault h => exact h

theorem exists_readsOut_of_ended {n : Nat} (hn : x.length < n) {c : Connection}
    (h : Holding e isWell [] later x c.source) (l : Log) :
    ∃ lines f, ReadsOut [] (c, l) lines f := by
  induction n generalizing x c l with
  | zero => omega
  | succ n ih =>
    have hx := h.readLine l
    generalize hr : Connection.readLine (c, l) = r at hx
    cases hx with
    | waits he => exact absurd he h.ending_ne_none
    | fault => exact ⟨[], _, .fault hr⟩
    | @line got rest c' l' ht hg _ h' =>
      have happ : got ++ rest = x := by simpa only [ht] using takeLine_append x
      -- every line takes something of the text, so the reading comes to an end
      have hpos := List.length_pos_iff.2 hg
      rw [← happ, List.length_append] at hn
      obtain ⟨lines, f, hout⟩ := ih (by omega) h' l'
      exact ⟨got :: lines, f, .line hr hout⟩

theorem exists_readsOut {c : Connection} (h : Holding e isWell as later x c.source) (l : Log) :
    ∃ lines f, ReadsOut as (c, l) lines f := by
  induction as generalizing later c with
  | nil => exact exists_readsOut_of_ended (Nat.lt_succ_self _) h l
  | cons a as ih =>
    obtain ⟨later', h'⟩ := h.receive
    obtain ⟨lines, f, hout⟩ := ih h'
    exact ⟨lines, f, .arrival hout⟩

theorem holding_arrivals (chunks : List Bytes) (e : Ending) :
    Holding e (Utf8.WellFormed chunks.flatten) (arrivals chunks e) chunks.flatten
      (Utf8.readable [] chunks.flatten) {} := by
  refine ⟨rfl, nofun, .inl ⟨rfl, chunks, rfl, rfl⟩, rfl, ?_⟩
  simp only [TextSource.EndsWell, Utf8.WellFormed, Utf8.decode_eq_ok_iff]
  exact .rfl

/-- Reading a connection out always comes to an end. It gives lines of the text up to the first
flaw, from the first on, and the failure that ends it tells a flaw from the end of the stream. -/
theorem readsOut_lines (chunks : List Bytes) (e : Ending) :
    let bs := chunks.flatten
    let isFlaw (f : Fault) := ∃ x, f = .format (.notUtf8 x)
    ∃ good t, Utf8.IsSoundPart bs good t ∧
      (∃ lines f, ReadsOut (arrivals chunks e) ({}, []) lines f) ∧
      ∀ lines f, ReadsOut (arrivals chunks e) ({}, []) lines f → lines <+: t.lines ∧
        (e = .endOfStream → (isFlaw f ↔ ¬ Utf8.WellFormed bs) ∧
          (isFlaw f → t.AreSettled lines) ∧
          (Utf8.WellFormed bs → f = .clientGone ∧ lines = t.lines)) ∧
        (e = .reset → (isFlaw f → ¬ Utf8.WellFormed bs) ∧
          (Utf8.WellFormed bs → f = .system .connectionReset ∧ lines = t.settledLines) ∧
          t.AreSettled lines) := by
  intro bs isFlaw
  have h := holding_arrivals chunks e
  refine ⟨_, _, Utf8.isSoundPart_readable bs, exists_readsOut h [], ?_⟩
  intro lines f hr
  have hend := endsAs_of_readsOut hr h
  generalize Utf8.readable [] chunks.flatten = t at hend
  change EndsAs t (Utf8.WellFormed bs) e lines f at hend
  cases hend with
  | @flawed _ x hw hl =>
    have hs := areSettled_of_prefix hl
    refine ⟨hl.trans (Text.settledLines_begins t), fun _ => ⟨?_, fun _ => hs, ?_⟩,
      fun _ => ⟨fun _ => hw, ?_, hs⟩⟩
    · exact ⟨fun _ => hw, fun _ => ⟨x, rfl⟩⟩
    · exact fun hw' => absurd hw' hw
    · exact fun hw' => absurd hw' hw
  | gone he hw =>
    refine ⟨List.prefix_refl _, fun _ => ⟨?_, nofun, fun _ => ⟨rfl, rfl⟩⟩, ?_⟩
    · exact ⟨nofun, fun hn => absurd hw hn⟩
    · intro he'
      cases he.symm.trans he'
  | isReset he =>
    refine ⟨Text.settledLines_begins t, fun he' => ?_, fun _ => ?_⟩
    · cases he.symm.trans he'
    · exact ⟨nofun, fun _ => ⟨rfl, rfl⟩, areSettled_of_prefix (List.prefix_refl _)⟩

theorem readsOut_lines_flawed :
    let chunks : List Bytes := [[97, 13], [10, 98, 13], [0xED, 0xA0]]
    (∃ f, ReadsOut (arrivals chunks .endOfStream) ({}, []) [[97, 13, 10]] f) ∧
      ¬ Utf8.WellFormed chunks.flatten := by
  intro chunks
  have hr : ReadsOut (arrivals chunks .endOfStream) ({}, []) [[97, 13, 10]]
      (.format (.notUtf8 ⟨0xED, 0, 1, .badContinuation⟩)) := by
    refine .arrival (.arrival (.line (by rfl) ?_))
    exact .arrival (.arrival (.fault (by rfl)))
  obtain ⟨good, t, -, -, hall⟩ := readsOut_lines chunks .endOfStream
  exact ⟨⟨_, hr⟩, ((hall _ _ hr).2.1 rfl).1.1 ⟨_, rfl⟩⟩

end Connection

end LineHandshake
