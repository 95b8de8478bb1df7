import LineHandshake.Proofs.Framing
import LineHandshake.Proofs.Greeting

/-!
What JSON puts on a line stays on that line. A written value is printable ASCII, so the line that
carries it has no CR or LF but at its end, can always be sent, and is one line to whoever receives
it, whatever comes behind it.
-/

namespace LineHandshake

open Connection (ReadsOut arrivals)
open MemoryPort (linePort)

/-- The lines that a stream of this text gives before its end. A reset takes away a last line that
might have gone on. -/
def Text.linesBefore : Ending → Text → List Text
  | .endOfStream, t => t.lines
  | .reset, t => t.settledLines

theorem Text.ne_nil_of_getLast? {t : Text} {c : CodePoint} (h : t.getLast? = some c) : t ≠ [] := by
  rintro rfl
  cases h

/-- Bytes that are one line to a server, in whatever pieces they come and whatever text follows. -/
def IsLineToServer (line : Text) (bs : Bytes) : Prop :=
  ∀ {rest : Text} {more : Bytes}, Utf8.encode rest = .ok more →
    ∀ (chunks : List Bytes) (e : Ending), chunks.flatten = bs ++ more →
      (∃ lines f, ReadsOut (arrivals chunks e) ({}, []) lines f) ∧
      ∀ lines f, ReadsOut (arrivals chunks e) ({}, []) lines f → lines = line :: rest.linesBefore e

def IsLineToClient (line : Text) (bs : Bytes) : Prop :=
  ∀ (p : MemoryPort) (rest : Bytes) (l : Log), ∃ l',
    Client.readLine linePort ({ p with incoming := bs ++ rest }, l) =
      (.ok line, ({ p with incoming := rest }, l'))

namespace Line

variable {keyword payload line rest : Text} {bs : Bytes}

/-- A line whose payload stays within it: whoever receives it gets it whole and takes it apart into
the keyword and the payload again. -/
structure Carries (keyword payload line : Text) : Prop where
  ends : crlf <:+ line
  cr_once : line.count CodePoint.cr = 1
  lf_once : line.count CodePoint.lf = 1
  restored : decode line = .ok (keyword, payload)
  sent : ∃ bs, Utf8.encode line = .ok bs ∧ decodeBytes bs = .ok (keyword, payload) ∧
    IsLineToServer line bs ∧ IsLineToClient line bs

theorem IsPlain.count_eq_one (h : IsPlain line) {c : CodePoint} (hc : c.IsLineBreak) :
    line.count c = 1 := by
  obtain ⟨body, rfl, hb⟩ := h
  have hbody : body.count c = 0 := List.count_eq_zero.2 fun hm => (hb c hm).2 hc
  rw [List.count_append, hbody]
  rcases hc with rfl | rfl <;> decide

theorem IsPlain.getLast? (h : IsPlain line) : line.getLast? = some CodePoint.lf := by
  obtain ⟨body, rfl, -⟩ := h
  simp [crlf]

theorem IsPlain.linesBefore_append (h : IsPlain line) (e : Ending) (rest : Text) :
    (line ++ rest).linesBefore e = line :: rest.linesBefore e := by
  have hl := h.getLast?
  obtain ⟨body, rfl, hb⟩ := h
  have ht := takeLine_append_crlf (fun c hc => (hb c hc).2) rest
  have hn := Text.ne_nil_of_getLast? hl
  cases e with
  | endOfStream => exact Text.lines_of_takeLine ht hn
  | reset => exact Text.settledLines_of_takeLine ht hn fun _ => hl

theorem IsPlain.toServer (h : IsPlain line) (hs : Utf8.encode line = .ok bs) :
    IsLineToServer line bs := by
  intro rest more hr chunks e hc
  obtain ⟨lines, f, hout⟩ :=
    Connection.exists_readsOut (c := {}) (Connection.holding_arrivals chunks e) []
  refine ⟨⟨lines, f, hout⟩, fun lines f hout => ?_⟩
  rw [← h.linesBefore_append]
  cases Connection.endsAs_of_encode (Utf8.encode_append hs hr) hc hout with
  | flawed hw => exact absurd trivial hw
  | gone he =>
    subst he
    rfl
  | isReset he =>
    subst he
    rfl

theorem IsPlain.toClient (h : IsPlain line) (hs : Utf8.encode line = .ok bs) :
    IsLineToClient line bs := by
  intro p rest l
  obtain ⟨bs', hs', hb⟩ := Client.exists_isLine h
  obtain rfl := Except.ok.inj (hs.symm.trans hs')
  have hi : ({ p with incoming := bs ++ rest } : MemoryPort).incoming = bs ++ rest := rfl
  exact Client.readLine_of_encode hs hb hi l

theorem isPlain_of_visible (hk : keyword.Visible) (hp : payload.Visible) :
    IsPlain (encode keyword (some payload)) :=
  isPlain_encode fun c hc =>
    have hv := hk.append hp
    ⟨hv.no_surrogate c hc, hv.no_lineBreak c hc⟩

theorem carries_encode (hk : keyword ∈ Keyword.all) (hp : payload.Visible) (hn : payload ≠ []) :
    Carries keyword payload (encode keyword (some payload)) := by
  have hv := Keyword.visible hk
  have hplain := isPlain_of_visible hv hp
  have hs := encode_encode_some hv hp hn
  have hspace : CodePoint.space ∉ keyword := by
    have hall : Keyword.all.all (fun k => decide (CodePoint.space ∉ k)) = true := by decide
    simpa using List.all_eq_true.1 hall keyword hk
  have hd : decode (encode keyword (some payload)) = .ok (keyword, payload) :=
    decode_encode_some hspace hn fun c hc => hp.no_lineBreak c (List.mem_of_getLast? hc)
  refine ⟨?_, hplain.count_eq_one (.inl rfl), hplain.count_eq_one (.inr rfl), hd, _, hs, ?_,
    hplain.toServer hs, hplain.toClient hs⟩
  · obtain ⟨body, he, -⟩ := hplain
    exact ⟨body, he.symm⟩
  · rw [decodeBytes, Utf8.decode_encode hs]
    exact hd

end Line

namespace Binary64

theorem signed_ne_nil (negative : Bool) {t : Text} (h : t ≠ []) : signed negative t ≠ [] := by
  cases negative with
  | false => exact h
  | true => exact List.append_ne_nil_of_right_ne_nil _ h

theorem exponentText_ne_nil (e : Int) : exponentText e ≠ [] := by
  have hs : text (if e < 0 then "e-" else "e+") ≠ [] := by split <;> decide
  exact List.append_ne_nil_of_left_ne_nil (List.append_ne_nil_of_left_ne_nil hs _) _

theorem decimal_ne_nil (d : Decimal) : d.toText ≠ [] := by
  unfold Decimal.toText
  dsimp only
  split
  · exact List.append_ne_nil_of_left_ne_nil (List.cons_ne_nil _ _) _
  split
  · refine List.append_ne_nil_of_left_ne_nil ?_ _
    exact List.append_ne_nil_of_right_ne_nil _ (List.cons_ne_nil _ _)
  · exact List.append_ne_nil_of_right_ne_nil _ (exponentText_ne_nil _)

theorem toText_ne_nil {nan infinity : Text} (hn : nan ≠ []) (hi : infinity ≠ []) (x : Binary64) :
    x.toText nan infinity ≠ [] := by
  unfold toText
  split
  · exact hn
  · exact signed_ne_nil _ hi
  · exact signed_ne_nil _ (by decide)
  · exact signed_ne_nil _ (decimal_ne_nil _)

end Binary64

theorem Json.print_ne_nil (v : Json) : v.print ≠ [] := by
  cases v with
  | null => decide
  | bool b => cases b <;> decide
  | int n =>
    cases n with
    | ofNat n => exact Text.ofNat_ne_nil n
    | negSucc n => exact List.cons_ne_nil _ _
  | real x => exact Binary64.toText_ne_nil (by decide) (by decide) x
  | str s => exact List.cons_ne_nil _ _
  | arr items =>
    rw [Json.print]
    exact List.cons_ne_nil _ _
  | obj members => exact Greeting.print_obj_ne_nil members

open Client (connectLine sendConnect)

/-- JSON is written in printable ASCII, whatever texts are in it, so no options can add a line to
CONNECT and no object a line to INFO. -/
theorem payload_keeps_to_line :
    (∀ v : Json, v.print ≠ [] ∧ ∀ c ∈ v.print, 0x20 ≤ c.val ∧ c.val ≤ 0x7E) ∧
    (∀ options : Option Json.Members,
      let payload := ((options.map Json.obj).getD Greeting.defaultOptions).print
      let line := connectLine (options.map .obj)
      Line.Carries Keyword.connect payload line ∧
      ∀ (p : MemoryPort) (l : Log), p.isConnected = true →
        ∃ bs l', Utf8.encode line = .ok bs ∧ sendConnect linePort (options.map .obj) (p, l) =
          (.ok (), ({ p with written := p.written ++ bs }, l'))) ∧
    ∀ info : Json.Members,
      Line.Carries Keyword.info (Json.obj info).print (Greeting.encodeInfo (.obj info)) := by
  refine ⟨fun v => ⟨v.print_ne_nil, fun c hc => ?_⟩, fun options => ⟨?_, fun p l hp => ?_⟩,
    fun info => ?_⟩
  · obtain ⟨hl, hu⟩ := Json.visible_print v c hc
    exact ⟨hl, Nat.le_of_lt_succ hu⟩
  · exact Line.carries_encode (.tail _ (.head _)) (Json.visible_print _) (Json.print_ne_nil _)
  · obtain ⟨bs, hs⟩ := Client.encode_connectLine options
    obtain ⟨l', hw⟩ := Client.sendConnect_of_ok hs (MemoryPort.write_of_isConnected hp bs) l
    exact ⟨bs, l', hs, hw⟩
  · exact Line.carries_encode (.head _) (Json.visible_print _) (Json.print_ne_nil _)

theorem payload_keeps_to_line_smuggled :
    let options : Option Json.Members := some [(text "\r\nPING\r\n", .str [0x2028])]
    ∃ bs l', Utf8.encode (connectLine (options.map .obj)) = .ok bs ∧
      sendConnect linePort (options.map .obj) ({}, []) = (.ok (), ({ written := bs }, l')) ∧
      ∃ f, ReadsOut (arrivals [bs, [0x50, 0x49]] .endOfStream) ({}, [])
        [text "CONNECT \x7b\"\\r\\nPING\\r\\n\":\"\\u2028\"\x7d\r\n", text "PI"] f := by
  intro options
  obtain ⟨hcarries, hsend⟩ := payload_keeps_to_line.2.1 options
  obtain ⟨bs, l', hs, hw⟩ := hsend {} [] rfl
  obtain ⟨bs', hs', -, hserver, -⟩ := hcarries.sent
  obtain rfl := Except.ok.inj (hs.symm.trans hs')
  have hmore : Utf8.encode (text "PI") = .ok [0x50, 0x49] := by decide
  obtain ⟨⟨lines, f, hout⟩, hall⟩ :=
    hserver hmore [bs, [0x50, 0x49]] .endOfStream (by simp)
  refine ⟨bs, l', hs, hw, f, ?_⟩
  have hl := hall lines f hout
  rw [hl] at hout
  exact hout

end LineHandshake
