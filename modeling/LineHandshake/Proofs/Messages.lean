import LineHandshake.Log
import LineHandshake.Proofs.Json.Visible
import LineHandshake.Proofs.Reading

/-!
Messages show what a peer sent in quoted form only. Quoting leaves nothing that could end a line or
act on a terminal, so a record whose message quotes is one line, whatever it quotes.
-/

namespace LineHandshake

namespace CodePoint

variable {c : CodePoint}

def IsControl (c : CodePoint) : Prop :=
  c.val < 0x20 ∨ (0x7F ≤ c.val ∧ c.val ≤ 0x9F) ∨ c.val = 0x2028 ∨ c.val = 0x2029

instance (c : CodePoint) : Decidable c.IsControl := inferInstanceAs (Decidable (_ ∨ _))

theorem IsVisible.not_isControl (h : c.IsVisible) : ¬ c.IsControl := by
  unfold IsVisible at h
  unfold IsControl
  omega

theorem isControl_of_isLineBreak (h : c.IsLineBreak) : c.IsControl := by
  rcases h with rfl | rfl <;> decide

theorem not_isControl_of_isPrintable (h : c.isPrintable = true) : ¬ c.IsControl := by
  unfold isPrintable at h
  unfold IsControl
  split at h
  · have hc := of_decide_eq_true h
    omega
  · have hout (r : Nat × Nat) (hr : r ∈ unprintable) : c.val < r.1 ∨ r.2 < c.val := by
      simpa using List.all_eq_true.1 h r hr
    have hcontrol := hout (0x7F, 0xA0) (.head _)
    have hseparator := hout (0x2028, 0x202F) (by decide +kernel)
    omega

end CodePoint

namespace Text

variable {s t : Text} {c d : CodePoint}

/-- Without anything that could end a line or act on a terminal. -/
def Inert (t : Text) : Prop := ∀ c ∈ t, ¬ c.IsControl

instance (t : Text) : Decidable t.Inert := inferInstanceAs (Decidable (∀ c ∈ t, _))

theorem inert_append_iff : Inert (s ++ t) ↔ s.Inert ∧ t.Inert := List.forall_mem_append

theorem Inert.append (hs : s.Inert) (ht : t.Inert) : Inert (s ++ t) := inert_append_iff.2 ⟨hs, ht⟩

theorem Inert.cons (hc : c.IsVisible) (h : t.Inert) : Inert (c :: t) :=
  List.forall_mem_cons.2 ⟨hc.not_isControl, h⟩

theorem Visible.inert (h : t.Visible) : t.Inert := fun c hc => (h c hc).not_isControl

theorem Inert.literal {cs : List Char}
    (h : cs.all (fun c => decide (0x20 ≤ c.toNat ∧ c.toNat < 0x7F)) = true) :
    Inert (text (String.ofList cs)) :=
  (Visible.literal h).inert

theorem Inert.joined {ts : List Text} (hs : s.Inert) (h : ∀ t ∈ ts, Inert t) :
    (Text.joined s ts).Inert :=
  forall_mem_joined hs h

theorem Inert.lines (h : t.Inert) (ht : t ≠ []) : t.lines = [t] := by
  induction t with
  | nil => exact absurd rfl ht
  | cons c t ih =>
    obtain ⟨hc, h⟩ := List.forall_mem_cons.1 h
    obtain ⟨hcr, hlf⟩ := not_or.1 (mt CodePoint.isControl_of_isLineBreak hc)
    cases t with
    | nil => simp [Text.lines, hcr, hlf]
    | cons d t =>
      have hl := ih h (List.cons_ne_nil d t)
      generalize d :: t = r at hl
      simp [Text.lines, hcr, hlf, hl]

section Quoting

theorem visible_delimiter (t : Text) : t.delimiter.IsVisible := by
  unfold delimiter
  split <;> decide

theorem visible_shortEscape {e : Text} (hd : d.IsVisible) (h : shortEscape d c = some e) :
    e.Visible := by
  unfold shortEscape at h
  split at h
  · next hc =>
    cases h
    refine .cons (by decide) (.cons ?_ .nil)
    rcases hc with rfl | rfl
    · exact hd
    · decide
  · repeat' split at h
    all_goals
      first
      | cases h
        exact .literal (by decide)
      | cases h

theorem visible_numericEscape (n : Nat) : Visible (numericEscape n) := by
  unfold numericEscape
  repeat' split
  all_goals exact (Visible.literal (by decide)).append (.hex _ n)

theorem inert_quotedPoint (hd : d.IsVisible) (c : CodePoint) : Inert (quotedPoint d c) := by
  unfold quotedPoint
  split
  · next e he => exact (visible_shortEscape hd he).inert
  · split
    · next hc =>
      exact List.forall_mem_singleton.2 (CodePoint.not_isControl_of_isPrintable hc)
    · exact (visible_numericEscape _).inert

theorem inert_quoted (t : Text) : Inert t.quoted := by
  have hd := visible_delimiter t
  refine .cons hd (.append (fun c hc => ?_) (.cons hd (List.forall_mem_nil _)))
  obtain ⟨p, -, hp⟩ := List.mem_flatMap.1 hc
  exact inert_quotedPoint hd p c hp

end Quoting

end Text

open Text (Visible Inert)

theorem Bytes.visible_quotedByte {d : CodePoint} (hd : d.IsVisible) (b : UInt8) :
    Visible (Bytes.quotedByte d b) := by
  unfold Bytes.quotedByte
  dsimp only
  split
  · next e he => exact Text.visible_shortEscape hd he
  · split
    · next hc => exact .cons hc .nil
    · exact Text.visible_numericEscape _

theorem Bytes.visible_quoted (bs : Bytes) : Visible (Bytes.quoted bs) := by
  have hd : (if 39 ∈ bs ∧ 34 ∉ bs then CodePoint.quote else CodePoint.apostrophe).IsVisible := by
    split <;> decide
  refine (Visible.literal (by decide)).append (.cons hd (.append (fun c hc => ?_) (.cons hd .nil)))
  obtain ⟨b, -, hb⟩ := List.mem_flatMap.1 hc
  exact visible_quotedByte hd b c hb

namespace Json

mutual

theorem inert_shown : (v : Json) → Inert v.shown
  | .null => .literal (by decide)
  | .bool true => .literal (by decide)
  | .bool false => .literal (by decide)
  | .int n => (Visible.ofInt n).inert
  | .real x => (Binary64.visible_toText (.literal (by decide)) (.literal (by decide)) x).inert
  | .str s => Text.inert_quoted s
  | .arr items => .cons (by decide) (.append
      (Inert.joined (.literal (by decide)) (inert_shownItems items))
      (.cons (by decide) (List.forall_mem_nil _)))
  | .obj members => .cons (by decide) (.append
      (Inert.joined (.literal (by decide)) (inert_shownMembers members))
      (.cons (by decide) (List.forall_mem_nil _)))

theorem inert_shownItems : (items : List Json) → ∀ t ∈ shownItems items, Inert t
  | [] => List.forall_mem_nil _
  | v :: vs => List.forall_mem_cons.2 ⟨inert_shown v, inert_shownItems vs⟩

theorem inert_shownMembers : (members : List (Text × Json)) → ∀ t ∈ shownMembers members, Inert t
  | [] => List.forall_mem_nil _
  | (name, v) :: ms => List.forall_mem_cons.2
    ⟨((Text.inert_quoted name).append (.literal (by decide))).append (inert_shown v),
      inert_shownMembers ms⟩

end

theorem visible_typeName (v : Json) : Visible v.typeName := by
  cases v <;> rw [typeName] <;> exact .literal (by decide)

theorem SyntaxError.visible_message (e : SyntaxError) : Visible e.message := by
  have hf : Visible e.flaw.message := by
    cases e.flaw <;> exact .literal (by decide)
  have h : ∀ {s : Text} {n : Nat} {t : String}, s.Visible → Visible (text t) →
      Visible (s ++ text t ++ Text.ofNat n) := fun hs ht => (hs.append ht).append (.ofNat _)
  exact (h (h (h hf (.literal (by decide))) (.literal (by decide))) (.literal (by decide))).append
    (.literal (by decide))

theorem ReadError.visible_message (e : ReadError) : Visible e.message := by
  cases e with
  | malformed e => exact e.visible_message
  | tooManyDigits count =>
    exact ((((Visible.literal (by decide)).append (.ofNat _)).append (.literal (by decide))).append
      (.ofNat count)).append (.literal (by decide))
  | tooDeep container =>
    refine ((Visible.literal (by decide)).append ?_).append (.literal (by decide))
    cases container <;> exact .literal (by decide)

end Json

namespace Utf8

theorem visible_range {one : Text} (h : one.Visible) (size start : Nat) :
    Visible (if size = 1 then one
      else text "s in position " ++ Text.ofNat start ++ text "-" ++
        Text.ofNat (start + size - 1)) := by
  split
  · exact h
  · exact (((Visible.literal (by decide)).append (.ofNat _)).append (.literal (by decide))).append
      (.ofNat _)

theorem DecodeError.visible_message (e : DecodeError) : Visible e.message := by
  have hr : Visible e.reason.message := by
    cases e.reason <;> exact .literal (by decide)
  have hone : Visible (text " 0x" ++ Text.hex 2 e.byte.toNat ++ text " in position " ++
      Text.ofNat e.start) :=
    (((Visible.literal (by decide)).append (.hex 2 _)).append (.literal (by decide))).append
      (.ofNat _)
  exact (((Visible.literal (by decide)).append (visible_range hone _ _)).append
    (.literal (by decide))).append hr

theorem EncodeError.visible_message (e : EncodeError) : Visible e.message := by
  have hone : Visible (text " \x27\\u" ++ Text.hex 4 e.point.val ++
      text "\x27 in position " ++ Text.ofNat e.start) :=
    (((Visible.literal (by decide)).append (.hex 4 _)).append (.literal (by decide))).append
      (.ofNat _)
  exact ((Visible.literal (by decide)).append (visible_range hone _ _)).append
    (.literal (by decide))

end Utf8

theorem SystemError.visible_message (e : SystemError) : Visible e.message := by
  cases e <;> exact .literal (by decide)

theorem Duration.visible_toText (limit : Duration) : Visible limit.toText := by
  cases limit with
  | whole n => exact .ofInt n
  | real x => exact Binary64.visible_toText (.literal (by decide)) (.literal (by decide)) x

end LineHandshake
