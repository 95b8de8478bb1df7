import LineHandshake.Json.Printer
import LineHandshake.Proofs.Json.Numbers

/-!
A written value is printable ASCII throughout, doubles included. So it can always be encoded, holds
no line break, and is never trimmed.
-/

namespace LineHandshake

def CodePoint.IsVisible (c : CodePoint) : Prop := 0x20 ≤ c.val ∧ c.val < 0x7F

instance (c : CodePoint) : Decidable c.IsVisible := inferInstanceAs (Decidable (_ ∧ _))

def Text.Visible (t : Text) : Prop := ∀ c ∈ t, c.IsVisible

theorem Text.forall_mem_joined {P : CodePoint → Prop} {separator : Text}
    (hs : ∀ c ∈ separator, P c) {ts : List Text} (h : ∀ t ∈ ts, ∀ c ∈ t, P c) :
    ∀ c ∈ Text.joined separator ts, P c := by
  induction ts with
  | nil => exact List.forall_mem_nil _
  | cons t ts ih =>
    have ht := h t (.head _)
    cases ts with
    | nil => exact ht
    | cons u ts =>
      rw [Text.joined]
      · refine List.forall_mem_append.2 ⟨List.forall_mem_append.2 ⟨ht, hs⟩, ?_⟩
        exact ih fun t hm => h t (.tail _ hm)
      · intro hu
        cases hu

namespace Text.Visible

variable {s t : Text} {c : CodePoint}

theorem of_all (h : t.all (fun c => decide c.IsVisible) = true) : t.Visible := by
  intro c hc
  simpa using List.all_eq_true.1 h c hc

/-- For a long literal, whose characters are looked at one by one. -/
theorem literal {cs : List Char}
    (h : cs.all (fun c => decide (0x20 ≤ c.toNat ∧ c.toNat < 0x7F)) = true) :
    Visible (text (String.ofList cs)) := by
  intro c hc
  rw [text, String.toList_ofList] at hc
  obtain ⟨d, hd, rfl⟩ := List.mem_map.1 hc
  exact of_decide_eq_true (List.all_eq_true.1 h d hd)

theorem nil : Visible [] := List.forall_mem_nil _

theorem cons (hc : c.IsVisible) (h : t.Visible) : Visible (c :: t) :=
  List.forall_mem_cons.2 ⟨hc, h⟩

theorem append (hs : s.Visible) (ht : t.Visible) : Visible (s ++ t) :=
  List.forall_mem_append.2 ⟨hs, ht⟩

theorem of_subset (h : t.Visible) (hs : s ⊆ t) : s.Visible := fun c hc => h c (hs hc)

theorem replicate (n : Nat) (hc : c.IsVisible) : Visible (List.replicate n c) := by
  intro d hd
  rwa [List.eq_of_mem_replicate hd]

theorem joined {separator : Text} (hs : separator.Visible) {ts : List Text}
    (h : ∀ t ∈ ts, Visible t) : (Text.joined separator ts).Visible :=
  forall_mem_joined hs h

theorem ofNat (n : Nat) : (Text.ofNat n).Visible := by
  intro c hc
  obtain ⟨hl, hu⟩ := isDigit_of_mem_ofNat hc
  exact ⟨by omega, by omega⟩

theorem ofInt (n : Int) : (Text.ofInt n).Visible := by
  cases n with
  | ofNat n => exact ofNat n
  | negSucc n => exact cons (by decide) (ofNat (n + 1))

theorem hex (width n : Nat) : (Text.hex width n).Visible := by
  induction width generalizing n with
  | zero => exact nil
  | succ width ih =>
    have hd : ∀ m < 16, (CodePoint.ofChar (Nat.digitChar m)).IsVisible := by decide
    exact (ih (n / 16)).append (cons (hd _ (Nat.mod_lt n (by decide))) nil)

end Text.Visible

namespace Binary64

open Text (Visible)

theorem visible_signed (negative : Bool) {t : Text} (h : t.Visible) :
    Visible (signed negative t) := by
  cases negative with
  | false => exact h
  | true => exact (Visible.of_all (by decide)).append h

theorem visible_exponentText (e : Int) : Visible (exponentText e) := by
  have hs : Visible (text (if e < 0 then "e-" else "e+")) := by
    split <;> exact .of_all (by decide)
  exact (hs.append (.replicate _ (by decide))).append (.ofNat _)

theorem visible_decimal (d : Decimal) : Visible d.toText := by
  have hds : Visible ((Text.ofNat d.digits).reverse.dropWhile (· = 48) |>.reverse) := by
    apply (Visible.ofNat d.digits).of_subset
    intro c hc
    exact List.mem_reverse.1 ((List.dropWhile_sublist _).subset (List.mem_reverse.1 hc))
  have hzero : ∀ n, Visible (List.replicate n 48) := fun n => .replicate n (by decide)
  have hpoint : Visible (text ".") := .of_all (by decide)
  have htake : ∀ n, Visible (List.take n ((Text.ofNat d.digits).reverse.dropWhile (· = 48)
      |>.reverse)) := fun n => hds.of_subset (List.take_subset _ _)
  have hdrop : ∀ n, Visible (List.drop n ((Text.ofNat d.digits).reverse.dropWhile (· = 48)
      |>.reverse)) := fun n => hds.of_subset (List.drop_subset _ _)
  unfold Decimal.toText
  dsimp only
  split
  · exact ((Visible.of_all (by decide)).append (hzero _)).append hds
  split
  · refine (((htake _).append (hzero _)).append hpoint).append ?_
    split
    · exact .of_all (by decide)
    · exact hdrop _
  · refine ((htake _).append ?_).append (visible_exponentText _)
    split
    · exact .nil
    · exact hpoint.append (hdrop _)

theorem visible_toText {nan infinity : Text} (hn : nan.Visible) (hi : infinity.Visible)
    (x : Binary64) : Visible (x.toText nan infinity) := by
  unfold toText
  split
  · exact hn
  · exact visible_signed _ hi
  · exact visible_signed _ (.of_all (by decide))
  · exact visible_signed _ (visible_decimal _)

end Binary64

namespace Json

open Text (Visible)

theorem visible_hexEscape (n : Nat) : Visible (hexEscape n) :=
  (Visible.of_all (by decide)).append (.hex 4 n)

theorem visible_escapePoint (c : CodePoint) : Visible (escapePoint c) := by
  unfold escapePoint
  split
  · next t ht =>
    unfold shortEscape at ht
    repeat' split at ht
    all_goals
      first
      | cases ht
        exact .of_all (by decide)
      | cases ht
  · split
    · next hc => exact .cons hc .nil
    · split
      · exact visible_hexEscape _
      · exact (visible_hexEscape _).append (visible_hexEscape _)

theorem visible_printString (s : Text) : Visible (printString s) := by
  refine .cons (by decide) (.append ?_ (.cons (by decide) .nil))
  intro c hc
  obtain ⟨d, -, hd⟩ := List.mem_flatMap.1 hc
  exact visible_escapePoint d c hd

theorem visible_comma : Visible [comma] := .cons (by decide) .nil

mutual

theorem visible_print : (v : Json) → Visible v.print
  | .null => .of_all (by decide)
  | .bool true => .of_all (by decide)
  | .bool false => .of_all (by decide)
  | .int n => .ofInt n
  | .real x => Binary64.visible_toText (.of_all (by decide)) (.of_all (by decide)) x
  | .str s => visible_printString s
  | .arr items =>
    .cons (by decide) ((Visible.joined visible_comma (visible_printItems items)).append
      (.cons (by decide) .nil))
  | .obj members =>
    .cons (by decide) ((Visible.joined visible_comma (visible_printMembers members)).append
      (.cons (by decide) .nil))

theorem visible_printItems : (items : List Json) → ∀ t ∈ printItems items, Visible t
  | [] => List.forall_mem_nil _
  | v :: vs => List.forall_mem_cons.2 ⟨visible_print v, visible_printItems vs⟩

theorem visible_printMembers : (members : List (Text × Json)) →
    ∀ t ∈ printMembers members, Visible t
  | [] => List.forall_mem_nil _
  | (name, v) :: ms =>
    List.forall_mem_cons.2 ⟨(visible_printString name).append (.cons (by decide) (visible_print v)),
      visible_printMembers ms⟩

end

end Json

end LineHandshake
