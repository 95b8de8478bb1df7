import LineHandshake.Proofs.Line

/-!
Lines put together and taken apart again, and the other way round. A keyword and a payload come
back just if the line made of them is cut where they meet and loses nothing but its CRLF. A line
that was taken apart comes back up to its end, unless its first space is all that its payload
begins with and ends with.
-/

namespace LineHandshake

namespace Text

def EndsInBreak (t : Text) : Prop := ∃ c ∈ t.getLast?, c.IsLineBreak

def EndsAtFirstSpace (t : Text) : Prop := ∃ a, CodePoint.space ∉ a ∧ t = a ++ [CodePoint.space]

variable {a t : Text}

theorem not_endsInBreak_iff : ¬ t.EndsInBreak ↔ ∀ c ∈ t.getLast?, ¬ c.IsLineBreak := by
  simp only [EndsInBreak, not_exists, not_and]

theorem chomp_begins (t : Text) : t.chomp <+: t := List.rdropWhile_prefix _ t

theorem not_endsInBreak_chomp (t : Text) : ¬ t.chomp.EndsInBreak := by
  rintro ⟨c, hc, hb⟩
  obtain ⟨hn, rfl⟩ := List.mem_getLast?_eq_getLast hc
  have hl := List.rdropWhile_last_not _ t hn
  exact hl (decide_eq_true hb)

theorem chomp_eq_self_iff : t.chomp = t ↔ ¬ t.EndsInBreak := by
  constructor
  · intro h
    rw [← h]
    exact not_endsInBreak_chomp t
  · intro h
    apply trimEnd_eq_self
    simpa using not_endsInBreak_iff.1 h

theorem chomp_append_crlf_eq (t : Text) : chomp (t ++ Line.crlf) = t.chomp := by
  have h : t ++ Line.crlf = t ++ [CodePoint.cr] ++ [CodePoint.lf] := by simp [Line.crlf]
  rw [h]
  simp only [chomp, trimEnd_eq_rdropWhile]
  rw [List.rdropWhile_concat_pos _ _ _ (by decide), List.rdropWhile_concat_pos _ _ _ (by decide)]

theorem chomp_append_space (a t : Text) :
    chomp (a ++ CodePoint.space :: t) = a ++ CodePoint.space :: t.chomp := by
  have h : a ++ CodePoint.space :: t = a ++ [CodePoint.space] ++ t := by simp
  have hs : ∀ c ∈ (a ++ [CodePoint.space]).getLast?, decide c.IsLineBreak = false := by
    simp only [List.getLast?_concat, Option.mem_some_iff, forall_eq']
    decide
  rw [h, chomp, trimEnd_append hs, List.append_assoc]
  rfl

theorem space_not_mem_beforeSpace (t : Text) : CodePoint.space ∉ t.beforeSpace := by
  intro h
  have hs := List.mem_takeWhile_imp h
  simp at hs

theorem beforeSpace_begins (t : Text) : t.beforeSpace <+: t := List.takeWhile_prefix _

theorem beforeSpace_eq_self (h : CodePoint.space ∉ t) : t.beforeSpace = t ∧ t.afterSpace = [] := by
  rcases beforeSpace_cases t with hb | hb
  · exact hb
  · rw [hb] at h
    simp at h

theorem endsAtFirstSpace_append (h : CodePoint.space ∉ a) :
    EndsAtFirstSpace (a ++ CodePoint.space :: t) ↔ t = [] := by
  constructor
  · rintro ⟨b, hb, he⟩
    have hcut := afterSpace_append_space h t
    rw [he, afterSpace_append_space hb] at hcut
    exact hcut.symm
  · rintro rfl
    exact ⟨a, h, rfl⟩

end Text

namespace Line

open Text

variable {keyword payload rest line : Text}

theorem encode_of_empty {payload : Option Text} (h : payload.getD [] = []) :
    encode keyword payload = keyword ++ crlf := by
  match payload, h with
  | none, _ => rfl
  | some [], _ => rfl

theorem exists_some_of_getD_ne_nil {payload : Option Text} (h : payload.getD [] ≠ []) :
    ∃ t, payload = some t := by
  cases payload with
  | none => exact absurd rfl h
  | some t => exact ⟨t, rfl⟩

theorem decode_encode_empty_iff {payload : Option Text} (h : payload.getD [] = []) :
    decode (encode keyword payload) = .ok (keyword, []) ↔
      CodePoint.space ∉ keyword ∧ keyword ≠ [] ∧ ¬ keyword.EndsInBreak := by
  rw [encode_of_empty h, decode, chomp_append_crlf_eq]
  constructor
  · intro hd
    split at hd
    · cases hd
    · next hn =>
      have hb : keyword.chomp.beforeSpace = keyword := (Prod.mk.inj (Except.ok.inj hd)).1
      -- the keyword is a beginning of its own stripped form, so nothing was stripped
      have hp : keyword <+: keyword.chomp := by
        have hp := beforeSpace_begins keyword.chomp
        rwa [hb] at hp
      have hc : keyword.chomp = keyword :=
        (chomp_begins keyword).eq_of_length_le hp.length_le
      refine ⟨?_, ?_, chomp_eq_self_iff.1 hc⟩
      · rw [← hb]
        exact space_not_mem_beforeSpace _
      · rwa [hc] at hn
  · rintro ⟨hs, hn, he⟩
    obtain ⟨hb, ha⟩ := beforeSpace_eq_self hs
    rw [chomp_eq_self_iff.2 he, if_neg hn, hb, ha]

theorem decode_encode_some_iff (h : payload ≠ []) :
    decode (encode keyword (some payload)) = .ok (keyword, payload) ↔
      CodePoint.space ∉ keyword ∧ ¬ payload.EndsInBreak := by
  constructor
  · intro hd
    rw [encode_some h, decode, chomp_append_crlf_eq, chomp_append_space,
      if_neg (List.append_ne_nil_of_right_ne_nil _ (List.cons_ne_nil _ _))] at hd
    obtain ⟨hb, ha⟩ := Prod.mk.inj (Except.ok.inj hd)
    have hs : CodePoint.space ∉ keyword := by
      rw [← hb]
      exact space_not_mem_beforeSpace _
    rw [afterSpace_append_space hs] at ha
    exact ⟨hs, chomp_eq_self_iff.1 ha⟩
  · rintro ⟨hs, he⟩
    exact decode_encode_some hs h (not_endsInBreak_iff.1 he)

/-- What becomes of a line that was taken apart and is put together again. -/
structure IsRestored (line keyword rest : Text) : Prop where
  same : ¬ line.chomp.EndsAtFirstSpace → encode keyword (some rest) = line.chomp ++ crlf ∧
    decode (encode keyword (some rest)) = .ok (keyword, rest)
  other : line.chomp.EndsAtFirstSpace → ∀ ending, encode keyword (some rest) ≠ line.chomp ++ ending

theorem isRestored_of_decode (h : decode line = .ok (keyword, rest)) :
    IsRestored line keyword rest := by
  have he := not_endsInBreak_chomp line
  have hs := space_not_mem_beforeSpace line.chomp
  obtain ⟨hn, rfl, rfl⟩ := decode_eq_ok_iff.1 h
  rcases beforeSpace_cases line.chomp with ⟨hb, ha⟩ | hc
  · rw [hb] at hs
    rw [hb, ha]
    constructor
    · intro _
      exact ⟨rfl, (decode_encode_empty_iff rfl).2 ⟨hs, hn, he⟩⟩
    · rintro ⟨a, -, hl⟩
      rw [hl] at hs
      simp at hs
  · generalize line.chomp.beforeSpace = keyword at hs hc
    generalize line.chomp.afterSpace = rest at hc
    rw [hc, EndsInBreak, List.getLast?_append, List.getLast?_cons] at he
    constructor
    · rw [hc, endsAtFirstSpace_append hs]
      intro hr
      have hl : ¬ rest.EndsInBreak := by
        simpa [List.getLast?_eq_some_getLast hr, EndsInBreak] using he
      exact ⟨encode_some hr, (decode_encode_some_iff hr).2 ⟨hs, hl⟩⟩
    · rw [hc, endsAtFirstSpace_append hs]
      rintro rfl ending hl
      -- behind the keyword there is a CR in the one and the space in the other
      rw [encode_of_empty rfl, List.append_assoc] at hl
      exact absurd (List.cons.inj (List.append_cancel_left hl)).1 (by decide)

/-- Exactly which keywords and payloads come back, and exactly which lines do. -/
theorem coding_restores :
    (∀ (keyword : Text) (payload : Option Text),
      decode (encode keyword payload) = .ok (keyword, payload.getD []) ↔
        CodePoint.space ∉ keyword ∧ (payload.getD [] ≠ [] → ¬ (payload.getD []).EndsInBreak) ∧
          (payload.getD [] = [] → keyword ≠ [] ∧ ¬ keyword.EndsInBreak)) ∧
    (∀ line keyword rest, decode line = .ok (keyword, rest) → IsRestored line keyword rest) ∧
    ∀ bs keyword rest, decodeBytes bs = .ok (keyword, rest) →
      ∃ line, Utf8.decode bs = .ok line ∧ IsRestored line keyword rest := by
  refine ⟨fun keyword payload => ?_, fun _ _ _ => isRestored_of_decode, fun bs keyword rest h => ?_⟩
  · by_cases hp : payload.getD [] = []
    · rw [hp, decode_encode_empty_iff hp]
      simp only [ne_eq, not_true, false_implies, true_implies, true_and]
    · obtain ⟨payload, rfl⟩ := exists_some_of_getD_ne_nil hp
      simp only [Option.getD_some] at hp ⊢
      simp only [decode_encode_some_iff hp, hp, ne_eq, not_false_eq_true, true_implies,
        false_implies, and_true]
  · rw [decodeBytes] at h
    split at h
    · cases h
    · next line hd => exact ⟨line, hd, isRestored_of_decode h⟩

theorem coding_restores_spaced :
    decode (text "A\rB  \n\r\n") = .ok (text "A\rB", [CodePoint.space]) ∧
      IsRestored (text "A\rB  \n\r\n") (text "A\rB") [CodePoint.space] :=
  ⟨by decide, coding_restores.2.1 _ _ _ (by decide)⟩

end Line

end LineHandshake
