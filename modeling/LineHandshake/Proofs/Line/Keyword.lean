import LineHandshake.Proofs.Line.RoundTrip

/-!
Two ways to look at the keyword of a line. A strict reader takes the line apart and compares the
part before the first space; a server is content if the line starts with the keyword. What the
server accepts is exactly what the strict way of reading takes apart with a keyword that begins in
this way, and it gives back the two parts as they stood.
-/

namespace LineHandshake

variable {keyword line shown k rest : Text}

theorem Text.begins_beforeSpace_iff (hs : CodePoint.space ∉ keyword) (t : Text) :
    keyword <+: t.beforeSpace ↔ keyword <+: t := by
  constructor
  · intro h
    exact h.trans (beforeSpace_begins t)
  · rintro ⟨r, rfl⟩
    have hk : ∀ c ∈ keyword, c ≠ CodePoint.space := by
      rintro c hc rfl
      exact hs hc
    rw [beforeSpace, List.takeWhile_append_of_pos (by simpa using hk)]
    exact List.prefix_append keyword _

theorem Text.eq_around_space (t : Text) :
    (CodePoint.space ∉ t → t = t.beforeSpace ∧ t.afterSpace = []) ∧
      (CodePoint.space ∈ t → t = t.beforeSpace ++ CodePoint.space :: t.afterSpace) := by
  refine ⟨fun hs => ?_, fun hs => ?_⟩
  · obtain ⟨hb, ha⟩ := beforeSpace_eq_self hs
    exact ⟨hb.symm, ha⟩
  · rcases beforeSpace_cases t with ⟨hb, -⟩ | ht
    · rw [← hb] at hs
      exact absurd hs (space_not_mem_beforeSpace t)
    · exact ht

namespace Line

theorem expect_eq_ok_iff :
    expect keyword line = .ok shown ↔ keyword <+: line.chomp ∧ shown = line.chomp := by
  by_cases hp : keyword.isPrefixOf line.chomp
  · rw [expect, if_pos hp, ← List.isPrefixOf_iff_prefix, Except.ok.injEq]
    exact ⟨fun h => ⟨hp, h.symm⟩, fun h => h.2.symm⟩
  · rw [expect, if_neg hp, ← List.isPrefixOf_iff_prefix]
    constructor
    · intro h
      cases h
    · intro h
      exact absurd h.1 hp

theorem exists_decode_of_begins (hne : keyword ≠ []) (hs : CodePoint.space ∉ keyword)
    (h : keyword <+: line.chomp) : ∃ k rest, decode line = .ok (k, rest) ∧ keyword <+: k :=
  ⟨_, _, decode_eq_ok_iff.2 ⟨h.ne_nil hne, rfl, rfl⟩, (Text.begins_beforeSpace_iff hs _).2 h⟩

theorem begins_of_decode (hs : CodePoint.space ∉ keyword) (h : decode line = .ok (k, rest))
    (hk : keyword <+: k) : keyword <+: line.chomp := by
  obtain ⟨-, rfl, -⟩ := decode_eq_ok_iff.1 h
  exact (Text.begins_beforeSpace_iff hs _).1 hk

/-- A line is accepted for a keyword just if its own keyword begins with it, and what is shown of it
is its keyword, or its keyword, a space and its payload. So nothing that the strict comparison
accepts is refused. -/
theorem expect_iff_decode (hne : keyword ≠ []) (hs : CodePoint.space ∉ keyword) (line : Text) :
    ((∃ shown, expect keyword line = .ok shown) ↔
      ∃ k rest, decode line = .ok (k, rest) ∧ keyword <+: k) ∧
    (∀ shown k rest, expect keyword line = .ok shown → decode line = .ok (k, rest) →
      (CodePoint.space ∉ shown → shown = k ∧ rest = []) ∧
      (CodePoint.space ∈ shown → shown = k ++ CodePoint.space :: rest)) ∧
    (∀ rest, decode line = .ok (keyword, rest) → ∃ shown, expect keyword line = .ok shown) ∧
    ∀ f, expect keyword line = .error f → f = .unexpectedLine keyword line.chomp := by
  have hiff : (∃ shown, expect keyword line = .ok shown) ↔
      ∃ k rest, decode line = .ok (k, rest) ∧ keyword <+: k := by
    constructor
    · rintro ⟨shown, h⟩
      exact exists_decode_of_begins hne hs (expect_eq_ok_iff.1 h).1
    · rintro ⟨k, rest, hd, hk⟩
      exact ⟨line.chomp, expect_eq_ok_iff.2 ⟨begins_of_decode hs hd hk, rfl⟩⟩
  refine ⟨hiff, fun shown k rest h hd => ?_, fun rest hd => ?_, fun f h => ?_⟩
  · obtain ⟨-, rfl⟩ := expect_eq_ok_iff.1 h
    obtain ⟨-, rfl, rfl⟩ := decode_eq_ok_iff.1 hd
    exact Text.eq_around_space line.chomp
  · exact hiff.2 ⟨keyword, rest, hd, List.prefix_refl keyword⟩
  · rw [expect] at h
    split at h
    · cases h
    · exact (Except.error.inj h).symm

theorem expect_iff_decode_longer :
    Keyword.ping ≠ [] ∧ CodePoint.space ∉ Keyword.ping ∧
      expect Keyword.ping (text "PINGX \r\r\n") = .ok (text "PINGX ") ∧
      ∃ k rest, decode (text "PINGX \r\r\n") = .ok (k, rest) ∧ Keyword.ping <+: k := by
  have hne : Keyword.ping ≠ [] := by decide
  have hs : CodePoint.space ∉ Keyword.ping := by decide
  have he : expect Keyword.ping (text "PINGX \r\r\n") = .ok (text "PINGX ") := by rfl
  exact ⟨hne, hs, he, (expect_iff_decode hne hs _).1.1 ⟨_, he⟩⟩

end Line

end LineHandshake
