import LineHandshake.Proofs.Json.Capacity
import LineHandshake.Proofs.Json.Members
import LineHandshake.Proofs.Subjects

/-!
Counts written as a JSON object. Of each name the last value counts, and only this one has to be a
whole number; how the text orders, repeats and spaces its members has no bearing on the result.
-/

namespace LineHandshake

namespace Subject

def member (s : Subject) : Text × Json := (s.name, .int s.count)

theorem ofMembers_cases (us : Json.Members) :
    (∃ subjects, ofMembers us = .ok subjects ∧ us = subjects.map member) ∨
      ∃ e name v, ofMembers us = .error e ∧ (name, v) ∈ us ∧ ∀ n, v ≠ .int n := by
  induction us with
  | nil => exact .inl ⟨[], rfl, rfl⟩
  | cons m us ih =>
    obtain ⟨name, v⟩ := m
    by_cases hv : ∃ n, v = .int n
    · obtain ⟨n, rfl⟩ := hv
      rcases ih with ⟨subjects, he, rfl⟩ | ⟨e, name', v', he, hm, hv'⟩
      · exact .inl ⟨⟨name, n⟩ :: subjects, by rw [ofMembers, he]; rfl, rfl⟩
      · exact .inr ⟨e, name', v', by rw [ofMembers, he]; rfl, .tail _ hm, hv'⟩
    · have hv := not_exists.1 hv
      refine .inr ⟨.countNotWhole name v, name, v, ?_, .head _, hv⟩
      rw [ofMembers]
      intro n hn
      exact hv n hn

/-- The subjects of an object: one for each name, in order, with the last value of the name. -/
structure AreOf (l : List Subject) (ms : Json.Members) : Prop where
  sorted : l.Pairwise (· < ·)
  mem_iff (name : Text) (count : Int) : ⟨name, count⟩ ∈ l ↔ ms.last? name = some (.int count)

theorem AreOf.unique {l l' : List Subject} {ms ms' : Json.Members} (h : AreOf l ms)
    (h' : AreOf l' ms') (hms : ∀ name, ms.last? name = ms'.last? name) : l = l' := by
  refine h.sorted.eq_of_mem_iff h'.sorted fun a => ?_
  rw [h.mem_iff a.name a.count, h'.mem_iff a.name a.count, hms]

theorem AreOf.eq_nil_iff {l : List Subject} {ms : Json.Members} (h : AreOf l ms)
    (hms : ∀ name v, ms.last? name = some v → ∃ n, v = .int n) : l = [] ↔ ms = [] := by
  constructor
  · rintro rfl
    rcases List.eq_nil_or_concat ms with rfl | ⟨ms, m, rfl⟩
    · rfl
    · rw [List.concat_eq_append] at h hms
      have hlast : Json.Members.last? m.1 (ms ++ [m]) = some m.2 := by
        rw [Json.Members.last?_concat, if_pos rfl]
      obtain ⟨n, hn⟩ := hms _ _ hlast
      have hmem := (h.mem_iff m.1 n).2 (hlast.trans (congrArg some hn))
      cases hmem
  · rintro rfl
    refine List.eq_nil_iff_forall_not_mem.2 fun a ha => ?_
    cases (h.mem_iff a.name a.count).1 ha

variable {t : Text}

theorem readCounts_of_ne_nil [Json.Stack] (hne : t ≠ []) : readCounts (some t) =
    match Json.read t with
    | .error (.malformed e) => .error (.format (.badCounts e))
    | .error e => .error (.unreadable e)
    | .ok (.obj members) =>
      match ofMembers members with
      | .error e => .error (.format e)
      | .ok [] => .ok none
      | .ok subjects => .ok (some (sort subjects))
    | .ok v => .error (.format (.countsNotObject v.typeName)) := by
  obtain ⟨c, t, rfl⟩ := List.exists_cons_of_ne_nil hne
  rfl

theorem readCounts_object [Json.Stack] (hne : t ≠ []) (ht : Json.IsWithinLimits t)
    {ms : Json.Members} (hd : Json.IsDocument t (.object ms)) :
    (∃ e name v, readCounts (some t) = .error (.format e) ∧ ms.last? name = some v ∧
        ∀ n, v ≠ .int n) ∨
      (∀ name v, ms.last? name = some v → ∃ n, v = .int n) ∧
        ∃ l, AreOf l ms ∧ readCounts (some t) = .ok (if l = [] then none else some l) := by
  have hread : Json.read t = .ok (.obj (Json.Members.ofList ms)) := by
    rcases ht.read_cases with ⟨v, -, hr, hv⟩ | ⟨hn, -⟩
    · rw [hr, ← hv _ hd.value_of_object]
    · exact absurd hd.value_of_object (hn _)
  have hnodup := Json.Members.nodup_ofList ms
  have hlast (name : Text) (v : Json) :
      (name, v) ∈ Json.Members.ofList ms ↔ ms.last? name = some v := by
    rw [← Json.Members.get?_eq_some_iff hnodup, Json.Members.get?_ofList]
  rw [readCounts_of_ne_nil hne, hread]
  dsimp only
  rcases ofMembers_cases (Json.Members.ofList ms) with ⟨l, he, hl⟩ | ⟨e, name, v, he, hm, hv⟩
  · rw [he]
    refine .inr ⟨fun name v hv => ?_, sort l, ⟨?_, fun name count => ?_⟩, ?_⟩
    · rw [← hlast, hl] at hv
      obtain ⟨s, -, hs⟩ := List.mem_map.1 hv
      exact ⟨s.count, (Prod.mk.inj hs).2.symm⟩
    · rw [hl, List.map_map] at hnodup
      exact pairwise_sort hnodup
    · rw [mem_sort, ← hlast, hl, List.mem_map]
      refine ⟨fun hm => ⟨_, hm, rfl⟩, ?_⟩
      rintro ⟨⟨n, c⟩, hm, hs⟩
      cases hs
      exact hm
    · cases l with
      | nil => rw [sort, List.mergeSort_nil, if_pos rfl]
      | cons s l =>
        have hsort : sort (s :: l) ≠ [] := List.ne_nil_of_mem (mem_sort.2 (.head l))
        rw [if_neg hsort]
  · rw [he]
    exact .inl ⟨e, name, v, rfl, (hlast name v).1 hm, hv⟩

theorem readCounts_not_object [Json.Stack] (hne : t ≠ []) {v : Json} (hr : Json.read t = .ok v)
    (hv : ∀ us, v ≠ .obj us) :
    readCounts (some t) = .error (.format (.countsNotObject v.typeName)) := by
  rw [readCounts_of_ne_nil hne, hr]
  cases v with
  | obj us => exact absurd rfl (hv us)
  | _ => rfl

theorem readCounts_refused_iff [Json.Stack] (hne : t ≠ []) (ht : Json.IsWithinLimits t) :
    (∃ e, readCounts (some t) = .error (.format e)) ↔
      (∀ v, ¬ Json.IsDocument t (.value v)) ∨
      (∃ v, Json.IsDocument t (.value v) ∧ ∀ us, v ≠ .obj us) ∨
      ∃ ms name v, Json.IsDocument t (.object ms) ∧ ms.last? name = some v ∧ ∀ n, v ≠ .int n := by
  constructor
  · rintro ⟨e, he⟩
    rcases ht.read_cases with ⟨v, hv, hr, -⟩ | ⟨hn, -⟩
    · by_cases ho : ∃ us, v = .obj us
      · obtain ⟨us, rfl⟩ := ho
        obtain ⟨ms, -, hd⟩ := Json.exists_object_of_isDocument hv
        rcases readCounts_object hne ht hd with ⟨e', name, v, -, hlast, hv⟩ | ⟨-, l, -, hl⟩
        · exact .inr (.inr ⟨ms, name, v, hd, hlast, hv⟩)
        · cases he.symm.trans hl
      · exact .inr (.inl ⟨v, hv, not_exists.1 ho⟩)
    · exact .inl hn
  · rintro (hn | ⟨v, hv, ho⟩ | ⟨ms, name, v, hd, hlast, hv⟩)
    · rcases ht.read_cases with ⟨v, hv, -⟩ | ⟨-, e, hr⟩
      · exact absurd hv (hn v)
      · exact ⟨.badCounts e, by rw [readCounts_of_ne_nil hne, hr]⟩
    · rcases ht.read_cases with ⟨v', -, hr, huniq⟩ | ⟨hn, -⟩
      · obtain rfl := huniq v hv
        exact ⟨_, readCounts_not_object hne hr ho⟩
      · exact absurd hv (hn v)
    · rcases readCounts_object hne ht hd with ⟨e, -, -, he, -⟩ | ⟨hall, -⟩
      · exact ⟨e, he⟩
      · obtain ⟨n, hn⟩ := hall name v hlast
        exact absurd hn (hv n)

/-- Counts are read as the last values of an object. A text within the limits is refused just if it
is not JSON, or no object, or the last value of some name is no whole number. Otherwise there are
no counts if there are no members, and else one for each name, in order; how the members were
ordered, repeated and spaced has no bearing on them. -/
theorem readCounts_last_values [Json.Stack] (hne : t ≠ []) (ht : Json.IsWithinLimits t) :
    ((∃ e, readCounts (some t) = .error (.format e)) ↔
      (∀ v, ¬ Json.IsDocument t (.value v)) ∨
      (∃ v, Json.IsDocument t (.value v) ∧ ∀ us, v ≠ .obj us) ∨
      ∃ ms name v, Json.IsDocument t (.object ms) ∧ ms.last? name = some v ∧ ∀ n, v ≠ .int n) ∧
    (∀ ms, Json.IsDocument t (.object ms) →
      (∀ name v, ms.last? name = some v → ∃ n, v = .int n) →
      (ms = [] → readCounts (some t) = .ok none) ∧
      (ms ≠ [] → ∃ l, readCounts (some t) = .ok (some l) ∧ l.Pairwise (· < ·) ∧
        ∀ name count, ⟨name, count⟩ ∈ l ↔ ms.last? name = some (.int count))) ∧
    (∀ t' ms ms', t' ≠ [] → Json.IsWithinLimits t' → Json.IsDocument t (.object ms) →
      Json.IsDocument t' (.object ms') → (∀ name, ms.last? name = ms'.last? name) →
      ∀ r, readCounts (some t) = .ok r ↔ readCounts (some t') = .ok r) ∧
    readCounts none = .ok none ∧ readCounts (some []) = .ok none := by
  refine ⟨readCounts_refused_iff hne ht, fun ms hd hms => ?_, ?_, rfl, rfl⟩
  · rcases readCounts_object hne ht hd with ⟨e, name, v, -, hlast, hv⟩ | ⟨-, l, hl, he⟩
    · obtain ⟨n, hn⟩ := hms name v hlast
      exact absurd hn (hv n)
    · refine ⟨fun hnil => ?_, fun hms' => ⟨l, ?_, hl.sorted, hl.mem_iff⟩⟩
      · rw [he, if_pos ((hl.eq_nil_iff hms).2 hnil)]
      · rw [he, if_neg fun hnil => hms' ((hl.eq_nil_iff hms).1 hnil)]
  · intro t' ms ms' hne' ht' hd hd' hlast r
    rcases readCounts_object hne ht hd with ⟨e, name, v, he, hv, hn⟩ | ⟨hall, l, hl, he⟩
    · rcases readCounts_object hne' ht' hd' with ⟨e', -, -, he', -⟩ | ⟨hall', -⟩
      · rw [he, he']
        exact ⟨nofun, nofun⟩
      · obtain ⟨n, hv'⟩ := hall' name v ((hlast name).symm.trans hv)
        exact absurd hv' (hn n)
    · rcases readCounts_object hne' ht' hd' with ⟨e', name, v, -, hv, hn⟩ | ⟨-, l', hl', he'⟩
      · obtain ⟨n, hv'⟩ := hall name v ((hlast name).trans hv)
        exact absurd hv' (hn n)
      · rw [he, he', hl.unique hl' hlast]

theorem readCounts_last_values_repeated :
    let t := text "\x7b\x22a\x22:[],\x22a\x22:1\x7d"
    ∃ l, readCounts (some t) = .ok (some l) ∧ ⟨text "a", 1⟩ ∈ l := by
  intro t
  have htokens : Json.tokens t = [.opening, .opening, .closing, .integer 1, .closing] := rfl
  have ht : Json.IsWithinLimits t := by
    refine ⟨by decide, fun {count} h => ?_⟩
    rw [htokens] at h
    obtain rfl : count = 1 := by simpa using h
    decide
  have hw : Json.AllSpace [] := nofun
  have hname : Json.WritesString (text "\x22a\x22") (text "a") :=
    @Json.WritesString.quoted [97] [⟨97, false⟩]
      (.plain (by decide) (by decide) (by decide) .nil)
  have hdigit : ∀ c ∈ [(49 : CodePoint)], c.IsDigit :=
    List.forall_mem_singleton.2 (by decide)
  have hone : Json.Writes [49] (.value (.int 1)) :=
    .number (@Json.WritesNumber.int [] [49] false .none (.run (by decide) hdigit))
  have hd : Json.IsDocument t (.object [(text "a", .arr []), (text "a", .int 1)]) :=
    ⟨[], t, [], hw, hw, .object hw (.member hname hw hw (.emptyArray hw) hw hw
      (.lastMember hname hw hw hone hw)), rfl⟩
  obtain ⟨-, hok, -⟩ := readCounts_last_values (t := t) (by decide) ht
  have hlast (name : Text) (v : Json) :
      Json.Members.last? name [(text "a", .arr []), (text "a", .int 1)] = some v →
        ∃ n, v = .int n := by
    rw [Json.Members.last?, List.reverse_cons, List.reverse_singleton, List.singleton_append,
      Json.Members.get?, Json.Members.get?, Json.Members.get?]
    split
    · intro h
      exact ⟨1, (Option.some.inj h).symm⟩
    · intro h
      cases h
  obtain ⟨l, hl, -, hmem⟩ := (hok _ hd hlast).2 (List.cons_ne_nil _ _)
  exact ⟨l, hl, (hmem _ _).2 rfl⟩

end Subject

end LineHandshake
