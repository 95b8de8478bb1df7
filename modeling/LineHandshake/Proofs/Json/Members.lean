import LineHandshake.Json
import Mathlib.Data.List.Induction
import Mathlib.Data.List.Nodup

/-!
What becomes of the members of an object that were written one after the other: each name stands
where it first came, once, with the last value that was given for it.
-/

namespace LineHandshake.Json

def Members.last? (name : Text) (ms : Members) : Option Json := Members.get? name ms.reverse

namespace Members

variable {name : Text} {v : Json} {ms : Members}

theorem last?_concat (name : Text) (ms : Members) (m : Text × Json) :
    (ms ++ [m]).last? name = if m.1 = name then some m.2 else ms.last? name := by
  rw [last?, List.reverse_append]
  rfl

theorem get?_ofList (name : Text) (ms : Members) : (ofList ms).get? name = ms.last? name := by
  induction ms using List.reverseRecOn with
  | nil => rfl
  | append_singleton ms m ih =>
    rw [last?_concat, ofList, List.foldl_append, ← ofList]
    change ((ofList ms).put m.1 m.2).get? name = _
    split
    · next hm => rw [← hm, get?_put_self]
    · next hm => rw [get?_put_ne (Ne.symm hm), ih]

theorem put_map_fst (name : Text) (v : Json) (ms : Members) :
    (ms.put name v).map Prod.fst =
      if name ∈ ms.map Prod.fst then ms.map Prod.fst else ms.map Prod.fst ++ [name] := by
  induction ms with
  | nil => rfl
  | cons m ms ih =>
    obtain ⟨n, w⟩ := m
    rw [put]
    by_cases hn : n = name
    · subst hn
      simp
    · simp only [hn, if_false, List.map_cons, ih, List.mem_cons, Ne.symm hn, false_or]
      split <;> rfl

theorem nodup_ofList (ms : Members) : ((ofList ms).map Prod.fst).Nodup := by
  induction ms using List.reverseRecOn with
  | nil => exact List.nodup_nil
  | append_singleton ms m ih =>
    rw [ofList, List.foldl_append, ← ofList]
    change (((ofList ms).put m.1 m.2).map Prod.fst).Nodup
    rw [put_map_fst]
    split
    · exact ih
    · next hm =>
      refine List.nodup_append.2 ⟨ih, List.pairwise_singleton _ _, fun a ha b hb hab => ?_⟩
      rw [List.mem_singleton.1 hb] at hab
      exact hm (hab ▸ ha)

theorem mem_put {m : Text × Json} (h : m ∈ ms.put name v) : m = (name, v) ∨ m ∈ ms := by
  induction ms with
  | nil => exact .inl (List.mem_singleton.1 h)
  | cons m' ms ih =>
    obtain ⟨n, w⟩ := m'
    rw [put] at h
    split at h
    · next hn =>
      subst hn
      exact (List.mem_cons.1 h).imp_right (.tail _)
    · rcases List.mem_cons.1 h with rfl | h
      · exact .inr (.head _)
      · exact (ih h).imp_right (.tail _)

theorem mem_of_mem_ofList {m : Text × Json} (h : m ∈ ofList ms) : m ∈ ms := by
  induction ms using List.reverseRecOn with
  | nil => exact h
  | append_singleton ms m' ih =>
    rw [ofList, List.foldl_append, ← ofList] at h
    rcases mem_put h with rfl | h
    · exact List.mem_append_right ms (.head _)
    · exact List.mem_append_left _ (ih h)

theorem get?_eq_some_iff (h : (ms.map Prod.fst).Nodup) :
    ms.get? name = some v ↔ (name, v) ∈ ms := by
  induction ms with
  | nil => simp [get?]
  | cons m ms ih =>
    obtain ⟨n, w⟩ := m
    rw [List.map_cons, List.nodup_cons] at h
    rw [get?, List.mem_cons]
    split
    · next hn =>
      subst hn
      refine ⟨fun he => .inl (by rw [Option.some.inj he]), fun hm => ?_⟩
      rcases hm with hm | hm
      · rw [(Prod.mk.inj hm).2]
      · exact absurd (List.mem_map_of_mem hm) h.1
    · next hn =>
      rw [ih h.2]
      refine ⟨.inr, fun hm => hm.resolve_left fun he => hn (Prod.mk.inj he).1.symm⟩

end Members

end LineHandshake.Json
