import LineHandshake.Subject
import Mathlib.Data.Finset.Card
import Mathlib.Data.List.Sort

/-!
Subjects are in the order of their names, and names in the order of their code points. What a
subject counts has no part in this. It shows only where subjects of one name are told apart, and
sorting leaves these in the order in which they stood.
-/

namespace LineHandshake

namespace Text

variable {t u : Text} {c d : CodePoint}

/-- A text comes before whatever goes on from it. Otherwise the first place at which two texts
differ decides. -/
def Precedes (t u : Text) : Prop :=
  (∃ c rest, u = t ++ c :: rest) ∨
    ∃ common c d rest rest', t = common ++ c :: rest ∧ u = common ++ d :: rest' ∧ c.val < d.val

theorem not_precedes_nil (t : Text) : ¬ t.Precedes [] := by
  rintro (⟨c, rest, h⟩ | ⟨common, c, d, rest, rest', -, h, -⟩)
  · exact List.append_ne_nil_of_right_ne_nil t (List.cons_ne_nil c rest) h.symm
  · exact List.append_ne_nil_of_right_ne_nil common (List.cons_ne_nil d rest') h.symm

theorem precedes_cons_iff : Precedes (c :: t) (d :: u) ↔ c.val < d.val ∨ c = d ∧ t.Precedes u := by
  constructor
  · rintro (⟨e, rest, h⟩ | ⟨common, e, f, rest, rest', h, h', hlt⟩)
    · obtain ⟨rfl, rfl⟩ := List.cons.inj h
      exact .inr ⟨rfl, .inl ⟨e, rest, rfl⟩⟩
    · cases common with
      | nil =>
        obtain ⟨rfl, rfl⟩ := List.cons.inj h
        obtain ⟨rfl, rfl⟩ := List.cons.inj h'
        exact .inl hlt
      | cons x common =>
        obtain ⟨rfl, rfl⟩ := List.cons.inj h
        obtain ⟨rfl, rfl⟩ := List.cons.inj h'
        exact .inr ⟨rfl, .inr ⟨common, e, f, rest, rest', rfl, rfl, hlt⟩⟩
  · rintro (hlt | ⟨rfl, ⟨e, rest, rfl⟩ | ⟨common, e, f, rest, rest', rfl, rfl, hlt⟩⟩)
    · exact .inr ⟨[], c, d, t, u, rfl, rfl, hlt⟩
    · exact .inl ⟨e, rest, rfl⟩
    · exact .inr ⟨c :: common, e, f, rest, rest', rfl, rfl, hlt⟩

theorem lt_iff_precedes : t < u ↔ t.Precedes u := by
  induction t generalizing u with
  | nil =>
    cases u with
    | nil => exact iff_of_false (List.lt_irrefl _) (not_precedes_nil _)
    | cons d u => exact iff_of_true (List.nil_lt_cons d u) (.inl ⟨d, u, rfl⟩)
  | cons c t ih =>
    cases u with
    | nil => exact iff_of_false (List.not_lt_nil _) (not_precedes_nil _)
    | cons d u => rw [List.cons_lt_cons_iff, precedes_cons_iff, ih]; rfl

end Text

namespace Subject

variable {a b c : Subject} {l : List Subject}

section Order

theorem lt_irrefl (a : Subject) : ¬ a < a := List.lt_irrefl a.name

theorem lt_asymm (h : a < b) : ¬ b < a := List.lt_asymm h

theorem lt_trans (h : a < b) (h' : b < c) : a < c := List.lt_trans h h'

theorem le_trans (h : a ≤ b) (h' : b ≤ c) : a ≤ c :=
  @List.le_trans _ _ _ _ _ a.name b.name c.name h h'

theorem le_total (a b : Subject) : a ≤ b ∨ b ≤ a := List.le_total a.name b.name

theorem le_iff_lt_or_same : a ≤ b ↔ a < b ∨ Same a b :=
  @List.le_iff_lt_or_eq _ _ _ _ _ a.name b.name

theorem lt_of_le_of_ne (h : a ≤ b) (hne : a.name ≠ b.name) : a < b :=
  (le_iff_lt_or_same.1 h).resolve_right hne

instance : Std.Irrefl (fun a b : Subject => a < b) := ⟨lt_irrefl⟩

instance : Std.Antisymm (fun a b : Subject => a < b) := ⟨fun _ _ h h' => absurd h' (lt_asymm h)⟩

theorem Same.not_lt (h : Same a b) : ¬ a < b := by
  intro hlt
  have hn : a.name < b.name := hlt
  rw [show a.name = b.name from h] at hn
  exact List.lt_irrefl b.name hn

theorem compares (a b : Subject) :
    (a < b ∨ Same a b ∨ a > b) ∧ ¬ (a < b ∧ Same a b) ∧ ¬ (a < b ∧ a > b) ∧
      ¬ (Same a b ∧ a > b) := by
  refine ⟨?_, fun h => h.2.not_lt h.1, fun h => lt_asymm h.1 h.2, fun h => ?_⟩
  · rcases le_total a b with h | h
    · exact (le_iff_lt_or_same.1 h).imp_right .inl
    · exact .inr ((le_iff_lt_or_same.1 h).symm.imp_left Eq.symm)
  · exact Same.not_lt (Eq.symm h.1) h.2

end Order

section Sorting

theorem mem_sort : a ∈ sort l ↔ a ∈ l := List.mem_mergeSort

theorem sort_perm (l : List Subject) : (sort l).Perm l := List.mergeSort_perm l _

theorem le_test_trans (a b c : Subject) (h : decide (a ≤ b) = true) (h' : decide (b ≤ c) = true) :
    decide (a ≤ c) = true :=
  decide_eq_true (le_trans (of_decide_eq_true h) (of_decide_eq_true h'))

theorem le_test_total (a b : Subject) : (decide (a ≤ b) || decide (b ≤ a)) = true := by
  rw [Bool.or_eq_true]
  exact (le_total a b).imp decide_eq_true decide_eq_true

theorem pairwise_le_sort (l : List Subject) : (sort l).Pairwise (· ≤ ·) :=
  (List.pairwise_mergeSort le_test_trans le_test_total l).imp of_decide_eq_true

theorem pairwise_sort (h : (l.map Subject.name).Nodup) : (sort l).Pairwise (· < ·) := by
  have hne : ((sort l).map Subject.name).Nodup := ((sort_perm l).map Subject.name).nodup_iff.2 h
  exact ((pairwise_le_sort l).and (List.pairwise_map.1 hne)).imp fun hab =>
    lt_of_le_of_ne hab.1 hab.2

theorem filter_sort (name : Text) (l : List Subject) :
    (sort l).filter (·.name = name) = l.filter (·.name = name) := by
  -- the subjects of one name are in order as they stand, so sorting finds them one after the other
  have hle : (l.filter (·.name = name)).Pairwise fun a b => decide (a ≤ b) = true := by
    refine List.pairwise_of_forall_mem_list fun a ha b hb => decide_eq_true ?_
    have hna : a.name = name := of_decide_eq_true (List.mem_filter.1 ha).2
    have hnb : b.name = name := of_decide_eq_true (List.mem_filter.1 hb).2
    exact le_iff_lt_or_same.2 (.inr (hna.trans hnb.symm))
  have hsub : (l.filter (·.name = name)).Sublist (sort l) :=
    List.sublist_mergeSort le_test_trans le_test_total hle List.filter_sublist
  have hfilter := hsub.filter fun s => decide (s.name = name)
  rw [List.filter_filter] at hfilter
  simp only [Bool.and_self] at hfilter
  exact (hfilter.eq_of_length ((sort_perm l).filter _).length_eq.symm).symm

end Sorting

section Distinctness

theorem distinct_cons (s : Subject) (l : List Subject) :
    distinct (s :: l) = s :: distinct (l.filter fun t => t.name ≠ s.name) := by
  have hp : (fun t => decide (decide (Same t s) = false)) = fun t => decide (t.name ≠ s.name) := by
    funext t
    by_cases h : t.name = s.name <;> simp [Same, h]
  rw [distinct, List.eraseDupsBy_cons, hp]
  rfl

theorem distinct_names : (l : List Subject) → ((distinct l).map Subject.name).Nodup ∧
    ∀ name, name ∈ (distinct l).map Subject.name ↔ name ∈ l.map Subject.name
  | [] => ⟨List.nodup_nil, fun _ => Iff.rfl⟩
  | s :: l => by
    obtain ⟨hnodup, hmem⟩ := distinct_names (l.filter fun t => t.name ≠ s.name)
    rw [distinct_cons, List.map_cons, List.map_cons]
    refine ⟨List.nodup_cons.2 ⟨fun hs => ?_, hnodup⟩, fun name => ?_⟩
    · obtain ⟨t, ht, he⟩ := List.mem_map.1 ((hmem s.name).1 hs)
      exact of_decide_eq_true (List.mem_filter.1 ht).2 he
    · rw [List.mem_cons, List.mem_cons, hmem]
      refine or_congr_right' fun hne => ?_
      simp only [List.mem_map, List.mem_filter, decide_eq_true_eq]
      constructor
      · rintro ⟨t, ⟨ht, -⟩, he⟩
        exact ⟨t, ht, he⟩
      · rintro ⟨t, ht, rfl⟩
        exact ⟨t, ⟨ht, hne⟩, rfl⟩
termination_by l => l.length
decreasing_by exact Nat.lt_succ_of_le (List.length_filter_le _ l)

theorem length_distinct (l : List Subject) :
    (distinct l).length = (l.map Subject.name).toFinset.card := by
  obtain ⟨hnodup, hmem⟩ := distinct_names l
  have hset : (l.map Subject.name).toFinset = ((distinct l).map Subject.name).toFinset := by
    ext name
    rw [List.mem_toFinset, List.mem_toFinset, hmem]
  rw [hset, List.toFinset_card_of_nodup hnodup, List.length_map]

end Distinctness

/-- Subjects are totally ordered by their names in code point order, whatever they count. Sorting
is stable for this order, and of a set of subjects there are as many as there are names. -/
theorem ordered_by_name_alone (a b c : Subject) (subjects : List Subject) :
    ((a < b ∨ Same a b ∨ a > b) ∧ ¬ (a < b ∧ Same a b) ∧ ¬ (a < b ∧ a > b) ∧
      ¬ (Same a b ∧ a > b)) ∧
    (a ≤ b ↔ a < b ∨ Same a b) ∧ (a ≥ b ↔ a > b ∨ Same a b) ∧
    (a < b → b < c → a < c) ∧ (a ≤ b → b ≤ c → a ≤ c) ∧
    (a < b ↔ a.name.Precedes b.name) ∧ (Same a b ↔ a.name = b.name) ∧
    (∀ m n : Int, let a' := { a with count := m }
      let b' := { b with count := n }
      (a' < b' ↔ a < b) ∧ (a' ≤ b' ↔ a ≤ b) ∧ (Same a' b' ↔ Same a b)) ∧
    (sort subjects).Perm subjects ∧
    (sort subjects).Pairwise (fun s t => s.name = t.name ∨ s.name.Precedes t.name) ∧
    (∀ name, (sort subjects).filter (·.name = name) = subjects.filter (·.name = name)) ∧
    (∀ s ∈ subjects, ∃ t ∈ distinct subjects, Same s t) ∧
    (distinct subjects).length = (subjects.map Subject.name).toFinset.card := by
  refine ⟨compares a b, le_iff_lt_or_same, ?_, lt_trans, le_trans, Text.lt_iff_precedes, Iff.rfl,
    fun m n => ⟨Iff.rfl, Iff.rfl, Iff.rfl⟩, sort_perm subjects, ?_, fun name => filter_sort name _,
    fun s hs => ?_, length_distinct subjects⟩
  · exact le_iff_lt_or_same.trans (or_congr_right eq_comm)
  · refine (pairwise_le_sort subjects).imp fun h => ?_
    exact (le_iff_lt_or_same.1 h).symm.imp_right Text.lt_iff_precedes.1
  · have hname := ((distinct_names subjects).2 s.name).2 (List.mem_map_of_mem hs)
    obtain ⟨t, ht, he⟩ := List.mem_map.1 hname
    exact ⟨t, ht, he.symm⟩

theorem ordered_by_name_alone_astral :
    let lone : Subject := ⟨[0xD800], 9⟩
    let last : Subject := ⟨[0xFFFF], 7⟩
    let astral : Subject := ⟨[0x10000], 5⟩
    let again : Subject := ⟨[0x10000], 1⟩
    let subjects := [astral, lone, again]
    lone < last ∧ last < astral ∧ lone < astral ∧ lone ≤ last ∧ last ≤ astral ∧ lone ≤ astral ∧
      ((sort subjects).filter fun s => s.name = [0x10000]) = [astral, again] ∧
      again ∈ subjects ∧ (∃ t ∈ distinct subjects, Same again t) ∧
      (distinct subjects).length = 2 := by
  intro lone last astral again subjects
  obtain ⟨-, -, -, hlt, hle, -, -, -, -, -, hstable, hdistinct, hlength⟩ :=
    ordered_by_name_alone lone last astral subjects
  have h : lone < last := by decide
  have h' : last < astral := by decide
  have hle₁ : lone ≤ last := lt_asymm h
  have hle₂ : last ≤ astral := lt_asymm h'
  have hm : again ∈ subjects := .tail _ (.tail _ (.head _))
  refine ⟨h, h', hlt h h', hle₁, hle₂, hle hle₁ hle₂, hstable [0x10000], hm, hdistinct again hm, ?_⟩
  rw [hlength]
  decide

end Subject

end LineHandshake
