import LineHandshake.Proofs.Json.Strings
import LineHandshake.Proofs.Json.Visible
import Mathlib.Data.List.Induction

/-!
Values that were written are read back, with the members of every object in their order. A reader
that is right about the items of an array or the members of an object is right about the whole,
and depth is what the induction is on.
-/

namespace LineHandshake.Json

/-- A value without doubles that is nested at most `depth` deep, the names in each object being
different, and whose numbers and texts can be read back. -/
inductive Regular : (depth : Nat) → Json → Prop
  | null {depth : Nat} : Regular depth .null
  | bool {depth : Nat} (b : Bool) : Regular depth (.bool b)
  | int {depth : Nat} {n : Int} (h : n.natAbs < 10 ^ Text.maxDigits) : Regular depth (.int n)
  | str {depth : Nat} {s : Text} (h : s.Unpaired) : Regular depth (.str s)
  | arr {depth : Nat} {items : List Json} (h : ∀ v ∈ items, Regular depth v) :
      Regular (depth + 1) (.arr items)
  | obj {depth : Nat} {members : Members} (names : (members.map Prod.fst).Nodup)
      (texts : ∀ m ∈ members, m.1.Unpaired) (values : ∀ m ∈ members, Regular depth m.2) :
      Regular (depth + 1) (.obj members)

variable {c : CodePoint} {s t rest : Text} {value : Text → Reading Json} {v : Json} {depth : Nat}

theorem skipSpace_cons (h : isSpace c = false) (t : Text) : skipSpace (c :: t) = c :: t := by
  simp [skipSpace, h]

def Begins (t : Text) : Prop :=
  ∃ c r, t = c :: r ∧ isSpace c = false ∧ c ≠ CodePoint.closeBracket ∧ c ≠ closeBrace

theorem Begins.append (h : Begins s) (t : Text) : Begins (s ++ t) := by
  obtain ⟨c, r, rfl, hc⟩ := h
  exact ⟨c, r ++ t, rfl, hc⟩

theorem Begins.skipSpace (h : Begins t) : skipSpace t = t := by
  obtain ⟨c, r, rfl, hc, -⟩ := h
  exact skipSpace_cons hc r

theorem begins_printString (s : Text) : Begins (printString s) :=
  ⟨_, _, rfl, by decide, by decide, by decide⟩

theorem begins_ofInt (n : Int) : Begins (Text.ofInt n) := by
  obtain ⟨c, t, ⟨hl, hu⟩, hn | hn⟩ := Text.ofInt_eq_cons n
  · refine ⟨c, t, hn, ?_, ?_, ?_⟩
    · simp only [isSpace, Bool.or_eq_false_iff, beq_eq_false_iff_ne]
      omega
    · rintro rfl
      exact absurd hu (by decide)
    · rintro rfl
      exact absurd hu (by decide)
  · exact ⟨_, _, hn, by decide, by decide, by decide⟩

theorem Regular.begins (h : Regular depth v) : Begins v.print := by
  cases h with
  | null => exact ⟨_, _, rfl, by decide, by decide, by decide⟩
  | bool b => cases b <;> exact ⟨_, _, rfl, by decide, by decide, by decide⟩
  | int _ => exact begins_ofInt _
  | str _ => exact begins_printString _
  | arr _ => exact ⟨_, _, by rw [print], by decide, by decide, by decide⟩
  | obj _ _ _ => exact ⟨_, _, by rw [print], by decide, by decide, by decide⟩

theorem begins_joined {ts : List Text} (h : ∀ t ∈ ts, Begins t) (hn : ts ≠ []) :
    Begins (Text.joined [comma] ts) := by
  cases ts with
  | nil => exact absurd rfl hn
  | cons t ts =>
    have ht := h t (.head _)
    cases ts with
    | nil => exact ht
    | cons u ts =>
      rw [Text.joined, List.append_assoc]
      · exact ht.append _
      · intro hu
        cases hu

theorem joined_cons_cons (t u : Text) (ts : List Text) :
    Text.joined [comma] (t :: u :: ts) = t ++ comma :: Text.joined [comma] (u :: ts) := by
  rw [Text.joined, List.append_assoc]
  · rfl
  · intro hu
    cases hu

theorem ends_nil : Ends [] := by
  intro c hc
  cases hc

theorem ends_comma (rest : Text) : Ends (comma :: rest) := by
  intro c hc
  cases hc
  exact .inl rfl

theorem ends_closeBracket (rest : Text) : Ends (CodePoint.closeBracket :: rest) := by
  intro c hc
  cases hc
  exact .inr (.inl rfl)

theorem ends_closeBrace (rest : Text) : Ends (closeBrace :: rest) := by
  intro c hc
  cases hc
  exact .inr (.inr rfl)

def ReadsBack (value : Text → Reading Json) (v : Json) : Prop :=
  ∀ rest, Ends rest → value (v.print ++ rest) = .ok (v, rest)

theorem readItems_written {items : List Json} (hn : items ≠ [])
    (hv : ∀ v ∈ items, ReadsBack value v ∧ Begins v.print) (fuel : Nat)
    (hf : items.length ≤ fuel) (rest : Text) :
    readItems value fuel
      (Text.joined [comma] (items.map print) ++ CodePoint.closeBracket :: rest) =
        .ok (items, rest) := by
  induction items generalizing fuel with
  | nil => exact absurd rfl hn
  | cons v items ih =>
    obtain ⟨fuel, rfl⟩ : ∃ n, fuel = n + 1 := ⟨fuel - 1, by simp at hf; omega⟩
    have hr := (hv v (.head _)).1
    cases items with
    | nil =>
      simp only [List.map_cons, List.map_nil, Text.joined, readItems,
        hr (CodePoint.closeBracket :: rest) (ends_closeBracket rest),
        Reading.andThen, skipSpace_cons (show isSpace CodePoint.closeBracket = false by decide),
        if_true]
    | cons w items =>
      have hi := ih (List.cons_ne_nil w items) (fun v hv' => hv v (.tail _ hv')) fuel
        (by simpa using hf)
      have hb : Begins (Text.joined [comma] (List.map print (w :: items))) := by
        refine begins_joined (List.forall_mem_map.2 ?_) (by simp)
        intro v hm
        exact (hv v (.tail _ hm)).2
      rw [List.map_cons, List.map_cons, joined_cons_cons, ← List.map_cons, List.append_assoc,
        List.cons_append, readItems, hr _ (ends_comma _)]
      simp only [Reading.andThen, skipSpace_cons (show isSpace comma = false by decide),
        if_neg (show comma ≠ CodePoint.closeBracket by decide), if_true,
        (hb.append _).skipSpace, hi]
      rfl

theorem printString_append (s rest : Text) :
    printString s ++ rest =
      CodePoint.quote :: (s.flatMap escapePoint ++ CodePoint.quote :: rest) := by
  simp [printString]

theorem readName_written {name : Text} (h : name.Unpaired) (rest : Text) :
    readName (printString name ++ CodePoint.colon :: rest) = .ok (name, rest) := by
  rw [printString_append]
  simp only [readName, ne_eq, not_true, if_false, readString_written h, Reading.andThen,
    skipSpace_cons (show isSpace CodePoint.colon = false by decide), if_true]

def printMember (m : Text × Json) : Text := printString m.1 ++ CodePoint.colon :: print m.2

theorem begins_printMember (m : Text × Json) : Begins (printMember m) :=
  (begins_printString m.1).append _

theorem readMembers_written {members : Members} (hn : members ≠ [])
    (hv : ∀ m ∈ members, m.1.Unpaired ∧ ReadsBack value m.2 ∧ Begins m.2.print) (fuel : Nat)
    (hf : members.length ≤ fuel) (rest : Text) :
    readMembers value fuel
      (Text.joined [comma] (members.map printMember) ++ closeBrace :: rest) =
        .ok (members, rest) := by
  induction members generalizing fuel with
  | nil => exact absurd rfl hn
  | cons m members ih =>
    obtain ⟨fuel, rfl⟩ : ∃ n, fuel = n + 1 := ⟨fuel - 1, by simp at hf; omega⟩
    obtain ⟨hu, hr, hb⟩ := hv m (.head _)
    cases members with
    | nil =>
      simp only [List.map_cons, List.map_nil, Text.joined, printMember, List.append_assoc,
        List.cons_append, readMembers, readName_written hu, Reading.andThen,
        (hb.append _).skipSpace, hr (closeBrace :: rest) (ends_closeBrace rest),
        skipSpace_cons (show isSpace closeBrace = false by decide), if_true]
    | cons m' members =>
      have hi := ih (List.cons_ne_nil m' members) (fun m hm => hv m (.tail _ hm)) fuel
        (by simpa using hf)
      have hj : Begins (Text.joined [comma] (List.map printMember (m' :: members))) := by
        refine begins_joined (List.forall_mem_map.2 ?_) (by simp)
        intro m _
        exact begins_printMember m
      rw [List.map_cons, List.map_cons, joined_cons_cons, ← List.map_cons, List.append_assoc,
        List.cons_append, printMember, List.append_assoc, List.cons_append, readMembers,
        readName_written hu]
      simp only [Reading.andThen, (hb.append _).skipSpace,
        hr (comma :: (Text.joined [comma] (List.map printMember (m' :: members)) ++
          closeBrace :: rest)) (ends_comma _),
        skipSpace_cons (show isSpace comma = false by decide),
        if_neg (show comma ≠ closeBrace by decide), if_true, (hj.append _).skipSpace, hi]
      rfl

theorem Members.put_of_not_mem {name : Text} {ms : Members} (h : name ∉ ms.map Prod.fst)
    (v : Json) : ms.put name v = ms ++ [(name, v)] := by
  induction ms with
  | nil => rfl
  | cons m ms ih =>
    obtain ⟨n, w⟩ := m
    simp only [List.map_cons, List.mem_cons, not_or] at h
    rw [put, if_neg (Ne.symm h.1), ih h.2, List.cons_append]

theorem Members.ofList_of_nodup {ms : Members} (h : (ms.map Prod.fst).Nodup) :
    Members.ofList ms = ms := by
  unfold ofList
  induction ms using List.reverseRecOn with
  | nil => rfl
  | append_singleton ms m ih =>
    rw [List.map_append, List.nodup_append] at h
    obtain ⟨hms, -, hd⟩ := h
    rw [List.foldl_append, ih hms]
    apply put_of_not_mem
    intro hm
    exact hd _ hm _ (by simp) rfl

theorem length_le_length_joined {ts : List Text} (h : ∀ t ∈ ts, Begins t) :
    ts.length ≤ (Text.joined [comma] ts).length := by
  induction ts with
  | nil => exact Nat.le_refl _
  | cons t ts ih =>
    have ht : 0 < t.length := by
      obtain ⟨c, r, rfl, -⟩ := h t (.head _)
      exact Nat.succ_pos _
    cases ts with
    | nil => exact ht
    | cons u ts =>
      have hi := ih fun t hm => h t (.tail _ hm)
      rw [joined_cons_cons, List.length_append, List.length_cons, List.length_cons (a := comma)]
      omega

theorem readArray_written {items : List Json}
    (hv : ∀ v ∈ items, ReadsBack value v ∧ Begins v.print) (rest : Text) :
    readArray value (Text.joined [comma] (items.map print) ++ CodePoint.closeBracket :: rest) =
      .ok (.arr items, rest) := by
  rcases List.eq_nil_or_concat items with rfl | ⟨_, _, hi⟩
  · simp only [readArray, List.map_nil, Text.joined, List.nil_append,
      skipSpace_cons (show isSpace CodePoint.closeBracket = false by decide), if_true]
  · have hn : items ≠ [] := by simp [hi]
    have hb : ∀ t ∈ items.map print, Begins t := by
      refine List.forall_mem_map.2 ?_
      intro v hm
      exact (hv v hm).2
    have hj := begins_joined hb (by simpa using hn)
    have hl := length_le_length_joined hb
    obtain ⟨c, r, hc, hs, hne, -⟩ := hj
    have hr := readItems_written hn hv ((r ++ CodePoint.closeBracket :: rest).length + 1)
      (by rw [hc] at hl; simp at hl ⊢; omega) rest
    rw [hc, List.cons_append] at hr ⊢
    simp only [readArray, skipSpace_cons hs, if_neg hne, hr]
    rfl

theorem readObject_written {members : Members} (hd : (members.map Prod.fst).Nodup)
    (hv : ∀ m ∈ members, m.1.Unpaired ∧ ReadsBack value m.2 ∧ Begins m.2.print) (rest : Text) :
    readObject value (Text.joined [comma] (members.map printMember) ++ closeBrace :: rest) =
      .ok (.obj members, rest) := by
  rcases List.eq_nil_or_concat members with rfl | ⟨_, _, hm⟩
  · simp only [readObject, List.map_nil, Text.joined, List.nil_append,
      skipSpace_cons (show isSpace closeBrace = false by decide), if_true]
  · have hn : members ≠ [] := by simp [hm]
    have hb : ∀ t ∈ members.map printMember, Begins t := by
      refine List.forall_mem_map.2 ?_
      intro m _
      exact begins_printMember m
    have hj := begins_joined hb (by simpa using hn)
    have hl := length_le_length_joined hb
    obtain ⟨c, r, hc, hs, -, hne⟩ := hj
    have hr := readMembers_written hn hv ((r ++ closeBrace :: rest).length + 1)
      (by rw [hc] at hl; simp at hl ⊢; omega) rest
    rw [hc, List.cons_append] at hr ⊢
    simp only [readObject, skipSpace_cons hs, if_neg hne, hr]
    exact congrArg (fun ms => Except.ok (Json.obj ms, rest)) (Members.ofList_of_nodup hd)

theorem readValue_eq_readStart (k : Nat) :
    ∃ array object, readValue k = readStart array object := by
  cases k <;> exact ⟨_, _, rfl⟩

theorem readStart_ofInt {n : Int} (hn : n.natAbs < 10 ^ Text.maxDigits) (hr : Ends rest)
    (array object : Text → Reading Json) :
    readStart array object (Text.ofInt n ++ rest) = .ok (.int n, rest) := by
  have hs := readScalar_ofInt hn hr
  obtain ⟨c, t, ⟨hl, hu⟩, ht | ht⟩ := Text.ofInt_eq_cons n
  · rw [ht, List.cons_append] at hs ⊢
    have hq : c ≠ CodePoint.quote := fun h => absurd (h ▸ hl) (by decide)
    have hb : c ≠ CodePoint.openBracket := fun h => absurd (h ▸ hu) (by decide)
    have ho : c ≠ openBrace := fun h => absurd (h ▸ hu) (by decide)
    simp only [readStart, if_neg hq, if_neg hb, if_neg ho, hs]
  · rw [ht] at hs ⊢
    exact hs

theorem print_arr (items : List Json) :
    (Json.arr items).print = CodePoint.openBracket ::
      (Text.joined [comma] (items.map print) ++ [CodePoint.closeBracket]) := by
  rw [print, printItems_eq_map]

theorem print_obj (members : Members) :
    (Json.obj members).print =
      openBrace :: (Text.joined [comma] (members.map printMember) ++ [closeBrace]) := by
  rw [print, printMembers_eq_map]
  rfl

theorem Regular.readsBack (h : Regular depth v) {k : Nat} (hk : depth ≤ k) :
    ReadsBack (readValue k) v := by
  induction h generalizing k with
  | null =>
    intro rest _
    obtain ⟨array, object, hr⟩ := readValue_eq_readStart k
    rw [hr]
    rfl
  | bool b =>
    intro rest _
    obtain ⟨array, object, hr⟩ := readValue_eq_readStart k
    rw [hr]
    cases b <;> rfl
  | int hn =>
    intro rest hrest
    obtain ⟨array, object, hr⟩ := readValue_eq_readStart k
    rw [hr]
    exact readStart_ofInt hn hrest array object
  | @str _ s hs =>
    intro rest _
    obtain ⟨array, object, hr⟩ := readValue_eq_readStart k
    rw [hr, print, printString_append, readStart, if_pos rfl, readString_written hs]
    rfl
  | @arr d items hi ih =>
    intro rest _
    obtain ⟨k, rfl⟩ : ∃ n, k = n + 1 := ⟨k - 1, by omega⟩
    rw [print_arr, List.cons_append, List.append_assoc, readValue, readStart,
      if_neg (by decide), if_pos rfl]
    exact readArray_written (fun v hv => ⟨ih v hv (by omega), (hi v hv).begins⟩) rest
  | @obj d members hn ht hv ih =>
    intro rest _
    obtain ⟨k, rfl⟩ : ∃ n, k = n + 1 := ⟨k - 1, by omega⟩
    rw [print_obj, List.cons_append, List.append_assoc, readValue, readStart,
      if_neg (by decide), if_neg (by decide), if_pos rfl]
    exact readObject_written hn (fun m hm => ⟨ht m hm, ih m hm (by omega), (hv m hm).begins⟩) rest

theorem head?_print_ne (v : Json) : v.print.head? ≠ some 0xFEFF := by
  intro h
  exact absurd (visible_print v _ (List.mem_of_head? h)) (by decide)

theorem Regular.read_print [Json.Stack] (h : Regular depth v) (hd : depth ≤ maxDepth) :
    read v.print = .ok v := by
  have hr := h.readsBack hd [] ends_nil
  rw [List.append_nil] at hr
  simp only [read, readWholeText, if_neg (head?_print_ne v), h.begins.skipSpace, hr]
  rfl

end LineHandshake.Json
