import LineHandshake.Proofs.Json.Acceptance
import LineHandshake.Proofs.Json.Extent
import LineHandshake.Proofs.Json.Members

/-!
What a reader gives. A text without surrogates can still write them by number, in any order, and
those that pair are joined; so no text in a value has a high one right before a low one. With the
names of each object, which are different, and the digits of its whole numbers, which are limited,
this is all that it takes for a value without doubles to be written and read back.
-/

namespace LineHandshake

def Text.Scalar (s : Text) : Prop := ∀ c ∈ s, ¬ c.IsSurrogate

namespace Text

variable {s t : Text} {c : CodePoint}

theorem Scalar.left (h : Scalar (s ++ t)) : Scalar s := fun c hc => h c (List.mem_append_left t hc)

theorem Scalar.right (h : Scalar (s ++ t)) : Scalar t := fun c hc =>
  h c (List.mem_append_right s hc)

theorem Scalar.tail (h : Scalar (c :: s)) : Scalar s := (List.forall_mem_cons.1 h).2

theorem scalar_text (s : String) : (text s).Scalar := by
  refine List.forall_mem_map.2 fun c _ => ?_
  have hc : c.toNat.isValidChar := c.valid
  unfold Nat.isValidChar at hc
  unfold CodePoint.IsSurrogate
  rw [CodePoint.val_ofChar]
  omega

theorem ofDigits_concat (t : Text) (c : CodePoint) :
    ofDigits (t ++ [c]) = ofDigits t * 10 + (c.val - 48) := by
  rw [ofDigits, List.foldl_append]
  rfl

theorem ofDigits_lt (h : ∀ c ∈ t, c.IsDigit) : ofDigits t < 10 ^ t.length := by
  induction t using List.reverseRecOn with
  | nil => decide
  | append_singleton t c ih =>
    have ht := ih fun d hd => h d (List.mem_append_left _ hd)
    obtain ⟨hl, hu⟩ := h c (List.mem_append_right t (.head _))
    rw [ofDigits_concat, List.length_append, List.length_singleton, Nat.pow_succ]
    omega

end Text

namespace Json

/-- A part of a value, which it is itself, an item of an array, or what a member of an object is
given as. -/
inductive HasPart : Json → Json → Prop
  | self (v : Json) : HasPart v v
  | item {items : List Json} {w v : Json} (h : w ∈ items) (hp : HasPart w v) :
      HasPart (.arr items) v
  | member {members : Members} {m : Text × Json} {v : Json} (h : m ∈ members)
      (hp : HasPart m.2 v) : HasPart (.obj members) v

mutual

def depth : Json → Nat
  | .null | .bool _ | .int _ | .real _ | .str _ => 0
  | .arr items => depthItems items + 1
  | .obj members => depthMembers members + 1

def depthItems : List Json → Nat
  | [] => 0
  | v :: vs => max v.depth (depthItems vs)

def depthMembers : List (Text × Json) → Nat
  | [] => 0
  | (_, v) :: ms => max v.depth (depthMembers ms)

end

/-- A value as readers give it. -/
inductive Proper : Json → Prop
  | null : Proper .null
  | bool (b : Bool) : Proper (.bool b)
  | int {n : Int} (h : n.natAbs < 10 ^ Text.maxDigits) : Proper (.int n)
  | real (x : Binary64) : Proper (.real x)
  | str {s : Text} (h : s.Unpaired) : Proper (.str s)
  | arr {items : List Json} (h : ∀ v ∈ items, Proper v) : Proper (.arr items)
  | obj {members : Members} (names : (members.map Prod.fst).Nodup)
      (texts : ∀ m ∈ members, m.1.Unpaired) (values : ∀ m ∈ members, Proper m.2) :
      Proper (.obj members)

section Parts

variable {v w : Json} {items : List Json} {members : Members} {m : Text × Json} {d : Nat}

theorem depth_le_depthItems (h : v ∈ items) : v.depth ≤ depthItems items := by
  induction h with
  | head vs => exact Nat.le_max_left _ _
  | tail w _ ih => exact Nat.le_trans ih (Nat.le_max_right _ _)

theorem depth_le_depthMembers (h : m ∈ members) : m.2.depth ≤ depthMembers members := by
  induction h with
  | head ms => exact Nat.le_max_left _ _
  | tail m' _ ih => exact Nat.le_trans ih (Nat.le_max_right _ _)

theorem Proper.of_hasPart (h : Proper v) (hp : v.HasPart w) : Proper w := by
  induction hp with
  | self v => exact h
  | item hm _ ih =>
    cases h with
    | arr hi => exact ih (hi _ hm)
  | member hm _ ih =>
    cases h with
    | obj _ _ values => exact ih (values _ hm)

theorem Proper.regular (h : Proper v) (hr : ∀ x, ¬ v.HasPart (.real x)) (hd : v.depth ≤ d) :
    Regular d v := by
  induction h generalizing d with
  | null => exact .null
  | bool b => exact .bool b
  | int hn => exact .int hn
  | real x => exact absurd (.self _) (hr x)
  | str hs => exact .str hs
  | arr _ ih =>
    rw [depth] at hd
    obtain ⟨d, rfl⟩ : ∃ n, d = n + 1 := ⟨d - 1, by omega⟩
    refine .arr fun w hw => ih w hw (fun x hx => hr x (.item hw hx)) ?_
    have := depth_le_depthItems hw
    omega
  | obj names texts _ ih =>
    rw [depth] at hd
    obtain ⟨d, rfl⟩ : ∃ n, d = n + 1 := ⟨d - 1, by omega⟩
    refine .obj names texts fun m hm => ih m hm (fun x hx => hr x (.member hm hx)) ?_
    have := depth_le_depthMembers hm
    omega

end Parts

section Strings

variable {c e high low : CodePoint} {body : Text} {p : Piece} {ps : List Piece}

theorem not_isSurrogate_of_unescape (h : unescape e = some c) : ¬ c.IsSurrogate := by
  unfold unescape at h
  split at h
  · next he =>
    cases h
    rcases he with rfl | rfl | he
    · decide
    · decide
    · unfold CodePoint.IsSurrogate
      omega
  · repeat' split at h
    all_goals first
      | cases h; decide
      | cases h

theorem Spells.numbered_of_isSurrogate (h : Spells body ps) (hb : body.Scalar) :
    ∀ p ∈ ps, p.point.IsSurrogate → p.numbered = true := by
  induction h with
  | nil => exact List.forall_mem_nil _
  | plain _ _ _ _ ih =>
    refine List.forall_mem_cons.2 ⟨fun hs => ?_, ih hb.tail⟩
    exact absurd hs (hb _ (.head _))
  | short hc _ ih =>
    refine List.forall_mem_cons.2 ⟨fun hs => ?_, ih hb.tail.tail⟩
    exact absurd hs (not_isSurrogate_of_unescape hc)
  | numbered _ _ ih =>
    exact List.forall_mem_cons.2 ⟨fun _ => rfl, ih hb.tail.tail.tail.tail.tail.tail⟩

theorem le_joinSurrogates (hh : high.IsHighSurrogate) (hl : low.IsLowSurrogate) :
    0x10000 ≤ (joinSurrogates high low).val := by
  simp only [CodePoint.IsHighSurrogate, CodePoint.IsLowSurrogate] at hh hl
  simp only [joinSurrogates, Fin.val_ofNat]
  omega

theorem head?_join (hc : c ∈ (Piece.join ps).head?) :
    (∃ p ∈ ps.head?, c = p.point) ∨ 0x10000 ≤ c.val := by
  fun_cases Piece.join ps with
  | case1 => cases hc
  | case2 p =>
    cases hc
    exact .inl ⟨p, rfl, rfl⟩
  | case3 p q ps hpair =>
    rw [Piece.join, if_pos hpair] at hc
    obtain rfl := Option.some.inj hc
    exact .inr (le_joinSurrogates hpair.2.2.1 hpair.2.2.2)
  | case4 p q ps hpair =>
    rw [Piece.join, if_neg hpair] at hc
    cases hc
    exact .inl ⟨p, rfl, rfl⟩

theorem unpaired_join (h : ∀ p ∈ ps, p.point.IsSurrogate → p.numbered = true) :
    (Piece.join ps).Unpaired := by
  fun_induction Piece.join ps with
  | case1 => exact .nil
  | case2 p => exact .singleton _
  | case3 p q ps hpair ih =>
    refine List.isChain_cons.2 ⟨fun c _ hc => ?_, ih fun r hr => h r (.tail _ (.tail _ hr))⟩
    have hle := le_joinSurrogates hpair.2.2.1 hpair.2.2.2
    have hlt := hc.1.2
    omega
  | case4 p q ps hpair ih =>
    have hq : ∀ r ∈ q :: ps, r.point.IsSurrogate → r.numbered = true := fun r hr => h r (.tail _ hr)
    refine List.isChain_cons.2 ⟨fun c hc hp => ?_, ih hq⟩
    rcases head?_join hc with ⟨r, hr, rfl⟩ | hle
    · -- both would be written by number, and so they would pair
      cases hr
      have hpn := h p (.head _) (CodePoint.isSurrogate_iff.2 (.inl hp.1))
      have hqn := hq q (.head _) (CodePoint.isSurrogate_iff.2 (.inr hp.2))
      exact hpair ⟨hpn, hqn, hp.1, hp.2⟩
    · have hlt := hp.2.2
      omega

end Strings

section Readers

variable {s rest : Text} {v : Json} {value : Text → Reading Json} {fuel : Nat}

theorem readString_unpaired {opening : Nat} {name : Text} (hs : s.Scalar)
    (h : readString opening s = .ok (name, rest)) : name.Unpaired ∧ rest.Scalar := by
  obtain ⟨ps, hr, rfl⟩ := eq_ok_of_map h
  obtain ⟨body, hb, rfl⟩ := exists_spells hr
  exact ⟨unpaired_join (hb.numbered_of_isSurrogate hs.left), hs.right.tail⟩

def GivesProper (value : Text → Reading Json) : Prop :=
  ∀ s v rest, s.Scalar → value s = .ok (v, rest) → v.Proper ∧ rest.Scalar

theorem natAbs_withSign (negative : Bool) (n : Nat) :
    (Binary64.withSign negative n).natAbs = n := by
  cases negative with
  | false => rfl
  | true => exact Int.natAbs_neg n

theorem readNumber_proper (h : readNumber s = .ok (v, rest)) : v.Proper := by
  rcases readNumber_cases s with ⟨left, hr⟩ | ⟨x, u, hr, -⟩ | ⟨negative, whole, u, hw, -, hr⟩
  · cases hr.symm.trans h
  · cases hr.symm.trans h
    exact .real x
  · rw [hr] at h
    split at h
    · cases h
    · next hshort =>
      cases h
      refine .int ?_
      rw [natAbs_withSign]
      exact Nat.lt_of_lt_of_le (Text.ofDigits_lt hw.digits.2)
        (Nat.pow_le_pow_right (by decide) (Nat.le_of_not_lt hshort))

theorem proper_of_mem_literals {l : Text × Json} (h : l ∈ literals) : l.2.Proper := by
  simp only [literals, List.mem_cons, List.not_mem_nil, or_false] at h
  rcases h with rfl | rfl | rfl | rfl | rfl | rfl
  · exact .null
  · exact .bool true
  · exact .bool false
  · exact .real _
  · exact .real _
  · exact .real _

theorem readScalar_givesProper : GivesProper readScalar := by
  intro s v rest hs h
  have hrest : rest.Scalar := by
    obtain ⟨t, -, rfl⟩ := exists_writes_of_readScalar h
    exact hs.right
  refine ⟨?_, hrest⟩
  unfold readScalar at h
  split at h
  · next word w hl =>
    cases h
    exact proper_of_mem_literals (List.mem_of_find?_eq_some hl)
  · exact readNumber_proper h

theorem readItems_proper (hv : GivesProper value) {vs : List Json} (hs : s.Scalar)
    (h : readItems value fuel s = .ok (vs, rest)) : (∀ v ∈ vs, v.Proper) ∧ rest.Scalar := by
  induction fuel generalizing s vs with
  | zero => cases h
  | succ fuel ih =>
    rw [readItems_succ] at h
    obtain ⟨v, s₁, hr, hnext⟩ := eq_ok_of_andThen h
    obtain ⟨hp, hs₁⟩ := hv _ _ _ hs hr
    rcases readOthers_cases hnext with
      ⟨w, rfl, -, rfl⟩ | ⟨vs, w, w₁, u, rfl, -, -, hi, rfl⟩
    · exact ⟨List.forall_mem_singleton.2 hp, hs₁.right.tail⟩
    · obtain ⟨hvs, hrest⟩ := ih hs₁.right.tail.right hi
      exact ⟨List.forall_mem_cons.2 ⟨hp, hvs⟩, hrest⟩

theorem readArray_givesProper (hv : GivesProper value) : GivesProper (readArray value) := by
  intro s v rest hs h
  rw [readArray_eq] at h
  rcases readEnclosed_cases h with ⟨w, rfl, -, rfl⟩ | ⟨vs, w, fuel, u, rfl, -, hi, rfl⟩
  · exact ⟨.arr (List.forall_mem_nil _), hs.right.tail⟩
  · obtain ⟨hvs, hrest⟩ := readItems_proper hv hs.right hi
    exact ⟨.arr hvs, hrest⟩

theorem readName_unpaired {name : Text} (hs : s.Scalar) (h : readName s = .ok (name, rest)) :
    name.Unpaired ∧ rest.Scalar := by
  obtain ⟨n, w, hn, -, rfl⟩ := exists_writesString_of_readName h
  refine ⟨?_, hs.right.right.tail⟩
  cases hn with
  | quoted hb => exact unpaired_join (hb.numbered_of_isSurrogate hs.left.tail.left)

theorem readMembers_proper (hv : GivesProper value) {ms : Members} (hs : s.Scalar)
    (h : readMembers value fuel s = .ok (ms, rest)) :
    (∀ m ∈ ms, m.1.Unpaired ∧ m.2.Proper) ∧ rest.Scalar := by
  induction fuel generalizing s ms with
  | zero => cases h
  | succ fuel ih =>
    rw [readMembers_succ] at h
    obtain ⟨name, s₁, hn, hvalue⟩ := eq_ok_of_andThen h
    obtain ⟨hname, hs₁⟩ := readName_unpaired hs hn
    obtain ⟨v, s₂, hr, hnext⟩ := eq_ok_of_andThen hvalue
    obtain ⟨w, -, hw⟩ := skipSpace_eq s₁
    rw [hw] at hs₁
    obtain ⟨hp, hs₂⟩ := hv _ _ _ hs₁.right hr
    rcases readOthers_cases hnext with
      ⟨w₁, rfl, -, rfl⟩ | ⟨ms, w₁, w₂, u, rfl, -, -, hm, rfl⟩
    · exact ⟨List.forall_mem_singleton.2 ⟨hname, hp⟩, hs₂.right.tail⟩
    · obtain ⟨hms, hrest⟩ := ih hs₂.right.tail.right hm
      exact ⟨List.forall_mem_cons.2 ⟨⟨hname, hp⟩, hms⟩, hrest⟩

theorem readObject_givesProper (hv : GivesProper value) : GivesProper (readObject value) := by
  intro s v rest hs h
  rw [readObject_eq] at h
  rcases readEnclosed_cases h with ⟨w, rfl, -, rfl⟩ | ⟨ms, w, fuel, u, rfl, -, hm, rfl⟩
  · exact ⟨.obj List.nodup_nil (List.forall_mem_nil _) (List.forall_mem_nil _), hs.right.tail⟩
  · obtain ⟨hms, hrest⟩ := readMembers_proper hv hs.right hm
    refine ⟨.obj (Members.nodup_ofList ms) (fun m h => ?_) (fun m h => ?_), hrest⟩
    · exact (hms m (Members.mem_of_mem_ofList h)).1
    · exact (hms m (Members.mem_of_mem_ofList h)).2

theorem readStart_givesProper {array object : Text → Reading Json} (ha : GivesProper array)
    (ho : GivesProper object) : GivesProper (readStart array object) := by
  intro s v rest hs h
  cases s with
  | nil => cases h
  | cons c s =>
    rw [readStart] at h
    split at h
    · obtain ⟨name, hr, rfl⟩ := eq_ok_of_map (f := Json.str) h
      obtain ⟨hname, hrest⟩ := readString_unpaired hs.tail hr
      exact ⟨.str hname, hrest⟩
    · split at h
      · exact ha _ _ _ hs.tail h
      · split at h
        · exact ho _ _ _ hs.tail h
        · exact readScalar_givesProper _ _ _ hs h

theorem readValue_givesProper (depth : Nat) : GivesProper (readValue depth) := by
  induction depth with
  | zero => exact readStart_givesProper nofun nofun
  | succ depth ih =>
    exact readStart_givesProper (readArray_givesProper ih) (readObject_givesProper ih)

theorem proper_of_readWholeText [Json.Stack] (hs : s.Scalar) (h : readWholeText s = .ok v) :
    v.Proper := by
  unfold readWholeText at h
  split at h
  · cases h
  · obtain ⟨w, -, hw⟩ := skipSpace_eq s
    rw [hw] at hs
    split at h
    · cases h
    · next v' rest hr =>
      have hp := (readValue_givesProper _ _ _ _ hs.right hr).1
      split at h
      · cases h
        exact hp
      · cases h

theorem proper_of_read [Json.Stack] (hs : s.Scalar) (h : read s = .ok v) : v.Proper := by
  cases hr : readWholeText s with
  | error e =>
    rw [read, hr] at h
    cases h
  | ok w =>
    rw [read, hr] at h
    cases h
    exact proper_of_readWholeText hs hr

end Readers

end Json

end LineHandshake
