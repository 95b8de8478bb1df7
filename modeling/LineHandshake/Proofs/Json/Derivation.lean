import LineHandshake.Proofs.Json.Grammar
import Mathlib.Data.List.TakeDrop
import Mathlib.Data.List.TakeWhile

/-!
What is read follows the grammar: each reader takes a part of the text that is written as what it
gives, and leaves the rest.
-/

namespace LineHandshake.Json

variable {s rest : Text}

theorem eq_ok_of_map {α β : Type} {r : Reading α} {f : α → β} {b : β}
    (h : Except.map (fun r => (f r.1, r.2)) r = .ok (b, rest)) :
    ∃ a, r = .ok (a, rest) ∧ b = f a := by
  obtain e | ⟨a, t⟩ := r
  · cases h
  · cases h
    exact ⟨a, rfl, rfl⟩

theorem eq_ok_of_andThen {α β : Type} {r : Reading α} {next : α → Text → Reading β} {b : β}
    (h : r.andThen next = .ok (b, rest)) :
    ∃ a t, r = .ok (a, t) ∧ next a t = .ok (b, rest) := by
  obtain e | ⟨a, t⟩ := r
  · cases h
  · exact ⟨a, t, rfl, h⟩

theorem exists_spells {opening : Nat} {ps : List Piece}
    (h : readPieces opening s = .ok (ps, rest)) :
    ∃ body, Spells body ps ∧ s = body ++ CodePoint.quote :: rest := by
  fun_induction readPieces opening s generalizing ps with
  | case2 =>
    cases h
    exact ⟨[], .nil, rfl⟩
  | case4 c s hq hc hb ih =>
    obtain ⟨ps, hr, rfl⟩ := eq_ok_of_map h
    obtain ⟨body, hs, rfl⟩ := ih hr
    exact ⟨_, .plain hq hb (Nat.not_lt.1 hc) hs, rfl⟩
  | case7 b hq hc hb e s he c hu ih =>
    obtain ⟨ps, hr, rfl⟩ := eq_ok_of_map h
    obtain ⟨body, hs, rfl⟩ := ih hr
    obtain rfl := not_not.1 hb
    exact ⟨_, .short hu hs, rfl⟩
  | case10 b hq hc hb e he d₁ d₂ d₃ d₄ s n hn hne ih =>
    obtain ⟨ps, hr, rfl⟩ := eq_ok_of_map h
    obtain ⟨body, hs, rfl⟩ := ih hr
    obtain rfl := not_not.1 hb
    obtain rfl := not_not.1 he
    exact ⟨_, .numbered hn hs, rfl⟩
  | _ => cases h

theorem exists_writesString {opening : Nat} {name : Text}
    (h : readString opening s = .ok (name, rest)) :
    ∃ t, WritesString (CodePoint.quote :: t) name ∧ s = t ++ rest := by
  obtain ⟨ps, hr, rfl⟩ := eq_ok_of_map h
  obtain ⟨body, hs, rfl⟩ := exists_spells hr
  exact ⟨_, .quoted hs, by rw [List.append_assoc]; rfl⟩

section Numbers

variable {negative : Bool} {whole ds : Text} {power : Int}

theorem digitRun_eq (s : Text) :
    s = (digitRun s).1 ++ (digitRun s).2 ∧ ∀ c ∈ (digitRun s).1, c.IsDigit := by
  rw [digitRun, List.span_eq_takeWhile_dropWhile]
  refine ⟨List.takeWhile_append_dropWhile.symm, fun c hc => ?_⟩
  have hd := List.mem_takeWhile_imp (p := fun c : CodePoint => decide c.IsDigit) hc
  exact of_decide_eq_true hd

theorem exists_minus (h : readMinus s = (negative, rest)) :
    ∃ sign, Minus sign negative ∧ s = sign ++ rest := by
  cases s with
  | nil =>
    cases h
    exact ⟨[], .none, rfl⟩
  | cons c s =>
    rw [readMinus] at h
    split at h
    · next hc =>
      cases h
      exact ⟨[c], .minus hc, rfl⟩
    · cases h
      exact ⟨[], .none, rfl⟩

theorem exists_sign (h : readSign s = (negative, rest)) :
    ∃ sign, Sign sign negative ∧ s = sign ++ rest := by
  cases s with
  | nil =>
    cases h
    exact ⟨[], .none, rfl⟩
  | cons c s =>
    rw [readSign] at h
    split at h
    · next hc =>
      cases h
      exact ⟨[c], .minus hc, rfl⟩
    · split at h
      · next hc =>
        cases h
        exact ⟨[c], .plus hc, rfl⟩
      · cases h
        exact ⟨[], .none, rfl⟩

theorem digitRun_cons {c : CodePoint} (hc : c.IsDigit) (s : Text) :
    ∃ t, (digitRun (c :: s)).1 = c :: t := by
  refine ⟨s.takeWhile fun c => decide c.IsDigit, ?_⟩
  simp only [digitRun, List.span_eq_takeWhile_dropWhile, List.takeWhile_cons, hc, decide_true,
    if_true]

theorem whole_of_readWhole (h : readWhole s = some (whole, rest)) :
    Whole whole ∧ s = whole ++ rest := by
  cases s with
  | nil => cases h
  | cons c s =>
    rw [readWhole] at h
    split at h
    · next hc =>
      cases h
      exact ⟨.zero hc, rfl⟩
    · next hc =>
      split at h
      · next hd =>
        obtain ⟨hs, hds⟩ := digitRun_eq (c :: s)
        obtain ⟨t, ht⟩ := digitRun_cons hd s
        rw [Option.some.inj h] at hs hds ht
        refine ⟨?_, hs⟩
        obtain rfl : whole = c :: t := ht
        exact .run hc hds
      · cases h

theorem decimals_of_readFraction (h : readFraction s = some (ds, rest)) :
    ∃ point, Decimals point ds ∧ point ≠ [] ∧ s = point ++ rest := by
  rcases s with _ | ⟨p, _ | ⟨c, s⟩⟩
  · cases h
  · cases h
  · rw [readFraction] at h
    split at h
    · next hp =>
      obtain ⟨hs, hds⟩ := digitRun_eq (c :: s)
      obtain ⟨t, ht⟩ := digitRun_cons hp.2 s
      rw [Option.some.inj h] at hs hds ht
      have hne : ds ≠ [] := fun he => by cases he.symm.trans ht
      exact ⟨_, .some hp.1 ⟨hne, hds⟩, List.cons_ne_nil _ _, congrArg (p :: ·) hs⟩
    · cases h

theorem power_of_readExponent (h : readExponent s = some (power, rest)) :
    ∃ exponent, Power exponent power ∧ exponent ≠ [] ∧ s = exponent ++ rest := by
  cases s with
  | nil => cases h
  | cons e s =>
    rw [readExponent] at h
    split at h
    · next he =>
      cases hs : readSign s with
      | mk negative t =>
        obtain ⟨sign, hsign, rfl⟩ := exists_sign hs
        obtain ⟨ht, hds⟩ := digitRun_eq t
        rw [hs] at h
        dsimp only at h
        generalize digitRun t = r at h ht hds
        obtain ⟨_ | ⟨d, ds⟩, u⟩ := r
        · cases h
        · cases h
          refine ⟨_, .some he hsign ⟨List.cons_ne_nil d ds, hds⟩, List.cons_ne_nil _ _, ?_⟩
          simp [ht]
    · cases h

theorem exists_writesNumber {v : Json} (h : readNumber s = .ok (v, rest)) :
    ∃ t, WritesNumber t v ∧ s = t ++ rest := by
  unfold readNumber at h
  cases hm : readMinus s with
  | mk negative u =>
    obtain ⟨sign, hs, rfl⟩ := exists_minus hm
    rw [hm] at h
    dsimp only at h
    cases hw : readWhole u with
    | none =>
      rw [hw] at h
      cases h
    | some r =>
      obtain ⟨whole, t⟩ := r
      obtain ⟨hwhole, rfl⟩ := whole_of_readWhole hw
      rw [hw] at h
      dsimp only at h
      cases hf : readFraction t with
      | none =>
        rw [hf, Option.elim_none] at h
        cases he : readExponent t with
        | none =>
          rw [he] at h
          dsimp only at h
          split at h
          · cases h
          · cases h
            exact ⟨_, .int hs hwhole, (List.append_assoc ..).symm⟩
        | some r =>
          obtain ⟨power, u⟩ := r
          obtain ⟨exponent, hp, hne, rfl⟩ := power_of_readExponent he
          rw [he] at h
          cases h
          exact ⟨_, .real hs hwhole .none hp hne, by simp⟩
      | some r =>
        obtain ⟨ds, u⟩ := r
        obtain ⟨point, hd, hne, rfl⟩ := decimals_of_readFraction hf
        rw [hf, Option.elim_some] at h
        cases he : readExponent u with
        | none =>
          rw [he] at h
          cases h
          exact ⟨_, .real hs hwhole hd .none (by simpa using hne), by simp⟩
        | some r =>
          obtain ⟨power, u⟩ := r
          obtain ⟨exponent, hp, -, rfl⟩ := power_of_readExponent he
          rw [he] at h
          cases h
          exact ⟨_, .real hs hwhole hd hp (by simp [hne]), by simp⟩

end Numbers

section Values

variable {t : Text} {v : Json} {value : Text → Reading Json}

theorem skipSpace_eq (s : Text) : ∃ w, AllSpace w ∧ s = w ++ skipSpace s :=
  ⟨s.takeWhile isSpace, fun _ hc => List.mem_takeWhile_imp hc,
    List.takeWhile_append_dropWhile.symm⟩

theorem exists_writes_of_readScalar (h : readScalar s = .ok (v, rest)) :
    ∃ t, Writes t (.value v) ∧ s = t ++ rest := by
  unfold readScalar at h
  split at h
  · next word w hl =>
    cases h
    have hp := List.find?_some (p := fun l : Text × Json => l.1.isPrefixOf s) hl
    obtain ⟨r, rfl⟩ := List.isPrefixOf_iff_prefix.1 hp
    exact ⟨word, .literal (List.mem_of_find?_eq_some hl), by rw [List.drop_left]⟩
  · obtain ⟨t, ht, rfl⟩ := exists_writesNumber h
    exact ⟨t, .number ht, rfl⟩

section Containers

variable {α : Type} {close : CodePoint} {missing : Flaw} {a : α} {as : List α}
  {make : List α → Json} {items : Nat → Text → Reading (List α)} {next : Text → Reading (List α)}

def readOthers (close : CodePoint) (a : α) (next : Text → Reading (List α)) (s : Text) :
    Reading (List α) :=
  match skipSpace s with
  | [] => .error (.flaw .commaMissing 0)
  | c :: rest =>
    if c = close then .ok ([a], rest)
    else if c = comma then precededBy a (next (skipSpace rest))
    else .error (.flaw .commaMissing (rest.length + 1))

def readEnclosed (close : CodePoint) (missing : Flaw) (make : List α → Json)
    (items : Nat → Text → Reading (List α)) (s : Text) : Reading Json :=
  match skipSpace s with
  | [] => .error (.flaw missing 0)
  | c :: rest =>
    if c = close then .ok (make [], rest)
    else (items (rest.length + 1) (c :: rest)).map fun r => (make r.1, r.2)

theorem readItems_succ (value : Text → Reading Json) (fuel : Nat) (s : Text) :
    readItems value (fuel + 1) s =
      (value s).andThen fun v => readOthers CodePoint.closeBracket v (readItems value fuel) := rfl

theorem readMembers_succ (value : Text → Reading Json) (fuel : Nat) (s : Text) :
    readMembers value (fuel + 1) s =
      (readName s).andThen fun name s => (value (skipSpace s)).andThen fun v =>
        readOthers closeBrace (name, v) (readMembers value fuel) := rfl

theorem readArray_eq (value : Text → Reading Json) :
    readArray value =
      readEnclosed CodePoint.closeBracket .valueMissing Json.arr (readItems value) := rfl

theorem readObject_eq (value : Text → Reading Json) :
    readObject value =
      readEnclosed closeBrace .nameMissing (fun ms => Json.obj (Members.ofList ms))
        (readMembers value) := rfl

theorem readOthers_cases (h : readOthers close a next s = .ok (as, rest)) :
    (∃ w, as = [a] ∧ AllSpace w ∧ s = w ++ close :: rest) ∨
      ∃ bs w w₁ t, as = a :: bs ∧ AllSpace w ∧ AllSpace w₁ ∧ next t = .ok (bs, rest) ∧
        s = w ++ comma :: (w₁ ++ t) := by
  unfold readOthers at h
  obtain ⟨w, hw, hs⟩ := skipSpace_eq s
  generalize skipSpace s = u at h hs
  subst hs
  cases u with
  | nil => cases h
  | cons c u =>
    dsimp only at h
    split at h
    · next hc =>
      subst hc
      cases h
      exact .inl ⟨w, rfl, hw, rfl⟩
    · split at h
      · next hc =>
        subst hc
        obtain ⟨bs, hn, rfl⟩ := eq_ok_of_map h
        obtain ⟨w₁, hw₁, hu⟩ := skipSpace_eq u
        exact .inr ⟨bs, w, w₁, _, rfl, hw, hw₁, hn, by rw [← hu]⟩
      · cases h

theorem readEnclosed_cases {v : Json}
    (h : readEnclosed close missing make items s = .ok (v, rest)) :
    (∃ w, v = make [] ∧ AllSpace w ∧ s = w ++ close :: rest) ∨
      ∃ as w fuel t, v = make as ∧ AllSpace w ∧ items fuel t = .ok (as, rest) ∧ s = w ++ t := by
  unfold readEnclosed at h
  obtain ⟨w, hw, hs⟩ := skipSpace_eq s
  generalize skipSpace s = u at h hs
  subst hs
  cases u with
  | nil => cases h
  | cons c u =>
    dsimp only at h
    split at h
    · next hc =>
      subst hc
      cases h
      exact .inl ⟨w, rfl, hw, rfl⟩
    · obtain ⟨as, hi, rfl⟩ := eq_ok_of_map h
      exact .inr ⟨as, w, _, _, rfl, hw, hi, rfl⟩

end Containers

/-- A reader that takes only what is written as the value that it gives. -/
def IsSound (value : Text → Reading Json) : Prop :=
  ∀ s v rest, value s = .ok (v, rest) → ∃ t, Writes t (.value v) ∧ s = t ++ rest

theorem exists_writes_items (hv : IsSound value) {fuel : Nat} {vs : List Json}
    (h : readItems value fuel s = .ok (vs, rest)) :
    ∃ t, Writes t (.items vs) ∧ s = t ++ CodePoint.closeBracket :: rest := by
  induction fuel generalizing s vs with
  | zero => cases h
  | succ fuel ih =>
    rw [readItems_succ] at h
    obtain ⟨v, s₁, hr, hnext⟩ := eq_ok_of_andThen h
    obtain ⟨t, ht, rfl⟩ := hv _ _ _ hr
    rcases readOthers_cases hnext with
      ⟨w, rfl, hw, rfl⟩ | ⟨vs, w, w₁, u, rfl, hw, hw₁, hi, rfl⟩
    · exact ⟨t ++ w, .lastItem ht hw, by simp⟩
    · obtain ⟨t₁, ht₁, rfl⟩ := ih hi
      exact ⟨_, .item ht hw hw₁ ht₁, by simp⟩

theorem exists_writes_array (hv : IsSound value) (h : readArray value s = .ok (v, rest)) :
    ∃ t, Writes (CodePoint.openBracket :: t) (.value v) ∧ s = t ++ rest := by
  rw [readArray_eq] at h
  rcases readEnclosed_cases h with ⟨w, rfl, hw, rfl⟩ | ⟨vs, w, fuel, u, rfl, hw, hi, rfl⟩
  · exact ⟨_, .emptyArray hw, by simp⟩
  · obtain ⟨t, ht, rfl⟩ := exists_writes_items hv hi
    exact ⟨_, .array hw ht, by simp⟩

theorem exists_writesString_of_readName {name : Text} (h : readName s = .ok (name, rest)) :
    ∃ n w, WritesString n name ∧ AllSpace w ∧ s = n ++ (w ++ CodePoint.colon :: rest) := by
  cases s with
  | nil => cases h
  | cons c s =>
    rw [readName] at h
    split at h
    · cases h
    · next hc =>
      obtain rfl := not_not.1 hc
      obtain ⟨name, s₁, hr, hnext⟩ := eq_ok_of_andThen h
      obtain ⟨n, hn, rfl⟩ := exists_writesString hr
      obtain ⟨w, hw, hs⟩ := skipSpace_eq s₁
      generalize skipSpace s₁ = s₂ at hnext hs
      subst hs
      cases s₂ with
      | nil => cases hnext
      | cons c s₂ =>
        dsimp only at hnext
        split at hnext
        · next hc =>
          subst hc
          cases hnext
          exact ⟨_, w, hn, hw, rfl⟩
        · cases hnext

theorem exists_writes_members (hv : IsSound value) {fuel : Nat} {ms : Members}
    (h : readMembers value fuel s = .ok (ms, rest)) :
    ∃ t, Writes t (.members ms) ∧ s = t ++ closeBrace :: rest := by
  induction fuel generalizing s ms with
  | zero => cases h
  | succ fuel ih =>
    rw [readMembers_succ] at h
    obtain ⟨name, s₁, hn, hvalue⟩ := eq_ok_of_andThen h
    obtain ⟨n, w, hname, hw, rfl⟩ := exists_writesString_of_readName hn
    obtain ⟨v, s₂, hr, hnext⟩ := eq_ok_of_andThen hvalue
    obtain ⟨w₁, hw₁, hs₁⟩ := skipSpace_eq s₁
    obtain ⟨t, ht, hs⟩ := hv _ _ _ hr
    rw [hs] at hs₁
    subst hs₁
    rcases readOthers_cases hnext with
      ⟨w₂, rfl, hw₂, rfl⟩ | ⟨ms, w₂, w₃, u, rfl, hw₂, hw₃, hm, rfl⟩
    · exact ⟨_, .lastMember hname hw hw₁ ht hw₂, by simp⟩
    · obtain ⟨t₁, ht₁, rfl⟩ := ih hm
      exact ⟨_, .member hname hw hw₁ ht hw₂ hw₃ ht₁, by simp⟩

theorem exists_writes_object (hv : IsSound value) (h : readObject value s = .ok (v, rest)) :
    ∃ t ms, Writes (openBrace :: t) (.object ms) ∧ v = .obj (Members.ofList ms) ∧
      s = t ++ rest := by
  rw [readObject_eq] at h
  rcases readEnclosed_cases h with ⟨w, rfl, hw, rfl⟩ | ⟨ms, w, fuel, u, rfl, hw, hm, rfl⟩
  · exact ⟨_, [], .emptyObject hw, rfl, by simp⟩
  · obtain ⟨t, ht, rfl⟩ := exists_writes_members hv hm
    exact ⟨_, ms, .object hw ht, rfl, by simp⟩

theorem exists_writes_start {array object : Text → Reading Json}
    (ha : ∀ s v rest, array s = .ok (v, rest) →
      ∃ t, Writes (CodePoint.openBracket :: t) (.value v) ∧ s = t ++ rest)
    (ho : ∀ s v rest, object s = .ok (v, rest) →
      ∃ t ms, Writes (openBrace :: t) (.object ms) ∧ v = .obj (Members.ofList ms) ∧ s = t ++ rest) :
    IsSound (readStart array object) := by
  intro s v rest h
  cases s with
  | nil => cases h
  | cons c s =>
    rw [readStart] at h
    split at h
    · next hc =>
      subst hc
      obtain ⟨name, hs, rfl⟩ := eq_ok_of_map (f := Json.str) h
      obtain ⟨t, ht, rfl⟩ := exists_writesString hs
      exact ⟨_, .string ht, rfl⟩
    · split at h
      · next hc =>
        subst hc
        obtain ⟨t, ht, rfl⟩ := ha s v rest h
        exact ⟨_, ht, rfl⟩
      · split at h
        · next hc =>
          subst hc
          obtain ⟨t, ms, ht, rfl, rfl⟩ := ho s v rest h
          exact ⟨_, .resolved ht, rfl⟩
        · exact exists_writes_of_readScalar h

theorem readValue_isSound (depth : Nat) : IsSound (readValue depth) := by
  induction depth with
  | zero => exact exists_writes_start nofun nofun
  | succ depth ih =>
    exact exists_writes_start (fun _ _ _ h => exists_writes_array ih h)
      fun _ _ _ h => exists_writes_object ih h

theorem isDocument_of_readWholeText [Json.Stack] (h : readWholeText s = .ok v) :
    IsDocument s (.value v) := by
  unfold readWholeText at h
  split at h
  · cases h
  · obtain ⟨w, hw, hs⟩ := skipSpace_eq s
    split at h
    · cases h
    · next v' rest hr =>
      obtain ⟨t, ht, hs'⟩ := readValue_isSound _ _ _ _ hr
      obtain ⟨w', hw', hs₁⟩ := skipSpace_eq rest
      split at h
      · next hnil =>
        cases h
        rw [hnil, List.append_nil] at hs₁
        subst hs₁
        exact ⟨w, t, rest, hw, hw', ht, hs.trans (congrArg (w ++ ·) hs')⟩
      · cases h

end Values

end LineHandshake.Json
