import LineHandshake.Proofs.Json.Derivation
import LineHandshake.Proofs.Json.Values

/-!
How deep a text is nested and how long its whole numbers are, whether it is well formed or not.
Both are seen from its tokens: brackets and whole numbers that stand in no string. Reading stops at
a limit only if the text goes beyond it.
-/

namespace LineHandshake.Json

inductive Token
  | opening
  | closing
  | integer (digits : Nat)
deriving DecidableEq, Repr

def quotedLength : (isEscaped : Bool) → Text → Nat
  | _, [] => 0
  | true, _ :: s => quotedLength false s + 1
  | false, c :: s =>
    if c = CodePoint.quote then 1 else quotedLength (decide (c = CodePoint.backslash)) s + 1

/-- The longest number at the start of a text, its digits counted if it is a whole one, and what is
left after it. -/
def numeral (s : Text) : Option Nat × Text :=
  match readWhole s with
  | none => (none, s)
  | some (whole, t) =>
    match readFraction t, readExponent ((readFraction t).elim t (·.2)) with
    | none, none => (some whole.length, t)
    | fraction, exponent => (none, exponent.elim (fraction.elim t (·.2)) (·.2))

def tokensFrom : (skip : Nat) → Text → List Token
  | _, [] => []
  | skip + 1, _ :: s => tokensFrom skip s
  | 0, c :: s =>
    if c = CodePoint.quote then tokensFrom (quotedLength false s) s
    else if c.IsDigit then
      ((numeral (c :: s)).1.map .integer).toList ++
        tokensFrom (s.length - (numeral (c :: s)).2.length) s
    else if c = CodePoint.openBracket ∨ c = openBrace then .opening :: tokensFrom 0 s
    else if c = CodePoint.closeBracket ∨ c = closeBrace then .closing :: tokensFrom 0 s
    else tokensFrom 0 s

def tokens (s : Text) : List Token := tokensFrom 0 s

def deepest (depth : Nat) : List Token → Nat
  | [] => depth
  | .opening :: ts => deepest (depth + 1) ts
  | .closing :: ts => max depth (deepest (depth - 1) ts)
  | .integer _ :: ts => deepest depth ts

def nesting (s : Text) : Nat := deepest 0 (tokens s)

/-- A text that is beyond no limit of the reader. -/
structure IsWithinLimits [Json.Stack] (s : Text) : Prop where
  depth : nesting s ≤ maxDepth
  digits {count : Nat} (h : Token.integer count ∈ tokens s) : count ≤ Text.maxDigits

variable {c : CodePoint} {s t u rest : Text}

theorem le_deepest (depth : Nat) (ts : List Token) : depth ≤ deepest depth ts := by
  induction ts generalizing depth with
  | nil => exact Nat.le_refl _
  | cons x ts ih =>
    cases x with
    | opening => exact Nat.le_of_succ_le (ih (depth + 1))
    | closing => exact Nat.le_max_left _ _
    | integer n => exact ih depth

theorem tokensFrom_eq_drop (skip : Nat) (s : Text) : tokensFrom skip s = tokens (s.drop skip) := by
  induction skip generalizing s with
  | zero => rfl
  | succ skip ih =>
    cases s with
    | nil => rfl
    | cons c s => exact ih s

theorem tokens_quote (s : Text) :
    tokens (CodePoint.quote :: s) = tokens (s.drop (quotedLength false s)) := by
  rw [tokens, tokensFrom, if_pos rfl, tokensFrom_eq_drop]

theorem tokens_opening (h : c = CodePoint.openBracket ∨ c = openBrace) (s : Text) :
    tokens (c :: s) = .opening :: tokens s := by
  rcases h with rfl | rfl <;> rfl

theorem tokens_closing (h : c = CodePoint.closeBracket ∨ c = closeBrace) (s : Text) :
    tokens (c :: s) = .closing :: tokens s := by
  rcases h with rfl | rfl <;> rfl

structure IsIdle (c : CodePoint) : Prop where
  quote : c ≠ CodePoint.quote
  digit : ¬ c.IsDigit
  opening : ¬ (c = CodePoint.openBracket ∨ c = openBrace)
  closing : ¬ (c = CodePoint.closeBracket ∨ c = closeBrace)

instance (c : CodePoint) : Decidable (IsIdle c) :=
  decidable_of_iff (c ≠ CodePoint.quote ∧ ¬ c.IsDigit ∧
      ¬ (c = CodePoint.openBracket ∨ c = openBrace) ∧
      ¬ (c = CodePoint.closeBracket ∨ c = closeBrace))
    ⟨fun h => ⟨h.1, h.2.1, h.2.2.1, h.2.2.2⟩, fun h => ⟨h.1, h.2, h.3, h.4⟩⟩

theorem tokens_idle (h : IsIdle c) (s : Text) : tokens (c :: s) = tokens s := by
  rw [tokens, tokensFrom, if_neg h.quote, if_neg h.digit, if_neg h.opening, if_neg h.closing]
  rfl

theorem tokens_append (h : ∀ c ∈ t, IsIdle c) (s : Text) : tokens (t ++ s) = tokens s := by
  induction t with
  | nil => rfl
  | cons c t ih =>
    rw [List.cons_append, tokens_idle (h c (.head _)), ih fun d hd => h d (.tail _ hd)]

theorem isIdle_of_isSpace (h : isSpace c = true) : IsIdle c := by
  have hc : c = 32 ∨ c = 9 ∨ c = 10 ∨ c = 13 := by
    simp only [isSpace, Bool.or_eq_true, beq_iff_eq] at h
    simp only [Fin.ext_iff]
    tauto
  rcases hc with rfl | rfl | rfl | rfl <;> decide

theorem tokens_skipSpace (s : Text) : tokens (skipSpace s) = tokens s := by
  obtain ⟨w, hw, hs⟩ := skipSpace_eq s
  rw [congrArg tokens hs, tokens_append fun c hc => isIdle_of_isSpace (hw c hc)]

theorem hexValue_isSome_ne (h : c.hexValue.isSome) :
    c ≠ CodePoint.quote ∧ c ≠ CodePoint.backslash := by
  constructor
  · rintro rfl
    exact absurd h (by decide)
  · rintro rfl
    exact absurd h (by decide)

theorem quotedLength_plain (hq : c ≠ CodePoint.quote) (hb : c ≠ CodePoint.backslash) (s : Text) :
    quotedLength false (c :: s) = quotedLength false s + 1 := by
  rw [quotedLength, if_neg hq, decide_eq_false hb]

theorem quotedLength_escape (c : CodePoint) (s : Text) :
    quotedLength false (CodePoint.backslash :: c :: s) = quotedLength false s + 2 := rfl

theorem quotedLength_of_spells {body : Text} {ps : List Piece} (h : Spells body ps)
    (rest : Text) : quotedLength false (body ++ CodePoint.quote :: rest) = body.length + 1 := by
  induction h with
  | nil => rfl
  | plain hq hb _ _ ih => rw [List.cons_append, quotedLength_plain hq hb, ih, List.length_cons]
  | short _ _ ih => rw [List.cons_append, List.cons_append, quotedLength_escape, ih]; rfl
  | @numbered a b c d n t ps hn _ ih =>
    have hex : a.hexValue.isSome ∧ b.hexValue.isSome ∧ c.hexValue.isSome ∧ d.hexValue.isSome := by
      unfold hexQuad at hn
      split at hn
      · next ha hb hc hd => exact ⟨by simp [ha], by simp [hb], by simp [hc], by simp [hd]⟩
      · cases hn
    have hl (e : CodePoint) (he : e.hexValue.isSome) (s : Text) :
        quotedLength false (e :: s) = quotedLength false s + 1 :=
      quotedLength_plain (hexValue_isSome_ne he).1 (hexValue_isSome_ne he).2 s
    obtain ⟨ha, hb, hc, hd⟩ := hex
    simp only [List.cons_append, quotedLength_escape, hl a ha, hl b hb, hl c hc, hl d hd, ih,
      List.length_cons]

/-- What is left of a text after some of it: it has no token that was not there, and is nested no
deeper. -/
structure Leaves (s t : Text) : Prop where
  deepest (depth : Nat) : deepest depth (tokens t) ≤ deepest depth (tokens s)
  subset : tokens t ⊆ tokens s

theorem Leaves.of_eq (h : tokens t = tokens s) : Leaves s t :=
  ⟨fun _ => by rw [h], by rw [h]; exact List.Subset.refl _⟩

theorem Leaves.trans (h : Leaves s t) (h' : Leaves t u) : Leaves s u :=
  ⟨fun depth => Nat.le_trans (h'.deepest depth) (h.deepest depth),
    List.Subset.trans h'.subset h.subset⟩

theorem tokens_string {name : Text} {opening : Nat}
    (h : readString opening s = .ok (name, rest)) :
    tokens (CodePoint.quote :: s) = tokens rest := by
  obtain ⟨ps, hr, -⟩ := eq_ok_of_map h
  obtain ⟨body, hs, rfl⟩ := exists_spells hr
  rw [tokens_quote, quotedLength_of_spells hs, ← List.drop_drop, List.drop_left]
  rfl

theorem Whole.eq_cons (h : Whole t) : ∃ c u, t = c :: u ∧ c.IsDigit := by
  cases h with
  | zero h => exact ⟨_, [], rfl, h.ge, by omega⟩
  | run _ h => exact ⟨_, _, rfl, h _ (.head _)⟩

theorem readWhole_isSome (hc : c.IsDigit) (s : Text) : ∃ r, readWhole (c :: s) = some r := by
  rw [readWhole, if_pos hc]
  split <;> exact ⟨_, rfl⟩

theorem exists_numeral (hc : c.IsDigit) (s : Text) : ∃ t, s = t ++ (numeral (c :: s)).2 := by
  obtain ⟨⟨whole, u⟩, hr⟩ := readWhole_isSome hc s
  obtain ⟨hw, hs⟩ := whole_of_readWhole hr
  obtain ⟨d, w, rfl, -⟩ := hw.eq_cons
  obtain ⟨rfl, rfl⟩ := List.cons.inj hs
  rw [numeral, hr]
  dsimp only
  cases hf : readFraction u with
  | none =>
    rw [Option.elim_none]
    cases he : readExponent u with
    | none => exact ⟨w, rfl⟩
    | some r =>
      obtain ⟨exponent, -, -, rfl⟩ := power_of_readExponent he
      exact ⟨w ++ exponent, by simp⟩
  | some r =>
    obtain ⟨point, -, -, rfl⟩ := decimals_of_readFraction hf
    rw [Option.elim_some]
    cases he : readExponent r.2 with
    | none => exact ⟨w ++ point, by simp⟩
    | some r' =>
      obtain ⟨exponent, -, -, hu⟩ := power_of_readExponent he
      exact ⟨w ++ (point ++ exponent), by simp [hu]⟩

theorem tokens_digit (hc : c.IsDigit) (s : Text) :
    tokens (c :: s) =
      ((numeral (c :: s)).1.map Token.integer).toList ++ tokens (numeral (c :: s)).2 := by
  obtain ⟨t, ht⟩ := exists_numeral hc s
  have hq : c ≠ CodePoint.quote := by
    rintro rfl
    exact absurd hc (by decide)
  have hd : s.drop (s.length - (numeral (c :: s)).2.length) = (numeral (c :: s)).2 := by
    generalize (numeral (c :: s)).2 = u at ht ⊢
    subst ht
    rw [List.length_append, Nat.add_sub_cancel, List.drop_left]
  rw [tokens, tokensFrom, if_neg hq, if_pos hc, tokensFrom_eq_drop, hd]

/-- What a reading takes it leaves behind, with `back` at last; and it stops at a limit only if the
text goes beyond this one. -/
def Reading.IsBounded {α : Type} (depth : Nat) (back s : Text) : Reading α → Prop
  | .ok (_, rest) => Leaves s (back ++ rest)
  | .error (.flaw ..) => True
  | .error (.tooManyDigits count) => Text.maxDigits < count ∧ Token.integer count ∈ tokens s
  | .error (.tooDeep _) => ∀ d, d + depth < deepest d (tokens s)

namespace Reading.IsBounded

variable {α β : Type} {depth : Nat} {back : Text} {r : Reading α}

theorem of_leaves (hl : Leaves s t) (h : r.IsBounded depth back t) : r.IsBounded depth back s := by
  obtain (f | n | k) | ⟨a, rest⟩ := r
  · trivial
  · exact ⟨h.1, hl.subset h.2⟩
  · exact fun d => Nat.lt_of_lt_of_le (h d) (hl.deepest d)
  · exact hl.trans h

theorem map (h : r.IsBounded depth back s) (f : α → β) :
    Reading.IsBounded depth back s (Except.map (fun r => (f r.1, r.2)) r) := by
  obtain (f | n | k) | ⟨a, rest⟩ := r <;> exact h

theorem andThen {next : α → Text → Reading β} (h : r.IsBounded depth [] s)
    (hn : ∀ a t, (next a t).IsBounded depth back t) :
    (r.andThen next).IsBounded depth back s := by
  obtain (f | n | k) | ⟨a, rest⟩ := r
  · trivial
  · exact h
  · exact h
  · exact (hn a rest).of_leaves h

theorem enclosed {o e : CodePoint} (ho : o = CodePoint.openBracket ∨ o = openBrace)
    (he : e = CodePoint.closeBracket ∨ e = closeBrace) (h : r.IsBounded depth [e] s) :
    r.IsBounded (depth + 1) [] (o :: s) := by
  obtain (f | n | k) | ⟨a, rest⟩ := r
  · trivial
  · refine ⟨h.1, ?_⟩
    rw [tokens_opening ho]
    exact .tail _ h.2
  · intro d
    rw [tokens_opening ho, deepest]
    have hd := h (d + 1)
    omega
  · have ht : tokens ([e] ++ rest) = .closing :: tokens rest := tokens_closing he rest
    refine ⟨fun d => ?_, fun x hx => ?_⟩
    · have hd := h.deepest (d + 1)
      rw [ht, deepest, Nat.add_sub_cancel] at hd
      rw [tokens_opening ho, deepest]
      exact Nat.le_trans (Nat.le_max_right _ _) hd
    · rw [tokens_opening ho]
      exact .tail _ (h.subset (ht ▸ .tail _ hx))

end Reading.IsBounded

section Readers

variable {depth : Nat} {value : Text → Reading Json}

theorem readPieces_error {opening : Nat} {e : Stop} (h : readPieces opening s = .error e) :
    ∃ f left, e = .flaw f left := by
  have step {p : Piece} {r : Reading (List Piece)} (ih : r = .error e → ∃ f left, e = .flaw f left)
      (h : precededBy p r = .error e) : ∃ f left, e = .flaw f left := by
    obtain f | r := r
    · exact ih h
    · cases h
  fun_induction readPieces opening s with
  | case2 => cases h
  | case4 c s hq hc hb ih => exact step ih h
  | case7 b hq hc hb e s he c hu ih => exact step ih h
  | case10 b hq hc hb e he d₁ d₂ d₃ d₄ s n hn hne ih => exact step ih h
  | _ =>
    cases h
    exact ⟨_, _, rfl⟩

theorem readString_isBounded (opening : Nat) (s : Text) :
    (readString opening s).IsBounded depth [] (CodePoint.quote :: s) := by
  cases h : readString opening s with
  | ok r => exact .of_eq (tokens_string h).symm
  | error e =>
    have hp : readPieces opening s = .error e := by
      unfold readString at h
      generalize readPieces opening s = r at h
      obtain f | r := r
      · cases h
        rfl
      · cases h
    obtain ⟨f, left, rfl⟩ := readPieces_error hp
    trivial

theorem tokens_minus {sign : Text} {negative : Bool} (h : Minus sign negative) (t : Text) :
    tokens (sign ++ t) = tokens t := by
  refine tokens_append (fun c hc => ?_) t
  cases h with
  | none => cases hc
  | minus hv =>
    obtain rfl := List.mem_singleton.1 hc
    obtain rfl : c = 45 := Fin.ext hv
    decide

theorem readNumber_cases (s : Text) :
    (∃ left, readNumber s = .error (.flaw .valueMissing left)) ∨
      (∃ x rest, readNumber s = .ok (.real x, rest) ∧ tokens s = tokens rest) ∨
      ∃ negative whole rest, Whole whole ∧ tokens s = .integer whole.length :: tokens rest ∧
        readNumber s = if Text.maxDigits < whole.length then .error (.tooManyDigits whole.length)
          else .ok (.int (Binary64.withSign negative (Text.ofDigits whole)), rest) := by
  unfold readNumber
  cases hm : readMinus s with
  | mk negative t =>
    obtain ⟨sign, hsign, rfl⟩ := exists_minus hm
    rw [tokens_minus hsign]
    dsimp only
    cases hw : readWhole t with
    | none => exact .inl ⟨_, rfl⟩
    | some r =>
      obtain ⟨whole, u⟩ := r
      obtain ⟨hwhole, rfl⟩ := whole_of_readWhole hw
      have htokens : tokens (whole ++ u) = ((numeral (whole ++ u)).1.map Token.integer).toList ++
          tokens (numeral (whole ++ u)).2 := by
        obtain ⟨c, w, rfl, hc⟩ := hwhole.eq_cons
        exact tokens_digit hc (w ++ u)
      rw [numeral, hw] at htokens
      dsimp only at htokens ⊢
      cases hf : readFraction u with
      | some r =>
        rw [hf] at htokens
        cases he : readExponent r.2 <;>
          · simp only [Option.elim_some, he] at htokens ⊢
            exact .inr (.inl ⟨_, _, rfl, htokens⟩)
      | none =>
        rw [hf] at htokens
        cases he : readExponent u with
        | some r =>
          simp only [Option.elim_none, he] at htokens ⊢
          exact .inr (.inl ⟨_, _, rfl, htokens⟩)
        | none =>
          simp only [Option.elim_none, he] at htokens ⊢
          exact .inr (.inr ⟨negative, whole, u, hwhole, htokens, rfl⟩)

theorem readNumber_isBounded (s : Text) : (readNumber s).IsBounded depth [] s := by
  rcases readNumber_cases s with ⟨left, hr⟩ | ⟨x, rest, hr, ht⟩ | ⟨negative, whole, rest, -, ht, hr⟩
  · rw [hr]
    trivial
  · rw [hr]
    exact .of_eq ht.symm
  · rw [hr]
    split
    · next hlong => exact ⟨hlong, ht ▸ .head _⟩
    · exact ⟨fun d => by rw [ht]; exact Nat.le_refl _, fun x hx => ht ▸ .tail _ hx⟩

theorem isIdle_of_mem_literals {l : Text × Json} (h : l ∈ literals) : ∀ c ∈ l.1, IsIdle c := by
  have hall : (literals.all fun l => l.1.all fun c => decide (IsIdle c)) = true := by decide
  intro c hc
  exact of_decide_eq_true (List.all_eq_true.1 (List.all_eq_true.1 hall l h) c hc)

theorem readScalar_isBounded (s : Text) : (readScalar s).IsBounded depth [] s := by
  unfold readScalar
  split
  · next word v hl =>
    have hp := List.find?_some (p := fun l : Text × Json => l.1.isPrefixOf s) hl
    obtain ⟨r, rfl⟩ := List.isPrefixOf_iff_prefix.1 hp
    have hidle := isIdle_of_mem_literals (List.mem_of_find?_eq_some hl)
    refine .of_eq ?_
    rw [tokens_append hidle, List.drop_left]
    rfl
  · exact readNumber_isBounded s

def IsBounded (depth : Nat) (value : Text → Reading Json) : Prop :=
  ∀ s, (value s).IsBounded depth [] s

theorem readOthers_isBounded {α : Type} {close : CodePoint} {next : Text → Reading (List α)}
    (a : α) (hn : ∀ t, (next t).IsBounded depth [close] t) (s : Text) :
    (readOthers close a next s).IsBounded depth [close] s := by
  have hs := tokens_skipSpace s
  unfold readOthers
  generalize skipSpace s = t at hs ⊢
  cases t with
  | nil => trivial
  | cons c t =>
    dsimp only
    split
    · next hc =>
      subst hc
      exact .of_eq hs
    · split
      · next hc =>
        subst hc
        have ht : tokens (skipSpace t) = tokens s := by
          rw [tokens_skipSpace, ← hs, tokens_idle (by decide)]
        exact ((hn (skipSpace t)).of_leaves (.of_eq ht)).map _
      · trivial

theorem readEnclosed_isBounded {α : Type} {close : CodePoint} {missing : Flaw}
    {make : List α → Json} {items : Nat → Text → Reading (List α)}
    (hi : ∀ fuel s, (items fuel s).IsBounded depth [close] s) (s : Text) :
    (readEnclosed close missing make items s).IsBounded depth [close] s := by
  have hs := tokens_skipSpace s
  unfold readEnclosed
  generalize skipSpace s = t at hs ⊢
  cases t with
  | nil => trivial
  | cons c t =>
    dsimp only
    split
    · next hc =>
      subst hc
      exact .of_eq hs
    · exact ((hi (t.length + 1) (c :: t)).of_leaves (.of_eq hs)).map make

theorem readItems_isBounded (hv : IsBounded depth value) (fuel : Nat) (s : Text) :
    (readItems value fuel s).IsBounded depth [CodePoint.closeBracket] s := by
  induction fuel generalizing s with
  | zero => trivial
  | succ fuel ih =>
    rw [readItems_succ]
    exact (hv s).andThen fun v => readOthers_isBounded v ih

theorem readArray_isBounded (hv : IsBounded depth value) (s : Text) :
    (readArray value s).IsBounded (depth + 1) [] (CodePoint.openBracket :: s) := by
  rw [readArray_eq]
  exact (readEnclosed_isBounded (readItems_isBounded hv) s).enclosed (.inl rfl) (.inl rfl)

theorem readName_isBounded (s : Text) : (readName s).IsBounded depth [] s := by
  cases s with
  | nil => trivial
  | cons c s =>
    rw [readName]
    split
    · trivial
    · next hc =>
      obtain rfl := not_not.1 hc
      refine (readString_isBounded _ s).andThen fun name t => ?_
      have ht := tokens_skipSpace t
      generalize skipSpace t = u at ht ⊢
      cases u with
      | nil => trivial
      | cons c u =>
        dsimp only
        split
        · next hc =>
          subst hc
          refine .of_eq ?_
          rw [List.nil_append, ← ht, tokens_idle (by decide)]
        · trivial

theorem readMembers_isBounded (hv : IsBounded depth value) (fuel : Nat) (s : Text) :
    (readMembers value fuel s).IsBounded depth [closeBrace] s := by
  induction fuel generalizing s with
  | zero => trivial
  | succ fuel ih =>
    rw [readMembers_succ]
    refine (readName_isBounded s).andThen fun name t => ?_
    refine Reading.IsBounded.of_leaves (.of_eq (tokens_skipSpace t)) ?_
    exact (hv (skipSpace t)).andThen fun v => readOthers_isBounded (name, v) ih

theorem readObject_isBounded (hv : IsBounded depth value) (s : Text) :
    (readObject value s).IsBounded (depth + 1) [] (openBrace :: s) := by
  rw [readObject_eq]
  exact (readEnclosed_isBounded (readMembers_isBounded hv) s).enclosed (.inr rfl) (.inr rfl)

theorem readStart_isBounded {array object : Text → Reading Json}
    (ha : ∀ s, (array s).IsBounded depth [] (CodePoint.openBracket :: s))
    (ho : ∀ s, (object s).IsBounded depth [] (openBrace :: s)) :
    IsBounded depth (readStart array object) := by
  intro s
  cases s with
  | nil => trivial
  | cons c s =>
    rw [readStart]
    split
    · next hc =>
      subst hc
      exact (readString_isBounded _ s).map Json.str
    · split
      · next hc =>
        subst hc
        exact ha s
      · split
        · next hc =>
          subst hc
          exact ho s
        · exact readScalar_isBounded _

theorem readValue_isBounded (depth : Nat) : IsBounded depth (readValue depth) := by
  induction depth with
  | zero =>
    exact readStart_isBounded (fun s d => le_deepest (d + 1) (tokens s))
      fun s d => le_deepest (d + 1) (tokens s)
  | succ depth ih =>
    exact readStart_isBounded (readArray_isBounded ih) (readObject_isBounded ih)

def ReadError.IsOverrun [Json.Stack] (s : Text) : ReadError → Prop
  | .malformed _ => False
  | .tooManyDigits count => Text.maxDigits < count ∧ Token.integer count ∈ tokens s
  | .tooDeep _ => maxDepth < nesting s

theorem ReadError.IsOverrun.not_isWithinLimits [Json.Stack] {e : ReadError} (h : e.IsOverrun s) :
    ¬ IsWithinLimits s := by
  intro hs
  cases e with
  | malformed => exact h
  | tooManyDigits count => exact absurd (hs.digits h.2) (Nat.not_le.2 h.1)
  | tooDeep => exact absurd hs.depth (Nat.not_le.2 h)

theorem readWholeText_error [Json.Stack] {e : Stop} (h : readWholeText s = .error e) :
    (∃ f left, e = .flaw f left) ∨ (e.toReadError s).IsOverrun s := by
  have hv := readValue_isBounded maxDepth (skipSpace s)
  unfold readWholeText at h
  split at h
  · cases h
    exact .inl ⟨_, _, rfl⟩
  · generalize readValue maxDepth (skipSpace s) = r at h hv
    rw [Reading.IsBounded.eq_def, tokens_skipSpace] at hv
    obtain (⟨f, left⟩ | n | k) | ⟨v, rest⟩ := r
    · cases h
      exact .inl ⟨_, _, rfl⟩
    · cases h
      exact .inr hv
    · cases h
      have hdepth := hv 0
      rw [Nat.zero_add] at hdepth
      exact .inr hdepth
    · dsimp only at h
      split at h
      · cases h
      · cases h
        exact .inl ⟨_, _, rfl⟩

theorem IsWithinLimits.eq_flaw [Json.Stack] (hs : IsWithinLimits s) {e : Stop}
    (h : readWholeText s = .error e) :
    ∃ f left, e = .flaw f left := by
  rcases readWholeText_error h with he | he
  · exact he
  · exact absurd hs he.not_isWithinLimits

end Readers

end LineHandshake.Json
