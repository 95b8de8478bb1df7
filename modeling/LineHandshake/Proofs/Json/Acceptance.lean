import LineHandshake.Proofs.Json.Derivation
import LineHandshake.Proofs.Json.Limits
import LineHandshake.Proofs.Json.Values

/-!
What follows the grammar is read as what it stands for, unless reading stops at a limit. A value
is read the same whatever comes after it, if this is something that can come after a value.
-/

namespace LineHandshake.Json

variable {c : CodePoint} {t w rest rest' : Text}

def Stop.IsLimit : Stop → Prop
  | .flaw .. => False
  | .tooManyDigits _ | .tooDeep _ => True

def Reading.Gives {α : Type} (r : Reading α) (a : α) (rest : Text) : Prop :=
  r = .ok (a, rest) ∨ ∃ e, r = .error e ∧ e.IsLimit

namespace Reading.Gives

variable {α β : Type} {r : Reading α} {a : α}

theorem andThen {next : α → Text → Reading β} {b : β} (h : r.Gives a rest)
    (hn : (next a rest).Gives b rest') : (r.andThen next).Gives b rest' := by
  rcases h with rfl | ⟨e, rfl, he⟩
  · exact hn
  · exact .inr ⟨e, rfl, he⟩

theorem map {r : Reading α} (h : r.Gives a rest) (f : α → β) :
    Reading.Gives (Except.map (fun r => (f r.1, r.2)) r) (f a) rest := by
  rcases h with rfl | ⟨e, rfl, he⟩
  · exact .inl rfl
  · exact .inr ⟨e, rfl, he⟩

end Reading.Gives

theorem skipSpace_append (hw : AllSpace w) (t : Text) : skipSpace (w ++ t) = skipSpace t :=
  List.dropWhile_append_of_pos hw

/-- What can come after a value. -/
def Follows (rest : Text) : Prop :=
  ∀ c ∈ rest.head?, isSpace c = true ∨ c = comma ∨ c = CodePoint.closeBracket ∨ c = closeBrace

theorem follows_append (hw : AllSpace w) (h : Follows rest) : Follows (w ++ rest) := by
  cases w with
  | nil => exact h
  | cons d w =>
    intro c hc
    cases hc
    exact .inl (hw d (.head _))

theorem follows_cons (h : c = comma ∨ c = CodePoint.closeBracket ∨ c = closeBrace) (rest : Text) :
    Follows (c :: rest) := by
  intro d hd
  cases hd
  exact .inr h

structure Separates (rest : Text) : Prop where
  digit : ∀ c ∈ rest.head?, ¬ c.IsDigit
  point : ∀ c ∈ rest.head?, c.val ≠ 46

theorem Follows.val (h : Follows rest) (hc : c ∈ rest.head?) :
    c.val = 32 ∨ c.val = 9 ∨ c.val = 10 ∨ c.val = 13 ∨ c.val = 44 ∨ c.val = 93 ∨ c.val = 125 := by
  rcases h c hc with hs | rfl | rfl | rfl
  · simp only [isSpace, Bool.or_eq_true, beq_iff_eq] at hs
    omega
  · decide
  · decide
  · decide

theorem Follows.separates (h : Follows rest) : Separates rest := by
  constructor
  · intro c hc hd
    have hv := h.val hc
    obtain ⟨hl, hu⟩ := hd
    omega
  · intro c hc
    have hv := h.val hc
    omega

theorem spells_quote {body : Text} {ps : List Piece} (h : Spells body ps) (opening : Nat)
    (rest : Text) :
    readPieces opening (body ++ CodePoint.quote :: rest) = .ok (ps, rest) := by
  induction h with
  | nil =>
    unfold readPieces
    exact if_pos rfl
  | plain hq hb hc _ ih =>
    rw [List.cons_append, readPieces_plain hq hb hc, ih]
    rfl
  | @short e _ _ _ hc _ ih =>
    have he : e ≠ letterU := by
      rintro rfl
      cases hc
    rw [List.cons_append, List.cons_append, readPieces_short he hc, ih]
    rfl
  | @numbered a b c d n t ps hn _ ih =>
    have hb : ¬ CodePoint.backslash.val < 0x20 := by decide
    have hq : CodePoint.backslash ≠ CodePoint.quote := by decide
    have hne : t ++ CodePoint.quote :: rest ≠ [] := by simp
    simp only [List.cons_append]
    conv => lhs; unfold readPieces
    simp only [if_neg hq, if_neg hb, hn, if_neg hne, ih, ne_eq, not_true, if_false]
    rfl

theorem readString_of_writes {s : Text} (h : WritesString t s) :
    ∃ u, t = CodePoint.quote :: u ∧
      ∀ opening rest, readString opening (u ++ rest) = .ok (s, rest) := by
  obtain ⟨h⟩ := h
  refine ⟨_, rfl, fun opening rest => ?_⟩
  rw [List.append_assoc, readString]
  exact congrArg _ (spells_quote h opening rest)

section Numbers

variable {sign whole point ds exponent : Text} {negative : Bool} {power : Int}

theorem Whole.digits (h : Whole whole) : Digits whole := by
  cases h with
  | zero h =>
    refine ⟨List.cons_ne_nil _ _, fun c hc => ?_⟩
    obtain rfl := List.mem_singleton.1 hc
    exact ⟨h.ge, by omega⟩
  | run _ h => exact ⟨List.cons_ne_nil _ _, h⟩

theorem readWhole_append (h : Whole whole) (hr : ∀ c ∈ rest.head?, ¬ c.IsDigit) :
    readWhole (whole ++ rest) = some (whole, rest) := by
  cases h with
  | zero h => exact if_pos h
  | @run c t hc h =>
    have hrun := digitRun_append h hr
    rw [List.cons_append] at hrun ⊢
    rw [readWhole, if_neg hc, if_pos (h c (.head _)), hrun]

theorem readMinus_append (h : Minus sign negative) (hw : Whole whole) (rest : Text) :
    readMinus (sign ++ (whole ++ rest)) = (negative, whole ++ rest) := by
  cases h with
  | none =>
    obtain ⟨hne, hd⟩ := hw.digits
    obtain ⟨c, t, rfl⟩ := List.exists_cons_of_ne_nil hne
    have hc := (hd c (.head _)).1
    exact if_neg (by omega)
  | minus h => exact if_pos h

theorem readFraction_none (h : ∀ c ∈ rest.head?, c.val ≠ 46) : readFraction rest = none := by
  rcases rest with _ | ⟨p, _ | ⟨c, rest⟩⟩
  · rfl
  · rfl
  · exact if_neg fun hp => h p rfl hp.1

theorem readFraction_append (h : Decimals point ds) (hr : Separates rest) :
    (point = [] ∧ ds = [] ∧ readFraction (point ++ rest) = none) ∨
      (point ≠ [] ∧ readFraction (point ++ rest) = some (ds, rest)) := by
  cases h with
  | none => exact .inl ⟨rfl, rfl, readFraction_none hr.point⟩
  | some hp h =>
    obtain ⟨c, t, rfl⟩ := List.exists_cons_of_ne_nil h.1
    refine .inr ⟨List.cons_ne_nil _ _, ?_⟩
    rw [List.cons_append, List.cons_append, readFraction, if_pos ⟨hp, h.2 c (.head _)⟩]
    exact congrArg some (digitRun_append h.2 hr.digit)

theorem readSign_append (h : Sign sign negative) (hd : Digits ds) (rest : Text) :
    readSign (sign ++ (ds ++ rest)) = (negative, ds ++ rest) := by
  cases h with
  | none =>
    obtain ⟨c, t, rfl⟩ := List.exists_cons_of_ne_nil hd.1
    obtain ⟨hl, hu⟩ := hd.2 c (.head _)
    rw [List.nil_append, List.cons_append, readSign, if_neg (by omega), if_neg (by omega)]
  | plus h => rw [List.singleton_append, readSign, if_neg (by omega), if_pos h]
  | minus h => exact if_pos h

theorem readExponent_append (h : Power exponent power) (hr : Follows rest) :
    (exponent = [] ∧ power = 0 ∧ readExponent (exponent ++ rest) = none) ∨
      (exponent ≠ [] ∧ readExponent (exponent ++ rest) = some (power, rest)) := by
  cases h with
  | none =>
    refine .inl ⟨rfl, rfl, ?_⟩
    cases rest with
    | nil => rfl
    | cons c rest =>
      have hv := hr.val (c := c) rfl
      exact if_neg (by omega)
  | @some e sign ds negative he hs h =>
    obtain ⟨c, t, rfl⟩ := List.exists_cons_of_ne_nil h.1
    refine .inr ⟨List.cons_ne_nil _ _, ?_⟩
    rw [List.cons_append, List.append_assoc, readExponent, if_pos he, readSign_append hs h]
    dsimp only
    rw [digitRun_append h.2 hr.separates.digit]
    cases negative <;> rfl

theorem separates_of_power (h : Power exponent power) (hr : Follows rest) :
    Separates (exponent ++ rest) := by
  cases h with
  | none => exact hr.separates
  | some he _ _ =>
    constructor
    · intro c hc hd
      cases hc
      obtain ⟨hl, hu⟩ := hd
      omega
    · intro c hc
      cases hc
      omega

theorem not_isDigit_of_decimals (h : Decimals point ds) (hp : Power exponent power)
    (hr : Follows rest) (c : CodePoint) (hc : c ∈ (point ++ (exponent ++ rest)).head?) :
    ¬ c.IsDigit := by
  cases h with
  | none => exact (separates_of_power hp hr).digit c hc
  | some hp' _ =>
    rintro ⟨hl, hu⟩
    cases hc
    omega

theorem readNumber_append {v : Json} (h : WritesNumber t v) (hr : Follows rest) :
    Reading.Gives (readNumber (t ++ rest)) v rest := by
  cases h with
  | @int sign whole negative hs hw =>
    have hf := readFraction_none hr.separates.point
    have he : readExponent rest = none := by
      rcases readExponent_append .none hr with ⟨-, -, he⟩ | ⟨hne, -⟩
      · exact he
      · exact absurd rfl hne
    rw [List.append_assoc]
    simp only [readNumber, readMinus_append hs hw, readWhole_append hw hr.separates.digit, hf,
      Option.elim_none, he]
    split
    · exact .inr ⟨_, rfl, trivial⟩
    · exact .inl rfl
  | @real sign whole point ds exponent negative power hs hw hd hp hne =>
    have hsep := separates_of_power hp hr
    have hdigit := not_isDigit_of_decimals hd hp hr
    simp only [List.append_assoc, readNumber, readMinus_append hs hw,
      readWhole_append hw hdigit]
    rcases readFraction_append hd hsep with ⟨rfl, rfl, hf⟩ | ⟨-, hf⟩
    · rcases readExponent_append hp hr with ⟨rfl, -, -⟩ | ⟨-, he⟩
      · exact absurd rfl hne
      · rw [List.nil_append] at hf
        simp only [List.nil_append, hf, he, Option.elim_none, Option.elim_some]
        exact .inl rfl
    · rcases readExponent_append hp hr with ⟨rfl, rfl, he⟩ | ⟨-, he⟩
      · rw [List.nil_append] at he hf
        simp only [List.nil_append, hf, he, Option.elim_none, Option.elim_some]
        exact .inl rfl
      · simp only [hf, he, Option.elim_some]
        exact .inl rfl

theorem exists_digit_of_writesNumber {v : Json} (h : WritesNumber t v) :
    ∃ c u, c.IsDigit ∧ (t = c :: u ∨ ∃ d : CodePoint, d.val = 45 ∧ t = d :: c :: u) := by
  have start {sign whole : Text} {negative : Bool} (hs : Minus sign negative) (hw : Whole whole)
      (u : Text) : ∃ c r, c.IsDigit ∧ (sign ++ (whole ++ u) = c :: r ∨
        ∃ d : CodePoint, d.val = 45 ∧ sign ++ (whole ++ u) = d :: c :: r) := by
    obtain ⟨hne, hd⟩ := hw.digits
    obtain ⟨c, r, rfl⟩ := List.exists_cons_of_ne_nil hne
    cases hs with
    | none => exact ⟨c, r ++ u, hd c (.head _), .inl rfl⟩
    | minus hm => exact ⟨c, r ++ u, hd c (.head _), .inr ⟨_, hm, rfl⟩⟩
  cases h with
  | int hs hw =>
    have hst := start hs hw []
    rwa [List.append_nil] at hst
  | real hs hw _ _ _ => exact start hs hw _

theorem find?_literals_of_writesNumber {v : Json} (h : WritesNumber t v) (rest : Text) :
    literals.find? (fun l => l.1.isPrefixOf (t ++ rest)) = none := by
  obtain ⟨c, u, hc, rfl | ⟨d, -, rfl⟩⟩ := exists_digit_of_writesNumber h
  · exact find?_literals_eq_none hc [] (by simp) (u ++ rest)
  · exact find?_literals_eq_none hc [d] (by simp) (u ++ rest)

theorem writesNumber_eq_cons {v : Json} (h : WritesNumber t v) :
    ∃ c u, t = c :: u ∧ (c.val = 45 ∨ c.IsDigit) := by
  obtain ⟨c, u, hc, rfl | ⟨d, hd, rfl⟩⟩ := exists_digit_of_writesNumber h
  · exact ⟨c, u, rfl, .inr hc⟩
  · exact ⟨d, c :: u, rfl, .inl hd⟩

end Numbers

section Values

variable {array object value : Text → Reading Json} {v : Json} {vs : List Json} {ms : Members}
  {p : Phrase}

theorem readStart_literal (h : (w, v) ∈ literals) (rest : Text) :
    readStart array object (w ++ rest) = .ok (v, rest) := by
  simp only [literals, List.mem_cons, Prod.mk.injEq, List.not_mem_nil, or_false] at h
  rcases h with ⟨rfl, rfl⟩ | ⟨rfl, rfl⟩ | ⟨rfl, rfl⟩ | ⟨rfl, rfl⟩ | ⟨rfl, rfl⟩ | ⟨rfl, rfl⟩ <;> rfl

theorem readStart_number (h : WritesNumber t v) (hr : Follows rest) :
    Reading.Gives (readStart array object (t ++ rest)) v rest := by
  have hn := readNumber_append h hr
  have hl := find?_literals_of_writesNumber h rest
  obtain ⟨c, u, rfl, hc⟩ := writesNumber_eq_cons h
  have hne : ∀ d : CodePoint, d.val ≠ 45 → ¬ d.IsDigit → c ≠ d := by
    rintro d hm hd rfl
    exact hc.elim hm hd
  rw [List.cons_append] at hn hl ⊢
  rw [readStart, if_neg (hne _ (by decide) (by decide)), if_neg (hne _ (by decide) (by decide)),
    if_neg (hne _ (by decide) (by decide)), readScalar, hl]
  exact hn

def Starts (t : Text) : Prop :=
  ∃ c r, t = c :: r ∧ isSpace c = false ∧ c ≠ CodePoint.closeBracket ∧ c ≠ closeBrace ∧ c ≠ 0xFEFF

theorem Starts.append (h : Starts t) (u : Text) : Starts (t ++ u) := by
  obtain ⟨c, r, rfl, hc⟩ := h
  exact ⟨c, r ++ u, rfl, hc⟩

theorem Starts.skipSpace (h : Starts t) : skipSpace t = t := by
  obtain ⟨c, r, rfl, hc, -⟩ := h
  exact skipSpace_cons hc r

theorem Starts.ne_close (h : Starts t) {s : Text} :
    (∀ u, t ++ s ≠ CodePoint.closeBracket :: u) ∧ ∀ u, t ++ s ≠ closeBrace :: u := by
  obtain ⟨c, r, rfl, -, hb, hc, -⟩ := h
  exact ⟨fun u he => hb (List.cons.inj he).1, fun u he => hc (List.cons.inj he).1⟩

theorem starts_of_writesString {s : Text} (h : WritesString t s) : Starts t := by
  obtain ⟨h⟩ := h
  exact ⟨_, _, rfl, by decide, by decide, by decide, by decide⟩

theorem starts_of_writesNumber (h : WritesNumber t v) : Starts t := by
  obtain ⟨c, u, rfl, hc⟩ := writesNumber_eq_cons h
  have hne : ∀ d : CodePoint, d.val ≠ 45 → ¬ d.IsDigit → c ≠ d := by
    rintro d hm hd rfl
    exact hc.elim hm hd
  refine ⟨c, u, rfl, ?_, hne _ (by decide) (by decide), hne _ (by decide) (by decide),
    hne _ (by decide) (by decide)⟩
  simp only [isSpace, Bool.or_eq_false_iff, beq_eq_false_iff_ne]
  rcases hc with hc | ⟨hl, hu⟩ <;> omega

theorem starts_of_mem_literals (h : (w, v) ∈ literals) : Starts w := by
  simp only [literals, List.mem_cons, Prod.mk.injEq, List.not_mem_nil, or_false] at h
  rcases h with ⟨rfl, -⟩ | ⟨rfl, -⟩ | ⟨rfl, -⟩ | ⟨rfl, -⟩ | ⟨rfl, -⟩ | ⟨rfl, -⟩ <;>
    exact ⟨_, _, rfl, by decide, by decide, by decide, by decide⟩

theorem Writes.starts (h : Writes t p) : Starts t := by
  have bracket (c : CodePoint) (hc : isSpace c = false ∧ c ≠ CodePoint.closeBracket ∧
      c ≠ closeBrace ∧ c ≠ 0xFEFF) (u : Text) : Starts (c :: u) := ⟨c, u, rfl, hc⟩
  induction h with
  | literal h => exact starts_of_mem_literals h
  | number h => exact starts_of_writesNumber h
  | string h => exact starts_of_writesString h
  | emptyArray _ => exact bracket _ (by decide) _
  | array _ _ _ => exact bracket _ (by decide) _
  | lastItem _ _ ih => exact ih.append _
  | item _ _ _ _ ih _ => exact ih.append _
  | emptyObject _ => exact bracket _ (by decide) _
  | object _ _ _ => exact bracket _ (by decide) _
  | lastMember hn _ _ _ _ _ => exact (starts_of_writesString hn).append _
  | member hn _ _ _ _ _ _ _ _ => exact (starts_of_writesString hn).append _
  | resolved _ ih => exact ih

theorem exists_fuel_of_starts {u : Text} {fuel : Nat} (h : Starts t)
    (hf : (t ++ u).length ≤ fuel) : ∃ n, fuel = n + 1 := by
  obtain ⟨c, r, rfl, -⟩ := h
  cases fuel with
  | zero => simp at hf
  | succ n => exact ⟨n, rfl⟩

theorem skipSpace_append_cons (hw : AllSpace w) (hc : isSpace c = false) (rest : Text) :
    skipSpace (w ++ c :: rest) = c :: rest := by
  rw [skipSpace_append hw, skipSpace_cons hc]

section Containers

variable {α : Type} {close : CodePoint} {missing : Flaw} {a : α} {as : List α}
  {make : List α → Json} {items : Nat → Text → Reading (List α)} {next : Text → Reading (List α)}

theorem readOthers_last (hw : AllSpace w) (hc : isSpace close = false) (rest : Text) :
    readOthers close a next (w ++ close :: rest) = .ok ([a], rest) := by
  rw [readOthers, skipSpace_append_cons hw hc]
  exact if_pos rfl

theorem readOthers_more (hne : comma ≠ close) (hw : AllSpace w) {s : Text}
    (h : (next (skipSpace s)).Gives as rest) :
    Reading.Gives (readOthers close a next (w ++ comma :: s)) (a :: as) rest := by
  rw [readOthers, skipSpace_append_cons hw (by decide)]
  dsimp only
  rw [if_neg hne, if_pos rfl]
  exact h.map (a :: ·)

theorem readEnclosed_empty (hw : AllSpace w) (hc : isSpace close = false) (rest : Text) :
    readEnclosed close missing make items (w ++ close :: rest) = .ok (make [], rest) := by
  rw [readEnclosed, skipSpace_append_cons hw hc]
  exact if_pos rfl

theorem readEnclosed_some (hw : AllSpace w) (ht : Starts t) (hne : ∀ u, t ≠ close :: u)
    (h : ∀ fuel, t.length ≤ fuel → (items fuel t).Gives as rest) :
    Reading.Gives (readEnclosed close missing make items (w ++ t)) (make as) rest := by
  obtain ⟨c, r, rfl, hc, -⟩ := ht
  rw [readEnclosed, skipSpace_append_cons hw hc]
  dsimp only
  rw [if_neg fun he => hne r (by rw [he])]
  exact (h (r.length + 1) (Nat.le_refl _)).map make

end Containers

theorem readName_of_writes {n name s : Text} (h : WritesString n name)
    (hs : skipSpace s = CodePoint.colon :: rest) : readName (n ++ s) = .ok (name, rest) := by
  obtain ⟨u, rfl, hu⟩ := readString_of_writes h
  rw [List.cons_append, readName, if_neg (not_not.2 rfl), hu, Reading.andThen, hs]
  exact if_pos rfl

/-- The text of a phrase is read as what it stands for. -/
def IsAccepted (t : Text) : Phrase → Prop
  | .value v => ∀ depth rest, Follows rest → Reading.Gives (readValue depth (t ++ rest)) v rest
  | .items vs => ∀ depth fuel rest, t.length ≤ fuel →
      Reading.Gives (readItems (readValue depth) fuel (t ++ CodePoint.closeBracket :: rest)) vs rest
  | .members ms => ∀ depth fuel rest, t.length ≤ fuel →
      Reading.Gives (readMembers (readValue depth) fuel (t ++ closeBrace :: rest)) ms rest
  | .object ms => ∀ depth rest,
      Reading.Gives (readValue depth (t ++ rest)) (.obj (Members.ofList ms)) rest

theorem readValue_of_readArray {s : Text}
    (h : ∀ depth, Reading.Gives (readArray (readValue depth) s) v rest) (depth : Nat) :
    Reading.Gives (readValue depth (CodePoint.openBracket :: s)) v rest := by
  cases depth with
  | zero => exact .inr ⟨.tooDeep .array, rfl, trivial⟩
  | succ depth =>
    rw [readValue_openBracket]
    exact h depth

theorem readValue_of_readObject {s : Text}
    (h : ∀ depth, Reading.Gives (readObject (readValue depth) s) v rest) (depth : Nat) :
    Reading.Gives (readValue depth (openBrace :: s)) v rest := by
  cases depth with
  | zero => exact .inr ⟨.tooDeep .object, rfl, trivial⟩
  | succ depth =>
    rw [readValue, readStart, if_neg (by decide), if_neg (by decide), if_pos rfl]
    exact h depth

theorem Writes.isAccepted (h : Writes t p) : IsAccepted t p := by
  induction h with
  | literal h =>
    intro depth rest _
    obtain ⟨array, object, hr⟩ := readValue_eq_readStart depth
    rw [hr]
    exact .inl (readStart_literal h rest)
  | number h =>
    intro depth rest hrest
    obtain ⟨array, object, hr⟩ := readValue_eq_readStart depth
    rw [hr]
    exact readStart_number h hrest
  | string h =>
    intro depth rest _
    obtain ⟨array, object, hr⟩ := readValue_eq_readStart depth
    obtain ⟨u, rfl, hu⟩ := readString_of_writes h
    rw [hr, List.cons_append, readStart, if_pos rfl, hu]
    exact .inl rfl
  | emptyArray hw =>
    intro depth rest _
    rw [List.cons_append, List.append_assoc, List.singleton_append]
    refine readValue_of_readArray (fun depth => .inl ?_) depth
    rw [readArray_eq]
    exact readEnclosed_empty hw (by decide) rest
  | @array w t vs hw h ih =>
    intro depth rest _
    simp only [List.cons_append, List.append_assoc, List.nil_append]
    refine readValue_of_readArray (fun depth => ?_) depth
    obtain ⟨hne, -⟩ := h.starts.ne_close
    rw [readArray_eq]
    refine readEnclosed_some hw (h.starts.append _) hne fun fuel hf => ?_
    exact ih depth fuel rest (by simp at hf; omega)
  | @lastItem t w v h hw ih =>
    intro depth fuel rest hf
    obtain ⟨fuel, rfl⟩ := exists_fuel_of_starts h.starts hf
    rw [List.append_assoc, readItems_succ]
    have hr := ih depth _ (follows_append hw (follows_cons (.inr (.inl rfl)) rest))
    exact hr.andThen (.inl (readOthers_last hw (by decide) rest))
  | @item t w w' t' v vs h hw hw' h' ih ih' =>
    intro depth fuel rest hf
    obtain ⟨fuel, rfl⟩ := exists_fuel_of_starts h.starts hf
    have hr := ih' depth fuel rest (by simp at hf; omega)
    rw [← (h'.starts.append _).skipSpace, ← skipSpace_append hw'] at hr
    simp only [List.append_assoc, List.cons_append, readItems_succ]
    exact (ih depth _ (follows_append hw (follows_cons (.inl rfl) _))).andThen
      (readOthers_more (by decide) hw hr)
  | emptyObject hw =>
    intro depth rest
    rw [List.cons_append, List.append_assoc, List.singleton_append]
    refine readValue_of_readObject (fun depth => .inl ?_) depth
    rw [readObject_eq]
    exact readEnclosed_empty hw (by decide) rest
  | @object w t ms hw h ih =>
    intro depth rest
    simp only [List.cons_append, List.append_assoc, List.nil_append]
    refine readValue_of_readObject (fun depth => ?_) depth
    obtain ⟨-, hne⟩ := h.starts.ne_close
    rw [readObject_eq]
    refine readEnclosed_some hw (h.starts.append _) hne fun fuel hf => ?_
    exact ih depth fuel rest (by simp at hf; omega)
  | @lastMember n w w₁ t w₂ name v hn hw hw₁ h hw₂ ih =>
    intro depth fuel rest hf
    obtain ⟨fuel, rfl⟩ := exists_fuel_of_starts (starts_of_writesString hn) hf
    have hr := ih depth _ (follows_append hw₂ (follows_cons (.inr (.inr rfl)) rest))
    rw [← (h.starts.append _).skipSpace, ← skipSpace_append hw₁] at hr
    simp only [List.append_assoc, List.cons_append, readMembers_succ,
      readName_of_writes hn (skipSpace_append_cons hw (by decide) _)]
    exact hr.andThen (.inl (readOthers_last hw₂ (by decide) rest))
  | @member n w w₁ t w₂ w₃ t' name v ms hn hw hw₁ h hw₂ hw₃ h' ih ih' =>
    intro depth fuel rest hf
    obtain ⟨fuel, rfl⟩ := exists_fuel_of_starts (starts_of_writesString hn) hf
    have hr := ih depth _ (follows_append hw₂ (follows_cons (.inl rfl)
      (w₃ ++ (t' ++ closeBrace :: rest))))
    have hr' := ih' depth fuel rest (by simp at hf; omega)
    rw [← (h.starts.append _).skipSpace, ← skipSpace_append hw₁] at hr
    rw [← (h'.starts.append _).skipSpace, ← skipSpace_append hw₃] at hr'
    simp only [List.append_assoc, List.cons_append, readMembers_succ,
      readName_of_writes hn (skipSpace_append_cons hw (by decide) _)]
    exact hr.andThen (readOthers_more (by decide) hw₂ hr')
  | resolved _ ih => exact fun depth rest _ => ih depth rest

end Values

theorem head?_ne_of_isDocument {p : Phrase} (h : IsDocument t p) : t.head? ≠ some 0xFEFF := by
  obtain ⟨w, u, w', hw, -, hu, rfl⟩ := h
  intro hc
  cases w with
  | nil =>
    obtain ⟨c, r, rfl, -, -, -, hne⟩ := hu.starts
    exact hne (Option.some.inj hc)
  | cons d w =>
    have hd := hw d (.head _)
    rw [Option.some.inj hc] at hd
    exact absurd hd (by decide)

theorem readWholeText_of_isDocument [Json.Stack] {v : Json} (h : IsDocument t (.value v)) :
    readWholeText t = .ok v ∨ ∃ e, readWholeText t = .error e ∧ e.IsLimit := by
  have hb := head?_ne_of_isDocument h
  obtain ⟨w, u, w', hw, hw', hu, rfl⟩ := h
  have hf : Follows w' := by
    have hf : Follows (w' ++ []) := follows_append hw' nofun
    rwa [List.append_nil] at hf
  have hend : skipSpace w' = [] := List.dropWhile_eq_nil_iff.2 hw'
  rw [readWholeText, if_neg hb, skipSpace_append hw, (hu.starts.append w').skipSpace]
  rcases hu.isAccepted maxDepth w' hf with hr | ⟨e, hr, he⟩
  · rw [hr]
    dsimp only
    rw [hend]
    exact .inl rfl
  · rw [hr]
    exact .inr ⟨e, rfl, he⟩

end LineHandshake.Json
