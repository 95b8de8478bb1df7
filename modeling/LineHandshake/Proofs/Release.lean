import LineHandshake.Proofs.Exchange

/-!
Releasing resources of which some fail to close. A failure that is forgivable is passed over with a
warning, and the next resource is closed. The first failure that is not ends the release, and so
does the first one that the warning cannot show: what stands behind it is never closed.
-/

namespace LineHandshake

/-- Whether a failure to close is passed over: it is forgivable, and the warning can show it. -/
def Fault.isPassedOver (f : Fault) : Bool := f.isForgivable && f.shown.isOk

/-- What leaves a release on a failure to close: the failure itself, or what showing it fails
with. -/
def Fault.Escapes (f e : Fault) : Prop :=
  (f.isForgivable = false ∧ e = f) ∨ (f.isForgivable = true ∧ f.shown = .error e)

theorem Fault.exists_escapes {f : Fault} (h : f.isPassedOver = false) : ∃ e, f.Escapes e := by
  cases hf : f.isForgivable with
  | false => exact ⟨f, .inl ⟨hf, rfl⟩⟩
  | true =>
    rw [isPassedOver, hf, Bool.true_and] at h
    cases hs : f.shown with
    | ok t => rw [hs] at h; cases h
    | error e => exact ⟨e, .inr ⟨hf, hs⟩⟩

namespace Resource

section Close

variable {σ : Type} {r : Resource σ} {rs : List (Resource σ)} {s s' : σ} {f e : Fault}

def warning (tag name : Text) (f : Fault) : Record :=
  ⟨.warning, text "server.shutdown",
    tag ++ text ": error closing " ++ name ++ text ": " ++ f.message⟩

theorem closeQuietly_of_isPassedOver (h : r.close s = (.error f, s'))
    (hf : f.isPassedOver = true) (tag : Text) (log : Log) :
    r.closeQuietly tag (s, log) = (.ok (), (s', log ++ [warning tag r.name f])) := by
  obtain ⟨hf, hs⟩ := Bool.and_eq_true_iff.1 hf
  simp only [closeQuietly, Task.bind_apply, Task.step_apply, h, hf, Fault.shown_of_isOk hs]
  rfl

theorem closeQuietly_of_escapes (h : r.close s = (.error f, s')) (he : f.Escapes e) (tag : Text)
    (log : Log) : r.closeQuietly tag (s, log) = (.error e, (s', log)) := by
  rcases he with ⟨hf, rfl⟩ | ⟨hf, hs⟩
  · simp only [closeQuietly, Task.bind_apply, Task.step_apply, h, hf]
    rfl
  · simp only [closeQuietly, Task.bind_apply, Task.step_apply, h, hf, hs]
    rfl

def closeAll (rs : List (Resource σ)) (s : σ) : σ := rs.foldl (fun s r => (r.close s).2) s

def failures : List (Resource σ) → σ → List (Text × Fault)
  | [], _ => []
  | r :: rs, s =>
    match r.close s with
    | (.ok (), s) => failures rs s
    | (.error f, s) => (r.name, f) :: failures rs s

def warnings (tag : Text) (rs : List (Resource σ)) (s : σ) : Log :=
  (failures rs s).map fun p => warning tag p.1 p.2

theorem closeEach_append (h : ∀ p ∈ failures rs s, p.2.isPassedOver = true)
    (rest : List (Resource σ)) (tag : Text) (log : Log) :
    closeEach tag (rs ++ rest) (s, log) =
      closeEach tag rest (closeAll rs s, log ++ warnings tag rs s) := by
  induction rs generalizing s log with
  | nil => rw [List.nil_append, warnings, failures, List.map_nil, List.append_nil]; rfl
  | cons r rs ih =>
    have hall : closeAll (r :: rs) s = closeAll rs (r.close s).2 := rfl
    rw [List.cons_append, closeEach, Task.bind_apply, hall]
    rcases hc : r.close s with ⟨f | _, s'⟩
    · simp only [failures, hc, List.forall_mem_cons] at h
      rw [closeQuietly_of_isPassedOver hc h.1]
      dsimp only
      rw [ih h.2, warnings, warnings, failures, hc, List.append_assoc]
      rfl
    · simp only [failures, hc] at h
      rw [closeQuietly_of_ok hc]
      dsimp only
      rw [ih h, warnings, warnings, failures, hc]

theorem release_of_isPassedOver (h : ∀ p ∈ failures rs s, p.2.isPassedOver = true) (tag : Text)
    (log : Log) :
    release tag rs (s, log) =
      (.ok (), (closeAll rs s, log ++ warnings tag rs s ++ [releasedRecord tag])) := by
  have he := closeEach_append h [] tag log
  rw [List.append_nil] at he
  rw [release, Task.bind_apply, he]
  rfl

theorem release_of_escapes {before after : List (Resource σ)}
    (h : ∀ p ∈ failures before s, p.2.isPassedOver = true)
    (hr : r.close (closeAll before s) = (.error f, s')) (he : f.Escapes e) (tag : Text)
    (log : Log) :
    release tag (before ++ r :: after) (s, log) =
      (.error e, (s', log ++ warnings tag before s)) := by
  rw [release, Task.bind_apply, closeEach_append h, closeEach, Task.bind_apply,
    closeQuietly_of_escapes hr he]

end Close

abbrev Parts := List (Text × Option Fault)

def Parts.ofServer (listener : Option (Option Fault))
    (connection : Option (Option Fault × Option Fault × Option Fault)) : Parts :=
  (listener.map (text "listener", ·)).toList ++
    match connection with
    | none => []
    | some (writer, reader, socket) =>
      [(Connection.writer.name, writer), (Connection.reader.name, reader),
        (Connection.socket.name, socket)]

namespace Parts

def names (ps : Parts) : List Text := ps.map (·.1)

def warned (tag : Text) (ps : Parts) : Log := ps.filterMap fun p => p.2.map (warning tag p.1)

def arePassedOver (ps : Parts) : Bool := ps.all fun p => p.2.all Fault.isPassedOver

def listed (ps : Parts) : List (Resource (List Text)) := ps.map fun p => .listed p.1 p.2

variable {ps : Parts}

theorem closeAll_listed (ps : Parts) (closed : List Text) :
    closeAll ps.listed closed = closed ++ ps.names := by
  induction ps generalizing closed with
  | nil => exact (List.append_nil closed).symm
  | cons p ps ih =>
    have hc : closeAll (listed (p :: ps)) closed = closeAll (listed ps) (closed ++ [p.1]) := rfl
    rw [hc, ih, List.append_assoc]
    rfl

theorem failures_listed (ps : Parts) (closed : List Text) :
    failures ps.listed closed = ps.filterMap fun p => p.2.map (p.1, ·) := by
  induction ps generalizing closed with
  | nil => rfl
  | cons p ps ih =>
    obtain ⟨name, _ | f⟩ := p
    · exact ih _
    · exact congrArg ((name, f) :: ·) (ih _)

theorem warnings_listed (tag : Text) (ps : Parts) (closed : List Text) :
    warnings tag ps.listed closed = ps.warned tag := by
  rw [warnings, failures_listed, List.map_filterMap, warned]
  simp only [Option.map_map]
  rfl

theorem isPassedOver_of_arePassedOver (h : ps.arePassedOver = true) (closed : List Text) :
    ∀ p ∈ failures ps.listed closed, p.2.isPassedOver = true := by
  rw [failures_listed]
  intro q hq
  obtain ⟨p, hp, he⟩ := List.mem_filterMap.1 hq
  obtain ⟨f, hf, rfl⟩ := Option.map_eq_some_iff.1 he
  have hall := List.all_eq_true.1 h p hp
  rwa [hf] at hall

theorem exists_of_not_arePassedOver (h : ps.arePassedOver = false) :
    ∃ (before : Parts) (name : Text) (f : Fault) (after : Parts),
      ps = before ++ (name, some f) :: after ∧ before.arePassedOver = true ∧
        f.isPassedOver = false := by
  induction ps with
  | nil => cases h
  | cons p ps ih =>
    obtain ⟨name, fault⟩ := p
    cases hp : fault.all Fault.isPassedOver with
    | false =>
      cases fault with
      | none => cases hp
      | some f => exact ⟨[], name, f, ps, rfl, rfl, hp⟩
    | true =>
      rw [arePassedOver, List.all_cons, hp, Bool.true_and] at h
      obtain ⟨before, name', f, after, rfl, hb, hf⟩ := ih h
      refine ⟨(name, fault) :: before, name', f, after, rfl, ?_, hf⟩
      rw [arePassedOver, List.all_cons, hp, Bool.true_and]
      exact hb

end Parts

open Parts (ofServer)

/-- A release goes through just if every failure is forgivable and can be shown. Then each part has
been closed once, in order, with one warning for each failure. Otherwise the first other failure
ends it, and nothing behind that is closed: it fails with that failure itself, or with what showing
it fails with. -/
theorem release_closes_in_order (listener : Option (Option Fault))
    (connection : Option (Option Fault × Option Fault × Option Fault)) (tag : Text) (log : Log) :
    let ps := ofServer listener connection
    let q := release tag ps.listed ([], log)
    (q.1 = .ok () ↔ ps.arePassedOver = true) ∧
      (q.1 = .ok () → q.2 = (ps.names, log ++ ps.warned tag ++ [releasedRecord tag])) ∧
      ∀ e, q.1 = .error e →
        ∃ (before : Parts) (name : Text) (f : Fault) (after : Parts),
          ps = before ++ (name, some f) :: after ∧ before.arePassedOver = true ∧ f.Escapes e ∧
            q.2 = (before.names ++ [name], log ++ before.warned tag) := by
  intro ps q
  cases h : ps.arePassedOver with
  | true =>
    have hq : q = (.ok (), (ps.names, log ++ ps.warned tag ++ [releasedRecord tag])) := by
      have hr := release_of_isPassedOver (Parts.isPassedOver_of_arePassedOver h []) tag log
      rwa [Parts.closeAll_listed, Parts.warnings_listed] at hr
    rw [hq]
    exact ⟨by simp, fun _ => rfl, nofun⟩
  | false =>
    obtain ⟨before, name, f, after, hps, hb, hf⟩ := Parts.exists_of_not_arePassedOver h
    obtain ⟨e, he⟩ := Fault.exists_escapes hf
    have hq : q = (.error e, (before.names ++ [name], log ++ before.warned tag)) := by
      have hl : ps.listed = before.listed ++ Resource.listed name (some f) :: after.listed := by
        rw [hps]
        exact List.map_append
      have hr : release tag (before.listed ++ Resource.listed name (some f) :: after.listed)
          ([], log) = _ :=
        release_of_escapes (Parts.isPassedOver_of_arePassedOver hb []) rfl he tag log
      rw [Parts.closeAll_listed, Parts.warnings_listed, ← hl] at hr
      exact hr
    rw [hq]
    refine ⟨by simp, nofun, fun e' h' => ?_⟩
    cases h'
    exact ⟨before, name, f, after, hps, hb, he, rfl⟩

theorem release_closes_in_order_escaped :
    let gone := Fault.named (text "OSError") (text "already gone") none
    let boom := Fault.named (text "RuntimeError") (text "boom") none
    let unshowable := Fault.named (text "ValueError") (text "Exceeds the limit") none
    let mute := Fault.mute (text "OSError") .system unshowable
    let tag := text "Server"
    let listed := [warning tag (text "listener") gone]
    let passing := ofServer (some (some gone)) (some (none, none, none))
    let failing (f : Fault) := ofServer (some (some gone)) (some (some f, none, none))
    passing.arePassedOver = true ∧
      release tag passing.listed ([], []) = (.ok (), (passing.names,
        listed ++ [releasedRecord tag])) ∧
      ∀ p ∈ [(boom, boom), (mute, unshowable)],
        release tag (failing p.1).listed ([], []) =
          (.error p.2, ([text "listener", text "writer"], listed)) ∧
        ∃ before name f after, failing p.1 = before ++ (name, some f) :: after ∧
          f.Escapes p.2 := by
  intro gone boom unshowable mute tag listed passing failing
  have hp : passing.arePassedOver = true := rfl
  obtain ⟨hiff, hok, -⟩ :=
    release_closes_in_order (some (some gone)) (some (none, none, none)) tag []
  have hdone := hiff.2 hp
  refine ⟨hp, Prod.ext hdone (hok hdone), fun p h => ?_⟩
  have hq : release tag (failing p.1).listed ([], []) =
      (.error p.2, ([text "listener", text "writer"], listed)) := by
    rcases List.mem_pair.1 h with rfl | rfl <;> rfl
  obtain ⟨-, -, herror⟩ :=
    release_closes_in_order (some (some gone)) (some (some p.1, none, none)) tag []
  obtain ⟨before, name, f, after, hps, -, he, -⟩ := herror p.2 (congrArg Prod.fst hq)
  exact ⟨hq, before, name, f, after, hps, he⟩

end Resource

end LineHandshake
