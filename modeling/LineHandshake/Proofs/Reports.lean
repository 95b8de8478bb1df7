import LineHandshake.Proofs.Exchange
import LineHandshake.Proofs.Messages

/-!
What a task tells of itself: the error that it ends with, if it does, and the records that it adds
to the log. What is told of each of two tasks is told of the one after the other.
-/

namespace LineHandshake

namespace Record

variable {r : Record}

def Inert (r : Record) : Prop := r.toText.Inert

theorem inert_mk {level : Level} {source message : Text} (hs : source.Visible)
    (hm : message.Inert) : Inert ⟨level, source, message⟩ := by
  have hlevel : level.name.Visible := by
    cases level <;> exact .literal (by decide)
  have hblank : (text " ").Visible := .literal (by decide)
  have hcolon : (text ": ").Visible := .literal (by decide)
  exact (((hlevel.append hblank).append hs).append hcolon).inert.append hm

theorem Inert.message (h : r.Inert) : r.message.Inert := (Text.inert_append_iff.1 h).2

theorem Inert.lines (h : r.Inert) : r.toText.lines = [r.toText] := by
  refine Text.Inert.lines h ?_
  unfold toText
  cases r.level <;> exact List.cons_ne_nil _ _

end Record

namespace Task

variable {ε ε' σ α β : Type} {E : ε → Prop} {R R' : Record → Prop} {q : σ × Log}

/-- From `q` on, a task ends with errors of `E` only, and adds only records of `R` to the log. -/
structure Reports (E : ε → Prop) (R : Record → Prop) (x : Task ε σ α) (q : σ × Log) : Prop where
  error : ∀ e, (x q).1 = .error e → E e
  keeps : ∀ r ∈ q.2, r ∈ (x q).2.2
  log : ∀ r ∈ (x q).2.2, r ∈ q.2 ∨ R r

theorem reports_step {f : σ → Except ε α × σ} (h : ∀ e, (f q.1).1 = .error e → E e) :
    (step f).Reports E R q :=
  ⟨h, fun _ => id, fun _ => .inl⟩

theorem reports_lift {r : Except ε α} (h : ∀ e, r = .error e → E e) :
    (lift r : Task ε σ α).Reports E R q := reports_step h

theorem reports_pure (a : α) : (pure a : Task ε σ α).Reports E R q := reports_lift nofun

theorem reports_fail {e : ε} (h : E e) : (fail e : Task ε σ α).Reports E R q := by
  refine reports_lift ?_
  rintro _ ⟨⟩
  exact h

theorem reports_log {level : Level} {source : String} {message : Text}
    (h : R ⟨level, text source, message⟩) :
    (log level source message : Task ε σ Unit).Reports E R q := by
  refine ⟨nofun, fun r => List.mem_append_left _, fun r hr => ?_⟩
  refine (List.mem_append.1 hr).imp_right fun hr => ?_
  rw [List.mem_singleton.1 hr]
  exact h

theorem Reports.bind {x : Task ε σ α} {f : α → Task ε σ β} (hx : x.Reports E R q)
    (hf : ∀ a q', x q = (.ok a, q') → (f a).Reports E R q') : (x >>= f).Reports E R q := by
  obtain ⟨he, hk, hl⟩ := hx
  -- each field twice: the first task fails, or the second goes on from where it ends
  constructor <;> rw [bind_apply] <;> generalize x q = r at he hk hl hf <;>
    obtain ⟨e | a, q'⟩ := r
  · rintro _ ⟨⟩
    exact he e rfl
  · exact (hf a q' rfl).error
  · exact hk
  · exact fun r hr => (hf a q' rfl).keeps r (hk r hr)
  · exact hl
  · exact fun r hr => ((hf a q' rfl).log r hr).elim (hl r) .inr

theorem Reports.returns {x : Task ε σ α} (hx : x.Reports E R q) (f : α → β) :
    (do return f (← x) : Task ε σ β).Reports E R q :=
  hx.bind fun _ _ _ => reports_pure _

theorem mem_log_bind {x : Task ε σ α} {f : α → Task ε σ β} {r : Record} (hr : r ∈ (x q).2.2)
    (hf : ∀ a q', r ∈ q'.2 → r ∈ (f a q').2.2) : r ∈ ((x >>= f) q).2.2 := by
  rw [bind_apply]
  generalize x q = p at hr
  obtain ⟨e | a, q'⟩ := p
  · exact hr
  · exact hf a q' hr

theorem Reports.mapError {x : Task ε σ α} {f : ε → ε'} {E' : ε' → Prop} (hx : x.Reports E R q)
    (hf : ∀ e, E e → E' (f e)) : (x.mapError f).Reports E' R q := by
  refine ⟨fun e' h => ?_, hx.keeps, hx.log⟩
  have he := hx.error
  rw [mapError_apply] at h
  generalize (x q).1 = r at h he
  cases r with
  | ok a => cases h
  | error e =>
    cases h
    exact hf e (he e rfl)

theorem Reports.imp {x : Task ε σ α} (hx : x.Reports E R q) (hR : ∀ r, R r → R' r) :
    x.Reports E R' q :=
  ⟨hx.error, hx.keeps, fun r hr => (hx.log r hr).imp_right (hR r)⟩

theorem Reports.perform {x : Task ε σ α} {s : σ} (hx : x.Reports E R (s, [])) :
    (∀ e, (x.perform s).1 = .error e → E e) ∧ ∀ r ∈ (x.perform s).2.2, R r :=
  ⟨hx.error, fun r hr => (hx.log r hr).resolve_left List.not_mem_nil⟩

end Task

namespace Fault

def Inert (f : Fault) : Prop := f.message.Inert

theorem inert_of_visible {f : Fault} (h : f.message.Visible) : f.Inert := Text.Visible.inert h

theorem inert_system (e : SystemError) : Inert (.system e) := inert_of_visible e.visible_message

theorem inert_port {e : PortError} (h : ∀ url x, e ≠ .cannotOpen url x) : Inert (.port e) := by
  refine inert_of_visible ?_
  change e.message.Visible
  cases e with
  | writeRefused e => exact (Text.Visible.literal (by decide)).append e.visible_message
  | cannotOpen url x => exact absurd rfl (h url x)
  | _ => exact .literal (by decide)

theorem inert_streamClosed : Inert .streamClosed := inert_of_visible (.literal (by decide))

theorem inert_unencodable (e : Utf8.EncodeError) : Inert (.unencodable e) :=
  inert_of_visible e.visible_message

theorem inert_notUtf8 (e : Utf8.DecodeError) : Inert (.format (.notUtf8 e)) :=
  inert_of_visible ((Text.Visible.literal (by decide)).append e.visible_message)

end Fault

end LineHandshake
