import LineHandshake.Proofs.Writing

/-!
What the exchanges of a handshake leave behind, whatever the client does. The end of the client's
stream stays as it is, and no exchange waits once there is one. One that goes through has sent all
that it wrote, so releasing the connection after it sends nothing more.
-/

namespace LineHandshake

namespace TextSource

variable {cut : Text → Option (Text × Text)} {refuses : Refusal}

def KeepsEnding (s : TextSource) (r : Reading Text) : Prop :=
  r.2.ending = s.ending ∧ (r.1 = .error .waiting → s.ending = none)

theorem lost_keepsEnding (s : TextSource) (f : Fault) (d : Decoder) (ps : List Bytes) :
    s.KeepsEnding (s.lost f d ps) :=
  ⟨rfl, nofun⟩

theorem gained_keepsEnding (s : TextSource) (t : Text) (d : Decoder) (ps : List Bytes)
    (ready : Text) : s.KeepsEnding (s.gained t d ps ready) :=
  ⟨rfl, nofun⟩

theorem atEnd_keepsEnding (s : TextSource) (begun : Text) (d : Decoder) :
    s.KeepsEnding (s.atEnd begun d) := by
  unfold atEnd
  split
  · next he => exact ⟨rfl, fun _ => he⟩
  · exact lost_keepsEnding ..
  · split
    · exact lost_keepsEnding ..
    · exact gained_keepsEnding ..

theorem receive_keepsEnding (s : TextSource) (before : Nat) (begun : Text) (d : Decoder)
    (ps : List Bytes) : s.KeepsEnding (s.receive cut refuses before begun d ps) := by
  induction ps generalizing before begun d with
  | nil =>
    unfold receive
    split
    · exact lost_keepsEnding ..
    · exact atEnd_keepsEnding s begun d
  | cons p ps ih =>
    unfold receive
    split
    · exact lost_keepsEnding ..
    · dsimp only
      split
      · exact lost_keepsEnding ..
      · split
        · exact gained_keepsEnding ..
        · exact ih _ _ _

theorem readUntil_keepsEnding (s : TextSource) : s.KeepsEnding (s.readUntil cut refuses) := by
  unfold readUntil
  split
  · split
    · exact ⟨rfl, nofun⟩
    · exact receive_keepsEnding s _ _ _ _
  · exact ⟨rfl, nofun⟩

theorem readLine_keepsEnding (s : TextSource) : s.KeepsEnding s.readLine :=
  readUntil_keepsEnding s

theorem readAll_keepsEnding (s : TextSource) : s.KeepsEnding s.readAll := by
  unfold readAll
  split
  · split
    · next he => exact ⟨rfl, fun _ => he⟩
    · exact ⟨rfl, nofun⟩
    · split
      · exact ⟨rfl, nofun⟩
      · exact ⟨rfl, nofun⟩
  · exact ⟨rfl, nofun⟩

theorem read_keepsEnding (s : TextSource) (count : Int) :
    s.KeepsEnding (s.read count refuses) := by
  unfold read
  split
  · split
    · exact readUntil_keepsEnding s
    · exact readAll_keepsEnding s
  · exact ⟨rfl, nofun⟩

end TextSource

namespace Connection

/-- An exchange leaves the client's end as it is, waits only if there is none, and leaves nothing
to be sent if it goes through. -/
structure IsOrderly {α : Type} (x : Exchange α) : Prop where
  ending : ∀ q, (x q).2.1.source.ending = q.1.source.ending
  waits : ∀ q, (x q).1 = .error .waiting → q.1.source.ending = none
  idle : ∀ q a, (x q).1 = .ok a → q.1.sink.IsIdle → (x q).2.1.sink.IsIdle

theorem writeLine_isOrderly (line : Text) : IsOrderly (writeLine line) := by
  constructor <;> rintro ⟨c, log⟩ <;> rw [writeLine_apply] <;>
    generalize c.sink.write line = r <;> obtain ⟨f | _, k⟩ := r
  · rfl
  · dsimp only
    generalize k.flush = r
    obtain ⟨f | _, k⟩ := r <;> rfl
  · exact nofun
  · dsimp only
    generalize k.flush = r
    obtain ⟨f | _, k⟩ := r <;> exact nofun
  · exact nofun
  · have hk := TextSink.isIdle_of_flush (k := k)
    dsimp only
    generalize k.flush = r at hk ⊢
    obtain ⟨f | _, k⟩ := r
    · exact nofun
    · exact fun _ _ _ => hk rfl

theorem readLine_isOrderly : IsOrderly readLine := by
  constructor <;> rintro ⟨c, log⟩ <;> rw [readLine_apply] <;>
    have hk := TextSource.readLine_keepsEnding c.source <;>
    generalize c.source.readLine = r at hk ⊢ <;> obtain ⟨i | line, k⟩ := r
  · exact hk.1
  · dsimp only
    split <;> exact hk.1
  · intro h
    rcases i with _ | f
    · exact hk.2 rfl
    · cases f <;> cases h
  · dsimp only
    split <;> intro h <;> cases h
  · intro a h
    cases h
  · dsimp only
    intro a h hs
    split <;> exact hs

theorem await_isOrderly (keyword : Text) : IsOrderly (await keyword) := by
  constructor <;> rintro ⟨c, log⟩ <;> rw [await_apply]
  · have h := readLine_isOrderly.ending (c, log)
    generalize readLine (c, log) = r at h ⊢
    obtain ⟨i | line, q⟩ := r <;> exact h
  · have h := readLine_isOrderly.waits (c, log)
    generalize readLine (c, log) = r at h ⊢
    obtain ⟨i | line, q⟩ := r
    · exact h
    · dsimp only [Line.expect]
      split <;> exact nofun
  · have h := readLine_isOrderly.idle (c, log)
    generalize readLine (c, log) = r at h ⊢
    obtain ⟨i | line, q⟩ := r
    · exact nofun
    · exact fun _ _ => h line rfl

end Connection

end LineHandshake
