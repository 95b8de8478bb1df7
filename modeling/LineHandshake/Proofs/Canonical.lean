import LineHandshake.Proofs.Greeting
import LineHandshake.Proofs.Json.Proper
import LineHandshake.Proofs.Line.Bytes
import LineHandshake.Proofs.Line.Keyword

/-!
The greeting that is written again after it was read. However its payload was written, with spaces,
names given twice, escapes for what needs none or for the halves of pairs, what comes of it is one
way to write what it stands for, and stays as it is from then on.
-/

namespace LineHandshake

namespace Greeting

variable {payload payload' : Text} {members members' : Json.Members}

def rewritten [Json.Stack] (payload : Text) : Except Fault Text :=
  (decodeInfo payload).map fun members => (Json.obj members).print

/-- Without doubles, and nested at most 250 deep. -/
structure Ordinary (v : Json) : Prop where
  noReal (x : Binary64) : ¬ v.HasPart (.real x)
  depth : v.depth ≤ 250

theorem scalar_of_decodeBytes {bs : Bytes} {keyword : Text}
    (h : Line.decodeBytes bs = .ok (keyword, payload)) : payload.Scalar := by
  obtain ⟨line, hu, hl⟩ := Line.decodeBytes_eq_ok_iff.1 h
  obtain ⟨-, -, rfl⟩ := Line.decode_eq_ok_iff.1 hl
  have hline : line.Scalar := Utf8.no_surrogate_of_encode (Utf8.decode_eq_ok_iff_encode.1 hu)
  have hrest : line.chomp.afterSpace <:+ line.chomp :=
    (List.tail_suffix _).trans (List.dropWhile_suffix _)
  exact fun c hc => hline c (line.chomp_begins.mem (hrest.mem hc))

theorem read_of_decodeInfo [Json.Stack] (h : decodeInfo payload = .ok members) :
    Json.read payload = .ok (.obj members) := by
  unfold decodeInfo at h
  split at h <;> cases h
  assumption

theorem proper_of_decodeInfo [Json.Stack] (hs : payload.Scalar)
    (h : decodeInfo payload = .ok members) :
    (Json.obj members).Proper := Json.proper_of_read hs (read_of_decodeInfo h)

theorem decodeInfo_print_of_ordinary [Json.Stack] (hd : 250 ≤ Json.maxDepth)
    (hs : payload.Scalar) (h : decodeInfo payload = .ok members) (hm : Ordinary (.obj members)) :
    decodeInfo (Json.obj members).print = .ok members :=
  decodeInfo_print ((proper_of_decodeInfo hs h).regular hm.noReal hm.depth) hd

theorem rewritten_of_decodeInfo [Json.Stack] (h : decodeInfo payload = .ok members) :
    rewritten payload = .ok (Json.obj members).print := by
  rw [rewritten, h]
  rfl

theorem print_eq_print_iff [Json.Stack] (h : decodeInfo (Json.obj members).print = .ok members)
    (h' : decodeInfo (Json.obj members').print = .ok members') :
    (Json.obj members).print = (Json.obj members').print ↔ members = members' := by
  refine ⟨fun hp => ?_, fun hm => hm ▸ rfl⟩
  rw [hp, h'] at h
  exact (Except.ok.inj h).symm

/-- A payload from the wire has no surrogates, and what it stands for has no high one right before a
low one. An ordinary object is written and read back as it is, with all members in their order, so
payloads are rewritten alike just if they stand for the same, and only the first time changes
them. -/
theorem rewritten_canonical [Json.Stack] :
    (∀ bs keyword payload, Line.decodeBytes bs = .ok (keyword, payload) → payload.Scalar) ∧
    ∀ payload members, payload.Scalar → decodeInfo payload = .ok members →
      (∀ s, (Json.obj members).HasPart (.str s) → s.Unpaired) ∧
      (∀ ms, (Json.obj members).HasPart (.obj ms) → ∀ m ∈ ms, m.1.Unpaired) ∧
      (250 ≤ Json.maxDepth → Ordinary (.obj members) →
        decodeInfo (Json.obj members).print = .ok members ∧
        rewritten payload = .ok (Json.obj members).print ∧
        rewritten (Json.obj members).print = .ok (Json.obj members).print ∧
        ∀ payload' members', payload'.Scalar → decodeInfo payload' = .ok members' →
          Ordinary (.obj members') →
            (rewritten payload' = rewritten payload ↔ members' = members)) := by
  refine ⟨fun _ _ _ => scalar_of_decodeBytes, fun payload members hs h => ⟨?_, ?_, ?_⟩⟩
  · intro s hp
    cases (proper_of_decodeInfo hs h).of_hasPart hp with
    | str hu => exact hu
  · intro ms hp
    cases (proper_of_decodeInfo hs h).of_hasPart hp with
    | obj _ texts _ => exact texts
  · intro hd hm
    have hback := decodeInfo_print_of_ordinary hd hs h hm
    refine ⟨hback, rewritten_of_decodeInfo h, rewritten_of_decodeInfo hback, ?_⟩
    intro payload' members' hs' h' hm'
    have hback' := decodeInfo_print_of_ordinary hd hs' h' hm'
    rw [rewritten_of_decodeInfo h, rewritten_of_decodeInfo h', Except.ok.injEq,
      print_eq_print_iff hback' hback]

theorem rewritten_canonical_escapes :
    let payload := text
      "\x7b \"a\\uD800\\ud800\\uDC00\" : [-0 , \x7b\"k\":1,\"k\":\"\\uDC00\\uD800\"\x7d]\x7d"
    let members : Json.Members :=
      [([97, 0xD800, 0x10000], .arr [.int 0, .obj [([107], .str [0xDC00, 0xD800])]])]
    payload.Scalar ∧ decodeInfo payload = .ok members ∧ Ordinary (.obj members) ∧
      ∃ p, rewritten payload = .ok p ∧ rewritten p = .ok p := by
  intro payload members
  have hs : payload.Scalar := Text.scalar_text _
  have h : decodeInfo payload = .ok members := by decide +kernel
  have hm : Ordinary (.obj members) := by
    refine ⟨fun x hx => ?_, by decide⟩
    cases hx with
    | member hm hx =>
      obtain rfl := List.mem_singleton.1 hm
      cases hx with
      | item hm hx =>
        rcases List.mem_cons.1 hm with rfl | hm
        · cases hx
        · obtain rfl := List.mem_singleton.1 hm
          cases hx with
          | member hm hx =>
            obtain rfl := List.mem_singleton.1 hm
            cases hx
  obtain ⟨-, hp, hpp, -⟩ := (rewritten_canonical.2 payload members hs h).2.2 (by decide) hm
  exact ⟨hs, h, hm, _, hp, hpp⟩

end Greeting

end LineHandshake
