import LineHandshake.Greeting
import LineHandshake.Proofs.Json.Values
import LineHandshake.Proofs.Line
import LineHandshake.Proofs.Utf8

/-!
Greetings undo themselves: the line of INFO is taken apart into its keyword and its payload, as
text and as bytes, and the payload is read back as the object that it was made of.
-/

namespace LineHandshake

theorem Text.Visible.no_surrogate {t : Text} (h : t.Visible) : ∀ c ∈ t, ¬ c.IsSurrogate := by
  intro c hc hs
  obtain ⟨hl, -⟩ := hs
  obtain ⟨-, hu⟩ := h c hc
  omega

theorem Text.Visible.unpaired {t : Text} (h : t.Visible) : t.Unpaired := by
  apply List.Pairwise.isChain
  apply List.pairwise_of_forall_mem_list
  intro a ha b _ hp
  exact h.no_surrogate a ha (CodePoint.isSurrogate_iff.2 (.inl hp.1))

theorem Text.Visible.no_lineBreak {t : Text} (h : t.Visible) : ∀ c ∈ t, ¬ c.IsLineBreak := by
  intro c hc hb
  rcases hb with rfl | rfl
  · exact absurd (h _ hc) (by decide)
  · exact absurd (h _ hc) (by decide)

theorem Keyword.visible {k : Text} (hk : k ∈ all) : k.Visible := by
  have h : all.all (fun k => k.all fun c => decide c.IsVisible) = true := by decide
  exact .of_all (List.all_eq_true.1 h k hk)

theorem Line.encode_encode_some {keyword payload : Text} (hk : keyword.Visible)
    (hp : payload.Visible) (hn : payload ≠ []) :
    Utf8.encode (encode keyword (some payload)) =
      .ok ((encode keyword (some payload)).flatMap Utf8.encodePoint) := by
  apply Utf8.encode_of_no_surrogate
  rw [encode_some hn]
  intro c hc
  simp only [List.mem_append, List.mem_cons] at hc
  rcases hc with (hc | rfl | hc) | hc
  · exact hk.no_surrogate c hc
  · decide
  · exact hp.no_surrogate c hc
  · simp only [crlf, List.mem_cons, List.not_mem_nil, or_false] at hc
    rcases hc with rfl | rfl <;> decide

namespace Greeting

open Json (Regular)

variable {members : Json.Members}

theorem print_obj_ne_nil (members : Json.Members) : (Json.obj members).print ≠ [] := by
  rw [Json.print_obj]
  exact List.cons_ne_nil _ _

theorem line_decode_encodeInfo (members : Json.Members) :
    Line.decode (encodeInfo (.obj members)) = .ok (Keyword.info, (Json.obj members).print) :=
  Line.decode_encode_some (by decide) (print_obj_ne_nil members) fun c hc =>
    (Json.visible_print _).no_lineBreak c (List.mem_of_getLast? hc)

theorem decodeInfo_print [Json.Stack] {depth : Nat} (h : Regular depth (.obj members))
    (hd : depth ≤ Json.maxDepth) : decodeInfo (Json.obj members).print = .ok members := by
  rw [decodeInfo, h.read_print hd]

/-- Encoding and decoding undo each other, whether or not the line is sent as bytes in between. -/
theorem decode_encodeInfo [Json.Stack] (hd : 250 ≤ Json.maxDepth)
    (h : Regular 250 (.obj members)) :
    Line.decode (encodeInfo (.obj members)) = .ok (Keyword.info, (Json.obj members).print) ∧
    (∃ bs, Utf8.encode (encodeInfo (.obj members)) = .ok bs ∧
      Line.decodeBytes bs = .ok (Keyword.info, (Json.obj members).print)) ∧
    decodeInfo (Json.obj members).print = .ok members := by
  have he := Line.encode_encode_some (Keyword.visible (.head _))
    (Json.visible_print (.obj members)) (print_obj_ne_nil members)
  refine ⟨line_decode_encodeInfo members, ⟨_, he, ?_⟩, decodeInfo_print h hd⟩
  rw [Line.decodeBytes, Utf8.decode_encode he]
  exact line_decode_encodeInfo members

theorem decode_encodeInfo_surrogates :
    Line.decode (encodeInfo (.obj [([0xDC00, 0xD800], .arr [.int (-12), .obj [], .null])])) =
        .ok (Keyword.info, text "\x7b\"\\udc00\\ud800\":[-12,\x7b\x7d,null]\x7d") ∧
      decodeInfo (text "\x7b\"\\udc00\\ud800\":[-12,\x7b\x7d,null]\x7d") =
        .ok [([0xDC00, 0xD800], .arr [.int (-12), .obj [], .null])] := by
  have h : Regular 250 (.obj [([0xDC00, 0xD800], .arr [.int (-12), .obj [], .null])]) := by
    refine .obj (by decide) ?_ ?_
    · refine List.forall_mem_singleton.2 ?_
      exact .cons_cons (by decide) (.singleton _)
    · refine List.forall_mem_singleton.2 ?_
      refine .arr ?_
      simp only [List.mem_cons, List.not_mem_nil, or_false]
      intro v hv
      rcases hv with rfl | rfl | rfl
      · exact .int (Nat.lt_of_lt_of_le (show 12 < 10 ^ 2 by decide)
          (Nat.pow_le_pow_right (by decide) (by decide)))
      · exact .obj (by decide) (List.forall_mem_nil _) (List.forall_mem_nil _)
      · exact .null
  have hd := decode_encodeInfo (by decide) h
  exact ⟨hd.1, hd.2.2⟩

end Greeting

end LineHandshake
