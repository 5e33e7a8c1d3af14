import LlmGateway.Transport.Resync

/-!
# Round trip

Messages that are encoded, sent in any chunks and decoded arrive as they were. The encodings are the
frames of the payloads (`encode_eq_ok`); the chunks are calls whose consumers iterate to the end, so the
decoder stays at the boundaries of the stream, and the frames of the stream are the payloads that were
sent whatever the chunks (`Framing.feed_eq_split`).
-/

namespace LlmGateway.Transport

namespace LengthPrefixedProtocol

variable {M : Type} (P : LengthPrefixedProtocol M)

/-- Feed chunks to the decoder, each iterated to its end. -/
def decodeChunks (d : Decoder) (chunks : List (List UInt8)) : List (Outcome M) × Decoder :=
  P.decodeCalls d (chunks.map fun c => ⟨c, none⟩)

variable {P}

theorem encode_eq_ok {m : M} {p : List UInt8} (hm : P.serializer.serialize m = .ok p)
    (hp : p.length ≤ P.maxMessageSize) : P.encode m = .ok (frame p) := by
  simp [encode, validateMessage, hm, not_lt.mpr hp, frame]

theorem consumeCalls_of_allComplete {b : List UInt8} {chunks : List (List UInt8)}
    (h : P.AllComplete b (chunks.map fun c => ⟨c, none⟩)) :
    (∀ o ∈ (P.consumeCalls b (chunks.map fun c => ⟨c, none⟩)).1, o.ending = .exhausted) ∧
      ((P.consumeCalls b (chunks.map fun c => ⟨c, none⟩)).1.map Outcome.messages).flatten.map Except.ok =
        (framing.feed b chunks).1.map P.serializer.deserialize ∧
      (P.consumeCalls b (chunks.map fun c => ⟨c, none⟩)).2 = (framing.feed b chunks).2 := by
  induction chunks generalizing b with
  | nil => exact ⟨fun o ho => absurd ho List.not_mem_nil, rfl, rfl⟩
  | cons c chunks ih =>
    obtain ⟨hc, hcs⟩ := h
    obtain ⟨hend, hrest, hmsgs⟩ := consume_of_completes hc
    obtain ⟨hends, hmsgss, hrests⟩ := ih hcs
    simp only [List.map_cons, consumeCalls, Framing.feed, hrest, List.flatten_cons, List.map_append,
      List.forall_mem_cons]
    refine ⟨⟨hend, hends⟩, ?_, hrests⟩
    rw [hmsgs, hmsgss]

theorem allComplete_of_feed {b : List UInt8} {chunks : List (List UInt8)}
    (h : ∀ p ∈ (framing.feed b chunks).1, ∃ m, P.serializer.deserialize p = .ok m) :
    P.AllComplete b (chunks.map fun c => ⟨c, none⟩) := by
  induction chunks generalizing b with
  | nil => trivial
  | cons c chunks ih =>
    simp only [Framing.feed, List.forall_mem_append] at h
    exact ⟨⟨h.1, by simp⟩, ih h.2⟩

theorem mapM_encode (hundo : ∀ m p, P.serializer.serialize m = .ok p →
      P.serializer.deserialize p = .ok m) {msgs : List M}
    (hfit : ∀ m ∈ msgs, ∃ p, P.serializer.serialize m = .ok p ∧ p.length ≤ P.maxMessageSize) :
    ∃ ps : List (List UInt8), msgs.mapM P.encode = .ok (ps.map frame) ∧
      (∀ p ∈ ps, p.length ≤ P.maxMessageSize) ∧
      ps.map P.serializer.deserialize = msgs.map Except.ok := by
  induction msgs with
  | nil => exact ⟨[], rfl, by simp, rfl⟩
  | cons m msgs ih =>
    obtain ⟨p, hm, hp⟩ := hfit m List.mem_cons_self
    obtain ⟨ps, henc, hps, hdes⟩ := ih fun m' hm' => hfit m' (List.mem_cons_of_mem m hm')
    refine ⟨p :: ps, ?_, List.forall_mem_cons.mpr ⟨hp, hps⟩, ?_⟩
    · rw [List.mapM_cons, encode_eq_ok hm hp, henc]
      rfl
    · rw [List.map_cons, List.map_cons, hundo m p hm, hdes]

/-- Encode messages and feed the concatenation of their encodings to a fresh decoder, in any chunks:
every call runs to its end, the messages come out in order, and the decoder is fresh again. -/
theorem decodeChunks_encode (hundo : ∀ m p, P.serializer.serialize m = .ok p →
      P.serializer.deserialize p = .ok m) {msgs : List M}
    (hfit : ∀ m ∈ msgs, ∃ p, P.serializer.serialize m = .ok p ∧ p.length ≤ P.maxMessageSize) :
    ∃ frames, msgs.mapM P.encode = .ok frames ∧
      ∀ chunks : List (List UInt8), chunks.flatten = frames.flatten →
        ((P.decodeChunks .initial chunks).1.map Outcome.messages).flatten = msgs ∧
          (∀ o ∈ (P.decodeChunks .initial chunks).1, o.ending = .exhausted) ∧
          (P.decodeChunks .initial chunks).2 = .initial := by
  obtain ⟨ps, henc, hps, hdes⟩ := mapM_encode hundo hfit
  refine ⟨ps.map frame, henc, ?_⟩
  intro chunks hchunks
  have hfeed : framing.feed [] chunks = (ps, []) := by
    have hcut : ∀ p ∈ ps, ∀ c, framing.cut (frame p ++ c) = some (p, c) :=
      fun p hp c => cut_frame ((hps p hp).trans P.le_theoretical) c
    have hnil : framing.split [] = ([], []) := Framing.split_of_none rfl
    have hsplit := framing.split_flatten hcut []
    rw [hnil, List.append_nil, List.append_nil] at hsplit
    rw [framing.feed_eq_split rfl, List.nil_append, hchunks, hsplit]
  have hall : P.AllComplete [] (chunks.map fun c => ⟨c, none⟩) := by
    apply allComplete_of_feed
    intro p hp
    rw [hfeed] at hp
    have hmem := hdes ▸ List.mem_map_of_mem hp
    obtain ⟨m, -, hm⟩ := List.mem_map.mp hmem
    exact ⟨m, hm.symm⟩
  have hs : P.Streams ([] ++ ((chunks.map fun c => (⟨c, none⟩ : Call)).map Call.data).flatten) := by
    refine ⟨ps, hps, ?_⟩
    rw [List.nil_append, List.map_map, ← hchunks]
    simp [Function.comp_def]
  have hinit : StandsAt .initial [] := .boundary []
  obtain ⟨hout, hstands⟩ := (decodeCalls_of_standsAt hinit hs).mpr hall _ List.prefix_rfl
  obtain ⟨hends, hmsgs, hrest⟩ := consumeCalls_of_allComplete hall
  rw [hfeed] at hmsgs hrest
  rw [hrest] at hstands
  unfold decodeChunks
  refine ⟨?_, hout ▸ hends, hstands.eq_initial⟩
  rw [hout]
  exact List.map_injective_iff.mpr (fun _ _ => Except.ok.inj) (hmsgs.trans hdes)

/-- Three byte strings, one of them empty, cut inside the first prefix and with an empty chunk. -/
theorem decodeChunks_encode_raw :
    ((createRawProtocol.decodeChunks .initial
        [[0, 0], [], [0, 1, 97, 0, 0, 0], [0, 0, 0, 0, 2, 98], [99]]).1.map Outcome.messages).flatten =
      [[97], [], [98, 99]] := by
  have hfit : ∀ m ∈ [[97], [], [98, 99]], ∃ p,
      createRawProtocol.serializer.serialize m = .ok p ∧ p.length ≤ createRawProtocol.maxMessageSize := by
    intro m hm
    refine ⟨m, rfl, ?_⟩
    revert m
    decide
  have hundo : ∀ m p, createRawProtocol.serializer.serialize m = .ok p →
      createRawProtocol.serializer.deserialize p = .ok m := by
    rintro m p ⟨⟩
    rfl
  obtain ⟨frames, hframes, h⟩ := decodeChunks_encode hundo hfit
  refine (h _ ?_).1
  obtain rfl := Except.ok.inj hframes
  rfl

end LengthPrefixedProtocol

end LlmGateway.Transport
