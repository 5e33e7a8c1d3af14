import LlmGateway.Transport.LengthPrefixed

/-!
# The decoder and the frames of its stream

The bytes a decoder has been given are a stream of frames. `framing` cuts a stream into payloads,
without a state machine; `consume` is what a consumer would see of the stream `b` if every frame were
consumed as a whole, the ones that fail to deserialize and the last one of an abandoned iteration
included. `StandsAt d b` relates the two: the decoder `d` is at a frame boundary of its stream and `b` is
what it has not given out, possibly with the length prefix read already. `iterate_of_standsAt` is the
simulation: on a stream of frames within the size limit, a call gives what `consume` says; it leaves the
decoder at the next boundary if it ran to its end, and otherwise still reading the payload that is gone.
-/

namespace LlmGateway.Transport

/-- Cut the first frame off a stream. -/
def cutFrame (b : List UInt8) : Option (List UInt8 × List UInt8) :=
  if b.length < lengthPrefixSize then
    none
  else
    let n := unpack (b.take lengthPrefixSize)
    if (b.drop lengthPrefixSize).length < n then
      none
    else
      some ((b.drop lengthPrefixSize).take n, (b.drop lengthPrefixSize).drop n)

variable {b p r : List UInt8}

theorem cutFrame_eq_some (h : cutFrame b = some (p, r)) :
    lengthPrefixSize ≤ b.length ∧ p.length = unpack (b.take lengthPrefixSize) ∧
      b = b.take lengthPrefixSize ++ (p ++ r) := by
  simp only [cutFrame] at h
  split at h
  · cases h
  · next hb =>
    split at h
    · cases h
    · next hn =>
      rw [Option.some.injEq, Prod.mk.injEq] at h
      obtain ⟨rfl, rfl⟩ := h
      refine ⟨not_lt.mp hb, ?_, ?_⟩
      · rw [List.length_take]
        omega
      · rw [List.take_append_drop, List.take_append_drop]

theorem cutFrame_append {l : List UInt8} (hl : l.length = lengthPrefixSize) (hp : unpack l = p.length)
    (c : List UInt8) : cutFrame (l ++ (p ++ c)) = some (p, c) := by
  have htake : (l ++ (p ++ c)).take lengthPrefixSize = l := List.take_left' hl
  have hdrop : (l ++ (p ++ c)).drop lengthPrefixSize = p ++ c := List.drop_left' hl
  have hlen : ¬ (l ++ (p ++ c)).length < lengthPrefixSize := by
    rw [List.length_append, hl]
    omega
  have hfits : ¬ (p ++ c).length < p.length := by
    rw [List.length_append]
    omega
  simp only [cutFrame, hlen, if_false, htake, hdrop, hp, hfits, List.take_left, List.drop_left]

theorem length_lt_of_cutFrame (h : cutFrame b = some (p, r)) : r.length < b.length := by
  obtain ⟨hb, -, heq⟩ := cutFrame_eq_some h
  have hlen := congrArg List.length heq
  simp only [List.length_append, List.length_take, lengthPrefixSize] at hlen hb
  omega

theorem cutFrame_extend (c : List UInt8) (h : cutFrame b = some (p, r)) :
    cutFrame (b ++ c) = some (p, r ++ c) := by
  obtain ⟨hb, hp, heq⟩ := cutFrame_eq_some h
  have hl : (b.take lengthPrefixSize).length = lengthPrefixSize := List.length_take_of_le hb
  have happ : b ++ c = b.take lengthPrefixSize ++ (p ++ (r ++ c)) := by
    conv_lhs => rw [heq]
    simp only [List.append_assoc]
  rw [happ]
  exact cutFrame_append hl hp.symm (r ++ c)

/-- The frames of a length-prefixed stream. -/
def framing : Framing UInt8 (List UInt8) where
  cut := cutFrame
  length_lt := length_lt_of_cutFrame
  cut_append := cutFrame_extend

/-- The frame of a payload. -/
def frame (p : List UInt8) : List UInt8 := pack p.length ++ p

theorem cut_frame (h : p.length ≤ maxTheoreticalSize) (c : List UInt8) :
    framing.cut (frame p ++ c) = some (p, c) := by
  rw [frame, List.append_assoc]
  exact cutFrame_append (length_pack _) (unpack_pack h) c

namespace LengthPrefixedProtocol

variable {M : Type} (P : LengthPrefixedProtocol M)

/-- `b` begins a stream of frames within the size limit. -/
def Streams (b : List UInt8) : Prop :=
  ∃ ps : List (List UInt8), (∀ p ∈ ps, p.length ≤ P.maxMessageSize) ∧ b <+: (ps.map frame).flatten

variable {P}

variable {b p r : List UInt8} {d d' : Decoder} {stop : Option ℕ}

theorem Streams.of_append {c : List UInt8} (h : P.Streams (b ++ c)) : P.Streams b := by
  obtain ⟨ps, hps, hb⟩ := h
  exact ⟨ps, hps, (List.prefix_append b c).trans hb⟩

theorem Streams.prefix_le (h : P.Streams b) (hb : lengthPrefixSize ≤ b.length) :
    unpack (b.take lengthPrefixSize) ≤ P.maxMessageSize := by
  obtain ⟨ps, hps, c, hc⟩ := h
  cases ps with
  | nil =>
    rw [List.map_nil, List.flatten_nil, List.append_eq_nil_iff] at hc
    simp [hc.1, lengthPrefixSize] at hb
  | cons p ps =>
    have hp := hps p List.mem_cons_self
    have htake : b.take lengthPrefixSize = pack p.length := by
      have := congrArg (List.take lengthPrefixSize) hc
      rwa [List.take_append_of_le_length hb, List.map_cons, List.flatten_cons, frame, List.append_assoc,
        List.take_left' (length_pack _)] at this
    rw [htake, unpack_pack (hp.trans P.le_theoretical)]
    exact hp

theorem Streams.of_cut (h : P.Streams b) (hcut : framing.cut b = some (p, r)) :
    P.Streams r := by
  obtain ⟨ps, hps, c, hc⟩ := h
  have hbc := framing.cut_append c hcut
  cases ps with
  | nil =>
    rw [List.map_nil, List.flatten_nil, List.append_eq_nil_iff] at hc
    rw [hc.1] at hcut
    cases hcut
  | cons q ps =>
    have hq := (hps q List.mem_cons_self).trans P.le_theoretical
    rw [hc, List.map_cons, List.flatten_cons, cut_frame hq, Option.some.injEq, Prod.mk.injEq] at hbc
    exact ⟨ps, fun p' hp' => hps p' (List.mem_cons_of_mem q hp'), c, hbc.2.symm⟩

theorem Streams.split_append {c : List UInt8} (h : P.Streams (b ++ c)) :
    P.Streams ((framing.split b).2 ++ c) := by
  induction b using framing.frameInduction with
  | none b hcut => rwa [Framing.split_of_none hcut]
  | some b p r hcut ih =>
    rw [Framing.split_of_some hcut]
    exact ih (h.of_cut (framing.cut_append c hcut))

variable (P)

/-- The decoder `d` is at a frame boundary, with the stream `b` still to be given out. -/
inductive StandsAt : Decoder → List UInt8 → Prop
  /-- It reads the next length prefix. -/
  | boundary (b : List UInt8) : StandsAt ⟨.readingLength, 0, b⟩ b
  /-- It has read the length prefix and waits for the payload. -/
  | announced (b : List UInt8) (h : lengthPrefixSize ≤ b.length) :
    StandsAt ⟨.readingPayload, unpack (b.take lengthPrefixSize), b.drop lengthPrefixSize⟩ b

theorem StandsAt.eq_initial (h : StandsAt d []) : d = .initial := by
  cases h with
  | boundary => rfl
  | announced _ h => simp [lengthPrefixSize] at h

theorem StandsAt.append (h : StandsAt d b) (c : List UInt8) :
    StandsAt { d with decodeBuffer := d.decodeBuffer ++ c } (b ++ c) := by
  cases h with
  | boundary => exact .boundary (b ++ c)
  | announced _ h =>
    have h' : lengthPrefixSize ≤ (b ++ c).length := by
      rw [List.length_append]
      omega
    have := StandsAt.announced (b ++ c) h'
    rwa [List.take_append_of_le_length h, List.drop_append_of_le_length h] at this

theorem not_standsAt_payload (n : ℕ) (r : List UInt8) : ¬ StandsAt ⟨.readingPayload, n, r⟩ r := by
  intro h
  generalize hd : (⟨.readingPayload, n, r⟩ : Decoder) = d at h
  cases h with
  | boundary => cases hd
  | announced _ h =>
    have hr := congrArg (fun d => d.decodeBuffer.length) hd
    simp only [List.length_drop, lengthPrefixSize] at hr h
    omega

/-- What a consumer sees of a complete payload: `stay` is what is left when the iteration ends with it,
and `go` what comes behind it otherwise. -/
def afterPayload {σ : Type} (stop : Option ℕ) (p : List UInt8) (stay : σ) (go : Outcome M × σ) :
    Outcome M × σ :=
  match P.serializer.deserialize p with
  | .error e => (⟨[], .raised s!"Payload deserialization failed: {e}"⟩, stay)
  | .ok m => if stop = some 0 then (⟨[m], .abandoned⟩, stay) else (go.1.cons m, go.2)

/-- What a consumer would see of the stream `b` if every frame were consumed as a whole: its outcome, and
the stream behind the last frame consumed. -/
def consume (stop : Option ℕ) (b : List UInt8) : Outcome M × List UInt8 :=
  match _h : framing.cut b with
  | none => (⟨[], .exhausted⟩, b)
  | some (p, r) => P.afterPayload stop p r (consume (stop.map (· - 1)) r)
  termination_by b.length
  decreasing_by exact framing.length_lt _h

variable {P}

section

variable {σ : Type} {stop : Option ℕ} {p : List UInt8} {stay : σ} {go : Outcome M × σ}

theorem afterPayload_of_error {e : String} (h : P.serializer.deserialize p = .error e) :
    P.afterPayload stop p stay go = (⟨[], .raised s!"Payload deserialization failed: {e}"⟩, stay) := by
  simp only [afterPayload, h]

theorem afterPayload_of_stop {m : M} (h : P.serializer.deserialize p = .ok m) :
    P.afterPayload (some 0) p stay go = (⟨[m], .abandoned⟩, stay) := by
  simp only [afterPayload, h, if_true]

theorem afterPayload_of_go {m : M} (h : P.serializer.deserialize p = .ok m) (hstop : stop ≠ some 0) :
    P.afterPayload stop p stay go = (go.1.cons m, go.2) := by
  simp only [afterPayload, h, if_neg hstop]

end

theorem consume_of_none (h : framing.cut b = none) :
    P.consume stop b = (⟨[], .exhausted⟩, b) := by
  rw [consume]
  split
  · rfl
  · next h' => simp [h] at h'

theorem consume_of_some (h : framing.cut b = some (p, r)) :
    P.consume stop b = P.afterPayload stop p r (P.consume (stop.map (· - 1)) r) := by
  rw [consume]
  split
  · next h' => simp [h] at h'
  · next p' r' h' =>
    rw [h, Option.some.injEq, Prod.mk.injEq] at h'
    obtain ⟨rfl, rfl⟩ := h'
    rfl

/-! ### The simulation -/

theorem iterate_of_needMore (h : P.pass d = .needMore) :
    P.iterate stop d = (⟨[], .exhausted⟩, d) := by
  rw [iterate]
  split <;> simp_all

theorem iterate_of_advanced (h : P.pass d = .advanced d') :
    P.iterate stop d = P.iterate stop d' := by
  rw [iterate]
  split <;> simp_all

theorem iterate_of_raised {e : String} (h : P.pass d = .raised e d') :
    P.iterate stop d = (⟨[], .raised e⟩, d') := by
  rw [iterate]
  split <;> simp_all

theorem iterate_of_yielded {m : M} (h : P.pass d = .yielded m d') :
    P.iterate stop d =
      if stop = some 0 then (⟨[m], .abandoned⟩, d')
      else ((P.iterate (stop.map (· - 1)) (resume d')).1.cons m,
        (P.iterate (stop.map (· - 1)) (resume d')).2) := by
  rw [iterate]
  split <;> simp_all

theorem iterate_boundary (stop : Option ℕ) (hb : lengthPrefixSize ≤ b.length)
    (hmax : unpack (b.take lengthPrefixSize) ≤ P.maxMessageSize) :
    P.iterate stop ⟨.readingLength, 0, b⟩ =
      P.iterate stop ⟨.readingPayload, unpack (b.take lengthPrefixSize), b.drop lengthPrefixSize⟩ := by
  apply iterate_of_advanced
  simp only [pass, not_lt.mpr hb, if_false, not_lt.mpr hmax]

theorem iterate_of_cut_none (stop : Option ℕ) (hd : StandsAt d b) (hs : P.Streams b) (hcut : framing.cut b = none) :
    (P.iterate stop d).1 = ⟨[], .exhausted⟩ ∧ StandsAt (P.iterate stop d).2 b := by
  have hwait (hb : lengthPrefixSize ≤ b.length) :
      P.pass ⟨.readingPayload, unpack (b.take lengthPrefixSize), b.drop lengthPrefixSize⟩ = .needMore := by
    have hshort : (b.drop lengthPrefixSize).length < unpack (b.take lengthPrefixSize) := by
      by_contra hn
      simp only [framing, cutFrame, not_lt.mpr hb, hn, if_false] at hcut
      cases hcut
    simp only [pass, hshort, if_true]
  cases hd with
  | boundary =>
    by_cases hb : lengthPrefixSize ≤ b.length
    · rw [iterate_boundary stop hb (hs.prefix_le hb), iterate_of_needMore (hwait hb)]
      exact ⟨rfl, .announced b hb⟩
    · rw [iterate_of_needMore (by simp only [pass, not_le.mp hb, if_true])]
      exact ⟨rfl, .boundary b⟩
  | announced _ hb =>
    rw [iterate_of_needMore (hwait hb)]
    exact ⟨rfl, .announced b hb⟩

theorem iterate_of_cut_some (hd : StandsAt d b) (hs : P.Streams b) (hcut : framing.cut b = some (p, r)) :
    P.iterate stop d =
      P.afterPayload stop p ⟨.readingPayload, p.length, r⟩
        (P.iterate (stop.map (· - 1)) ⟨.readingLength, 0, r⟩) := by
  obtain ⟨hb, hp, heq⟩ := cutFrame_eq_some hcut
  have hread : P.iterate stop d =
      P.iterate stop ⟨.readingPayload, unpack (b.take lengthPrefixSize), b.drop lengthPrefixSize⟩ := by
    cases hd with
    | boundary => exact iterate_boundary stop hb (hs.prefix_le hb)
    | announced => rfl
  have hdrop : b.drop lengthPrefixSize = p ++ r := by
    conv_lhs => rw [heq]
    exact List.drop_left' (List.length_take_of_le hb)
  have hfits : ¬ (p ++ r).length < p.length := by
    rw [List.length_append]
    omega
  rw [hread, ← hp, hdrop]
  cases hm : P.serializer.deserialize p with
  | error e =>
    simp only [afterPayload, hm]
    apply iterate_of_raised
    simp only [pass, hfits, if_false, List.take_left, List.drop_left, hm]
  | ok m =>
    have hpass : P.pass ⟨.readingPayload, p.length, p ++ r⟩ =
        .yielded m ⟨.readingPayload, p.length, r⟩ := by
      simp only [pass, hfits, if_false, List.take_left, List.drop_left, hm]
    rw [iterate_of_yielded hpass]
    simp only [afterPayload, hm, resume]

theorem iterate_of_standsAt (stop : Option ℕ) (hd : StandsAt d b) (hs : P.Streams b) :
    (P.iterate stop d).1 = (P.consume stop b).1 ∧
      (StandsAt (P.iterate stop d).2 (P.consume stop b).2 ↔
        (P.consume stop b).1.ending = .exhausted) := by
  induction b using framing.frameInduction generalizing stop d with
  | none b hcut =>
    obtain ⟨hout, hend⟩ := iterate_of_cut_none stop hd hs hcut
    rw [consume_of_none hcut]
    exact ⟨hout, iff_of_true hend rfl⟩
  | some b p r hcut ih =>
    have hstuck := not_standsAt_payload p.length r
    rw [iterate_of_cut_some hd hs hcut, consume_of_some hcut]
    cases hm : P.serializer.deserialize p with
    | error e =>
      rw [afterPayload_of_error hm, afterPayload_of_error hm]
      exact ⟨rfl, iff_of_false hstuck (by rintro ⟨⟩)⟩
    | ok m =>
      by_cases hstop : stop = some 0
      · subst hstop
        rw [afterPayload_of_stop hm, afterPayload_of_stop hm]
        exact ⟨rfl, iff_of_false hstuck (by rintro ⟨⟩)⟩
      · obtain ⟨hout, hend⟩ := ih (stop.map (· - 1)) (.boundary r) (hs.of_cut hcut)
        rw [afterPayload_of_go hm hstop, afterPayload_of_go hm hstop]
        exact ⟨congrArg (Outcome.cons m) hout, hend⟩

end LengthPrefixedProtocol

end LlmGateway.Transport
