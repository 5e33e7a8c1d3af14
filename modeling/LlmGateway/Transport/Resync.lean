import LlmGateway.Transport.Frames

/-!
# Sequences of decode calls

A connection is served by one decoder and a sequence of `decode_stream` calls, each with the bytes just
received and a consumer that may stop early. `decodeCalls` runs the decoder, `consumeCalls` is the same
sequence on the stream, where every frame is consumed as a whole.

The decoder removes a payload from its buffer before it deserializes it, and moves its state machine on
only after the consumer has asked for the next message. A call that raises, or that the consumer leaves
after a message, therefore loses the frame boundary: the decoder waits for a payload that is gone and
takes the bytes behind it for one. `resynchronises_iff` says that this is exactly what goes wrong.
-/

namespace LlmGateway.Transport

namespace LengthPrefixedProtocol

/-- A `decode_stream` call: the bytes received, and after how many messages beyond the first the consumer
stops (`none`: it iterates to the end). -/
structure Call where
  data : List UInt8
  stop : Option ℕ
  deriving DecidableEq

variable {M : Type} (P : LengthPrefixedProtocol M)

/-- What the consumers of a sequence of calls see, and the decoder they leave. -/
def decodeCalls (d : Decoder) : List Call → List (Outcome M) × Decoder
  | [] => ([], d)
  | c :: cs =>
    let r := P.decodeStream d c.data c.stop
    (r.1 :: (decodeCalls r.2 cs).1, (decodeCalls r.2 cs).2)

/-- The same calls on the stream, `b` being what is left of it from before. -/
def consumeCalls (b : List UInt8) : List Call → List (Outcome M) × List UInt8
  | [] => ([], b)
  | c :: cs =>
    let r := P.consume c.stop (b ++ c.data)
    (r.1 :: (consumeCalls r.2 cs).1, (consumeCalls r.2 cs).2)

/-- The call neither meets a payload that fails to deserialize nor is left by its consumer: all frames
that are complete in `b` deserialize, and there are not enough of them for the consumer to stop. -/
def Completes (stop : Option ℕ) (b : List UInt8) : Prop :=
  (∀ p ∈ (framing.split b).1, ∃ m, P.serializer.deserialize p = .ok m) ∧
    ∀ k, stop = some k → (framing.split b).1.length ≤ k

/-- Every call completes. -/
def AllComplete (b : List UInt8) : List Call → Prop
  | [] => True
  | c :: cs => P.Completes c.stop (b ++ c.data) ∧ AllComplete (framing.split (b ++ c.data)).2 cs

/-- The decoder resynchronises after every one of the calls: its consumers have seen what they would see
if every frame were consumed as a whole, and it is at the frame boundary behind the frames given out. -/
def Resynchronises (calls : List Call) : Prop :=
  ∀ cs, cs <+: calls →
    (P.decodeCalls .initial cs).1 = (P.consumeCalls [] cs).1 ∧
      StandsAt (P.decodeCalls .initial cs).2 (P.consumeCalls [] cs).2

variable {P}

variable {b : List UInt8} {stop : Option ℕ}

theorem completes_of_none (h : framing.cut b = none) :
    P.Completes stop b := by
  unfold Completes
  rw [Framing.split_of_none h]
  exact ⟨fun p hp => absurd hp List.not_mem_nil, fun k _ => Nat.zero_le k⟩

theorem completes_of_some {p r : List UInt8} (h : framing.cut b = some (p, r)) :
    P.Completes stop b ↔
      (∃ m, P.serializer.deserialize p = .ok m) ∧ stop ≠ some 0 ∧ P.Completes (stop.map (· - 1)) r := by
  unfold Completes
  rw [Framing.split_of_some h, List.forall_mem_cons]
  constructor
  · rintro ⟨⟨hp, hr⟩, hstop⟩
    refine ⟨hp, ?_, hr, ?_⟩
    · intro h0
      exact absurd (hstop 0 h0) (by simp)
    · intro k hk
      obtain ⟨k', rfl, rfl⟩ := Option.map_eq_some_iff.mp hk
      have := hstop k' rfl
      rw [List.length_cons] at this
      omega
  · rintro ⟨hp, h0, hr, hstop⟩
    refine ⟨⟨hp, hr⟩, ?_⟩
    rintro k rfl
    have hk : k ≠ 0 := by
      rintro rfl
      exact h0 rfl
    have := hstop (k - 1) rfl
    rw [List.length_cons]
    omega

theorem consume_of_completes (h : P.Completes stop b) :
    (P.consume stop b).1.ending = .exhausted ∧ (P.consume stop b).2 = (framing.split b).2 ∧
      (P.consume stop b).1.messages.map Except.ok = (framing.split b).1.map P.serializer.deserialize := by
  induction b using framing.frameInduction generalizing stop with
  | none b hcut =>
    rw [consume_of_none hcut, Framing.split_of_none hcut]
    exact ⟨rfl, rfl, rfl⟩
  | some b p r hcut ih =>
    obtain ⟨⟨m, hm⟩, hstop, hr⟩ := (completes_of_some hcut).mp h
    obtain ⟨hend, hrest, hmsgs⟩ := ih hr
    rw [consume_of_some hcut, afterPayload_of_go hm hstop, Framing.split_of_some hcut]
    refine ⟨hend, hrest, ?_⟩
    rw [List.map_cons, ← hmsgs, hm]
    rfl

theorem completes_of_exhausted (h : (P.consume stop b).1.ending = .exhausted) : P.Completes stop b := by
  induction b using framing.frameInduction generalizing stop with
  | none b hcut => exact completes_of_none hcut
  | some b p r hcut ih =>
    rw [consume_of_some hcut] at h
    rw [completes_of_some hcut]
    cases hm : P.serializer.deserialize p with
    | error e =>
      rw [afterPayload_of_error hm] at h
      cases h
    | ok m =>
      by_cases hstop : stop = some 0
      · subst hstop
        rw [afterPayload_of_stop hm] at h
        cases h
      · rw [afterPayload_of_go hm hstop] at h
        exact ⟨⟨m, rfl⟩, hstop, ih h⟩

theorem decodeStream_of_standsAt {d : Decoder} (hd : StandsAt d b) {c : Call} (hs : P.Streams (b ++ c.data)) :
    (P.decodeStream d c.data c.stop).1 = (P.consume c.stop (b ++ c.data)).1 ∧
      (StandsAt (P.decodeStream d c.data c.stop).2 (P.consume c.stop (b ++ c.data)).2 ↔
        P.Completes c.stop (b ++ c.data)) := by
  obtain ⟨hout, hend⟩ := iterate_of_standsAt c.stop (hd.append c.data) hs
  refine ⟨hout, hend.trans ⟨completes_of_exhausted, ?_⟩⟩
  intro h
  exact (consume_of_completes h).1

theorem decodeCalls_of_standsAt {d : Decoder} (hd : StandsAt d b) {calls : List Call}
    (hs : P.Streams (b ++ (calls.map Call.data).flatten)) :
    (∀ cs, cs <+: calls →
      (P.decodeCalls d cs).1 = (P.consumeCalls b cs).1 ∧
        StandsAt (P.decodeCalls d cs).2 (P.consumeCalls b cs).2) ↔ P.AllComplete b calls := by
  induction calls generalizing d b with
  | nil =>
    refine iff_of_true ?_ trivial
    intro cs hcs
    obtain rfl := List.prefix_nil.mp hcs
    exact ⟨rfl, hd⟩
  | cons c calls ih =>
    rw [List.map_cons, List.flatten_cons, ← List.append_assoc] at hs
    obtain ⟨hout, hstands⟩ := decodeStream_of_standsAt hd hs.of_append
    have hrest : P.Streams ((framing.split (b ++ c.data)).2 ++ (calls.map Call.data).flatten) :=
      hs.split_append
    constructor
    · intro h
      -- the first call alone tells that it completed
      have hc : P.Completes c.stop (b ++ c.data) :=
        hstands.mp (h [c] (List.prefix_append [c] calls)).2
      have hb := (consume_of_completes hc).2.1
      refine ⟨hc, (ih (hb ▸ hstands.mpr hc) hrest).mp ?_⟩
      intro cs hcs
      have := h (c :: cs) ((List.prefix_cons_inj c).mpr hcs)
      simp only [decodeCalls, consumeCalls, hb, List.cons.injEq] at this
      exact ⟨this.1.2, this.2⟩
    · rintro ⟨hc, hcalls⟩ cs hcs
      have hb := (consume_of_completes hc).2.1
      have hnext := (ih (hb ▸ hstands.mpr hc) hrest).mpr hcalls
      rcases List.prefix_cons_iff.mp hcs with rfl | ⟨cs', rfl, hcs'⟩
      · exact ⟨rfl, hd⟩
      · obtain ⟨houts, hend⟩ := hnext cs' hcs'
        simp only [decodeCalls, consumeCalls, hb, List.cons.injEq]
        exact ⟨⟨hout, houts⟩, hend⟩

/-- On a stream of frames within the size limit, the decoder resynchronises after every call if and only
if every call runs to its end: no payload it meets fails to deserialize, and no consumer stops after a
message. -/
theorem resynchronises_iff {calls : List Call}
    (hs : P.Streams (calls.map Call.data).flatten) :
    P.Resynchronises calls ↔ P.AllComplete [] calls :=
  decodeCalls_of_standsAt (.boundary []) hs

/-- Two frames that a consumer iterates to the end, the first one cut inside its prefix. -/
def drainedCalls : List Call := [⟨[0, 0], none⟩, ⟨[0, 1, 97, 0, 0, 0, 1], none⟩, ⟨[98], none⟩]

theorem resynchronises_drainedCalls :
    createRawProtocol.Streams (drainedCalls.map Call.data).flatten ∧
      createRawProtocol.AllComplete [] drainedCalls ∧ createRawProtocol.Resynchronises drainedCalls := by
  have hs : createRawProtocol.Streams (drainedCalls.map Call.data).flatten :=
    ⟨[[97], [98]], by decide, List.prefix_rfl⟩
  have hall : createRawProtocol.AllComplete [] drainedCalls :=
    ⟨⟨fun p _ => ⟨p, rfl⟩, by simp⟩, ⟨fun p _ => ⟨p, rfl⟩, by simp⟩,
      ⟨fun p _ => ⟨p, rfl⟩, by simp⟩, trivial⟩
  exact ⟨hs, hall, (resynchronises_iff hs).mpr hall⟩

/-- JSON as the decoder meets it below: `1` is a number, neither `x` nor a zero byte is JSON. -/
def jsonOne : LengthPrefixedProtocol ℕ where
  serializer :=
    { serialize := fun n =>
        if n = 1 then .ok [0x31] else .error "Failed to serialize data as JSON"
      deserialize := fun b =>
        if b = [0x31] then .ok 1
        else .error "Failed to parse JSON: Expecting value: line 1 column 1 (char 0)" }
  str n := toString n
  maxMessageSize := defaultMaxMessageSize
  pos := defaultMaxMessageSize_pos
  le_theoretical := defaultMaxMessageSize_le

/-- The frame of `x`, then the frame of `1`. -/
def failingCalls : List Call := [⟨frame [0x78], none⟩, ⟨frame [0x31], none⟩]

/-- Two frames at once, of which the consumer takes the first, and a call without new bytes. -/
def abandonedCalls : List Call := [⟨frame [97] ++ frame [98], some 0⟩, ⟨[], none⟩]

/-- After a payload that is not JSON the valid message behind it is not decoded. After an abandoned
iteration the consumer gets a zero byte, the first of the next length prefix, for a message. -/
theorem interrupted_not_resynchronises :
    (jsonOne.Streams (failingCalls.map Call.data).flatten ∧ ¬ jsonOne.Resynchronises failingCalls) ∧
      createRawProtocol.Streams (abandonedCalls.map Call.data).flatten ∧
        ¬ createRawProtocol.Resynchronises abandonedCalls := by
  refine ⟨⟨⟨[[0x78], [0x31]], by decide, List.prefix_rfl⟩, ?_⟩,
    ⟨[[97], [98]], by decide, List.prefix_rfl⟩, ?_⟩
  · intro h
    have hout := (h failingCalls List.prefix_rfl).1
    revert hout
    with_unfolding_all decide
  · intro h
    have hout := (h abandonedCalls List.prefix_rfl).1
    revert hout
    with_unfolding_all decide

end LengthPrefixedProtocol

end LlmGateway.Transport
