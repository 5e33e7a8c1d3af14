import LlmGateway.Foundations.Framing
import Mathlib.Data.Nat.Notation

/-!
# The length-prefixed protocol

`LengthPrefixedProtocol` frames a message as the four bytes of its payload's length, big-endian,
followed by the payload. The decoder keeps the bytes it has not read yet and is in one of two states:
it reads a length prefix, or the payload the last prefix announced. `pass` is one pass through the loop
of `decode_stream`, and `iterate` is what the consumer of the generator gets from it: the messages
yielded, how the iteration ended, and the decoder it left behind. The consumer may stop iterating after
any message; the generator then stays suspended at its `yield`, and what stands behind the `yield` is
never run.
-/

namespace LlmGateway.Transport

/-- A serializer. Failures carry the text of the exception. -/
structure Serializer (M : Type) where
  serialize : M → Except String (List UInt8)
  deserialize : List UInt8 → Except String M

/-- `RawBinarySerializer` on `bytes` data. -/
def rawBinarySerializer : Serializer (List UInt8) where
  serialize b := .ok b
  deserialize b := .ok b

/-- The state of the decoder's state machine. -/
inductive DecodingState
  | readingLength
  | readingPayload
  deriving DecidableEq

def lengthPrefixSize : ℕ := 4

/-- `2**32 - 1`, the largest length four bytes can hold. -/
def maxTheoreticalSize : ℕ := 4294967295

def defaultMaxMessageSize : ℕ := 4 * 1024 * 1024

theorem defaultMaxMessageSize_pos : 0 < defaultMaxMessageSize := by decide

theorem defaultMaxMessageSize_le : defaultMaxMessageSize ≤ maxTheoreticalSize := by decide

/-- The settings of a protocol object; the bounds are those its constructor checks. `str` is the text of
a message in an error. -/
structure LengthPrefixedProtocol (M : Type) where
  serializer : Serializer M
  str : M → String
  maxMessageSize : ℕ
  pos : 0 < maxMessageSize
  le_theoretical : maxMessageSize ≤ maxTheoreticalSize

/-- The decoder's state: the state machine, the length the last prefix announced, and the bytes that have
not been read. -/
structure Decoder where
  state : DecodingState
  expectedLength : ℕ
  decodeBuffer : List UInt8
  deriving DecidableEq

/-- A fresh decoder; `reset_decoder` returns to it. -/
def Decoder.initial : Decoder := ⟨.readingLength, 0, []⟩

/-- A protocol that passes bytes through, with the default size limit (`create_raw_protocol`). -/
def createRawProtocol : LengthPrefixedProtocol (List UInt8) where
  serializer := rawBinarySerializer
  str b := toString b
  maxMessageSize := defaultMaxMessageSize
  pos := defaultMaxMessageSize_pos
  le_theoretical := defaultMaxMessageSize_le

/-- `struct.pack("!I", n)`. -/
def pack (n : ℕ) : List UInt8 :=
  [UInt8.ofNat (n / 16777216), UInt8.ofNat (n / 65536), UInt8.ofNat (n / 256), UInt8.ofNat n]

/-- `struct.unpack("!I", b)[0]`. -/
def unpack (b : List UInt8) : ℕ :=
  b.foldl (fun n c => n * 256 + c.toNat) 0

@[simp]
theorem length_pack (n : ℕ) : (pack n).length = lengthPrefixSize := rfl

theorem unpack_pack {n : ℕ} (h : n ≤ maxTheoreticalSize) : unpack (pack n) = n := by
  simp only [maxTheoreticalSize] at h
  simp only [unpack, pack, List.foldl_cons, List.foldl_nil, UInt8.toNat_ofNat']
  omega

namespace LengthPrefixedProtocol

variable {M : Type} (P : LengthPrefixedProtocol M)

def validateMessage (m : M) : Bool :=
  match P.serializer.serialize m with
  | .ok _ => true
  | .error _ => false

/-- `encode`; a failure carries the text of the `EncodeError`. -/
def encode (m : M) : Except String (List UInt8) :=
  if P.validateMessage m = false then
    .error s!"Message validation failed: {P.str m}"
  else
    match P.serializer.serialize m with
    | .error e => .error s!"Failed to encode length-prefixed message: {e}"
    | .ok payload =>
      if payload.length > P.maxMessageSize then
        .error s!"Message payload exceeds maximum size: {payload.length} > {P.maxMessageSize} bytes"
      else
        .ok (pack payload.length ++ payload)

/-- What one pass through the loop of `decode_stream` does. -/
inductive Pass (M : Type)
  /-- The loop is left: more data are needed. -/
  | needMore
  /-- The length prefix was read. -/
  | advanced (d : Decoder)
  /-- A message is yielded; `d` is the decoder at the `yield`. -/
  | yielded (m : M) (d : Decoder)
  /-- A `DecodeError` with this text is raised. -/
  | raised (e : String) (d : Decoder)

/-- One pass through the loop of `decode_stream`, up to its `yield`. -/
def pass (d : Decoder) : Pass M :=
  match d.state with
  | .readingLength =>
    if d.decodeBuffer.length < lengthPrefixSize then
      .needMore
    else
      let payloadLength := unpack (d.decodeBuffer.take lengthPrefixSize)
      if payloadLength > P.maxMessageSize then
        -- the buffer is cleared to prevent memory exhaustion; the state machine is left where it is
        .raised (s!"Message payload length {payloadLength} exceeds maximum {P.maxMessageSize} bytes. " ++
          "This may indicate corrupted data or malicious input.") { d with decodeBuffer := [] }
      else
        .advanced ⟨.readingPayload, payloadLength, d.decodeBuffer.drop lengthPrefixSize⟩
  | .readingPayload =>
    if d.decodeBuffer.length < d.expectedLength then
      .needMore
    else
      let payload := d.decodeBuffer.take d.expectedLength
      -- the payload is removed before it is deserialized, the state machine moves on only after the yield
      let d' := { d with decodeBuffer := d.decodeBuffer.drop d.expectedLength }
      match P.serializer.deserialize payload with
      | .ok m => .yielded m d'
      | .error e => .raised s!"Payload deserialization failed: {e}" d'

/-- What the loop does when the generator is resumed after its `yield`. -/
def resume (d : Decoder) : Decoder := { d with state := .readingLength, expectedLength := 0 }

/-- How far the loop of `decode_stream` can still go. -/
def fuel (d : Decoder) : ℕ :=
  match d.state with
  | .readingLength => d.decodeBuffer.length
  | .readingPayload => d.decodeBuffer.length + 1

variable {P}

theorem fuel_advanced {d d' : Decoder} (h : P.pass d = .advanced d') : fuel d' < fuel d := by
  obtain ⟨state, n, b⟩ := d
  cases state with
  | readingLength =>
    simp only [pass] at h
    split at h
    · cases h
    · next hb =>
      simp only [lengthPrefixSize, not_lt] at hb
      split at h
      · cases h
      · obtain rfl := Pass.advanced.inj h
        simp only [fuel, lengthPrefixSize, List.length_drop]
        omega
  | readingPayload =>
    simp only [pass] at h
    split at h
    · cases h
    · split at h <;> cases h

theorem fuel_yielded {d d' : Decoder} {m : M} (h : P.pass d = .yielded m d') :
    fuel (resume d') < fuel d := by
  obtain ⟨state, n, b⟩ := d
  cases state with
  | readingLength =>
    simp only [pass] at h
    split at h
    · cases h
    · split at h <;> cases h
  | readingPayload =>
    simp only [pass] at h
    split at h
    · cases h
    · split at h
      · obtain ⟨-, rfl⟩ := Pass.yielded.inj h
        simp only [fuel, resume, List.length_drop]
        omega
      · cases h

/-- How the iteration of the generator ended. -/
inductive Ending
  /-- The generator returned. -/
  | exhausted
  /-- It raised a `DecodeError` with this text. -/
  | raised (e : String)
  /-- The consumer stopped iterating after a message. -/
  | abandoned
  deriving DecidableEq

/-- What the consumer of one `decode_stream` call sees: the messages it got and how the iteration
ended. -/
structure Outcome (M : Type) where
  messages : List M
  ending : Ending
  deriving DecidableEq

/-- One more message in front. -/
def Outcome.cons (m : M) (o : Outcome M) : Outcome M := { o with messages := m :: o.messages }

variable (P)

/-- Iterate the generator until it returns or raises, or until the consumer stops: with `stop = some k`
it stops once it has got `k + 1` messages. -/
def iterate (stop : Option ℕ) (d : Decoder) : Outcome M × Decoder :=
  match h : P.pass d with
  | .needMore => (⟨[], .exhausted⟩, d)
  | .advanced d' => iterate stop d'
  | .raised e d' => (⟨[], .raised e⟩, d')
  | .yielded m d' =>
    if stop = some 0 then
      (⟨[m], .abandoned⟩, d')
    else
      let r := iterate (stop.map (· - 1)) (resume d')
      (r.1.cons m, r.2)
  termination_by fuel d
  decreasing_by
  · exact fuel_advanced h
  · exact fuel_yielded h

/-- `decode_stream(data)`, iterated by the consumer. -/
def decodeStream (d : Decoder) (data : List UInt8) (stop : Option ℕ) : Outcome M × Decoder :=
  P.iterate stop { d with decodeBuffer := d.decodeBuffer ++ data }

end LengthPrefixedProtocol

end LlmGateway.Transport
