import Mathlib.Data.List.Basic
import Mathlib.Data.Nat.Notation

/-!
# UTF-8

`encode` writes a text in UTF-8 and `decode` reads bytes the way `bytes.decode("utf-8",
errors="replace")` does: every maximal part of an ill-formed sequence becomes one replacement character.
`decodeWith` reads them with any error handler. A well-formed character is read by the decoder of the
standard library, so that `decode_encode` rests on its round trip; the newline is the one byte whose
place matters to line-based formats (`newline_mem_encode`). A text may be cut in front of every byte that is
not inside a character (`isContinuation_getElem_encode`).
-/

namespace LlmGateway.Utf8

/-- A text in UTF-8. -/
def encode (cs : List Char) : List UInt8 := cs.flatMap String.utf8EncodeChar

/-- How many bytes the sequence that `b` starts has; zero when `b` starts none. -/
def sequenceLength (b : UInt8) : ℕ :=
  if b < 0x80 then 1
  else if b < 0xC2 then 0
  else if b < 0xE0 then 2
  else if b < 0xF0 then 3
  else if b < 0xF5 then 4
  else 0

/-- Whether `c` can follow the first byte `b` of a sequence of several bytes. -/
def isSecond (b c : UInt8) : Bool :=
  (if b = 0xE0 then 0xA0 else if b = 0xF0 then 0x90 else 0x80) ≤ c &&
    c ≤ (if b = 0xED then 0x9F else if b = 0xF4 then 0x8F else 0xBF)

/-- How many bytes the ill-formed sequence in front has: as many as a well-formed one could start
with. -/
def illFormedLength (b : UInt8) : List UInt8 → ℕ
  | [] => 1
  | c :: bs =>
    if 2 ≤ sequenceLength b && isSecond b c then
      -- a third byte belongs to the sequence only if a fourth is missing
      2 + (bs.takeWhile fun c => 0x80 ≤ c && c ≤ 0xBF).length.min (sequenceLength b - 3)
    else 1

/-- `bs.decode("utf-8", errors="replace")`. -/
def decode (bs : List UInt8) : List Char :=
  match bs with
  | [] => []
  | b :: bs =>
    match (b :: bs).toByteArray.utf8DecodeChar? 0 with
    | some c => c :: decode ((b :: bs).drop c.utf8Size)
    | none => '\ufffd' :: decode (bs.drop (illFormedLength b bs - 1))
  termination_by bs.length
  decreasing_by
  · have := c.utf8Size_pos
    simp only [List.length_drop, List.length_cons]
    omega
  · simp only [List.length_drop, List.length_cons]
    omega

/-- `bs.decode("utf-8", errors=…)`: the error handler says what is read in place of an ill-formed sequence, or raises. -/
def decodeWith (errors : List UInt8 → Option (List Char)) (bs : List UInt8) : Option (List Char) :=
  match bs with
  | [] => some []
  | b :: bs =>
    match (b :: bs).toByteArray.utf8DecodeChar? 0 with
    | some c => (decodeWith errors ((b :: bs).drop c.utf8Size)).map fun cs => c :: cs
    | none => (errors ((b :: bs).take (illFormedLength b bs))).bind fun text =>
        (decodeWith errors (bs.drop (illFormedLength b bs - 1))).map fun cs => text ++ cs
  termination_by bs.length
  decreasing_by
  · have := c.utf8Size_pos
    simp only [List.length_drop, List.length_cons]
    omega
  · simp only [List.length_drop, List.length_cons]
    omega

/-- The handler of `errors="replace"`. -/
def replace : List UInt8 → Option (List Char) := fun _ => some ['\ufffd']

/-- The handler of `errors="ignore"`. -/
def ignore : List UInt8 → Option (List Char) := fun _ => some []

@[simp]
theorem encode_nil : encode [] = [] := rfl

@[simp]
theorem encode_cons (c : Char) (cs : List Char) : encode (c :: cs) = String.utf8EncodeChar c ++ encode cs :=
  List.flatMap_cons

@[simp]
theorem encode_append (cs ds : List Char) : encode (cs ++ ds) = encode cs ++ encode ds :=
  List.flatMap_append

theorem newline_ne_or (x : UInt8) {y : UInt8} (hy : y.toNat.testBit 7 = true) : 10 ≠ x ||| y := by
  intro h
  have hbit : (x ||| y).toNat.testBit 7 = true := by
    rw [UInt8.toNat_or, Nat.testBit_or, hy, Bool.or_true]
  rw [← h] at hbit
  revert hbit
  decide

theorem newline_mem_encodeChar (c : Char) : 10 ∈ String.utf8EncodeChar c ↔ c = '\n' := by
  by_cases h1 : c.utf8Size = 1
  · have hle : c.val ≤ 0x7f := Char.utf8Size_eq_one_iff.mp h1
    rw [String.utf8EncodeChar_eq_singleton h1, List.mem_singleton]
    constructor
    · intro heq
      apply Char.ext
      have hnat := congrArg UInt8.toNat heq
      rw [UInt32.toNat_toUInt8] at hnat
      rw [UInt32.le_iff_toNat_le] at hle
      apply UInt32.toNat.inj
      simp at hnat hle ⊢
      omega
    · rintro rfl
      rfl
  · have hc : c ≠ '\n' := by
      rintro rfl
      exact h1 rfl
    refine iff_of_false ?_ hc
    -- every byte of a longer sequence has its highest bit set
    rcases c.utf8Size_eq with h | h | h | h
    · exact absurd h h1
    · rw [String.utf8EncodeChar_eq_cons_cons h]
      simp only [List.mem_cons, List.not_mem_nil, or_false, not_or]
      exact ⟨newline_ne_or _ (by decide), newline_ne_or _ (by decide)⟩
    · rw [String.utf8EncodeChar_eq_cons_cons_cons h]
      simp only [List.mem_cons, List.not_mem_nil, or_false, not_or]
      exact ⟨newline_ne_or _ (by decide), newline_ne_or _ (by decide), newline_ne_or _ (by decide)⟩
    · rw [String.utf8EncodeChar_eq_cons_cons_cons_cons h]
      simp only [List.mem_cons, List.not_mem_nil, or_false, not_or]
      exact ⟨newline_ne_or _ (by decide), newline_ne_or _ (by decide), newline_ne_or _ (by decide),
        newline_ne_or _ (by decide)⟩

theorem newline_mem_encode (cs : List Char) : 10 ∈ encode cs ↔ '\n' ∈ cs := by
  induction cs with
  | nil => simp
  | cons c cs ih =>
    rw [encode_cons, List.mem_append, ih, newline_mem_encodeChar, List.mem_cons, eq_comm]

variable {cs : List Char} {bs : List UInt8} {c : Char} {b : UInt8}

theorem encode_eq_nil : encode cs = [] ↔ cs = [] := by
  cases cs with
  | nil => simp
  | cons c cs => simp [String.utf8EncodeChar_ne_nil]

theorem read_encode_cons (c : Char) (cs : List Char) : ∃ b bs, encode (c :: cs) = b :: bs ∧
    (b :: bs).toByteArray.utf8DecodeChar? 0 = some c ∧ (b :: bs).drop c.utf8Size = encode cs := by
  have hchar : (encode (c :: cs)).toByteArray.utf8DecodeChar? 0 = some c := by
    rw [encode_cons, List.toByteArray_append]
    exact ByteArray.utf8DecodeChar?_utf8EncodeChar_append
  have hdrop : (encode (c :: cs)).drop c.utf8Size = encode cs := by
    rw [encode_cons]
    exact List.drop_left' (String.length_utf8EncodeChar c)
  cases hcs : encode (c :: cs) with
  | nil => simp [encode_eq_nil] at hcs
  | cons b bs =>
    rw [hcs] at hchar hdrop
    exact ⟨b, bs, rfl, hchar, hdrop⟩

@[simp]
theorem decode_encode (cs : List Char) : decode (encode cs) = cs := by
  induction cs with
  | nil => rw [encode_nil, decode]
  | cons c cs ih =>
    obtain ⟨b, bs, hencode, hchar, hdrop⟩ := read_encode_cons c cs
    rw [hencode, decode, hchar]
    simp only [hdrop, ih]

@[simp]
theorem decodeWith_encode (errors : List UInt8 → Option (List Char)) (cs : List Char) :
    decodeWith errors (encode cs) = some cs := by
  induction cs with
  | nil => rw [encode_nil, decodeWith]
  | cons c cs ih =>
    obtain ⟨b, bs, hencode, hchar, hdrop⟩ := read_encode_cons c cs
    rw [hencode, decodeWith, hchar]
    simp only [hdrop, ih, Option.map_some]

theorem decodeWith_encode_append (errors : List UInt8 → Option (List Char)) (cs : List Char) (bs : List UInt8) :
    decodeWith errors (encode cs ++ bs) = (decodeWith errors bs).map fun ds => cs ++ ds := by
  induction cs with
  | nil =>
    rw [encode_nil, List.nil_append]
    cases decodeWith errors bs <;> rfl
  | cons c cs ih =>
    obtain ⟨b, rest, hencode, -, -⟩ := read_encode_cons c cs
    have hchar : (encode (c :: cs) ++ bs).toByteArray.utf8DecodeChar? 0 = some c := by
      rw [encode_cons, List.append_assoc, List.toByteArray_append]
      exact ByteArray.utf8DecodeChar?_utf8EncodeChar_append
    have hdrop : (encode (c :: cs) ++ bs).drop c.utf8Size = encode cs ++ bs := by
      rw [encode_cons, List.append_assoc]
      exact List.drop_left' (String.length_utf8EncodeChar c)
    rw [hencode, List.cons_append] at hchar hdrop ⊢
    rw [decodeWith, hchar]
    simp only [hdrop, ih, Option.map_map]
    rfl

theorem eq_encodeChar_append (h : bs.toByteArray.utf8DecodeChar? 0 = some c) :
    bs = String.utf8EncodeChar c ++ bs.drop c.utf8Size := by
  obtain ⟨rest, hrest⟩ := ByteArray.exists_of_utf8DecodeChar?_eq_some h
  have hlist := congrArg (fun b : ByteArray => b.data.toList) hrest
  simp only [List.data_toByteArray, ByteArray.data_append, Array.toList_append] at hlist
  conv_rhs => rw [hlist, List.drop_left' (String.length_utf8EncodeChar c)]
  exact hlist

theorem encode_decode (h : '\ufffd' ∉ decode bs) : encode (decode bs) = bs := by
  induction bs using decode.induct with
  | case1 => rw [decode, encode_nil]
  | case2 b bs c hchar ih =>
    rw [decode, hchar] at h ⊢
    simp only [List.mem_cons, not_or] at h
    simp only [encode_cons, ih h.2]
    exact (eq_encodeChar_append hchar).symm
  | case3 b bs hchar ih =>
    rw [decode, hchar] at h
    exact (h List.mem_cons_self).elim

theorem encode_isPrefix_encode {ps : List Char} : encode ps <+: encode cs ↔ ps <+: cs := by
  refine ⟨fun h => ?_, fun ⟨rest, h⟩ => ⟨encode rest, by rw [← encode_append, h]⟩⟩
  induction ps generalizing cs with
  | nil => exact List.nil_prefix
  | cons p ps ih =>
    obtain ⟨rest, hrest⟩ := h
    cases cs with
    | nil => simp [String.utf8EncodeChar_ne_nil] at hrest
    | cons c cs =>
      rw [encode_cons, encode_cons, List.append_assoc] at hrest
      -- the first character of either side is read from the same bytes
      have hread (d : Char) (bs : List UInt8) :
          (String.utf8EncodeChar d ++ bs).toByteArray.utf8DecodeChar? 0 = some d := by
        rw [List.toByteArray_append]
        exact ByteArray.utf8DecodeChar?_utf8EncodeChar_append
      have hchar : p = c := by
        have h := hread p (encode ps ++ rest)
        rw [hrest, hread c] at h
        exact (Option.some.inj h).symm
      subst hchar
      exact List.cons_prefix_cons.2 ⟨rfl, ih ⟨rest, List.append_cancel_left hrest⟩⟩

theorem utf8DecodeChar?_head (hc : c.utf8Size ≠ 1)
    (h : String.utf8EncodeChar c = b :: bs) : [b].toByteArray.utf8DecodeChar? 0 = none := by
  cases hd : [b].toByteArray.utf8DecodeChar? 0 with
  | none => rfl
  | some d =>
    have heq : [b] = encode [d] ++ [b].drop d.utf8Size := by simpa using eq_encodeChar_append hd
    have hpre : encode [d] <+: encode [c] := by
      refine List.IsPrefix.trans ⟨_, heq.symm⟩ ?_
      rw [encode_cons, encode_nil, List.append_nil, h]
      exact List.cons_prefix_cons.2 ⟨rfl, List.nil_prefix⟩
    obtain ⟨rfl, -⟩ := List.cons_prefix_cons.1 (encode_isPrefix_encode.1 hpre)
    have hlen := congrArg List.length heq
    rw [List.length_append, encode_cons, encode_nil, List.append_nil, String.length_utf8EncodeChar] at hlen
    have := d.utf8Size_pos
    exact (hc (by simp only [List.length_singleton] at hlen; omega)).elim

theorem decodeWith_ignore_take (ps : List Char) (c : Char) (qs : List Char) :
    decodeWith ignore ((encode (ps ++ c :: qs)).take ((encode ps).length + 1)) =
      some (if c.utf8Size = 1 then ps ++ [c] else ps) := by
  have hpos := String.length_utf8EncodeChar c
  cases hchar : String.utf8EncodeChar c with
  | nil =>
    rw [hchar] at hpos
    exact absurd c.utf8Size_pos (by simp [← hpos])
  | cons b bs =>
    have htake : (encode (ps ++ c :: qs)).take ((encode ps).length + 1) = encode ps ++ [b] := by
      rw [encode_append, encode_cons, hchar, List.take_length_add_append]
      rfl
    rw [htake]
    by_cases hc : c.utf8Size = 1
    · have hbs : bs = [] := by
        rw [hchar, hc] at hpos
        exact List.length_eq_zero_iff.1 (Nat.succ.inj hpos)
      have hone : encode ps ++ [b] = encode (ps ++ [c]) := by
        rw [encode_append, encode_cons, encode_nil, List.append_nil, hchar, hbs]
      rw [if_pos hc, hone, decodeWith_encode]
    · have hnone := utf8DecodeChar?_head hc hchar
      have hread : decodeWith ignore [b] = some [] := by
        rw [decodeWith, hnone]
        simp [ignore, illFormedLength, decodeWith]
      rw [if_neg hc, decodeWith_encode_append, hread, Option.map_some, List.append_nil]

/-! ## Where characters start -/

/-- A byte inside a sequence: `b & 0xC0 == 0x80`. -/
def isContinuation (b : UInt8) : Bool := b &&& 0xC0 == 0x80

theorem isContinuation_or (x : UInt8) : isContinuation (x &&& 0x3f ||| 0x80) = true := by
  rw [isContinuation, beq_iff_eq, ← UInt8.toBitVec_inj]
  exact (by decide : ∀ x : BitVec 8, (x &&& 0x3f ||| 0x80) &&& 0xC0 = 0x80) x.toBitVec

theorem not_isContinuation (h : b.IsUTF8FirstByte) : isContinuation b = false := by
  have hbits : ∀ x : BitVec 8, x &&& 0x80 = 0 ∨ x &&& 0xE0 = 0xC0 ∨ x &&& 0xF0 = 0xE0 ∨ x &&& 0xF8 = 0xF0 →
      x &&& 0xC0 ≠ 0x80 := by decide
  rw [isContinuation, beq_eq_false_iff_ne]
  intro heq
  simp only [UInt8.IsUTF8FirstByte, ← UInt8.toBitVec_inj] at h heq
  exact hbits b.toBitVec h heq

theorem isContinuation_of_mem_tail (h : b ∈ (String.utf8EncodeChar c).tail) :
    isContinuation b = true := by
  rcases c.utf8Size_eq with hsize | hsize | hsize | hsize
  · rw [String.utf8EncodeChar_eq_singleton hsize] at h
    cases h
  · rw [String.utf8EncodeChar_eq_cons_cons hsize] at h
    rw [List.mem_singleton.1 h]
    exact isContinuation_or _
  · rw [String.utf8EncodeChar_eq_cons_cons_cons hsize] at h
    simp only [List.tail_cons, List.mem_cons, List.not_mem_nil, or_false] at h
    obtain rfl | rfl := h
    all_goals exact isContinuation_or _
  · rw [String.utf8EncodeChar_eq_cons_cons_cons_cons hsize] at h
    simp only [List.tail_cons, List.mem_cons, List.not_mem_nil, or_false] at h
    obtain rfl | rfl | rfl := h
    all_goals exact isContinuation_or _

theorem isContinuation_getElem_encodeChar {i : ℕ} (h : i < (String.utf8EncodeChar c).length) :
    isContinuation (String.utf8EncodeChar c)[i] = false ↔ i = 0 := by
  refine ⟨fun hfalse => ?_, fun hi => not_isContinuation (UInt8.isUTF8FirstByte_getElem_utf8EncodeChar.2 hi)⟩
  by_contra hi
  obtain ⟨j, rfl⟩ := Nat.exists_eq_succ_of_ne_zero hi
  have hj : j < (String.utf8EncodeChar c).tail.length := by
    rw [List.length_tail]
    omega
  have htrue := isContinuation_of_mem_tail (List.getElem_mem hj)
  rw [List.getElem_tail] at htrue
  exact Bool.false_ne_true (hfalse.symm.trans htrue)

theorem isContinuation_getElem_encode {i : ℕ} (h : i < (encode cs).length) :
    isContinuation (encode cs)[i] = false ↔ ∃ ps qs, cs = ps ++ qs ∧ (encode ps).length = i := by
  induction cs generalizing i with
  | nil => cases h
  | cons c cs ih =>
    simp only [encode_cons, List.getElem_append]
    by_cases hi : i < (String.utf8EncodeChar c).length
    · rw [dif_pos hi, isContinuation_getElem_encodeChar hi]
      constructor
      · rintro rfl
        exact ⟨[], c :: cs, rfl, rfl⟩
      · rintro ⟨ps, qs, heq, hlen⟩
        cases ps with
        | nil => exact hlen.symm
        | cons p ps =>
          obtain rfl := (List.cons.inj heq).1
          rw [encode_cons, List.length_append] at hlen
          omega
    · rw [encode_cons, List.length_append] at h
      rw [dif_neg hi, ih (by omega)]
      constructor
      · rintro ⟨ps, qs, rfl, hlen⟩
        refine ⟨c :: ps, qs, rfl, ?_⟩
        rw [encode_cons, List.length_append]
        omega
      · rintro ⟨ps, qs, heq, hlen⟩
        cases ps with
        | nil =>
          obtain rfl : 0 = i := hlen
          exact (hi (by simp [c.utf8Size_pos])).elim
        | cons p ps =>
          obtain ⟨rfl, rfl⟩ := List.cons.inj heq
          rw [encode_cons, List.length_append] at hlen
          exact ⟨ps, qs, rfl, by omega⟩

end LlmGateway.Utf8
