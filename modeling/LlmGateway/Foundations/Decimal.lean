import LlmGateway.Foundations.Json
import Mathlib.Algebra.Group.Nat.Defs

/-!
# Integers as decimal text

`str(n)` and `int(s)` as Python has them. `int` takes white space around the number, a sign, single
underscores between the digits and the decimal digits of every script. Both refuse a number of more than
4300 digits. What `str` writes, `int` reads (`ofText_toText`).
-/

namespace LlmGateway.Decimal

/-- `sys.int_info.default_max_str_digits`. -/
def maxStrDigits : ℕ := 4300

/-- The digits of a natural number, within the limit. -/
def natToText (n : ℕ) : Option (List Char) :=
  if (Nat.toDigits 10 n).length ≤ maxStrDigits then some (Nat.toDigits 10 n) else none

/-- `str(n)`; `none` is its `ValueError`. -/
def toText : ℤ → Option (List Char)
  | .ofNat n => natToText n
  | .negSucc n => (natToText (n + 1)).map ('-' :: ·)

/-- The zeros of the runs of ten decimal digits in Unicode 15. -/
def zeros : List ℕ :=
  [0x30, 0x660, 0x6f0, 0x7c0, 0x966, 0x9e6, 0xa66, 0xae6, 0xb66, 0xbe6, 0xc66, 0xce6, 0xd66, 0xde6,
    0xe50, 0xed0, 0xf20, 0x1040, 0x1090, 0x17e0, 0x1810, 0x1946, 0x19d0, 0x1a80, 0x1a90, 0x1b50, 0x1bb0,
    0x1c40, 0x1c50, 0xa620, 0xa8d0, 0xa900, 0xa9d0, 0xa9f0, 0xaa50, 0xabf0, 0xff10, 0x104a0, 0x10d30,
    0x11066, 0x110f0, 0x11136, 0x111d0, 0x112f0, 0x11450, 0x114d0, 0x11650, 0x116c0, 0x11730, 0x118e0,
    0x11950, 0x11c50, 0x11d50, 0x11da0, 0x11f50, 0x16a60, 0x16ac0, 0x16b50, 0x1d7ce, 0x1d7d8, 0x1d7e2,
    0x1d7ec, 0x1d7f6, 0x1e140, 0x1e2f0, 0x1e4f0, 0x1e950, 0x1fbf0]

/-- A character as `int` sees it: beyond ASCII, white space is a space, a decimal digit the ASCII one, and
anything else a question mark. -/
def toAscii (c : Char) : Char :=
  if c.toNat < 127 then c
  else if Json.isSpace c then ' '
  else
    match zeros.find? fun z => z ≤ c.toNat && c.toNat < z + 10 with
    | some z => Nat.digitChar (c.toNat - z)
    | none => '?'

def isAsciiSpace (c : Char) : Bool := c.toNat = 32 || (9 ≤ c.toNat && c.toNat ≤ 13)

/-- The text without white space at its ends. -/
def trim (s : List Char) : List Char :=
  ((s.dropWhile isAsciiSpace).reverse.dropWhile isAsciiSpace).reverse

/-- A number without its sign: digits in groups that single underscores separate. -/
def natOfText (s : List Char) : Option ℕ :=
  let groups := s.splitOn '_'
  if groups.all (!·.isEmpty) && groups.flatten.all Char.isDigit && groups.flatten.length ≤ maxStrDigits then
    some (Nat.ofDigitChars 10 groups.flatten 0)
  else none

/-- The number a trimmed ASCII text denotes. -/
def signedOfText : List Char → Option ℤ
  | '-' :: s => (natOfText s).map fun n => -(n : ℤ)
  | '+' :: s => (natOfText s).map fun n => (n : ℤ)
  | s => (natOfText s).map fun n => (n : ℤ)

/-- `int(s)`; `none` is its `ValueError`. -/
def ofText (s : List Char) : Option ℤ :=
  signedOfText (trim (s.map toAscii))

/-! ### The round trip -/

variable {c : Char} {s : List Char}

theorem isDigit_toDigits {n : ℕ} (h : c ∈ Nat.toDigits 10 n) : c.isDigit = true :=
  Nat.isDigit_of_mem_toDigits (by decide) (by decide) h

theorem natOfText_of_isDigit (hne : s ≠ []) (hs : ∀ c ∈ s, c.isDigit = true)
    (hlen : s.length ≤ maxStrDigits) : natOfText s = some (Nat.ofDigitChars 10 s 0) := by
  have hunderscore : '_' ∉ s := fun hmem => absurd (hs '_' hmem) (by decide)
  have hsplit : s.splitOn '_' = [s] := List.splitOn_eq_singleton hunderscore
  have hall : s.all Char.isDigit = true := List.all_eq_true.mpr hs
  simp [natOfText, hsplit, hall, hlen, hne]

theorem bounds_of_isDigit (h : c.isDigit = true) : 48 ≤ c.toNat ∧ c.toNat ≤ 57 := by
  simp only [Char.isDigit, Bool.and_eq_true, decide_eq_true_eq, UInt32.le_iff_toNat_le] at h
  exact h

theorem natOfText_toDigits {n : ℕ} (h : (Nat.toDigits 10 n).length ≤ maxStrDigits) :
    natOfText (Nat.toDigits 10 n) = some n := by
  have hsplit : (Nat.toDigits 10 n).splitOn '_' = [Nat.toDigits 10 n] :=
    List.splitOn_eq_singleton Nat.underscore_not_in_toDigits
  have hall : (Nat.toDigits 10 n).all Char.isDigit = true :=
    List.all_eq_true.mpr fun c hc => isDigit_toDigits hc
  simp [natOfText, hsplit, hall, h]

theorem signedOfText_of_isDigit (h : ∀ c ∈ s, c.isDigit = true) :
    signedOfText s = (natOfText s).map fun n => (n : ℤ) := by
  unfold signedOfText
  split
  · exact absurd (h '-' List.mem_cons_self) (by decide)
  · exact absurd (h '+' List.mem_cons_self) (by decide)
  · rfl

theorem trim_of_forall (h : ∀ c ∈ s, isAsciiSpace c = false) : trim s = s := by
  have hid {l : List Char} (hl : ∀ c ∈ l, isAsciiSpace c = false) : l.dropWhile isAsciiSpace = l := by
    cases l with
    | nil => rfl
    | cons c l => rw [List.dropWhile_cons, hl c List.mem_cons_self, if_neg Bool.false_ne_true]
  rw [trim, hid h, hid (by simpa using h), List.reverse_reverse]

theorem bounds_of_mem_toText {n : ℤ} (h : toText n = some s) (hc : c ∈ s) :
    45 ≤ c.toNat ∧ c.toNat ≤ 57 := by
  cases n with
  | ofNat n =>
    simp only [toText, natToText] at h
    split at h
    · obtain rfl := Option.some.inj h
      have := bounds_of_isDigit (isDigit_toDigits hc)
      omega
    · cases h
  | negSucc n =>
    simp only [toText, natToText] at h
    split at h
    · obtain rfl := Option.some.inj h
      rcases List.mem_cons.mp hc with rfl | hc
      · decide
      · have := bounds_of_isDigit (isDigit_toDigits hc)
        omega
    · cases h

theorem ofText_toText {n : ℤ} (h : toText n = some s) : ofText s = some n := by
  have hascii : s.map toAscii = s := by
    conv_rhs => rw [← List.map_id s]
    apply List.map_congr_left
    intro c hc
    have := bounds_of_mem_toText h hc
    rw [toAscii, if_pos (by omega), id]
  have hspace : ∀ c ∈ s, isAsciiSpace c = false := by
    intro c hc
    have := bounds_of_mem_toText h hc
    simp only [isAsciiSpace, Bool.or_eq_false_iff, Bool.and_eq_false_iff, decide_eq_false_iff_not]
    omega
  rw [ofText, hascii, trim_of_forall hspace]
  cases n with
  | ofNat n =>
    simp only [toText, natToText] at h
    split at h
    · next hn =>
      obtain rfl := Option.some.inj h
      rw [signedOfText_of_isDigit fun c hc => isDigit_toDigits hc, natOfText_toDigits hn]
      rfl
    · cases h
  | negSucc n =>
    simp only [toText, natToText] at h
    split at h
    · next hn =>
      obtain rfl := Option.some.inj h
      simp only [signedOfText, natOfText_toDigits hn]
      rfl
    · cases h

theorem ofText_of_isDigit (hne : s ≠ []) (hs : ∀ c ∈ s, c.isDigit = true)
    (hlen : s.length ≤ maxStrDigits) : ofText s = some (Nat.ofDigitChars 10 s 0 : ℤ) := by
  have hascii : s.map toAscii = s := by
    conv_rhs => rw [← List.map_id s]
    apply List.map_congr_left
    intro c hc
    have := bounds_of_isDigit (hs c hc)
    rw [toAscii, if_pos (by omega), id]
  have hspace : ∀ c ∈ s, isAsciiSpace c = false := by
    intro c hc
    have := bounds_of_isDigit (hs c hc)
    simp only [isAsciiSpace, Bool.or_eq_false_iff, Bool.and_eq_false_iff, decide_eq_false_iff_not]
    omega
  rw [ofText, hascii, trim_of_forall hspace, signedOfText_of_isDigit hs, natOfText_of_isDigit hne hs hlen]
  rfl

theorem toText_eq_none_iff (n : ℤ) : toText n = none ↔ 10 ^ maxStrDigits ≤ n.natAbs := by
  have hlen (k : ℕ) : natToText k = none ↔ 10 ^ maxStrDigits ≤ k := by
    have hdigits : (Nat.toDigits 10 k).length ≤ maxStrDigits ↔ k < 10 ^ maxStrDigits :=
      Nat.length_toDigits_le_iff (by decide) (by decide)
    rw [natToText, ite_eq_right_iff, hdigits, ← not_lt]
    exact ⟨fun h hk => Option.some_ne_none _ (h hk), fun h hk => absurd hk h⟩
  cases n with
  | ofNat k => exact hlen k
  | negSucc k =>
    rw [toText, Option.map_eq_none_iff, hlen]
    rfl

end LlmGateway.Decimal
