import Mathlib.Data.Int.Log
import Mathlib.Data.Rat.Floor
import Mathlib.Algebra.Order.Field.Power
import Mathlib.Tactic.Linarith
import Mathlib.Tactic.Positivity
import Mathlib.Tactic.Ring

/-!
# Python numbers

The floats of Python are IEEE binary64. A finite one is kept as the rational that it is, so that an
operation is the exact one followed by a rounding: to nearest, ties to even, with 53 significant bits and
no exponent below `-1074` (`nearest`), and to an infinity from `2 ^ 1024` on (`ofRat`). The two zeros are
not told apart.

Three facts about the rounding of a non-negative number carry every bound: it is monotone
(`nearest_mono`), it leaves the integers below `2 ^ 53` as they are (`nearest_natCast`), and it is off by at
most `2 ^ -53` of the number and `2 ^ -1075` (`abs_nearest_sub_le`).
-/

namespace LlmGateway

namespace Binary64

/-! ## Rounding to an integer -/

/-- The integer nearest to `q`, and of two the even one. -/
def roundHalfEven (q : ℚ) : ℤ :=
  if Int.fract q < 1 / 2 then ⌊q⌋
  else if 1 / 2 < Int.fract q then ⌊q⌋ + 1
  else if ⌊q⌋ % 2 = 0 then ⌊q⌋ else ⌊q⌋ + 1

theorem roundHalfEven_cases (q : ℚ) :
    (roundHalfEven q = ⌊q⌋ ∧ Int.fract q ≤ 1 / 2) ∨ (roundHalfEven q = ⌊q⌋ + 1 ∧ 1 / 2 ≤ Int.fract q) := by
  rw [roundHalfEven]
  split_ifs with hlt hgt heven
  · exact .inl ⟨rfl, hlt.le⟩
  · exact .inr ⟨rfl, hgt.le⟩
  · exact .inl ⟨rfl, not_lt.1 hgt⟩
  · exact .inr ⟨rfl, not_lt.1 hlt⟩

theorem abs_roundHalfEven_sub_le (q : ℚ) : |roundHalfEven q - q| ≤ 1 / 2 := by
  have hfract := Int.self_sub_floor q
  have hlt := Int.fract_lt_one q
  have hnonneg := Int.fract_nonneg q
  rw [abs_le]
  obtain ⟨h, hle⟩ | ⟨h, hle⟩ := roundHalfEven_cases q
  · rw [h]
    constructor <;> linarith
  · rw [h, Int.cast_add, Int.cast_one]
    constructor <;> linarith

@[simp] theorem roundHalfEven_intCast (n : ℤ) : roundHalfEven n = n := by
  simp [roundHalfEven]

variable {p q : ℚ} {n : ℕ}

theorem roundHalfEven_mono (h : p ≤ q) : roundHalfEven p ≤ roundHalfEven q := by
  obtain hlt | heq := (Int.floor_mono h).lt_or_eq
  · obtain ⟨hp, -⟩ | ⟨hp, -⟩ := roundHalfEven_cases p <;>
      obtain ⟨hq, -⟩ | ⟨hq, -⟩ := roundHalfEven_cases q <;> omega
  · -- with the same floor the two are compared by their fractions
    have hfract : Int.fract p ≤ Int.fract q := by
      rw [← Int.self_sub_floor, ← Int.self_sub_floor, heq]
      linarith
    rw [roundHalfEven, roundHalfEven, heq]
    split_ifs <;> first | omega | linarith

/-! ## Rounding to 53 bits -/

/-- The exponent of the last place of `q`. -/
def lastPlace (q : ℚ) : ℤ := max (Int.log 2 q - 52) (-1074)

/-- The float nearest to a number `0 ≤ q`, without a bound on its exponent from above. -/
def nearestPos (q : ℚ) : ℚ := roundHalfEven (q / 2 ^ lastPlace q) * 2 ^ lastPlace q

/-- The float nearest to `q`, without a bound on its exponent from above. -/
def nearest (q : ℚ) : ℚ := if q < 0 then -nearestPos (-q) else nearestPos q

theorem nearest_of_nonneg (h : 0 ≤ q) : nearest q = nearestPos q := if_neg h.not_gt

@[simp] theorem nearest_zero : nearest 0 = 0 := by with_unfolding_all decide

theorem lastPlace_mono (hp : 0 < p) (h : p ≤ q) : lastPlace p ≤ lastPlace q :=
  max_le_max (sub_le_sub_right (Int.log_mono_right hp h) 52) le_rfl

theorem nearestPos_le {m : ℤ} (h : q ≤ m * 2 ^ lastPlace q) :
    nearestPos q ≤ m * 2 ^ lastPlace q := by
  have hle : q / 2 ^ lastPlace q ≤ m := (div_le_iff₀ (by positivity)).2 h
  have hround := roundHalfEven_mono hle
  rw [roundHalfEven_intCast] at hround
  have hcast : (roundHalfEven (q / 2 ^ lastPlace q) : ℚ) ≤ m := by exact_mod_cast hround
  rw [nearestPos]
  gcongr

theorem le_nearestPos {m : ℤ} (h : m * 2 ^ lastPlace q ≤ q) :
    m * 2 ^ lastPlace q ≤ nearestPos q := by
  have hle : (m : ℚ) ≤ q / 2 ^ lastPlace q := (le_div_iff₀ (by positivity)).2 h
  have hround := roundHalfEven_mono hle
  rw [roundHalfEven_intCast] at hround
  have hcast : (m : ℚ) ≤ roundHalfEven (q / 2 ^ lastPlace q) := by exact_mod_cast hround
  rw [nearestPos]
  gcongr

theorem nearest_nonneg (h : 0 ≤ q) : 0 ≤ nearest q := by
  have hle := le_nearestPos (q := q) (m := 0) (by simpa using h)
  rw [nearest_of_nonneg h]
  simpa using hle

/-- **Rounding is monotone.** -/
theorem nearest_mono (hp : 0 ≤ p) (h : p ≤ q) : nearest p ≤ nearest q := by
  obtain rfl | hp := hp.eq_or_lt
  · rw [nearest_zero]
    exact nearest_nonneg h
  rw [nearest_of_nonneg hp.le, nearest_of_nonneg (hp.le.trans h)]
  obtain hlt | heq := (lastPlace_mono hp h).lt_or_eq
  · -- the places differ: a power of two lies between the two numbers, and between their roundings
    have hplace : lastPlace q = Int.log 2 q - 52 := by
      have hmin : -1074 ≤ lastPlace p := le_max_right _ _
      have hq : lastPlace q = max (Int.log 2 q - 52) (-1074) := rfl
      omega
    have hlow : p ≤ ((2 ^ 53 : ℤ) : ℚ) * 2 ^ lastPlace p := by
      have hlog : Int.log 2 p - 52 ≤ lastPlace p := le_max_left _ _
      calc p ≤ 2 ^ (Int.log 2 p + 1) := (Int.lt_zpow_succ_log_self one_lt_two p).le
        _ ≤ 2 ^ (53 + lastPlace p) := zpow_le_zpow_right₀ one_le_two (by omega)
        _ = ((2 ^ 53 : ℤ) : ℚ) * 2 ^ lastPlace p := by
          rw [zpow_add₀ two_ne_zero]
          norm_num
    have hhigh : ((2 ^ 52 : ℤ) : ℚ) * 2 ^ lastPlace q ≤ q := by
      calc ((2 ^ 52 : ℤ) : ℚ) * 2 ^ lastPlace q = 2 ^ (52 + lastPlace q) := by
            rw [zpow_add₀ two_ne_zero]
            norm_num
        _ = 2 ^ Int.log 2 q := by rw [hplace, add_sub_cancel]
        _ ≤ q := Int.zpow_log_le_self one_lt_two (hp.trans_le h)
    calc nearestPos p ≤ ((2 ^ 53 : ℤ) : ℚ) * 2 ^ lastPlace p := nearestPos_le hlow
      _ = 2 ^ (53 + lastPlace p) := by
        rw [zpow_add₀ two_ne_zero]
        norm_num
      _ ≤ 2 ^ (52 + lastPlace q) := zpow_le_zpow_right₀ one_le_two (by omega)
      _ = ((2 ^ 52 : ℤ) : ℚ) * 2 ^ lastPlace q := by
        rw [zpow_add₀ two_ne_zero]
        norm_num
      _ ≤ nearestPos q := le_nearestPos hhigh
  · have hround : roundHalfEven (p / 2 ^ lastPlace q) ≤ roundHalfEven (q / 2 ^ lastPlace q) := by
      apply roundHalfEven_mono
      gcongr
    have hcast : (roundHalfEven (p / 2 ^ lastPlace q) : ℚ) ≤ roundHalfEven (q / 2 ^ lastPlace q) := by
      exact_mod_cast hround
    rw [nearestPos, nearestPos, heq]
    gcongr

/-- **The integers below `2 ^ 53` are floats.** -/
theorem nearest_natCast (h : n < 2 ^ 53) : nearest n = n := by
  have hlog : Int.log 2 (n : ℚ) ≤ 52 := by
    rw [Int.log_natCast]
    have hle : Nat.log 2 n < 53 := Nat.log_lt_of_lt_pow' (by norm_num) h
    omega
  have hplace : lastPlace (n : ℚ) ≤ 0 := max_le (by omega) (by norm_num)
  obtain ⟨k, hk⟩ := Int.eq_ofNat_of_zero_le (neg_nonneg.2 hplace)
  have hunit : (2 : ℚ) ^ lastPlace (n : ℚ) * 2 ^ k = 1 := by
    rw [← zpow_natCast, ← zpow_add₀ two_ne_zero]
    simp [← hk]
  have hdiv : (n : ℚ) / 2 ^ lastPlace (n : ℚ) = ((n * 2 ^ k : ℤ) : ℚ) := by
    rw [div_eq_iff (by positivity)]
    push_cast
    rw [mul_assoc, mul_comm (2 ^ k : ℚ), hunit, mul_one]
  rw [nearest_of_nonneg (Nat.cast_nonneg n), nearestPos, hdiv, roundHalfEven_intCast]
  push_cast
  rw [mul_assoc, mul_comm (2 ^ k : ℚ), hunit, mul_one]

theorem nearest_le_natCast (hq : 0 ≤ q) (h : q ≤ n) (hn : n < 2 ^ 53) : nearest q ≤ n := by
  have hle := nearest_mono hq h
  rwa [nearest_natCast hn] at hle

theorem natCast_le_nearest (h : n ≤ q) (hn : n < 2 ^ 53) : n ≤ nearest q := by
  have hle := nearest_mono (Nat.cast_nonneg n) h
  rwa [nearest_natCast hn] at hle

/-- **How far a number is from what it is rounded to.** -/
theorem abs_nearest_sub_le (h : 0 ≤ q) :
    |nearest q - q| ≤ 2 ^ (-53 : ℤ) * q + 2 ^ (-1075 : ℤ) := by
  obtain rfl | hq := h.eq_or_lt
  · simp
  have hplace : (2 : ℚ) ^ lastPlace q ≤ 2 ^ (-52 : ℤ) * q + 2 ^ (-1074 : ℤ) := by
    have hshare : (0 : ℚ) ≤ 2 ^ (-52 : ℤ) * q := by positivity
    have hsub : (0 : ℚ) ≤ 2 ^ (-1074 : ℤ) := by positivity
    obtain hmax | hmax := max_choice (Int.log 2 q - 52) (-1074)
    · have hlog : (2 : ℚ) ^ Int.log 2 q ≤ q := Int.zpow_log_le_self one_lt_two hq
      calc (2 : ℚ) ^ lastPlace q = 2 ^ (-52 : ℤ) * 2 ^ Int.log 2 q := by
            rw [← zpow_add₀ two_ne_zero, lastPlace, hmax, sub_eq_neg_add]
        _ ≤ 2 ^ (-52 : ℤ) * q := by gcongr
        _ ≤ 2 ^ (-52 : ℤ) * q + 2 ^ (-1074 : ℤ) := by linarith
    · rw [lastPlace, hmax]
      linarith
  have hround := abs_roundHalfEven_sub_le (q / 2 ^ lastPlace q)
  have hsplit : nearest q - q =
      (roundHalfEven (q / 2 ^ lastPlace q) - q / 2 ^ lastPlace q) * 2 ^ lastPlace q := by
    rw [nearest_of_nonneg h, nearestPos, sub_mul, div_mul_cancel₀ _ (by positivity)]
  calc |nearest q - q|
      = |roundHalfEven (q / 2 ^ lastPlace q) - q / 2 ^ lastPlace q| * 2 ^ lastPlace q := by
        rw [hsplit, abs_mul, abs_of_pos (by positivity : (0 : ℚ) < 2 ^ lastPlace q)]
    _ ≤ 1 / 2 * (2 ^ (-52 : ℤ) * q + 2 ^ (-1074 : ℤ)) := by gcongr
    _ = 2 ^ (-53 : ℤ) * q + 2 ^ (-1075 : ℤ) := by
      rw [show (-53 : ℤ) = -1 + -52 by norm_num, show (-1075 : ℤ) = -1 + -1074 by norm_num,
        zpow_add₀ two_ne_zero, zpow_add₀ two_ne_zero, zpow_neg_one]
      ring

theorem abs_nearest_sub_le_zpow {n : ℤ} (hq : 0 ≤ q) (h : q ≤ 2 ^ n) (hn : -1022 ≤ n) :
    |nearest q - q| ≤ 2 ^ (n - 52) := by
  have hsub : (2 : ℚ) ^ (-1075 : ℤ) ≤ 2 ^ (n - 53) := zpow_le_zpow_right₀ one_le_two (by omega)
  calc |nearest q - q| ≤ 2 ^ (-53 : ℤ) * q + 2 ^ (-1075 : ℤ) := abs_nearest_sub_le hq
    _ ≤ 2 ^ (-53 : ℤ) * 2 ^ n + 2 ^ (n - 53) := by gcongr
    _ = 2 ^ (n - 52) := by
      rw [← zpow_add₀ two_ne_zero, show -53 + n = n - 53 by ring, ← two_mul,
        show n - 52 = 1 + (n - 53) by ring, zpow_add₀ two_ne_zero, zpow_one]

end Binary64

/-! ## Floats -/

/-- A float. -/
inductive Binary64
  | finite (q : ℚ)
  | infinite (negative : Bool)
  | nan
  deriving DecidableEq

/-- The exceptions of the conversions. -/
inductive Raised
  | overflowError
  | valueError
  deriving DecidableEq

namespace Binary64

/-- The float that stands for `q`. -/
def ofRat (q : ℚ) : Binary64 :=
  if |nearest q| < 2 ^ 1024 then .finite (nearest q) else .infinite (q < 0)

theorem nearest_of_ofRat {q : ℚ} (h : ofRat q = .finite q) : nearest q = q := by
  unfold ofRat at h
  split at h
  · exact Binary64.finite.inj h
  · cases h

/-- `x + y`. -/
def add : Binary64 → Binary64 → Binary64
  | finite p, finite q => ofRat (p + q)
  | nan, _ => nan
  | _, nan => nan
  | infinite a, infinite b => if a = b then infinite a else nan
  | infinite a, finite _ => infinite a
  | finite _, infinite b => infinite b

/-- `-x`. -/
def neg : Binary64 → Binary64
  | finite q => finite (-q)
  | infinite a => infinite !a
  | nan => nan

/-- `x * y`. -/
def mul : Binary64 → Binary64 → Binary64
  | finite p, finite q => ofRat (p * q)
  | nan, _ => nan
  | _, nan => nan
  | infinite a, infinite b => infinite (a != b)
  | infinite a, finite q => if q = 0 then nan else infinite (a != decide (q < 0))
  | finite p, infinite b => if p = 0 then nan else infinite (decide (p < 0) != b)

instance : Add Binary64 := ⟨add⟩

instance : Sub Binary64 := ⟨fun x y => x.add y.neg⟩

instance : Mul Binary64 := ⟨mul⟩

/-- `x / n`, for an integer other than zero. -/
def divInt (n : ℤ) : Binary64 → Binary64
  | finite q => ofRat (q / n)
  | infinite a => infinite (a != decide (n < 0))
  | nan => nan

/-- `x < y`. -/
def lt : Binary64 → Binary64 → Bool
  | finite p, finite q => p < q
  | nan, _ => false
  | _, nan => false
  | infinite a, infinite b => a && !b
  | infinite a, finite _ => a
  | finite _, infinite b => !b

/-- `int(x)`. -/
def toInt : Binary64 → Except Raised ℤ
  | finite q => .ok (if 0 ≤ q then ⌊q⌋ else ⌈q⌉)
  | infinite _ => .error .overflowError
  | nan => .error .valueError

/-- An integer or a quotient of integers as a float, when there is one. -/
def ofRatOrRaise (q : ℚ) : Except Raised Binary64 :=
  if |nearest q| < 2 ^ 1024 then .ok (.finite (nearest q)) else .error .overflowError

end Binary64

/-- A number: an `int` or a `float`. -/
inductive Number
  | int (n : ℤ)
  | float (x : Binary64)
  deriving DecidableEq

namespace Number

/-- `int(x)`. -/
def toInt : Number → Except Raised ℤ
  | int n => .ok n
  | float x => x.toInt

/-- `float(x)`. -/
def toFloat : Number → Except Raised Binary64
  | int n => Binary64.ofRatOrRaise n
  | float x => .ok x

/-- `x / n`, for an integer other than zero. -/
def divInt (n : ℤ) : Number → Except Raised Binary64
  | int m => Binary64.ofRatOrRaise (m / n)
  | float x => .ok (x.divInt n)

/-- The rational that a number stands for, if any. -/
def value? : Number → Option ℚ
  | int n => some n
  | float (.finite q) => some q
  | float _ => none

end Number

/-! ## Numbers of moderate size -/

namespace Binary64

variable {p q : ℚ}

theorem abs_nearest_lt (hq : 0 ≤ q) (h : q ≤ 2 ^ 52) : |nearest q| < 2 ^ 1024 := by
  have hle : nearest q ≤ (2 ^ 52 : ℕ) := nearest_le_natCast hq (by exact_mod_cast h) (by norm_num)
  rw [abs_of_nonneg (nearest_nonneg hq)]
  calc nearest q ≤ 2 ^ 52 := by exact_mod_cast hle
    _ < 2 ^ 1024 := pow_lt_pow_right₀ one_lt_two (by norm_num)

theorem ofRat_eq_finite (hq : 0 ≤ q) (h : q ≤ 2 ^ 52) : ofRat q = .finite (nearest q) :=
  if_pos (abs_nearest_lt hq h)

theorem ofRatOrRaise_eq_ok (hq : 0 ≤ q) (h : q ≤ 2 ^ 52) : ofRatOrRaise q = .ok (.finite (nearest q)) :=
  if_pos (abs_nearest_lt hq h)

theorem finite_add_finite (hp : 0 ≤ p + q) (h : p + q ≤ 2 ^ 52) :
    (finite p + finite q : Binary64) = .finite (nearest (p + q)) := ofRat_eq_finite hp h

theorem finite_mul_finite (hp : 0 ≤ p * q) (h : p * q ≤ 2 ^ 52) :
    (finite p * finite q : Binary64) = .finite (nearest (p * q)) := ofRat_eq_finite hp h

theorem toInt_finite (hq : 0 ≤ q) : (finite q).toInt = .ok ⌊q⌋ := by rw [toInt, if_pos hq]

end Binary64

namespace Number

variable {x : Number} {p : ℚ}

theorem toInt_of_value (h : x.value? = some p) (hp : 0 ≤ p) : x.toInt = .ok ⌊p⌋ := by
  cases x with
  | int n =>
    obtain rfl : (n : ℚ) = p := Option.some.inj h
    rw [toInt, Int.floor_intCast]
  | float y =>
    cases y with
    | finite q =>
      obtain rfl : q = p := Option.some.inj h
      exact Binary64.toInt_finite hp
    | infinite a => cases h
    | nan => cases h

theorem divInt_of_value {n : ℤ} (h : x.value? = some p) (hp : 0 ≤ p / n) (hle : p / n ≤ 2 ^ 52) :
    x.divInt n = .ok (.finite (Binary64.nearest (p / n))) := by
  cases x with
  | int m =>
    obtain rfl : (m : ℚ) = p := Option.some.inj h
    exact Binary64.ofRatOrRaise_eq_ok hp hle
  | float y =>
    cases y with
    | finite q =>
      obtain rfl : q = p := Option.some.inj h
      rw [divInt, Binary64.divInt, Binary64.ofRat_eq_finite hp hle]
    | infinite a => cases h
    | nan => cases h

end Number

end LlmGateway
