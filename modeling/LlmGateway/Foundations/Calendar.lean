import Mathlib.Data.Int.Basic
import Mathlib.Tactic.Basic
import Mathlib.Tactic.IntervalCases

/-!
# The proleptic Gregorian calendar

Instants are integers: microseconds since the start of day 1 of year 1, which is the range and the
resolution of a UTC `datetime`. A month is a `YearMonth`, whose month number is in `1..12` by a
field; `YearMonth.midnight` is the start of one of its days.

`YearMonth.ofInstant` finds the month of an instant by the usual division by 400, 100, 4 and 1
years. It is used through its specification only: the instant lies between the start of its month
(`midnight_ofInstant_le`) and the start of the next (`lt_midnight_next_ofInstant`), and the starts
of consecutive months are at least 28 days apart (`midnight_add_le_midnight_next`).
-/

namespace LlmGateway.Calendar

/-- One second, in microseconds. -/
def second : ℤ := 1000000

/-- One minute, in microseconds. -/
def minute : ℤ := 60 * second

/-- One hour, in microseconds. -/
def hour : ℤ := 60 * minute

/-- One day, in microseconds. -/
def day : ℤ := 24 * hour

theorem minute_eq : minute = 60000000 := rfl

theorem hour_eq : hour = 3600000000 := rfl

theorem day_eq : day = 86400000000 := rfl

/-! ## Years -/

/-- Whether `y` is a leap year. -/
def isLeap (y : ℤ) : Bool := y % 4 = 0 ∧ (y % 100 ≠ 0 ∨ y % 400 = 0)

/-- The number of days of a year. -/
def daysInYear (leap : Bool) : ℤ := if leap then 366 else 365

/-- The number of days before January 1 of year `y`. -/
def daysBeforeYear (y : ℤ) : ℤ := (y - 1) * 365 + (y - 1) / 4 - (y - 1) / 100 + (y - 1) / 400

theorem daysBeforeYear_succ (y : ℤ) :
    daysBeforeYear (y + 1) = daysBeforeYear y + daysInYear (isLeap y) := by
  unfold daysBeforeYear daysInYear isLeap
  split
  · rename_i h
    simp only [decide_eq_true_eq] at h
    omega
  · rename_i h
    simp only [decide_eq_true_eq] at h
    omega

/-- The year of the day numbered `n` (counting from 0) and the day's number in that year. -/
def yearOfDay (n : ℤ) : ℤ × ℤ :=
  let n400 := n / 146097
  let n := n % 146097
  let n100 := n / 36524
  let n := n % 36524
  let n4 := n / 1461
  let n := n % 1461
  let n1 := n / 365
  let n := n % 365
  let year := n400 * 400 + 1 + n100 * 100 + n4 * 4 + n1
  -- the last day of a leap year, one past four ordinary years or centuries
  if n1 = 4 ∨ n100 = 4 then (year - 1, 365) else (year, n)

theorem daysBeforeYear_cycle {a b c d : ℤ} (hb : 0 ≤ b ∧ b ≤ 3) (hc : 0 ≤ c ∧ c ≤ 24)
    (hd : 0 ≤ d ∧ d ≤ 3) :
    daysBeforeYear (a * 400 + 1 + b * 100 + c * 4 + d) =
      146097 * a + 36524 * b + 1461 * c + 365 * d := by
  have h₁ : (a * 400 + 1 + b * 100 + c * 4 + d - 1) / 4 = 100 * a + 25 * b + c := by omega
  have h₂ : (a * 400 + 1 + b * 100 + c * 4 + d - 1) / 100 = 4 * a + b := by omega
  have h₃ : (a * 400 + 1 + b * 100 + c * 4 + d - 1) / 400 = a := by omega
  rw [daysBeforeYear, h₁, h₂, h₃]
  omega

theorem yearOfDay_spec (n : ℤ) :
    daysBeforeYear (yearOfDay n).1 + (yearOfDay n).2 = n ∧ 0 ≤ (yearOfDay n).2 ∧
      (yearOfDay n).2 < daysInYear (isLeap (yearOfDay n).1) := by
  obtain ⟨a, ha⟩ : ∃ a, n / 146097 = a := ⟨_, rfl⟩
  obtain ⟨b, hb⟩ : ∃ b, n % 146097 / 36524 = b := ⟨_, rfl⟩
  obtain ⟨c, hc⟩ : ∃ c, n % 146097 % 36524 / 1461 = c := ⟨_, rfl⟩
  obtain ⟨d, hd⟩ : ∃ d, n % 146097 % 36524 % 1461 / 365 = d := ⟨_, rfl⟩
  simp only [yearOfDay, ha, hb, hc, hd]
  split
  · -- the day after four ordinary centuries or years is the last day of the year before
    rename_i h
    simp only
    obtain ⟨b', c', hb', hc', hy, hn, hlast⟩ : ∃ b' c' : ℤ, (0 ≤ b' ∧ b' ≤ 3) ∧ (0 ≤ c' ∧ c' ≤ 24) ∧
        a * 400 + 1 + b * 100 + c * 4 + d - 1 = a * 400 + 1 + b' * 100 + c' * 4 + 3 ∧
          n = 146097 * a + 36524 * b' + 1461 * c' + 365 * 3 + 365 ∧
            (b' = 3 ∨ c' ≠ 24) := by
      by_cases hb4 : b = 4
      · exact ⟨3, 24, by omega, by omega, by omega, by omega, by omega⟩
      · exact ⟨b, c, by omega, by omega, by omega, by omega, by omega⟩
    have hleap : isLeap (a * 400 + 1 + b' * 100 + c' * 4 + 3) = true := by
      simp only [isLeap, decide_eq_true_eq]
      omega
    rw [hy, daysBeforeYear_cycle hb' hc' (by decide), hleap]
    refine ⟨by omega, by decide, by decide⟩
  · rw [daysBeforeYear_cycle (by omega) (by omega) (by omega)]
    refine ⟨by omega, by omega, ?_⟩
    unfold daysInYear
    split <;> omega

/-! ## Months -/

/-- The number of days of a year before its month `m`; 13 stands for the year's end. -/
def daysBeforeMonth (leap : Bool) (m : ℕ) : ℤ :=
  match m with
  | 0 | 1 => 0
  | 2 => 31
  | m => [59, 90, 120, 151, 181, 212, 243, 273, 304, 334].getD (m - 3) 365 + if leap then 1 else 0

/-- The month of the day numbered `n` (counting from 0) of a year: an estimate that is at most one
month too late. -/
def monthOfDay (leap : Bool) (n : ℕ) : ℕ :=
  let month := (n + 50) / 32
  if daysBeforeMonth leap month > n then month - 1 else month

theorem monthOfDay_spec (leap : Bool) (n : ℕ) (h : (n : ℤ) < daysInYear leap) :
    1 ≤ monthOfDay leap n ∧ monthOfDay leap n ≤ 12 ∧
      daysBeforeMonth leap (monthOfDay leap n) ≤ n ∧
        (n : ℤ) < daysBeforeMonth leap (monthOfDay leap n + 1) := by
  have hn : n < 366 := by
    unfold daysInYear at h
    split at h <;> omega
  have hlow : 1 ≤ (n + 50) / 32 := by omega
  have hhigh : (n + 50) / 32 ≤ 12 := by omega
  unfold monthOfDay
  generalize hmonth : (n + 50) / 32 = month at hlow hhigh
  -- one case for each month that is estimated, in common years and leap years
  interval_cases month <;> cases leap <;> simp [daysBeforeMonth, daysInYear] at h ⊢ <;> split <;>
    simp <;> omega

/-- A month of a year. -/
@[ext] structure YearMonth where
  year : ℤ
  month : ℕ
  pos : 1 ≤ month
  le : month ≤ 12
  deriving DecidableEq

namespace YearMonth

/-- January of the year `y`. -/
def january (y : ℤ) : YearMonth := ⟨y, 1, by decide, by decide⟩

/-- The month before. -/
def prev (ym : YearMonth) : YearMonth :=
  if h : ym.month = 1 then ⟨ym.year - 1, 12, by decide, by decide⟩
  else ⟨ym.year, ym.month - 1, by have := ym.pos; omega, by have := ym.le; omega⟩

/-- The month after. -/
def next (ym : YearMonth) : YearMonth :=
  if h : ym.month = 12 then ⟨ym.year + 1, 1, by decide, by decide⟩
  else ⟨ym.year, ym.month + 1, by omega, by have := ym.le; omega⟩

@[simp] theorem next_prev (ym : YearMonth) : ym.prev.next = ym := by
  unfold prev next
  split
  · rename_i h
    ext
    · simp
    · simp [h]
  · have := ym.pos
    have := ym.le
    rw [dif_neg (by simp only; omega)]
    ext
    · rfl
    · simp only
      omega

/-- The number of days before the month. -/
def daysBefore (ym : YearMonth) : ℤ :=
  daysBeforeYear ym.year + daysBeforeMonth (isLeap ym.year) ym.month

/-- The start of day `d` of the month. -/
def midnight (ym : YearMonth) (d : ℕ) : ℤ := (ym.daysBefore + d - 1) * day

theorem daysBefore_next (ym : YearMonth) : ym.daysBefore + 28 ≤ ym.next.daysBefore := by
  obtain ⟨y, m, hpos, hle⟩ := ym
  unfold next daysBefore
  split
  · rename_i h
    simp only at h
    subst h
    rw [daysBeforeYear_succ]
    have h₁ : daysBeforeMonth (isLeap (y + 1)) 1 = 0 := rfl
    have h₂ : daysBeforeMonth (isLeap y) 12 + 28 ≤ daysInYear (isLeap y) := by
      cases isLeap y <;> decide
    simp only
    omega
  · rename_i h
    have h₁ : ∀ (leap : Bool) (m : Fin 12), 1 ≤ (m : ℕ) →
        daysBeforeMonth leap m + 28 ≤ daysBeforeMonth leap (m + 1) := by
      decide
    have h₂ := h₁ (isLeap y) ⟨m, by simp only at h; omega⟩ hpos
    simp only at h₂ ⊢
    omega

theorem toNat_yearOfDay_lt (n : ℤ) :
    ((yearOfDay n).2.toNat : ℤ) < daysInYear (isLeap (yearOfDay n).1) := by
  obtain ⟨-, hnonneg, hlt⟩ := yearOfDay_spec n
  rwa [Int.toNat_of_nonneg hnonneg]

/-- The month of the instant `t`. -/
def ofInstant (t : ℤ) : YearMonth :=
  let n := t / day
  { year := (yearOfDay n).1
    month := monthOfDay (isLeap (yearOfDay n).1) (yearOfDay n).2.toNat
    pos := (monthOfDay_spec _ _ (toNat_yearOfDay_lt n)).1
    le := (monthOfDay_spec _ _ (toNat_yearOfDay_lt n)).2.1 }

theorem day_mem_ofInstant (t : ℤ) :
    (ofInstant t).daysBefore ≤ t / day ∧ t / day < (ofInstant t).next.daysBefore := by
  obtain ⟨hday, hnonneg, hlt⟩ := yearOfDay_spec (t / day)
  obtain ⟨-, -, hge, hnext⟩ := monthOfDay_spec _ _ (toNat_yearOfDay_lt (t / day))
  rw [Int.toNat_of_nonneg hnonneg] at hge hnext
  refine ⟨?_, ?_⟩
  · simp only [daysBefore, ofInstant]
    omega
  · unfold next daysBefore
    split
    · rename_i h
      simp only [ofInstant] at h ⊢
      rw [daysBeforeYear_succ]
      have h₁ : ∀ leap, daysBeforeMonth leap 1 = 0 := by decide
      rw [h₁]
      omega
    · simp only [ofInstant]
      omega

theorem midnight_ofInstant_le (t : ℤ) : (ofInstant t).midnight 1 ≤ t := by
  have h := (day_mem_ofInstant t).1
  simp only [midnight, day_eq] at h ⊢
  omega

theorem lt_midnight_next_ofInstant (t : ℤ) : t < (ofInstant t).next.midnight 1 := by
  have h := (day_mem_ofInstant t).2
  simp only [midnight, day_eq] at h ⊢
  omega

theorem midnight_mono (ym : YearMonth) {d e : ℕ} (h : d ≤ e) : ym.midnight d ≤ ym.midnight e := by
  simp only [midnight, day_eq]
  omega

theorem midnight_add_le_midnight_next (ym : YearMonth) {d : ℕ} (h : d ≤ 28) :
    ym.midnight d + day ≤ ym.next.midnight 1 := by
  have := daysBefore_next ym
  simp only [midnight, day_eq]
  omega

/-! ### The order of the months -/

/-- The months numbered in order. -/
def index (ym : YearMonth) : ℤ := 12 * ym.year + ym.month

theorem index_next (ym : YearMonth) : ym.next.index = ym.index + 1 := by
  unfold next
  split
  · rename_i h
    simp only [index, h]
    omega
  · simp only [index]
    omega

theorem index_injective : Function.Injective index := by
  intro ym ym' h
  have := ym.pos
  have := ym.le
  have := ym'.pos
  have := ym'.le
  simp only [index] at h
  ext
  · omega
  · omega

theorem midnight_lt_next (ym : YearMonth) (d : ℕ) : ym.midnight d < ym.next.midnight d := by
  have := daysBefore_next ym
  simp only [midnight, day_eq]
  omega

theorem midnight_le_of_index_le (d : ℕ) {ym ym' : YearMonth} (h : ym.index ≤ ym'.index) :
    ym.midnight d ≤ ym'.midnight d := by
  obtain ⟨n, hn⟩ := Int.le.dest h
  clear h
  induction n generalizing ym with
  | zero =>
    have heq : ym = ym' := index_injective (by omega)
    exact Int.le_of_eq (heq ▸ rfl)
  | succ n ih =>
    have hnext : ym.next.index + n = ym'.index := by
      rw [index_next]
      omega
    exact Int.le_trans (Int.le_of_lt (midnight_lt_next ym d)) (ih hnext)

theorem midnight_next_le_of_lt {d : ℕ} {ym ym' : YearMonth} (h : ym.midnight d < ym'.midnight d) :
    ym.next.midnight d ≤ ym'.midnight d := by
  have hlt : ym.index < ym'.index := by
    by_contra hle
    exact Int.not_le.2 h (midnight_le_of_index_le d (Int.not_lt.1 hle))
  exact midnight_le_of_index_le d (by rw [index_next]; omega)

end YearMonth

end LlmGateway.Calendar
