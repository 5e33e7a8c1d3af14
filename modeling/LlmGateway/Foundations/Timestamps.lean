import LlmGateway.Foundations.Calendar
import Mathlib.Data.List.Lex
import Mathlib.Order.Basic

/-!
# UTC datetimes and their texts

A `Datetime` is a UTC `datetime` with the ranges of its fields as fields. `instant` is its place on the
line of microseconds and `isoformat` its text, which has a fraction only when the microseconds are not
zero. Every field is written with a fixed number of digits, the larger units first, and a `'+'` sorts before
a `'.'`: texts are in the lexicographic order of their instants (`isoformat_lt_iff`).
-/

namespace LlmGateway.Calendar

/-! ## Numbers of fixed width -/

/-- A decimal digit. -/
def digit (n : ℕ) : Char := Char.ofNat (48 + n % 10)

/-- `f"{n:0{w}d}"` for a number of at most `w` digits. -/
def pad : ℕ → ℕ → List Char
  | 0, _ => []
  | w + 1, n => pad w (n / 10) ++ [digit n]

@[simp] theorem length_pad (w n : ℕ) : (pad w n).length = w := by
  induction w generalizing n with
  | zero => rfl
  | succ w ih => rw [pad, List.length_append, ih, List.length_singleton]

theorem digit_lt_iff (m n : ℕ) : digit m < digit n ↔ m % 10 < n % 10 := by
  have h : ∀ a b : Fin 10, Char.ofNat (48 + a) < Char.ofNat (48 + b) ↔ a < b := by decide
  exact h ⟨m % 10, Nat.mod_lt _ (by decide)⟩ ⟨n % 10, Nat.mod_lt _ (by decide)⟩

theorem digit_eq_iff (m n : ℕ) : digit m = digit n ↔ m % 10 = n % 10 := by
  have h : ∀ a b : Fin 10, Char.ofNat (48 + a) = Char.ofNat (48 + b) ↔ a = b := by decide
  have := h ⟨m % 10, Nat.mod_lt _ (by decide)⟩ ⟨n % 10, Nat.mod_lt _ (by decide)⟩
  rwa [Fin.mk.injEq] at this

theorem append_lt_append_iff {a b s t : List Char} (h : a.length = b.length) :
    a ++ s < b ++ t ↔ a < b ∨ a = b ∧ s < t := by
  induction a generalizing b with
  | nil =>
    cases List.length_eq_zero_iff.1 h.symm
    simp
  | cons c a ih =>
    obtain ⟨d, b, rfl⟩ := List.exists_of_length_succ _ h.symm
    rw [List.cons_append, List.cons_append, List.cons_lt_cons_iff, List.cons_lt_cons_iff,
      ih (Nat.succ.inj h), List.cons.injEq]
    tauto

theorem pad_inj {w m n : ℕ} (hm : m < 10 ^ w) (hn : n < 10 ^ w) : pad w m = pad w n ↔ m = n := by
  refine ⟨fun h => ?_, fun h => h ▸ rfl⟩
  induction w generalizing m n with
  | zero =>
    rw [pow_zero] at hm hn
    omega
  | succ w ih =>
    rw [pow_succ] at hm hn
    obtain ⟨hfront, hlast⟩ := List.append_inj' h rfl
    have hdiv := ih (by omega) (by omega) hfront
    have hmod := (digit_eq_iff m n).1 (List.singleton_inj.1 hlast)
    omega

theorem pad_lt_iff {w m n : ℕ} (hm : m < 10 ^ w) (hn : n < 10 ^ w) : pad w m < pad w n ↔ m < n := by
  induction w generalizing m n with
  | zero =>
    rw [pow_zero] at hm hn
    have hmn : ¬ m < n := by omega
    simp [pad, hmn]
  | succ w ih =>
    rw [pow_succ] at hm hn
    have hm' : m / 10 < 10 ^ w := by omega
    have hn' : n / 10 < 10 ^ w := by omega
    rw [pad, pad, append_lt_append_iff (by simp), ih hm' hn', pad_inj hm' hn', List.cons_lt_cons_iff,
      digit_lt_iff]
    simp only [List.not_lt_nil, and_false, or_false]
    omega

/-- **Numbers of one width are compared before what follows them.** -/
theorem pad_append_lt_iff {w m n : ℕ} (hm : m < 10 ^ w) (hn : n < 10 ^ w) (s t : List Char) :
    pad w m ++ s < pad w n ++ t ↔ m < n ∨ m = n ∧ s < t := by
  rw [append_lt_append_iff (by simp), pad_lt_iff hm hn, pad_inj hm hn]

/-! ## Datetimes -/

/-- The number of days of a month. -/
def YearMonth.days (ym : YearMonth) : ℤ := ym.next.daysBefore - ym.daysBefore

theorem YearMonth.days_le (ym : YearMonth) : ym.days ≤ 31 := by
  obtain ⟨y, m, hpos, hle⟩ := ym
  unfold days next daysBefore
  split
  · rename_i h
    simp only at h
    subst h
    rw [daysBeforeYear_succ]
    have h₁ : daysBeforeMonth (isLeap (y + 1)) 1 = 0 := rfl
    have h₂ : daysInYear (isLeap y) ≤ daysBeforeMonth (isLeap y) 12 + 31 := by
      cases isLeap y <;> decide
    simp only
    omega
  · rename_i h
    have h₁ : ∀ (leap : Bool) (m : Fin 12), daysBeforeMonth leap (m + 1) ≤ daysBeforeMonth leap m + 31 := by
      decide
    have h₂ := h₁ (isLeap y) ⟨m, by simp only at h; omega⟩
    simp only at h₂ ⊢
    omega

/-- A UTC `datetime`. -/
structure Datetime extends YearMonth where
  day : ℕ
  hour : ℕ
  minute : ℕ
  second : ℕ
  microsecond : ℕ
  year_mem : 1 ≤ year ∧ year ≤ 9999
  day_mem : 1 ≤ day ∧ day ≤ toYearMonth.days
  hour_lt : hour < 24
  minute_lt : minute < 60
  second_lt : second < 60
  microsecond_lt : microsecond < 1000000

namespace Datetime

variable (x y : Datetime)

/-- The microseconds since midnight. -/
def timeOfDay : ℕ := ((x.hour * 60 + x.minute) * 60 + x.second) * 1000000 + x.microsecond

/-- The instant of a datetime. -/
def instant : ℤ := x.midnight x.day + x.timeOfDay

/-- The fraction and the offset of the text. -/
def fraction (microsecond : ℕ) : List Char :=
  (if microsecond = 0 then [] else '.' :: pad 6 microsecond) ++ ['+', '0', '0', ':', '0', '0']

def isoformat : List Char :=
  pad 4 x.year.toNat ++ '-' :: (pad 2 x.month ++ '-' :: (pad 2 x.day ++ 'T' :: (pad 2 x.hour ++
    ':' :: (pad 2 x.minute ++ ':' :: (pad 2 x.second ++ fraction x.microsecond)))))

theorem fraction_lt_iff {u v : ℕ} (hu : u < 1000000) (hv : v < 1000000) :
    fraction u < fraction v ↔ u < v := by
  unfold fraction
  split <;> split
  · simp [*]
  · rename_i hu₀ hv₀
    have hlt : u < v := by omega
    simp [hlt, List.cons_lt_cons_iff, show '+' < '.' by decide]
  · rename_i hu₀ hv₀
    have hlt : ¬ u < v := by omega
    rw [List.cons_append, List.nil_append, List.cons_lt_cons_iff]
    simp [hlt, show ¬ '.' < '+' by decide]
  · rw [List.cons_append, List.cons_append, List.cons_lt_cons_self, pad_append_lt_iff hu hv]
    simp

theorem timeOfDay_lt : (x.timeOfDay : ℤ) < Calendar.day := by
  have := x.hour_lt
  have := x.minute_lt
  have := x.second_lt
  have := x.microsecond_lt
  rw [day_eq, timeOfDay]
  omega

theorem instant_lt_of_index_lt (h : x.index < y.index) : x.instant < y.instant := by
  have hnext : x.next.midnight 1 ≤ y.midnight 1 :=
    YearMonth.midnight_le_of_index_le 1 (by rw [YearMonth.index_next]; omega)
  have hday : y.midnight 1 ≤ y.midnight y.day := YearMonth.midnight_mono _ y.day_mem.1
  have hlast : x.midnight x.day + Calendar.day ≤ x.next.midnight 1 := by
    have := x.day_mem.2
    simp only [YearMonth.days, YearMonth.midnight, day_eq] at this ⊢
    omega
  have := timeOfDay_lt x
  rw [instant, instant]
  omega

theorem instant_lt_iff_of_eq (h : x.toYearMonth = y.toYearMonth) :
    x.instant < y.instant ↔ x.day < y.day ∨ x.day = y.day ∧ x.timeOfDay < y.timeOfDay := by
  have hx := timeOfDay_lt x
  have hy := timeOfDay_lt y
  rw [instant, instant, h]
  simp only [YearMonth.midnight, day_eq] at hx hy ⊢
  omega

theorem timeOfDay_lt_iff : x.timeOfDay < y.timeOfDay ↔
    x.hour < y.hour ∨ x.hour = y.hour ∧ (x.minute < y.minute ∨ x.minute = y.minute ∧
      (x.second < y.second ∨ x.second = y.second ∧ x.microsecond < y.microsecond)) := by
  have := x.minute_lt
  have := y.minute_lt
  have := x.second_lt
  have := y.second_lt
  have := x.microsecond_lt
  have := y.microsecond_lt
  unfold timeOfDay
  omega

theorem instant_lt_iff : x.instant < y.instant ↔
    x.index < y.index ∨ x.index = y.index ∧
      (x.day < y.day ∨ x.day = y.day ∧ x.timeOfDay < y.timeOfDay) := by
  rcases lt_trichotomy x.index y.index with h | h | h
  · simp [h, instant_lt_of_index_lt x y h]
  · rw [instant_lt_iff_of_eq x y (YearMonth.index_injective h)]
    simp [h]
  · have hyx := instant_lt_of_index_lt y x h
    constructor
    · omega
    · rintro (hlt | ⟨heq, -⟩) <;> omega

theorem index_lt_iff : x.index < y.index ↔
    x.year.toNat < y.year.toNat ∨ x.year.toNat = y.year.toNat ∧ x.month < y.month := by
  have := x.year_mem
  have := y.year_mem
  have := x.pos
  have := y.pos
  have := x.le
  have := y.le
  unfold YearMonth.index
  omega

theorem index_eq_iff : x.index = y.index ↔
    x.year.toNat = y.year.toNat ∧ x.month = y.month := by
  have := x.year_mem
  have := y.year_mem
  have := x.pos
  have := y.pos
  have := x.le
  have := y.le
  unfold YearMonth.index
  omega

theorem day_le : x.day ≤ 31 := by
  have := x.day_mem.2
  have := x.days_le
  omega

/-- **Texts are in the order of their instants.** -/
theorem isoformat_lt_iff : x.isoformat < y.isoformat ↔ x.instant < y.instant := by
  have h4 : ∀ z : Datetime, z.year.toNat < 10 ^ 4 := fun z => by
    have := z.year_mem
    omega
  have hm : ∀ z : Datetime, z.month < 10 ^ 2 := fun z => lt_of_le_of_lt z.le (by decide)
  have hd : ∀ z : Datetime, z.day < 10 ^ 2 := fun z => lt_of_le_of_lt (day_le z) (by decide)
  have hh : ∀ z : Datetime, z.hour < 10 ^ 2 := fun z => lt_trans z.hour_lt (by decide)
  have hmi : ∀ z : Datetime, z.minute < 10 ^ 2 := fun z => lt_trans z.minute_lt (by decide)
  have hs : ∀ z : Datetime, z.second < 10 ^ 2 := fun z => lt_trans z.second_lt (by decide)
  rw [isoformat, isoformat, pad_append_lt_iff (h4 x) (h4 y), List.cons_lt_cons_self,
    pad_append_lt_iff (hm x) (hm y), List.cons_lt_cons_self, pad_append_lt_iff (hd x) (hd y),
    List.cons_lt_cons_self, pad_append_lt_iff (hh x) (hh y), List.cons_lt_cons_self,
    pad_append_lt_iff (hmi x) (hmi y), List.cons_lt_cons_self, pad_append_lt_iff (hs x) (hs y),
    fraction_lt_iff x.microsecond_lt y.microsecond_lt, instant_lt_iff, index_lt_iff, index_eq_iff,
    timeOfDay_lt_iff]
  tauto

end Datetime

end LlmGateway.Calendar
