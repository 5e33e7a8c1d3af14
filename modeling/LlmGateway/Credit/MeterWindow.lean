import LlmGateway.Credit.Config

/-!
# Meter windows and the true resets

The billing provider resets a cycle at an instant `R k` that is known only up to the slacks: between
`a` before the nominal anchor of the month and `b` after it. The window of an instant is built from
the anchors alone, and `cycleWindow_covers` says why that is safe: it starts no later than the last
true reset, whichever resets within the slacks are the true ones.
-/

namespace LlmGateway.Credit

open Calendar

namespace CycleConfig

variable (cycle : CycleConfig)

/-- `N_k`, the nominal anchor of a month. -/
def anchor (ym : YearMonth) : ℤ := nominalAnchor ym cycle.anchorDay

/-- The slack `a`. -/
def early : ℤ := cycle.earlySlackHours * hour

/-- The slack `b`. -/
def late : ℤ := cycle.lateSlackHours * hour

theorem early_nonneg : 0 ≤ cycle.early := by
  simp only [early, hour_eq]
  omega

theorem late_nonneg : 0 ≤ cycle.late := by
  simp only [late, hour_eq]
  omega

/-- The month of the latest anchor that lies at least `b` back. -/
structure IsLatest (t : ℤ) (ym : YearMonth) : Prop where
  le : cycle.anchor ym + cycle.late ≤ t
  greatest : ∀ ym', cycle.anchor ym' + cycle.late ≤ t → cycle.anchor ym' ≤ cycle.anchor ym

/-- The true resets of all months are within the slacks of their anchors. -/
def TrueResets (reset : YearMonth → ℤ) : Prop :=
  ∀ ym, cycle.anchor ym - cycle.early ≤ reset ym ∧ reset ym ≤ cycle.anchor ym + cycle.late

/-- The window from `a` before one anchor to `b` after the next. -/
def windowOf (ym : YearMonth) : ℤ × ℤ :=
  (cycle.anchor ym - cycle.early, cycle.anchor ym.next + cycle.late)

end CycleConfig

variable {cycle : CycleConfig}

variable {ym ym' : YearMonth} {t : ℤ}

theorem anchor_next_le (h : cycle.anchor ym < cycle.anchor ym') :
    cycle.anchor ym.next ≤ cycle.anchor ym' :=
  YearMonth.midnight_next_le_of_lt h

theorem isLatest_iff :
    cycle.IsLatest t ym ↔
      cycle.anchor ym + cycle.late ≤ t ∧ t < cycle.anchor ym.next + cycle.late := by
  constructor
  · intro h
    refine ⟨h.le, lt_of_not_ge fun hge => ?_⟩
    exact absurd (h.greatest ym.next hge) (not_le.2 (ym.midnight_lt_next _))
  · rintro ⟨hle, hlt⟩
    refine ⟨hle, fun ym' hle' => le_of_not_gt fun hgt => ?_⟩
    have := anchor_next_le hgt
    omega

theorem cycleWindow_eq (t : ℤ) (cycle : CycleConfig) :
    ∃ ym, cycle.IsLatest t ym ∧ cycleWindow t cycle = cycle.windowOf ym := by
  obtain ⟨ym, hw, hle, hlt⟩ := cycleWindow_spec t cycle
  refine ⟨ym, isLatest_iff.2 ⟨?_, ?_⟩, hw⟩
  · simp only [CycleConfig.anchor, CycleConfig.late]
    omega
  · simp only [CycleConfig.anchor, CycleConfig.late]
    omega

theorem CycleConfig.IsLatest.mono {s : ℤ} (h : cycle.IsLatest s ym)
    (h' : cycle.IsLatest t ym') (hst : s ≤ t) : cycle.anchor ym ≤ cycle.anchor ym' :=
  h'.greatest ym (h.le.trans hst)

theorem anchor_next_mono (h : cycle.anchor ym ≤ cycle.anchor ym') :
    cycle.anchor ym.next ≤ cycle.anchor ym'.next := by
  rcases h.lt_or_eq with hlt | heq
  · exact (anchor_next_le hlt).trans (ym'.midnight_lt_next _).le
  · exact anchor_next_le (heq ▸ ym'.midnight_lt_next _)

/-- **The window contains its instant.** -/
theorem cycleWindow_mem (t : ℤ) (cycle : CycleConfig) :
    (cycleWindow t cycle).1 ≤ t ∧ t < (cycleWindow t cycle).2 := by
  obtain ⟨ym, hym, hw⟩ := cycleWindow_eq t cycle
  obtain ⟨hle, hlt⟩ := isLatest_iff.1 hym
  have := cycle.early_nonneg
  have := cycle.late_nonneg
  rw [hw]
  exact ⟨by simp only [CycleConfig.windowOf]; omega, hlt⟩

/-- **Windows move forward with the instant.** -/
theorem cycleWindow_mono {s : ℤ} (h : s ≤ t) (cycle : CycleConfig) :
    (cycleWindow s cycle).1 ≤ (cycleWindow t cycle).1 ∧
      (cycleWindow s cycle).2 ≤ (cycleWindow t cycle).2 := by
  obtain ⟨ym, hym, hw⟩ := cycleWindow_eq s cycle
  obtain ⟨ym', hym', hw'⟩ := cycleWindow_eq t cycle
  have hanchor := hym.mono hym' h
  have hnext := anchor_next_mono hanchor
  rw [hw, hw']
  simp only [CycleConfig.windowOf]
  omega

/-- **At its reset, a window is followed by that of the next anchor.** -/
theorem cycleWindow_reset (hw : cycleWindow t cycle = cycle.windowOf ym) :
    cycleWindow (cycleWindow t cycle).2 cycle = cycle.windowOf ym.next := by
  obtain ⟨ym', hym', hw'⟩ := cycleWindow_eq ((cycleWindow t cycle).2) cycle
  have hlatest : cycle.IsLatest (cycleWindow t cycle).2 ym.next := by
    rw [hw]
    refine isLatest_iff.2 ⟨le_rfl, ?_⟩
    have := ym.next.midnight_lt_next cycle.anchorDay
    simp only [CycleConfig.windowOf, CycleConfig.anchor, nominalAnchor]
    omega
  have hanchor := le_antisymm (hym'.mono hlatest le_rfl) (hlatest.mono hym' le_rfl)
  have hnext := le_antisymm (anchor_next_mono hanchor.le) (anchor_next_mono hanchor.ge)
  rw [hw', CycleConfig.windowOf, CycleConfig.windowOf, hanchor, hnext]

/-- **The window covers the last true reset.** -/
theorem cycleWindow_covers {reset : YearMonth → ℤ} (hreset : cycle.TrueResets reset)
    {k : YearMonth} (hlast : ∀ j, reset j ≤ t → reset j ≤ reset k) :
    (cycleWindow t cycle).1 ≤ reset k := by
  obtain ⟨ym, hym, hw⟩ := cycleWindow_eq t cycle
  rw [hw]
  calc cycle.anchor ym - cycle.early ≤ reset ym := (hreset ym).1
    _ ≤ reset k := hlast ym ((hreset ym).2.trans hym.le)

theorem cycleWindow_covers_of_lt {reset : YearMonth → ℤ} (hreset : cycle.TrueResets reset)
    {k : YearMonth} (hnext : t < reset k.next) : (cycleWindow t cycle).1 ≤ reset k := by
  obtain ⟨ym, hym, hw⟩ := cycleWindow_eq t cycle
  rw [hw]
  have hle : cycle.anchor ym ≤ cycle.anchor k := by
    refine le_of_not_gt fun hgt => ?_
    have := anchor_next_le hgt
    have := (hreset k.next).2
    have := hym.le
    omega
  calc cycle.anchor ym - cycle.early ≤ cycle.anchor k - cycle.early := by omega
    _ ≤ reset k := (hreset k).1

/-- **The meter window.** -/
theorem cycleWindow_correct (cycle : CycleConfig) :
    (∀ cfg : CreditConfig, cfg.cycle = cycle → ∀ t, meterWindow t cfg = cycleWindow t cycle) ∧
    -- the greatest anchor at least `b` back, and its immediate successor
    (∀ t, ∃ ym, cycle.IsLatest t ym ∧ cycleWindow t cycle = cycle.windowOf ym ∧
      cycle.anchor ym < cycle.anchor ym.next ∧
        ∀ ym', cycle.anchor ym < cycle.anchor ym' → cycle.anchor ym.next ≤ cycle.anchor ym') ∧
    (∀ t, (cycleWindow t cycle).1 ≤ t ∧ t < (cycleWindow t cycle).2) ∧
    (∀ s t, s ≤ t → (cycleWindow s cycle).1 ≤ (cycleWindow t cycle).1 ∧
      (cycleWindow s cycle).2 ≤ (cycleWindow t cycle).2) ∧
    -- the window that follows starts no later than the reset
    (∀ t ym, cycleWindow t cycle = cycle.windowOf ym →
      cycleWindow (cycleWindow t cycle).2 cycle = cycle.windowOf ym.next ∧
        (cycle.windowOf ym.next).1 ≤ (cycleWindow t cycle).2) ∧
    ∀ reset, cycle.TrueResets reset → ∀ t k, reset k ≤ t →
      ((∀ j, reset j ≤ t → reset j ≤ reset k) ∨ t < reset k.next) →
        (cycleWindow t cycle).1 ≤ reset k ∧ reset k < (cycleWindow t cycle).2 := by
  refine ⟨?_, ?_, fun t => cycleWindow_mem t cycle, fun s t h => cycleWindow_mono h cycle, ?_, ?_⟩
  · rintro cfg rfl t
    exact meterWindow_eq_cycleWindow t cfg
  · intro t
    obtain ⟨ym, hym, hw⟩ := cycleWindow_eq t cycle
    exact ⟨ym, hym, hw, ym.midnight_lt_next _, fun ym' => anchor_next_le⟩
  · intro t ym hw
    refine ⟨cycleWindow_reset hw, ?_⟩
    have := cycle.early_nonneg
    have := cycle.late_nonneg
    rw [hw]
    simp only [CycleConfig.windowOf]
    omega
  · intro reset hreset t k hle hlast
    refine ⟨?_, hle.trans_lt (cycleWindow_mem t cycle).2⟩
    rcases hlast with hlast | hnext
    · exact cycleWindow_covers hreset hlast
    · exact cycleWindow_covers_of_lt hreset hnext

end LlmGateway.Credit
