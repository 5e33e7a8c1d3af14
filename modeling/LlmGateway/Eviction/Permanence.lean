import LlmGateway.Eviction.Soundness

/-!
# Permanence of a structural refusal

A verdict is structural when what the model needs is above the attainable ceiling: the total less the share
that no eviction frees, or, when the total is not known, what is free at the moment. The refusal is permanent
up to that ceiling, and it is the verdict on every level below a ceiling under which nothing is admitted
(`structural_permanent`). It is not permanent up to the total: the memory between the ceiling and the total
is admitted when it happens to be free (`admitted_above_ceiling`).
-/

namespace LlmGateway.Eviction

variable {margins : Margins} {v t free reserved : ℤ} {e e' : AdmissionEvaluation}

/-! ## Verdicts by what is needed -/

/-- The verdict on a footprint `v` that needs `needed`. -/
def verdictOf (v needed attainable reserved effective : ℤ) : AdmissionVerdict :=
  if v ≤ 0 ∨ needed ≤ effective then .admitted
  else if attainable < needed then .insufficientStructural
  else if 0 < reserved then .insufficientTransient
  else .insufficientMargin

theorem verdictOf_eq_admitted_iff {needed attainable effective : ℤ} :
    verdictOf v needed attainable reserved effective = .admitted ↔ v ≤ 0 ∨ needed ≤ effective := by
  rw [verdictOf]
  split_ifs with hfit <;> simp [hfit]

theorem verdictOf_eq_structural_iff {needed attainable effective : ℤ} :
    verdictOf v needed attainable reserved effective = .insufficientStructural ↔
      ¬ (v ≤ 0 ∨ needed ≤ effective) ∧ attainable < needed := by
  rw [verdictOf]
  split_ifs with hfit hattainable <;> simp_all

/-- **What an evaluation is**: what is needed depends on the footprint and the margins only, and the ceiling on
the total and on what is free. -/
theorem evaluateVramAdmission_eq_ok (he : evaluateVramAdmission v free t reserved margins = .ok e) :
    attainableCeilingMb t free = .ok e.attainableMb ∧
      (∀ {free' reserved' e'}, evaluateVramAdmission v free' t reserved' margins = .ok e' →
        e'.neededMb = e.neededMb) ∧
      e.verdict = verdictOf v e.neededMb e.attainableMb reserved (free - reserved) := by
  simp only [evaluateVramAdmission, bind_eq_ok] at he
  obtain ⟨pct, hpct, headroom, hheadroom, cap, hcap, margin, hmargin, attainable, hattainable, he⟩ := he
  obtain rfl := Except.ok.inj he
  refine ⟨hattainable, fun {free' reserved' e'} he' => ?_, rfl⟩
  simp only [evaluateVramAdmission, bind_eq_ok] at he'
  obtain ⟨pct', hpct', headroom', hheadroom', cap', hcap', margin', hmargin', attainable', _, he'⟩ := he'
  obtain rfl := Except.ok.inj (hpct.symm.trans hpct')
  obtain rfl := Except.ok.inj (hheadroom.symm.trans hheadroom')
  obtain rfl := Except.ok.inj (hcap.symm.trans hcap')
  obtain rfl := Except.ok.inj (hmargin.symm.trans hmargin')
  obtain rfl := Except.ok.inj he'
  rfl

theorem attainableCeilingMb_of_pos (ht : 0 < t) (free free' : ℤ) :
    attainableCeilingMb t free = attainableCeilingMb t free' := by
  simp only [attainableCeilingMb, if_pos ht]

theorem exists_evaluateVramAdmission_at_ceiling
    (he : evaluateVramAdmission v free t reserved margins = .ok e) :
    ∃ e', evaluateVramAdmission v e.attainableMb t 0 margins = .ok e' := by
  have hceiling := (evaluateVramAdmission_eq_ok he).1
  obtain ⟨attainable, hattainable⟩ := (exists_attainableCeilingMb_iff e.attainableMb).2
    ((exists_attainableCeilingMb_iff free).1 ⟨_, hceiling⟩)
  simp only [evaluateVramAdmission, bind_eq_ok] at he
  obtain ⟨pct, hpct, headroom, hheadroom, cap, hcap, margin, hmargin, -⟩ := he
  simp only [evaluateVramAdmission, hpct, hheadroom, hcap, hmargin, hattainable, ok_bind]
  exact ⟨_, rfl⟩

/-! ## Permanence -/

/-- **A structural refusal is permanent up to the attainable ceiling**: no level of memory up to the ceiling,
less what is reserved, is admitted, and where the total is known each of them is refused for the same
reason. Conversely, when no level up to the ceiling is admitted, the verdict on it is structural. -/
theorem structural_permanent (he : evaluateVramAdmission v free t reserved margins = .ok e) :
    (e.verdict = .insufficientStructural → ∀ free' reserved' e', free' - reserved' ≤ e.attainableMb →
      evaluateVramAdmission v free' t reserved' margins = .ok e' →
        e'.verdict ≠ .admitted ∧ (0 < t → e'.verdict = .insufficientStructural)) ∧
    (free - reserved ≤ e.attainableMb →
      (∀ free' reserved' e', free' - reserved' ≤ e.attainableMb →
        evaluateVramAdmission v free' t reserved' margins = .ok e' → e'.verdict ≠ .admitted) →
      e.verdict = .insufficientStructural) := by
  obtain ⟨hceiling, hneeded, hverdict⟩ := evaluateVramAdmission_eq_ok he
  constructor
  · intro hstructural free' reserved' e' hlevel he'
    obtain ⟨hceiling', -, hverdict'⟩ := evaluateVramAdmission_eq_ok he'
    rw [hverdict, verdictOf_eq_structural_iff] at hstructural
    obtain ⟨hshort, hbelow⟩ := hstructural
    rw [not_or] at hshort
    have hrefused : ¬ (v ≤ 0 ∨ e'.neededMb ≤ free' - reserved') := by
      rw [hneeded he', not_or]
      exact ⟨hshort.1, by omega⟩
    rw [hverdict']
    refine ⟨fun hadmitted => hrefused (verdictOf_eq_admitted_iff.1 hadmitted), fun ht => ?_⟩
    rw [attainableCeilingMb_of_pos ht free' free, hceiling] at hceiling'
    rw [verdictOf_eq_structural_iff, ← Except.ok.inj hceiling', hneeded he']
    exact ⟨hneeded he' ▸ hrefused, hbelow⟩
  · intro hlevel hnone
    obtain ⟨e', he'⟩ := exists_evaluateVramAdmission_at_ceiling he
    have hrefused := hnone e.attainableMb 0 e' (by omega) he'
    obtain ⟨-, -, hverdict'⟩ := evaluateVramAdmission_eq_ok he'
    rw [hverdict', Ne, verdictOf_eq_admitted_iff, hneeded he', not_or] at hrefused
    rw [hverdict, verdictOf_eq_structural_iff, not_or]
    exact ⟨⟨hrefused.1, by omega⟩, by omega⟩

/-- On a card of 32607 MB, of which 652 MB are not reclaimable, a model of 31000 MB needs 33048 MB. -/
theorem structural_permanent_on_card :
    ∃ e, evaluateVramAdmission 31000 100 32607 0 ∅ = .ok e ∧ e.verdict = .insufficientStructural ∧
      ∀ free' reserved' e', free' - reserved' ≤ e.attainableMb →
        evaluateVramAdmission 31000 free' 32607 reserved' ∅ = .ok e' →
          e'.verdict ≠ .admitted ∧ ((0 : ℤ) < 32607 → e'.verdict = .insufficientStructural) := by
  have he : evaluateVramAdmission 31000 100 32607 0 ∅ =
      .ok ⟨.insufficientStructural, 33048, 31000, 2048, 31955, 0, 100, 5, 2048, 4096⟩ := by
    decide +kernel
  exact ⟨_, he, rfl, (structural_permanent he).1 rfl⟩

/-! ## Above the ceiling -/

/-- A structural refusal at one free level rules out admission at every free level up to the total, and when
no free level up to the total is admitted every verdict is structural. -/
def PermanentUpToTotal (margins : Margins) (v t reserved : ℤ) : Prop :=
  (∀ free free' e e', free' ≤ t → evaluateVramAdmission v free t reserved margins = .ok e →
    evaluateVramAdmission v free' t reserved margins = .ok e' →
      e.verdict = .insufficientStructural → e'.verdict ≠ .admitted) ∧
  ((∀ free e, free ≤ t → evaluateVramAdmission v free t reserved margins = .ok e → e.verdict ≠ .admitted) →
    ∀ free e, free ≤ t → evaluateVramAdmission v free t reserved margins = .ok e →
      e.verdict = .insufficientStructural)

/-- A model of 30000 MB needs 32048 MB: on the same card it is refused as structural when nothing is free, and
admitted when everything is. -/
theorem admitted_above_ceiling : ¬ PermanentUpToTotal ∅ 30000 32607 0 := by
  intro h
  have hempty : evaluateVramAdmission 30000 0 32607 0 ∅ =
      .ok ⟨.insufficientStructural, 32048, 30000, 2048, 31955, 0, 0, 5, 2048, 4096⟩ := by
    decide +kernel
  have hfull : evaluateVramAdmission 30000 32607 32607 0 ∅ =
      .ok ⟨.admitted, 32048, 30000, 2048, 31955, 0, 32607, 5, 2048, 4096⟩ := by
    decide +kernel
  exact h.1 0 32607 _ _ le_rfl hempty hfull rfl rfl

end LlmGateway.Eviction
