import LlmGateway.Eviction.Admission

/-!
# When the verdict on the RAM agrees with the deficit

`evaluate_ram_reclaim` admits when what is free and what can be freed are enough, and reports what is missing from
the smaller of that and the ceiling that the hardware's total sets. The ceiling counts for a full eviction only. Where
the catalog promises more than the ceiling allows, a need between the two is admitted with a deficit:
`evaluateRamReclaim_agrees_iff`.
-/

namespace LlmGateway.Eviction

variable {needed catalog free total loading reserve : ℤ} {fullEvict : Bool} {margins : Margins}

/-- Of a full eviction on hardware of a known total, the need is over what the total leaves, but not over what is
free and freeable. -/
def OverCeiling (needed catalog free total loading reserve : ℤ) (fullEvict : Bool) : Prop :=
  fullEvict = true ∧ 0 < total ∧ total - reserve - loading < needed ∧
    needed ≤ max 0 (free - loading) + max (max 0 catalog) (max 0 (total - free) - reserve)

theorem evaluateRamReclaim_eq (needed catalog free loading : ℤ) (fullEvict : Bool)
    (hreserve : computeNonEvictableRamReserveMb total margins = .ok reserve) :
    ∃ e, evaluateRamReclaim needed catalog free total loading fullEvict margins = .ok e ∧
      (0 < needed → (e.verdict = .admitted ↔ needed ≤ max 0 (free - loading) + e.freeableMb)) ∧
      e.deficitMb = max 0 (needed - min (max 0 (free - loading) + e.freeableMb) e.attainableMb) ∧
      (fullEvict = true ∧ 0 < total → e.freeableMb = max (max 0 catalog) (max 0 (total - free) - reserve) ∧
        e.attainableMb = max 0 (total - reserve - loading)) ∧
      (¬ (fullEvict = true ∧ 0 < total) → e.attainableMb = max 0 (free - loading) + e.freeableMb) := by
  refine ⟨_, bind_eq_ok.2 ⟨reserve, hreserve, rfl⟩, fun hneeded => ?_, rfl, ?_, ?_⟩
  · constructor
    · intro hverdict
      by_contra hshort
      dsimp only at hverdict hshort
      rw [if_neg (not_or.2 ⟨hneeded.not_ge, hshort⟩)] at hverdict
      split_ifs at hverdict
    · exact fun hfit => if_pos (.inr hfit)
  · rintro ⟨rfl, htotal⟩
    simp only [htotal, decide_true, Bool.and_self, Bool.true_and, decide_eq_true_eq, if_true, and_true]
    split_ifs <;> omega
  · intro hpart
    have hfull : (decide (0 < total) && fullEvict) = false := by
      rw [Bool.and_eq_false_iff, decide_eq_false_iff_not, ← Bool.not_eq_true]
      exact (not_and_or.1 hpart).symm
    simp only [hfull, Bool.false_eq_true, if_false]

/-- **When verdict and deficit agree**: always, but for a need over the ceiling of a full eviction that is not over
what is free and freeable. -/
theorem evaluateRamReclaim_agrees_iff (hneeded : 0 < needed)
    (hreserve : computeNonEvictableRamReserveMb total margins = .ok reserve) :
    ∃ e, evaluateRamReclaim needed catalog free total loading fullEvict margins = .ok e ∧
      ((e.verdict = .admitted ↔ e.deficitMb = 0) ↔
        ¬ OverCeiling needed catalog free total loading reserve fullEvict) := by
  obtain ⟨e, he, hverdict, hdeficit, hfull, hpart⟩ := evaluateRamReclaim_eq needed catalog free loading fullEvict hreserve
  refine ⟨e, he, ?_⟩
  rw [hverdict hneeded, hdeficit, OverCeiling]
  by_cases hcase : fullEvict = true ∧ 0 < total
  · obtain ⟨hfreeable, hattainable⟩ := hfull hcase
    simp only [hcase.1, hcase.2, true_and, hfreeable, hattainable]
    omega
  · rw [hpart hcase, min_self]
    have hnot : ¬ (fullEvict = true ∧ 0 < total ∧ total - reserve - loading < needed ∧
        needed ≤ max 0 (free - loading) + max (max 0 catalog) (max 0 (total - free) - reserve)) :=
      fun h => hcase ⟨h.1, h.2.1⟩
    refine iff_of_true ?_ hnot
    omega

/-- A need that the catalog meets and the hardware's total does not. -/
theorem evaluateRamReclaim_agrees_part :
    ∃ e, evaluateRamReclaim 95000 20000 90000 100000 0 false ∅ = .ok e ∧
      ((e.verdict = .admitted ↔ e.deficitMb = 0) ↔
        ¬ OverCeiling 95000 20000 90000 100000 0 10000 false) :=
  evaluateRamReclaim_agrees_iff (by decide) (by decide +kernel)

/-- Of a full eviction it is admitted, with 5000 MB missing. -/
theorem admitted_with_deficit :
    ∃ e, evaluateRamReclaim 95000 20000 90000 100000 0 true ∅ = .ok e ∧
      ¬ (e.verdict = .admitted ↔ e.deficitMb = 0) := by
  have hreserve : computeNonEvictableRamReserveMb 100000 ∅ = .ok 10000 := by decide +kernel
  exact ⟨_, bind_eq_ok.2 ⟨10000, hreserve, rfl⟩, by decide⟩

end LlmGateway.Eviction
