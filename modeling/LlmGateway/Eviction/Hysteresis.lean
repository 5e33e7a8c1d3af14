import LlmGateway.Eviction.Soundness

/-!
# What hysteresis lets through

A model is protected while it is in its cooldown, and while a request for it waits. As long as any idle model is
unprotected, hysteresis leaves the unprotected ones and no other; only where there is none may one protected model
escape, and not from its cooldown for an opportunistic request. `filterEvictableWithHysteresis_safe` says so for
every list of models, every cooldown, every demand and both classes of requests.
-/

namespace LlmGateway.Eviction

variable {g : Gateway} {evictable : List ModelId} {cooldown : Binary64} {hasDemand : Option (String → Bool)}
  {requestClass : EvictionRequestClass} {now : ℚ} {hyst : HysteresisResult} {m : ModelId}

/-- A model that was loaded not long ago. -/
def InCooldown (g : Gateway) (cooldown : Binary64) (now : ℚ) (m : ModelId) : Prop :=
  Binary64.lt (elapsed g now m) cooldown = true

/-- A model that a request waits for. -/
def InDemand (hasDemand : Option (String → Bool)) (m : ModelId) : Prop :=
  ∃ demand, hasDemand = some demand ∧ demand m.routingKey = true

/-- What hysteresis may leave of the idle models. -/
structure HysteresisSafe (g : Gateway) (evictable : List ModelId) (cooldown : Binary64)
    (hasDemand : Option (String → Bool)) (requestClass : EvictionRequestClass) (now : ℚ)
    (hyst : HysteresisResult) : Prop where
  subset : ∀ m ∈ hyst.evictable, m ∈ evictable
  unprotected : hyst.escapeHatchUsed = false →
    ∀ m ∈ hyst.evictable, ¬ InCooldown g cooldown now m ∧ ¬ InDemand hasDemand m
  opportunistic : requestClass = .opportunistic → ∀ m ∈ hyst.evictable, ¬ InCooldown g cooldown now m
  single : hyst.escapeHatchUsed = true → ∃ m, hyst.evictable = [m] ∧ hyst.escapeModelId = some m
  lastResort : hyst.escapeHatchUsed = true → ∀ m ∈ evictable, InCooldown g cooldown now m ∨ InDemand hasDemand m

theorem inDemand_iff : InDemand hasDemand m ↔ (hasDemand.any fun demand => demand m.routingKey) = true := by
  rw [InDemand, Option.any_eq_true]

theorem mem_unprotected {p : ModelId → Bool} (hp : ∀ m, p m = true ↔ InDemand hasDemand m) :
    m ∈ (evictable.filter fun m => !Binary64.lt (elapsed g now m) cooldown).filter (fun m => !p m) ↔
      m ∈ evictable ∧ ¬ InCooldown g cooldown now m ∧ ¬ InDemand hasDemand m := by
  rw [List.mem_filter, List.mem_filter, and_assoc, InCooldown, ← hp, Bool.not_eq_true', Bool.not_eq_true',
    Bool.not_eq_true, Bool.not_eq_true]

theorem mem_demandProtected {p : ModelId → Bool} (hp : ∀ m, p m = true ↔ InDemand hasDemand m) :
    m ∈ (evictable.filter fun m => !Binary64.lt (elapsed g now m) cooldown).filter p ↔
      m ∈ evictable ∧ ¬ InCooldown g cooldown now m ∧ InDemand hasDemand m := by
  rw [List.mem_filter, List.mem_filter, and_assoc, InCooldown, ← hp, Bool.not_eq_true', Bool.not_eq_true]

/-- **Hysteresis is safe**: it adds no model, leaves only unprotected ones unless the hatch is used, lets none out
of its cooldown for an opportunistic request, and uses the hatch for one model only, when all are protected. -/
theorem filterEvictableWithHysteresis_safe
    (h : filterEvictableWithHysteresis g evictable cooldown hasDemand requestClass now = some hyst) :
    HysteresisSafe g evictable cooldown hasDemand requestClass now hyst := by
  have hsubset : ∀ m ∈ hyst.evictable, m ∈ evictable := fun m hm => mem_of_filterEvictableWithHysteresis h hm
  have hwanted : ∀ m : ModelId, (hasDemand.any fun demand => demand m.routingKey) = true ↔ InDemand hasDemand m :=
    fun m => inDemand_iff.symm
  simp only [filterEvictableWithHysteresis] at h
  split at h
  case isTrue hfree =>
    obtain rfl := Option.some.inj h
    refine ⟨hsubset, fun _ m hm => ((mem_unprotected hwanted).1 hm).2,
      fun _ m hm => ((mem_unprotected hwanted).1 hm).2.1, fun hused => ?_, fun hused => ?_⟩
    all_goals cases hused
  case isFalse hfree =>
    have hnone : ∀ m ∈ evictable, InCooldown g cooldown now m ∨ InDemand hasDemand m := by
      intro m hm
      by_contra hprotected
      rw [not_or] at hprotected
      exact hfree (List.ne_nil_of_mem ((mem_unprotected hwanted).2 ⟨hm, hprotected⟩))
    split at h
    case h_1 candidate holdest =>
      obtain rfl := Option.some.inj h
      have hcandidate := (mem_demandProtected hwanted).1 (mem_of_oldest holdest)
      refine ⟨hsubset, fun hused => ?_, fun _ m hm => ?_, fun _ => ⟨candidate, rfl, rfl⟩, fun _ => hnone⟩
      · cases hused
      · rw [List.mem_singleton.1 hm]
        exact hcandidate.2.1
    case h_2 =>
      split_ifs at h with hclass
      obtain ⟨candidate, -, rfl⟩ := Option.map_eq_some_iff.1 h
      refine ⟨hsubset, fun hused => ?_, fun hopportunistic => (hclass hopportunistic).elim,
        fun _ => ⟨candidate, rfl, rfl⟩, fun _ => hnone⟩
      cases hused

/-- A model that was loaded ten seconds ago, and one that a request waits for. -/
def recent : ModelId := ⟨"recent-8192", none⟩

@[inherit_doc recent]
def wanted : ModelId := ⟨"wanted-8192", none⟩

/-- A gateway with both, and a third that is free to go. -/
def warm : Gateway :=
  { (tightCall ∅ 0 0 0 0 0).gateway with modelLoadedAt := (∅ : Dict ModelId ℚ).set recent 990 }

/-- One model is in its cooldown, one in demand, and the third is left. -/
theorem filterEvictableWithHysteresis_safe_warm :
    HysteresisSafe warm [wanted, recent, spare] (.finite 120) (some (· == "wanted-8192")) .opportunistic 1000
      { evictable := [spare], cooldownProtectedCount := 1, demandProtectedCount := 1 } :=
  filterEvictableWithHysteresis_safe (by decide +kernel)

end LlmGateway.Eviction
