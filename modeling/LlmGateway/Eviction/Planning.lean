import Mathlib.Data.List.Sort
import LlmGateway.Eviction.Admission

/-!
# Eviction plans

`eviction_hysteresis.py`, `eviction_victim_select.py` and `eviction_planning.py`. Of the idle models of a
gateway, those that may go are the ones out of their cooldown and without demand, or a single one that an
escape hatch lets through (`filterEvictableWithHysteresis`). They are taken largest first until the free
memory and what they free cover the target on both axes (`takeVictims`); when every loaded model goes, what they
free is corrected by what the hardware reports as used. `selectEvictionVictims` returns the plan, or an abort
that says which axis is short.
-/

namespace LlmGateway.Eviction

/-! ## Hysteresis -/

inductive EvictionRequestClass
  | required
  | opportunistic
  deriving DecidableEq

inductive EscapeReason
  | demand
  | cooldown
  deriving DecidableEq

structure HysteresisResult where
  evictable : List ModelId
  cooldownProtectedCount : ℕ
  demandProtectedCount : ℕ
  escapeHatchUsed : Bool := false
  escapeReason : Option EscapeReason := none
  escapeCooldownRemainingS : Option Binary64 := none
  escapeModelId : Option ModelId := none
  cooldownOverridePending : Bool := false
  cooldownOverrideVictimId : Option ModelId := none
  cooldownOverrideRemainingS : Option Binary64 := none
  deriving DecidableEq

/-- `gateway.model_loaded_at.get(mid, 0.0)`. -/
def loadedAt (g : Gateway) (m : ModelId) : ℚ := g.modelLoadedAt.getD m 0

/-- The time since the model was loaded. -/
def elapsed (g : Gateway) (now : ℚ) (m : ModelId) : Binary64 := .finite now - .finite (loadedAt g m)

def remainingCooldownS (g : Gateway) (m : ModelId) (evictionCooldownS : Binary64) (now : ℚ) : Binary64 :=
  let remaining := evictionCooldownS - elapsed g now m
  if Binary64.lt (.finite 0) remaining then remaining else .finite 0

/-- `cooldown_override_eligible`, with `COOLDOWN_HARD_FLOOR_S`. -/
def cooldownOverrideEligible (remainingS : Binary64) : Bool := Binary64.lt (.finite 10) remainingS

/-- `sorted(models, key=loaded_at)[0]`. -/
def oldest (g : Gateway) (models : List ModelId) : Option ModelId :=
  (models.insertionSort fun a b => loadedAt g a ≤ loadedAt g b).head?

/-- `filter_evictable_with_hysteresis`, at the clock reading `now`. -/
def filterEvictableWithHysteresis (g : Gateway) (evictable : List ModelId) (evictionCooldownS : Binary64)
    (hasDemand : Option (String → Bool)) (requestClass : EvictionRequestClass) (now : ℚ) :
    Option HysteresisResult :=
  let inCooldown := fun m => Binary64.lt (elapsed g now m) evictionCooldownS
  let cooldownProtected := evictable.filter inCooldown
  let pastCooldown := evictable.filter fun m => !inCooldown m
  let wanted := fun m : ModelId => hasDemand.any fun demand => demand m.routingKey
  let demandProtected := pastCooldown.filter wanted
  let free := pastCooldown.filter fun m => !wanted m
  let counted : HysteresisResult :=
    { evictable := free
      cooldownProtectedCount := cooldownProtected.length
      demandProtectedCount := demandProtected.length }
  if free ≠ [] then some counted
  else
    match oldest g demandProtected with
    | some candidate =>
      some { counted with
        evictable := [candidate]
        escapeHatchUsed := true
        escapeReason := some .demand
        escapeModelId := some candidate }
    | none =>
      -- the hatch of the cooldown is for required requests, and only above the hard floor
      if requestClass = .opportunistic then none
      else
        let eligible := cooldownProtected.filter fun m =>
          cooldownOverrideEligible (remainingCooldownS g m evictionCooldownS now)
        (oldest g eligible).map fun candidate =>
          let remaining := remainingCooldownS g candidate evictionCooldownS now
          { counted with
            evictable := [candidate]
            escapeHatchUsed := true
            escapeReason := some .cooldown
            escapeCooldownRemainingS := some remaining
            escapeModelId := some candidate
            cooldownOverridePending := true
            cooldownOverrideVictimId := some candidate
            cooldownOverrideRemainingS := some remaining }

/-! ## Victims -/

inductive BindingAxis
  | vram
  | ram
  deriving DecidableEq

/-- `reason` of an abort. -/
inductive AbortReason
  | insufficientVramAfterEviction
  | insufficientRamAfterEviction
  | inFlightEvictionProhibited
  deriving DecidableEq

structure EvictionPlanAbort where
  bindingAxis : BindingAxis
  deficitMb : ℤ
  correctionBasis : CorrectionBasis
  neededMb : ℤ
  availableMb : ℤ
  reason : AbortReason
  deriving DecidableEq

/-- `EvictionPlanSummary`. The fields that are copied from the result of the hysteresis are that result. -/
structure EvictionPlanSummary where
  modelsToEvict : Finset ModelId
  freedVramMb : ℤ
  freedRamMb : ℤ
  estimatedCost : Binary64
  catalogFreedVramMb : ℤ
  hardwareUsedVramMb : Option ℤ
  nonEvictableVramReserveMb : ℤ
  hardwareCorrectionApplied : Bool
  catalogFreedRamMb : ℤ
  hardwareUsedRamMb : Option ℤ
  nonEvictableRamReserveMb : ℤ
  ramHardwareCorrectionApplied : Bool
  triggerModelId : ModelId
  hysteresis : HysteresisResult
  deriving DecidableEq

/-- What the planner returns when it is not `None`. -/
inductive PlanResult
  | summary (plan : EvictionPlanSummary)
  | abort (cause : EvictionPlanAbort)
  deriving DecidableEq

def computeNonEvictableVramReserveMb (vramTotalMb : ℤ) : Except Raised ℤ :=
  reserveMb 512 (.ofRat (2 / 100)) vramTotalMb

/-- An evictable model with the memory it takes. -/
structure Candidate where
  modelId : ModelId
  vramUsage : ℤ
  ramUsage : ℤ
  deriving DecidableEq

/-- The measured footprint of a model where there is one, else the catalog's. -/
def candidate (g : Gateway) (m : ModelId) : Candidate :=
  let usage := g.getModelResourceUsage m
  ⟨m, (g.modelMeasuredVram.get? m).getD usage.1, usage.2⟩

/-- The order of the key `(-vram, -ram)`. -/
def largerFirst (a b : Candidate) : Prop :=
  b.vramUsage < a.vramUsage ∨ a.vramUsage = b.vramUsage ∧ b.ramUsage ≤ a.ramUsage

instance (a b : Candidate) : Decidable (largerFirst a b) := inferInstanceAs (Decidable (_ ∨ _))

/-- The models taken so far, and what they free. -/
structure Taken where
  models : List ModelId
  vramMb : ℤ
  ramMb : ℤ

/-- The greedy loop: candidates are taken until what they free is `covered`. -/
def takeVictims (covered : Taken → Bool) : List Candidate → Taken → Taken
  | [], taken => taken
  | c :: rest, taken =>
    let taken : Taken :=
      ⟨taken.models ++ [c.modelId], taken.vramMb + c.vramUsage, taken.ramMb + c.ramUsage⟩
    if covered taken then taken else takeVictims covered rest taken

/-- `vram_target` and `ram_target`. -/
structure Targets where
  vramMb : ℤ
  ramMb : ℤ

/-- The margins of the planner. -/
def evictionTargets (vramMb ramMb : ℤ) (margins : Margins) : Except Raised Targets := do
  let vramHeadroomMb ← margins.vramHeadroomMb
  let vramPct ← markUp vramMb margins.vramMarginPct
  let vramTarget := if 0 < vramMb then vramPct + vramHeadroomMb else 0
  let ramTarget ← markUp ramMb margins.ramMarginPct
  return ⟨vramTarget, ramTarget⟩

/-- `vram_covered and ram_covered`. -/
def covered (vramMb ramMb effectiveVramFree effectiveRamFree : ℤ) (targets : Targets) (taken : Taken) :
    Bool :=
  (decide (vramMb ≤ 0) || decide (targets.vramMb ≤ effectiveVramFree + taken.vramMb)) &&
    (decide (ramMb ≤ 0) || decide (targets.ramMb ≤ effectiveRamFree + taken.ramMb))

/-- `evictable_with_resources`, sorted. -/
def candidates (g : Gateway) (hyst : HysteresisResult) : List Candidate :=
  (hyst.evictable.map (candidate g)).insertionSort largerFirst

/-- The VRAM that the victims free, with the correction from the hardware's totals. -/
structure FreedVram where
  mb : ℤ
  hardwareUsedMb : Option ℤ
  reserveMb : ℤ
  corrected : Bool

/-- The correction of the freed VRAM: when every loaded model goes, what the hardware has in use but for
the reserve, if that is more. -/
def correctFreedVram (g : Gateway) (fullEvict : Bool) (catalogMb : ℤ) : Except Raised FreedVram :=
  if 0 < g.vramTotalMb ∧ fullEvict = true then do
    let usedMb := max 0 (g.vramTotalMb - g.vramFreeMb)
    let reserveMb ← computeNonEvictableVramReserveMb g.vramTotalMb
    let boundMb := max 0 (usedMb - reserveMb)
    if catalogMb < boundMb then return ⟨boundMb, some usedMb, reserveMb, true⟩
    else return ⟨catalogMb, some usedMb, reserveMb, false⟩
  else return ⟨catalogMb, none, 0, false⟩

def selectEvictionVictims (g : Gateway) (placement : Placement) (hyst : HysteresisResult)
    (vramMb ramMb effectiveVramFree effectiveRamFree : ℤ) (margins : Margins)
    (keysInFlight : Option (List String)) : Except Raised PlanResult := do
  let targets ← evictionTargets vramMb ramMb margins
  let taken := takeVictims (covered vramMb ramMb effectiveVramFree effectiveRamFree targets)
    (candidates g hyst) ⟨[], 0, 0⟩
  let fullEvict := decide (taken.models.toFinset = g.loadedModels.elems.toFinset)
  let vram ← correctFreedVram g fullEvict taken.vramMb
  let ram ← evaluateRamReclaim targets.ramMb taken.ramMb g.ramFreeMb g.ramTotalMb
    (max 0 (g.ramFreeMb - effectiveRamFree)) (!taken.models.isEmpty && fullEvict) margins
  let hardwareUsedRamMb :=
    if 0 < g.ramTotalMb ∧ fullEvict = true then some (max 0 (g.ramTotalMb - g.ramFreeMb)) else none
  let totalVram := effectiveVramFree + vram.mb
  let totalRam := effectiveRamFree + ram.freeableMb
  let basis : CorrectionBasis := if vram.corrected then .corrected else .catalog
  if 0 < vramMb ∧ totalVram < targets.vramMb then
    return .abort ⟨.vram, targets.vramMb - totalVram, basis, targets.vramMb, totalVram,
      .insufficientVramAfterEviction⟩
  else if 0 < ramMb ∧ totalRam < targets.ramMb then
    return .abort ⟨.ram, targets.ramMb - totalRam, ram.correctionBasis, targets.ramMb, totalRam,
      .insufficientRamAfterEviction⟩
  else if keysInFlight.any fun keys => taken.models.any fun m => keys.contains m.routingKey then
    return .abort ⟨.vram, 0, basis, targets.vramMb, totalVram, .inFlightEvictionProhibited⟩
  else
    return .summary {
      modelsToEvict := taken.models.toFinset
      freedVramMb := vram.mb
      freedRamMb := ram.freeableMb
      estimatedCost := .finite (-30) + .finite (-20) * .ofRat taken.models.length
      catalogFreedVramMb := taken.vramMb
      hardwareUsedVramMb := vram.hardwareUsedMb
      nonEvictableVramReserveMb := vram.reserveMb
      hardwareCorrectionApplied := vram.corrected
      catalogFreedRamMb := taken.ramMb
      hardwareUsedRamMb := hardwareUsedRamMb
      nonEvictableRamReserveMb := ram.reserveMb
      ramHardwareCorrectionApplied := ram.correctionApplied
      triggerModelId := placement.modelId
      hysteresis := hyst }

/-! ## The planner -/

/-- What `_compute_eviction_plan` is called with, and what it reads beside its arguments: the clock and the
models of the retrieval workload. -/
structure PlanCall where
  gateway : Gateway
  placement : Placement
  requirementsLookup : ModelId → ℤ × ℤ
  routingKeyTracker : Option (String → List String)
  evictionCooldownS : Binary64
  hasDemand : Option (String → Bool)
  resourceMargins : Margins
  requestClass : EvictionRequestClass
  now : ℚ
  rag : RagModels

namespace PlanCall

variable (x : PlanCall)

/-- `gw_keys_in_flight`. -/
def keysInFlight : Option (List String) := x.routingKeyTracker.map fun keys => keys x.gateway.name

/-- The idle models but for the target and the protected ones. -/
def evictable : List ModelId :=
  (idleModels x.gateway x.keysInFlight).filter fun m =>
    m ≠ x.placement.modelId && !x.rag.isRagProtectedModel m

/-- The models that hysteresis leaves. -/
def hysteresis : Option HysteresisResult :=
  filterEvictableWithHysteresis x.gateway x.evictable x.evictionCooldownS x.hasDemand x.requestClass x.now

def computeEvictionPlan : Except Raised (Option PlanResult) :=
  match resolveGatewayRequirements x.gateway x.placement with
  | .error _ => return none
  | .ok (vramMb, ramMb) =>
    match computeLoadingReservation x.gateway x.placement.modelId x.requirementsLookup with
    | .error _ => return none
    | .ok (vramReserved, ramReserved) =>
      if x.evictable = [] then return none
      else
        match x.hysteresis with
        | none => return none
        | some hyst =>
          some <$> selectEvictionVictims x.gateway x.placement hyst vramMb ramMb
            (x.gateway.vramFreeMb - vramReserved) (x.gateway.ramFreeMb - ramReserved)
            x.resourceMargins x.keysInFlight

end PlanCall

end LlmGateway.Eviction
