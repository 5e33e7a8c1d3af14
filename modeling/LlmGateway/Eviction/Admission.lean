import LlmGateway.Eviction.Snapshot

/-!
# Admission of a model to a gateway

`admission_verdict.py` and `resource_checks.py`. A model of footprint `v` needs `v` and a margin: a
percentage of `v`, not less than the headroom and not more than a cap (`computeCappedMarginMb`).
`_check_resources` (`checkResources`) compares what is needed with what is free and not reserved for the models
that are still loading. The percentages are computed with floats; where a number of the configuration makes
a conversion raise, so does the function here.
-/

namespace LlmGateway.Eviction

/-! ## Percentages -/

/-- `int(n * x)`. -/
def scale (n : ℤ) (x : Binary64) : Except Raised ℤ := do
  let y ← (Number.int n).toFloat
  (y * x).toInt

/-- `int(n * (pct / 100))`. -/
def percentOf (n : ℤ) (pct : Number) : Except Raised ℤ := do
  let share ← pct.divInt 100
  scale n share

/-- `int(n * (1.0 + pct / 100))`. -/
def markUp (n : ℤ) (pct : Number) : Except Raised ℤ := do
  let share ← pct.divInt 100
  scale n (.finite 1 + share)

/-! ## Margins -/

namespace Margins

variable (m : Margins)

def vramMarginPct : Number := m.getD "vram_margin_pct" (.int 5)

def vramHeadroomMb : Except Raised ℤ := (m.getD "vram_headroom_mb" (.int 2048)).toInt

def ramMarginPct : Number := m.getD "ram_margin_pct" (.int 3)

/-- With `_DEFAULT_VRAM_MARGIN_CAP_MB`. -/
def vramMarginCapMb : Except Raised ℤ := (m.getD "vram_margin_cap_mb" (.int 4096)).toInt

/-- With `_DEFAULT_RAM_NON_EVICTABLE_RESERVE_MB`. -/
def ramNonEvictableReserveFloorMb : Except Raised ℤ :=
  (m.getD "ram_non_evictable_reserve_floor_mb" (.int 4096)).toInt

/-- With `_DEFAULT_RAM_NON_EVICTABLE_RESERVE_PCT`. -/
def ramNonEvictableReservePct : Except Raised Binary64 :=
  (m.getD "ram_non_evictable_reserve_pct" (.float (.ofRat (1 / 10)))).toFloat

end Margins

/-! ## Verdicts -/

/-- `AdmissionVerdict`, with `ADMIT` as `admitted`. -/
inductive AdmissionVerdict
  | admitted
  | insufficientTransient
  | insufficientMargin
  | insufficientStructural
  deriving DecidableEq

structure AdmissionEvaluation where
  verdict : AdmissionVerdict
  neededMb : ℤ
  footprintEstMb : ℤ
  marginMb : ℤ
  attainableMb : ℤ
  reservedMb : ℤ
  effectiveFreeMb : ℤ
  vramMarginPct : ℤ
  vramHeadroomFloorMb : ℤ
  vramMarginCapMb : ℤ
  deriving DecidableEq

/-- `correction_basis`: whether an amount is the catalog's or was corrected from the hardware's totals. -/
inductive CorrectionBasis
  | catalog
  | corrected
  deriving DecidableEq

structure RamAdmissionEvaluation where
  verdict : AdmissionVerdict
  neededMb : ℤ
  attainableMb : ℤ
  freeableMb : ℤ
  deficitMb : ℤ
  reserveMb : ℤ
  correctionApplied : Bool
  correctionBasis : CorrectionBasis

def clamp (value floorMb capMb : ℤ) : ℤ :=
  if capMb ≤ 0 then max value floorMb else min (max value floorMb) capMb

/-- The part of the memory that no eviction frees: a share of it, and not less than `minMb`. -/
def reserveMb (minMb : ℤ) (ratio : Binary64) (totalMb : ℤ) : Except Raised ℤ :=
  if totalMb ≤ 0 then return minMb
  else return max minMb (← scale totalMb ratio)

def nonreclaimableOverheadMb (vramTotalMb : ℤ) : Except Raised ℤ :=
  reserveMb 512 (.ofRat (2 / 100)) vramTotalMb

def attainableCeilingMb (vramTotalMb vramFreeMb : ℤ) : Except Raised ℤ :=
  if 0 < vramTotalMb then return max 0 (vramTotalMb - (← nonreclaimableOverheadMb vramTotalMb))
  else return max 0 vramFreeMb

def computeCappedMarginMb (footprintEstMb vramMarginPct vramHeadroomFloorMb vramMarginCapMb : ℤ) :
    Except Raised ℤ := do
  let pctComponent ← percentOf footprintEstMb (.int vramMarginPct)
  return clamp pctComponent vramHeadroomFloorMb vramMarginCapMb

def computeNonEvictableRamReserveMb (ramTotalMb : ℤ) (margins : Margins) : Except Raised ℤ := do
  let floorMb ← margins.ramNonEvictableReserveFloorMb
  let reservePct ← margins.ramNonEvictableReservePct
  reserveMb floorMb reservePct ramTotalMb

def evaluateRamReclaim (neededMb catalogFreeableMb ramFreeMb ramTotalMb loadingReservationMb : ℤ)
    (fullEvict : Bool) (margins : Margins) : Except Raised RamAdmissionEvaluation := do
  let reserveMb ← computeNonEvictableRamReserveMb ramTotalMb margins
  let effectiveFreeMb := max 0 (ramFreeMb - loadingReservationMb)
  let catalogMb := max 0 catalogFreeableMb
  let usedMb := max 0 (ramTotalMb - ramFreeMb)
  let hardwareMb := max 0 (usedMb - reserveMb)
  let full := decide (0 < ramTotalMb) && fullEvict
  let corrected := full && decide (catalogMb < hardwareMb)
  let freeableMb := if corrected then hardwareMb else catalogMb
  let attainableMb :=
    if full then max 0 (ramTotalMb - reserveMb - loadingReservationMb) else effectiveFreeMb + freeableMb
  let availableMb := effectiveFreeMb + freeableMb
  return {
    verdict :=
      if neededMb ≤ 0 ∨ neededMb ≤ availableMb then .admitted
      else if attainableMb < neededMb then .insufficientStructural
      else if 0 < loadingReservationMb then .insufficientTransient
      else .insufficientMargin
    neededMb := neededMb
    attainableMb := attainableMb
    freeableMb := freeableMb
    deficitMb := max 0 (neededMb - min availableMb attainableMb)
    reserveMb := reserveMb
    correctionApplied := corrected
    correctionBasis := if corrected then .corrected else .catalog }

def evaluateVramAdmission (footprintEstMb vramFreeMb vramTotalMb reservedMb : ℤ) (margins : Margins) :
    Except Raised AdmissionEvaluation := do
  let vramMarginPct ← margins.vramMarginPct.toInt
  let vramHeadroomFloorMb ← margins.vramHeadroomMb
  let vramMarginCapMb ← margins.vramMarginCapMb
  let marginMb ← computeCappedMarginMb footprintEstMb vramMarginPct vramHeadroomFloorMb vramMarginCapMb
  let neededMb := if 0 < footprintEstMb then footprintEstMb + marginMb else 0
  let attainableMb ← attainableCeilingMb vramTotalMb vramFreeMb
  let effectiveFreeMb := vramFreeMb - reservedMb
  return {
    verdict :=
      if footprintEstMb ≤ 0 ∨ neededMb ≤ effectiveFreeMb then .admitted
      else if attainableMb < neededMb then .insufficientStructural
      else if 0 < reservedMb then .insufficientTransient
      else .insufficientMargin
    neededMb := neededMb
    footprintEstMb := footprintEstMb
    marginMb := marginMb
    attainableMb := attainableMb
    reservedMb := reservedMb
    effectiveFreeMb := effectiveFreeMb
    vramMarginPct := vramMarginPct
    vramHeadroomFloorMb := vramHeadroomFloorMb
    vramMarginCapMb := vramMarginCapMb }

/-! ## The resource check -/

/-- A `ConstraintFailure` of the resource check, with the data that it reports. -/
inductive ConstraintFailure
  | missingGatewayResourceData
  | loadingModelRequirementsMissing (model : ModelId)
  | hasEnoughVram (vramReserved : ℤ) (admission : AdmissionEvaluation)
  | hasEnoughRam (ramFree ramReserved ramEffective ramNeeded : ℤ)
  deriving DecidableEq

/-- What `_calculate_required_resources` returns. -/
structure RequiredResources where
  vramNeeded : ℤ
  ramNeeded : ℤ
  vramMarginPct : ℤ
  vramHeadroomMb : ℤ
  ramMarginPct : ℤ

def calculateRequiredResources (vramMb ramMb : ℤ) (margins : Margins) :
    Except Raised RequiredResources := do
  let ramMarginPct ← margins.ramMarginPct.toInt
  let vramMarginPct ← margins.vramMarginPct.toInt
  let vramHeadroomMb ← margins.vramHeadroomMb
  let ramNeeded ← markUp ramMb (.int ramMarginPct)
  let vramPct ← markUp vramMb (.int vramMarginPct)
  let vramNeeded := if 0 < vramMb then vramPct + vramHeadroomMb else 0
  return ⟨vramNeeded, ramNeeded, vramMarginPct, vramHeadroomMb, ramMarginPct⟩

/-- `_compute_loading_reservation`: what the models that are loading reserve, but for the target, or the
first of them of which nothing is known. -/
def computeLoadingReservation (g : Gateway) (target : ModelId) (requirementsLookup : ModelId → ℤ × ℤ) :
    Except ModelId (ℤ × ℤ) :=
  (g.loadingModels.elems.filter (· ≠ target)).foldlM
    (fun reserved model =>
      let need := requirementsLookup model
      if need.1 = 0 ∧ need.2 = 0 then .error model
      else .ok (reserved.1 + need.1, reserved.2 + need.2))
    (0, 0)

def resolveGatewayRequirements (g : Gateway) (placement : Placement) :
    Except ConstraintFailure (ℤ × ℤ) :=
  match g.modelDetails.get? placement.modelId with
  | none => .error .missingGatewayResourceData
  | some details => .ok (details.vramUsage.getD 0, details.ramUsage.getD 0)

def checkResources (g : Gateway) (placement : Placement) (requirementsLookup : ModelId → ℤ × ℤ)
    (margins : Margins) : Except Raised (Bool × Option ConstraintFailure) :=
  match resolveGatewayRequirements g placement with
  | .error failure => return (false, some failure)
  | .ok (vramMb, ramMb) => do
    let required ← calculateRequiredResources vramMb ramMb margins
    match computeLoadingReservation g placement.modelId requirementsLookup with
    | .error model => return (false, some (.loadingModelRequirementsMissing model))
    | .ok (vramReserved, ramReserved) =>
      let effectiveRamFree := g.ramFreeMb - ramReserved
      let admission ← evaluateVramAdmission vramMb g.vramFreeMb g.vramTotalMb vramReserved margins
      if 0 < vramMb ∧ admission.verdict ≠ .admitted then
        return (false, some (.hasEnoughVram vramReserved admission))
      else if 0 < ramMb ∧ effectiveRamFree < required.ramNeeded then
        return (false, some (.hasEnoughRam g.ramFreeMb ramReserved effectiveRamFree required.ramNeeded))
      else return (true, none)

end LlmGateway.Eviction
