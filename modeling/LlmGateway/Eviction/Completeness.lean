import LlmGateway.Eviction.Soundness

/-!
# Completeness of the planner

When the planner aborts for VRAM, every model that hysteresis leaves was taken and the target is still not
covered. The refusal is right when the gateway without all of them fails the resource check as well. The two
thresholds differ: the planner adds the headroom on top of the percentage, the check takes the larger of the
two and caps it. `TargetWithinNeed` compares them, and `refusals_complete_iff` says that it is exactly the
condition under which no load is refused that the check would accept.
-/

namespace LlmGateway.Eviction

variable {g : Gateway} {placement : Placement} {margins : Margins} {hyst : HysteresisResult}
  {cause : EvictionPlanAbort} {keysInFlight : Option (List String)} {v r t : ℤ} {x : PlanCall}

/-! ## Evicting everything -/

/-- All candidates, taken together. -/
def takeAll (candidates : List Candidate) : Taken := takeVictims (fun _ => false) candidates ⟨[], 0, 0⟩

/-- The gateway after every model that hysteresis leaves was evicted, by the planner's own account of what that
frees. -/
def Gateway.evictAll (g : Gateway) (hyst : HysteresisResult) (effectiveRamFree : ℤ) (margins : Margins) :
    Except Raised Gateway := do
  let taken := takeAll (candidates g hyst)
  let fullEvict := decide (taken.models.toFinset = g.loadedModels.elems.toFinset)
  let vram ← correctFreedVram g fullEvict taken.vramMb
  let ram ← evaluateRamReclaim 0 taken.ramMb g.ramFreeMb g.ramTotalMb
    (max 0 (g.ramFreeMb - effectiveRamFree)) (!taken.models.isEmpty && fullEvict) margins
  return { g with
    vramFreeMb := g.vramFreeMb + vram.mb
    ramFreeMb := g.ramFreeMb + ram.freeableMb
    loadedModels := g.loadedModels.filter fun m => m ∉ taken.models }

/-- When the call aborts for VRAM, evicting every model that hysteresis leaves would not pass the check. -/
def Complete (x : PlanCall) : Prop :=
  ∀ cause, x.computeEvictionPlan = .ok (some (.abort cause)) →
    cause.reason = .insufficientVramAfterEviction →
    ∃ hyst vramReserved ramReserved g', x.hysteresis = some hyst ∧
      computeLoadingReservation x.gateway x.placement.modelId x.requirementsLookup =
        .ok (vramReserved, ramReserved) ∧
      x.gateway.evictAll hyst (x.gateway.ramFreeMb - ramReserved) x.resourceMargins = .ok g' ∧
      checkResources g' x.placement x.requirementsLookup x.resourceMargins ≠ .ok (true, none)

/-- **The planner's target is within what the check needs**: of a footprint in VRAM, wherever the planner and
the check both have their numbers, the percentage and the headroom together are no more than the capped
margin. -/
def TargetWithinNeed (margins : Margins) (v r t : ℤ) : Prop :=
  ∀ headroom vramPct ramPct cap share ramNeeded, Planned margins v r headroom vramPct ramPct →
    Needed margins v r t headroom cap share ramNeeded → 0 < v →
      vramPct + headroom ≤ v + clamp share headroom cap

theorem frame_of_evictAll {effectiveRam : ℤ} {g' : Gateway}
    (h : g.evictAll hyst effectiveRam margins = .ok g') :
    (∀ placement, resolveGatewayRequirements g' placement = resolveGatewayRequirements g placement) ∧
      (∀ target lookup, computeLoadingReservation g' target lookup =
        computeLoadingReservation g target lookup) ∧ g'.vramTotalMb = g.vramTotalMb := by
  obtain ⟨vram, -, hg⟩ := bind_eq_ok.1 h
  obtain ⟨ram, -, hg⟩ := bind_eq_ok.1 hg
  obtain rfl := Except.ok.inj hg
  exact ⟨fun _ => rfl, fun _ _ => rfl, rfl⟩

/-! ## The loop -/

theorem takeVictims_of_not_covered {covered : Taken → Bool} {candidates : List Candidate} {taken : Taken}
    (h : covered (takeVictims covered candidates taken) = false) :
    takeVictims covered candidates taken = takeVictims (fun _ => false) candidates taken := by
  induction candidates generalizing taken with
  | nil => rfl
  | cons c rest ih =>
    rw [takeVictims] at h ⊢
    split_ifs at h ⊢ with hcovered
    · rw [hcovered] at h
      cases h
    · rw [takeVictims, if_neg Bool.false_ne_true]
      exact ih h

theorem le_correctFreedVram {fullEvict : Bool} {catalogMb : ℤ} {vram : FreedVram}
    (h : correctFreedVram g fullEvict catalogMb = .ok vram) : catalogMb ≤ vram.mb := by
  rw [correctFreedVram] at h
  split_ifs at h with hfull
  · obtain ⟨reserve, -, h⟩ := bind_eq_ok.1 h
    dsimp only at h
    split_ifs at h with hlt
    · obtain rfl := Except.ok.inj h
      exact hlt.le
    · obtain rfl := Except.ok.inj h
      exact le_rfl
  · obtain rfl := Except.ok.inj h
    exact le_rfl

theorem exists_evaluateRamReclaim (needed' : ℤ) {needed catalog free total reserved : ℤ} {fullEvict : Bool}
    {e : RamAdmissionEvaluation}
    (h : evaluateRamReclaim needed catalog free total reserved fullEvict margins = .ok e) :
    ∃ e', evaluateRamReclaim needed' catalog free total reserved fullEvict margins = .ok e' := by
  obtain ⟨reserve, hreserve, -⟩ := bind_eq_ok.1 h
  exact ⟨_, bind_eq_ok.2 ⟨reserve, hreserve, rfl⟩⟩

/-! ## Refusals -/

/-- **What a refusal for VRAM is**: the planner has its numbers, all candidates were taken, and what is free
with them gone is below the target. -/
theorem selectEvictionVictims_eq_abort {effectiveVram effectiveRam : ℤ}
    (h : selectEvictionVictims g placement hyst v r effectiveVram effectiveRam margins keysInFlight =
      .ok (.abort cause)) (hcause : cause.reason = .insufficientVramAfterEviction) :
    ∃ headroom vramPct ramPct g', Planned margins v r headroom vramPct ramPct ∧ 0 < v ∧
      g.evictAll hyst effectiveRam margins = .ok g' ∧
      effectiveVram + (g'.vramFreeMb - g.vramFreeMb) < vramPct + headroom := by
  simp only [selectEvictionVictims, bind_eq_ok] at h
  obtain ⟨targets, htargets, vram, hvram, ram, hram, h⟩ := h
  simp only [evictionTargets, bind_eq_ok] at htargets
  obtain ⟨headroom, hheadroom, vramPct, hvramPct, ramPct, hramPct, htargets⟩ := htargets
  obtain rfl := Except.ok.inj htargets
  obtain ⟨reserve, hreserve, -⟩ := bind_eq_ok.1 hram
  rw [computeNonEvictableRamReserveMb, bind_eq_ok] at hreserve
  obtain ⟨reserveFloor, hfloor, hreserve⟩ := hreserve
  obtain ⟨reservePct, hpct, -⟩ := bind_eq_ok.1 hreserve
  set targets : Targets := ⟨if 0 < v then vramPct + headroom else 0, ramPct⟩ with htargets
  have htarget : 0 < v → targets.vramMb = vramPct + headroom := fun hv => if_pos hv
  clear_value targets
  set taken := takeVictims (covered v r effectiveVram effectiveRam targets) (candidates g hyst) ⟨[], 0, 0⟩
  -- the first test is the only one that aborts for this reason
  split at h
  case isFalse =>
    split at h
    · obtain rfl := PlanResult.abort.inj (Except.ok.inj h)
      cases hcause
    · split at h
      · obtain rfl := PlanResult.abort.inj (Except.ok.inj h)
        cases hcause
      · cases h
  case isTrue hshort =>
    obtain ⟨hv, hlt⟩ := hshort
    rw [htarget hv] at hlt
    have hle := le_correctFreedVram hvram
    have hnot : covered v r effectiveVram effectiveRam targets taken = false := by
      have hpos : ¬ v ≤ 0 := not_le.2 hv
      have hshort : ¬ targets.vramMb ≤ effectiveVram + taken.vramMb := by
        rw [htarget hv]
        omega
      simp [covered, hpos, hshort]
    have hall : taken = takeAll (candidates g hyst) := takeVictims_of_not_covered hnot
    rw [hall] at hvram hram
    obtain ⟨ram', hram'⟩ := exists_evaluateRamReclaim 0 hram
    refine ⟨headroom, vramPct, ramPct, _, ⟨hheadroom, hvramPct, hramPct, ⟨reserveFloor, hfloor⟩,
      ⟨reservePct, hpct⟩⟩, hv, bind_eq_ok.2 ⟨vram, hvram, bind_eq_ok.2 ⟨ram', hram', rfl⟩⟩, ?_⟩
    dsimp only
    omega

theorem complete_of_targetWithinNeed {x : PlanCall}
    (hresolve : resolveGatewayRequirements x.gateway x.placement = .ok (v, r))
    (hwithin : TargetWithinNeed x.resourceMargins v r x.gateway.vramTotalMb) : Complete x := by
  intro cause habort hcause
  obtain ⟨v', r', vramReserved, ramReserved, hyst, hresolve', hreserve, hhyst, hselect⟩ :=
    computeEvictionPlan_eq_some habort
  rw [hresolve, Except.ok.injEq, Prod.mk.injEq] at hresolve'
  obtain ⟨rfl, rfl⟩ := hresolve'
  obtain ⟨headroom, vramPct, ramPct, g', hplanned, hv, hall, hshort⟩ :=
    selectEvictionVictims_eq_abort hselect hcause
  refine ⟨hyst, vramReserved, ramReserved, g', hhyst, hreserve, hall, fun hpass => ?_⟩
  obtain ⟨hsame, hsameReserve, htotal⟩ := frame_of_evictAll hall
  obtain ⟨headroom', cap, share, ramNeeded, hneeded, hfit, -⟩ := (checkResources_eq_pass_iff
    ((hsame _).trans hresolve) ((hsameReserve _ _).trans hreserve)).1 hpass
  obtain rfl := Except.ok.inj (hplanned.headroom.symm.trans hneeded.headroom)
  have hle := hwithin headroom vramPct ramPct cap share ramNeeded hplanned (htotal ▸ hneeded) hv
  have hfree := hfit hv
  omega

/-! ## A gateway between the two thresholds -/

theorem exists_evictAll_tightCall {headroom vramPct ramPct : ℤ}
    (h : Planned margins v r headroom vramPct ramPct) (t vramFreeMb ramFreeMb effectiveRam : ℤ) :
    ∃ g', (tightCall margins v r t vramFreeMb ramFreeMb).gateway.evictAll spareOnly effectiveRam margins =
        .ok g' ∧ g'.vramFreeMb = vramFreeMb ∧ g'.ramFreeMb = ramFreeMb := by
  set x := tightCall margins v r t vramFreeMb ramFreeMb
  have hfull := tightCall_partly margins v r t vramFreeMb ramFreeMb
  obtain ⟨ram, hram, hfreeable⟩ := exists_evaluateRamReclaim_of_planned h 0 0 ramFreeMb
    (max 0 (ramFreeMb - effectiveRam)) (!([spare] : List ModelId).isEmpty && false)
  rw [max_self] at hfreeable
  have hvram := correctFreedVram_of_partly x.gateway 0
  rw [← hfull] at hram hvram
  refine ⟨_, bind_eq_ok.2 ⟨_, hvram, bind_eq_ok.2 ⟨ram, hram, rfl⟩⟩, ?_, ?_⟩
  · show vramFreeMb + 0 = vramFreeMb
    omega
  · show ramFreeMb + ram.freeableMb = ramFreeMb
    omega

theorem exists_abort_of_short (placement : Placement) (keysInFlight : Option (List String))
    {effectiveVram effectiveRam : ℤ} {targets : Targets} {taken : Taken} {vram : FreedVram}
    {ram : RamAdmissionEvaluation} (htargets : evictionTargets v r margins = .ok targets)
    (htaken : takeVictims (covered v r effectiveVram effectiveRam targets) (candidates g hyst) ⟨[], 0, 0⟩ =
      taken)
    (hvram : correctFreedVram g (decide (taken.models.toFinset = g.loadedModels.elems.toFinset))
      taken.vramMb = .ok vram)
    (hram : evaluateRamReclaim targets.ramMb taken.ramMb g.ramFreeMb g.ramTotalMb
      (max 0 (g.ramFreeMb - effectiveRam))
      (!taken.models.isEmpty && decide (taken.models.toFinset = g.loadedModels.elems.toFinset)) margins =
        .ok ram)
    (hshort : 0 < v ∧ effectiveVram + vram.mb < targets.vramMb) :
    ∃ cause, selectEvictionVictims g placement hyst v r effectiveVram effectiveRam margins keysInFlight =
      .ok (.abort cause) ∧ cause.reason = .insufficientVramAfterEviction := by
  simp only [selectEvictionVictims, htargets, htaken, hvram, hram, ok_bind]
  rw [if_pos hshort]
  exact ⟨_, rfl, rfl⟩

theorem exists_abort_tightCall {headroom vramPct ramPct vramFreeMb : ℤ}
    (h : Planned margins v r headroom vramPct ramPct) (hv : 0 < v)
    (hshort : vramFreeMb < vramPct + headroom) (t ramFreeMb : ℤ) :
    ∃ cause, (tightCall margins v r t vramFreeMb ramFreeMb).computeEvictionPlan =
      .ok (some (.abort cause)) ∧ cause.reason = .insufficientVramAfterEviction := by
  obtain ⟨ram, hram, -⟩ := exists_evaluateRamReclaim_of_planned h ramPct 0 ramFreeMb
    (max 0 (ramFreeMb - (ramFreeMb - 0))) (!([spare] : List ModelId).isEmpty && false)
  have hvram := correctFreedVram_of_partly (tightCall margins v r t vramFreeMb ramFreeMb).gateway 0
  rw [← tightCall_partly margins v r t vramFreeMb ramFreeMb] at hram hvram
  have hlt : 0 < v ∧ vramFreeMb - 0 + 0 < if 0 < v then vramPct + headroom else 0 := by
    rw [if_pos hv]
    exact ⟨hv, by omega⟩
  obtain ⟨cause, hcause, hreason⟩ := exists_abort_of_short ⟨incoming⟩ none (evictionTargets_of_planned h)
    (takeVictims_tightCall _ _ _ _ _ _ _) hvram hram hlt
  refine ⟨cause, ?_, hreason⟩
  rw [tightCall_computeEvictionPlan, hcause]
  rfl

/-- **When refusals are right**: for a target of footprint `(v, r)`, on any gateway with `t` of VRAM in all, an
abort for VRAM means that evicting every evictable model would fail the check as well, exactly when the
planner's target is within what the check needs. -/
theorem refusals_complete_iff (margins : Margins) (v r t : ℤ) :
    (∀ x : PlanCall, x.resourceMargins = margins →
      resolveGatewayRequirements x.gateway x.placement = .ok (v, r) → x.gateway.vramTotalMb = t →
        Complete x) ↔
    TargetWithinNeed margins v r t := by
  constructor
  · intro hcomplete headroom vramPct ramPct cap share ramNeeded hplanned hneeded hv
    by_contra hgap
    -- just what the check needs is free, and the planner wants more
    set x := tightCall margins v r t (v + clamp share headroom cap) ramNeeded with hx
    obtain ⟨cause, habort, hcause⟩ := exists_abort_tightCall hplanned hv (not_le.1 hgap) t ramNeeded
    obtain ⟨hyst, vramReserved, ramReserved, g', hhyst, hreserve, hall, hfails⟩ :=
      hcomplete x rfl rfl rfl cause habort hcause
    obtain rfl := Option.some.inj (hhyst.symm.trans (tightCall_hysteresis _ _ _ _ _ _))
    obtain ⟨g'', hall', hvramFree, hramFree⟩ := exists_evictAll_tightCall hplanned t
      (v + clamp share headroom cap) ramNeeded (x.gateway.ramFreeMb - ramReserved)
    obtain rfl := Except.ok.inj (hall.symm.trans hall')
    have hfootprint : resolveGatewayRequirements x.gateway x.placement = .ok (v, r) := rfl
    have hnone : computeLoadingReservation x.gateway x.placement.modelId x.requirementsLookup =
      .ok (0, 0) := rfl
    obtain ⟨hsame, hsameReserve, htotal⟩ := frame_of_evictAll hall
    refine hfails ((checkResources_eq_pass_iff ((hsame _).trans hfootprint)
      ((hsameReserve _ _).trans hnone)).2 ⟨headroom, cap, share, ramNeeded, ?_, fun _ => ?_, fun _ => ?_⟩)
    · rw [htotal]
      exact hneeded
    · omega
    · omega
  · rintro hwithin x rfl hresolve rfl
    exact complete_of_targetWithinNeed hresolve hwithin

/-! ## A load that is refused and would be accepted -/

theorem nodup_spare_serving : [spare, serving].Nodup := by decide

/-- A model of 24000 MB is to be loaded where 6048 MB are free and one of 20000 MB is idle, with the default
margins: the planner wants 5 percent and 2048 MB on top, the check 2048 MB. -/
def addedUp : PlanCall where
  gateway :=
    { name := "edge"
      ramFreeMb := 32000
      vramFreeMb := 6048
      ramTotalMb := 64000
      vramTotalMb := 32607
      loadedModels := ⟨[spare, serving], nodup_spare_serving⟩
      busyModels := ⟨[serving], List.nodup_singleton serving⟩
      loadingModels := ∅
      modelDetails := (((∅ : Dict ModelId ModelDetails).set incoming ⟨some 24000, some 0⟩).set
        spare ⟨some 20000, some 0⟩).set serving ⟨some 4000, some 0⟩
      modelMeasuredVram := ∅
      modelLoadedAt := ∅ }
  placement := ⟨incoming⟩
  requirementsLookup _ := (0, 0)
  routingKeyTracker := none
  evictionCooldownS := .finite 120
  hasDemand := none
  resourceMargins := ∅
  requestClass := .required
  now := 1000
  rag := ⟨none, none⟩

theorem addedUp_not_complete : ¬ Complete addedUp := by
  intro h
  have habort : addedUp.computeEvictionPlan = .ok (some (.abort
      ⟨.vram, 1200, .catalog, 27248, 26048, .insufficientVramAfterEviction⟩)) := by
    decide +kernel
  obtain ⟨hyst, vramReserved, ramReserved, g', hhyst, hreserve, hall, hfails⟩ := h _ habort rfl
  have hspare : addedUp.hysteresis = some spareOnly := by decide +kernel
  have hnone : computeLoadingReservation addedUp.gateway addedUp.placement.modelId
      addedUp.requirementsLookup = .ok (0, 0) := rfl
  obtain rfl := Option.some.inj (hspare.symm.trans hhyst)
  obtain ⟨rfl, rfl⟩ := Prod.mk.inj (Except.ok.inj (hnone.symm.trans hreserve))
  have hpass : (addedUp.gateway.evictAll spareOnly (addedUp.gateway.ramFreeMb - 0)
      addedUp.resourceMargins).bind (fun g => checkResources g addedUp.placement
        addedUp.requirementsLookup addedUp.resourceMargins) = .ok (true, none) := by
    decide +kernel
  rw [hall] at hpass
  exact hfails hpass

end LlmGateway.Eviction
