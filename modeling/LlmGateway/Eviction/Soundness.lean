import LlmGateway.Eviction.Planning

/-!
# Soundness of eviction plans

A plan is sound when the gateway without its victims passes the resource check for the target, and none of
the victims is in flight, protected or the target. The victims always are as they should be
(`safeVictim_of_plan`). Whether the check passes is decided by two margins that are computed in two ways: the planner
marks the footprint up with the percentage and adds the headroom, the check adds the larger of percentage
and headroom and caps it. `MarginsCover` compares the two, and `plans_sound_iff` says that it is exactly the
condition: every plan for a footprint under such margins is sound, and under other margins there is a gateway
with a plan after which the check fails.
-/

namespace LlmGateway.Eviction

variable {g : Gateway} {placement : Placement} {lookup : ModelId → ℤ × ℤ} {margins : Margins}
  {hyst : HysteresisResult} {plan : EvictionPlanSummary} {keysInFlight : Option (List String)}
  {v r t : ℤ} {x : PlanCall}

/-! ## The condition -/

/-- The gateway after the victims of a plan were unloaded. -/
def Gateway.unload (g : Gateway) (plan : EvictionPlanSummary) : Gateway :=
  { g with
    vramFreeMb := g.vramFreeMb + plan.freedVramMb
    ramFreeMb := g.ramFreeMb + plan.freedRamMb
    loadedModels := g.loadedModels.filter fun m => m ∉ plan.modelsToEvict }

/-- A model that may be evicted: hysteresis leaves it, no request for it is in flight, as far as the tracker
or else the telemetry knows, it is not protected, and it is not the target. -/
structure SafeVictim (x : PlanCall) (m : ModelId) : Prop where
  evictable : ∃ hyst, x.hysteresis = some hyst ∧ m ∈ hyst.evictable
  notInFlight : ∀ keys, x.routingKeyTracker = some keys → m.routingKey ∉ keys x.gateway.name
  notBusy : x.routingKeyTracker = none → m ∉ x.gateway.busyModels
  notProtected : x.rag.isRagProtectedModel m = false
  ne_target : m ≠ x.placement.modelId

/-- A plan that the call returns passes the resource check, and has no victim that must stay. -/
def Sound (x : PlanCall) : Prop :=
  ∀ plan, x.computeEvictionPlan = .ok (some (.summary plan)) →
    checkResources (x.gateway.unload plan) x.placement x.requirementsLookup x.resourceMargins =
        .ok (true, none) ∧
      ∀ m ∈ plan.modelsToEvict, SafeVictim x m

/-- The numbers of the planner: the headroom and the two footprints marked up by their percentages. -/
structure Planned (margins : Margins) (v r headroom vramPct ramPct : ℤ) : Prop where
  headroom : margins.vramHeadroomMb = .ok headroom
  vramPct : markUp v margins.vramMarginPct = .ok vramPct
  ramPct : markUp r margins.ramMarginPct = .ok ramPct
  reserveFloor : ∃ n, margins.ramNonEvictableReserveFloorMb = .ok n
  reservePct : ∃ p, margins.ramNonEvictableReservePct = .ok p

/-- The numbers of the check, on a gateway with `t` of VRAM in all: the headroom, the cap, the percentage of
the footprint and the RAM with its margin. -/
structure Needed (margins : Margins) (v r t headroom cap share ramNeeded : ℤ) : Prop where
  headroom : margins.vramHeadroomMb = .ok headroom
  cap : margins.vramMarginCapMb = .ok cap
  share : ∃ pct w, margins.vramMarginPct.toInt = .ok pct ∧ percentOf v (.int pct) = .ok share ∧
    markUp v (.int pct) = .ok w
  ramNeeded : ∃ pct, margins.ramMarginPct.toInt = .ok pct ∧ markUp r (.int pct) = .ok ramNeeded
  overhead : ∃ n, nonreclaimableOverheadMb t = .ok n

/-- **The margins of the planner cover those of the check**: where the planner has its numbers, so has the
check; of a footprint in VRAM, what the planner adds for the percentage and the headroom reaches the cap, or
is neither less than the headroom nor than the percentage of the check; and of a footprint in RAM, the
percentage that is rounded to an integer makes no more than the percentage as it is. -/
def MarginsCover (margins : Margins) (v r t : ℤ) : Prop :=
  ∀ headroom vramPct ramPct, Planned margins v r headroom vramPct ramPct →
    ∃ cap share ramNeeded, Needed margins v r t headroom cap share ramNeeded ∧
      (0 < v → (0 < cap ∧ cap ≤ vramPct - v + headroom) ∨
        (v ≤ vramPct ∧ share ≤ vramPct - v + headroom)) ∧
      (0 < r → ramNeeded ≤ ramPct)

/-! ## The resource check -/

theorem clamp_le_iff {value floorMb capMb k : ℤ} :
    clamp value floorMb capMb ≤ k ↔ (0 < capMb ∧ capMb ≤ k) ∨ (floorMb ≤ k ∧ value ≤ k) := by
  rw [clamp]
  split_ifs with hcap
  · rw [max_le_iff]
    omega
  · rw [min_le_iff, max_le_iff]
    omega

theorem exists_attainableCeilingMb_iff (free : ℤ) :
    (∃ n, attainableCeilingMb t free = .ok n) ↔ ∃ n, nonreclaimableOverheadMb t = .ok n := by
  rw [attainableCeilingMb]
  split_ifs with ht
  · simp only [bind_eq_ok]
    constructor
    · rintro ⟨n, m, hm, -⟩
      exact ⟨m, hm⟩
    · rintro ⟨m, hm⟩
      exact ⟨_, m, hm, rfl⟩
  · have hoverhead : nonreclaimableOverheadMb t = .ok 512 := by
      rw [nonreclaimableOverheadMb, reserveMb, if_pos (not_lt.1 ht)]
      rfl
    exact ⟨fun _ => ⟨512, hoverhead⟩, fun _ => ⟨_, rfl⟩⟩

theorem evaluateVramAdmission_admits_iff {free reserved : ℤ} :
    (∃ e, evaluateVramAdmission v free t reserved margins = .ok e ∧ (0 < v → e.verdict = .admitted)) ↔
      ∃ headroom cap share pct, margins.vramMarginPct.toInt = .ok pct ∧
        margins.vramHeadroomMb = .ok headroom ∧ margins.vramMarginCapMb = .ok cap ∧
        percentOf v (.int pct) = .ok share ∧ (∃ n, nonreclaimableOverheadMb t = .ok n) ∧
        (0 < v → v + clamp share headroom cap ≤ free - reserved) := by
  rw [← exists_attainableCeilingMb_iff free]
  simp only [evaluateVramAdmission, computeCappedMarginMb, bind_eq_ok]
  constructor
  · rintro ⟨e, ⟨pct, hpct, headroom, hheadroom, cap, hcap, margin, ⟨share, hshare, hmargin⟩, n, hn, he⟩,
      hadmitted⟩
    refine ⟨headroom, cap, share, pct, hpct, hheadroom, hcap, hshare, ⟨n, hn⟩, fun hv => ?_⟩
    obtain rfl := Except.ok.inj hmargin
    obtain rfl := Except.ok.inj he
    have hverdict := hadmitted hv
    simp only [if_pos hv] at hverdict
    by_contra hshort
    have hnot : ¬ (v ≤ 0 ∨ v + clamp share headroom cap ≤ free - reserved) := by omega
    rw [if_neg hnot] at hverdict
    split_ifs at hverdict
  · rintro ⟨headroom, cap, share, pct, hpct, hheadroom, hcap, hshare, ⟨n, hn⟩, hfit⟩
    refine ⟨_, ⟨pct, hpct, headroom, hheadroom, cap, hcap, _, ⟨share, hshare, rfl⟩, n, hn, rfl⟩,
      fun hv => ?_⟩
    simp only [if_pos hv]
    rw [if_pos (.inr (hfit hv))]

/-- **When the resource check passes**: its numbers are there, and both axes have what is needed. -/
theorem checkResources_eq_pass_iff {vramReserved ramReserved : ℤ}
    (hresolve : resolveGatewayRequirements g placement = .ok (v, r))
    (hreserve : computeLoadingReservation g placement.modelId lookup = .ok (vramReserved, ramReserved)) :
    checkResources g placement lookup margins = .ok (true, none) ↔
      ∃ headroom cap share ramNeeded, Needed margins v r g.vramTotalMb headroom cap share ramNeeded ∧
        (0 < v → v + clamp share headroom cap ≤ g.vramFreeMb - vramReserved) ∧
        (0 < r → ramNeeded ≤ g.ramFreeMb - ramReserved) := by
  simp only [checkResources, hresolve, hreserve, calculateRequiredResources, bind_eq_ok]
  constructor
  · rintro ⟨required, ⟨ramPct, hramPct, pct, hpct, headroom, hheadroom, ramNeeded, hram, w, hw, hrequired⟩,
      e, he, hpass⟩
    obtain rfl := Except.ok.inj hrequired
    dsimp only at hpass
    split_ifs at hpass with hvram hramShort
    · simp [pure, Except.pure] at hpass
    · simp [pure, Except.pure] at hpass
    have hadmitted : 0 < v → e.verdict = .admitted := by
      intro hv
      by_contra hne
      exact hvram ⟨hv, hne⟩
    obtain ⟨headroom', cap, share, pct', hpct', hheadroom', hcap, hshare, hover, hfit⟩ :=
      evaluateVramAdmission_admits_iff.1 ⟨e, he, hadmitted⟩
    obtain rfl := Except.ok.inj (hheadroom.symm.trans hheadroom')
    obtain rfl := Except.ok.inj (hpct.symm.trans hpct')
    refine ⟨headroom, cap, share, ramNeeded,
      ⟨hheadroom, hcap, ⟨pct, w, hpct, hshare, hw⟩, ⟨ramPct, hramPct, hram⟩, hover⟩, hfit, fun hr => ?_⟩
    by_contra hshort
    exact hramShort ⟨hr, not_le.1 hshort⟩
  · rintro ⟨headroom, cap, share, ramNeeded, ⟨hheadroom, hcap, ⟨pct, w, hpct, hshare, hw⟩,
      ⟨ramPct, hramPct, hram⟩, hover⟩, hfit, hramFit⟩
    obtain ⟨e, he, hadmitted⟩ := evaluateVramAdmission_admits_iff.2
      ⟨headroom, cap, share, pct, hpct, hheadroom, hcap, hshare, hover, hfit⟩
    refine ⟨_, ⟨ramPct, hramPct, pct, hpct, headroom, hheadroom, ramNeeded, hram, w, hw, rfl⟩, e, he, ?_⟩
    have hvram : ¬ (0 < v ∧ e.verdict ≠ .admitted) := fun ⟨hv, hne⟩ => hne (hadmitted hv)
    have hramShort : ¬ (0 < r ∧ g.ramFreeMb - ramReserved < ramNeeded) :=
      fun ⟨hr, hlt⟩ => hlt.not_ge (hramFit hr)
    rw [if_neg hvram, if_neg hramShort]
    rfl

/-! ## Victims -/

variable {m : ModelId} {headroom ramPct vramPct : ℤ}

theorem mem_of_oldest {models : List ModelId} (h : oldest g models = some m) :
    m ∈ models := by
  rw [oldest] at h
  exact (List.mem_insertionSort _).1 (List.mem_of_mem_head? h)

theorem mem_of_filterEvictableWithHysteresis {evictable : List ModelId} {cooldown : Binary64}
    {hasDemand : Option (String → Bool)} {requestClass : EvictionRequestClass} {now : ℚ}
    (h : filterEvictableWithHysteresis g evictable cooldown hasDemand requestClass now = some hyst)
    (hm : m ∈ hyst.evictable) : m ∈ evictable := by
  simp only [filterEvictableWithHysteresis] at h
  split at h
  · obtain rfl := Option.some.inj h
    exact List.mem_of_mem_filter (List.mem_of_mem_filter hm)
  split at h
  case h_1 candidate holdest =>
    obtain rfl := Option.some.inj h
    obtain rfl := List.mem_singleton.1 hm
    exact List.mem_of_mem_filter (List.mem_of_mem_filter (mem_of_oldest holdest))
  case h_2 =>
    split_ifs at h with hclass
    obtain ⟨candidate, holdest, rfl⟩ := Option.map_eq_some_iff.1 h
    obtain rfl := List.mem_singleton.1 hm
    exact List.mem_of_mem_filter (List.mem_of_mem_filter (mem_of_oldest holdest))

theorem filterEvictableWithHysteresis_of_past {evictable : List ModelId} {cooldown : Binary64}
    {requestClass : EvictionRequestClass} {now : ℚ} (hne : evictable ≠ [])
    (hpast : ∀ m ∈ evictable, Binary64.lt (elapsed g now m) cooldown = false) :
    filterEvictableWithHysteresis g evictable cooldown none requestClass now =
      some { evictable := evictable, cooldownProtectedCount := 0, demandProtectedCount := 0 } := by
  have hin : evictable.filter (fun m => Binary64.lt (elapsed g now m) cooldown) = [] := by
    rw [List.filter_eq_nil_iff]
    intro m hm
    rw [hpast m hm]
    decide
  have hout : evictable.filter (fun m => !Binary64.lt (elapsed g now m) cooldown) = evictable := by
    rw [List.filter_eq_self]
    intro m hm
    rw [hpast m hm]
    decide
  simp [filterEvictableWithHysteresis, hin, hout, hne]

theorem mem_of_mem_takeVictims {covered : Taken → Bool} {candidates : List Candidate} {taken : Taken}
    (h : m ∈ (takeVictims covered candidates taken).models) :
    m ∈ taken.models ∨ ∃ c ∈ candidates, c.modelId = m := by
  induction candidates generalizing taken with
  | nil => exact .inl h
  | cons c rest ih =>
    have hstep : ∀ l : List ModelId, m ∈ l ++ [c.modelId] → m ∈ l ∨ ∃ d ∈ c :: rest, d.modelId = m := by
      intro l hm
      obtain hm | hm := List.mem_append.1 hm
      · exact .inl hm
      · exact .inr ⟨c, List.mem_cons_self, (List.mem_singleton.1 hm).symm⟩
    rw [takeVictims] at h
    split_ifs at h with hcovered
    · exact hstep _ h
    · obtain hm | ⟨d, hd, hdm⟩ := ih h
      · exact hstep _ hm
      · exact .inr ⟨d, List.mem_cons_of_mem c hd, hdm⟩

/-- **What a returned plan is**: its numbers are there, it covers both targets, its victims are evictable, and
none of them is in flight. -/
theorem selectEvictionVictims_eq_summary {effectiveVram effectiveRam : ℤ}
    (h : selectEvictionVictims g placement hyst v r effectiveVram effectiveRam margins keysInFlight =
      .ok (.summary plan)) :
    (∃ headroom vramPct ramPct, Planned margins v r headroom vramPct ramPct ∧
      (0 < v → vramPct + headroom ≤ effectiveVram + plan.freedVramMb) ∧
      (0 < r → ramPct ≤ effectiveRam + plan.freedRamMb)) ∧
    ∀ m ∈ plan.modelsToEvict, m ∈ hyst.evictable ∧
      ∀ keys, keysInFlight = some keys → m.routingKey ∉ keys := by
  simp only [selectEvictionVictims, evictionTargets, evaluateRamReclaim, computeNonEvictableRamReserveMb,
    bind_eq_ok] at h
  obtain ⟨targets, ⟨headroom, hheadroom, vramPct, hvramPct, ramPct, hramPct, htargets⟩, vram, -, ram,
    ⟨reserve, ⟨reserveFloor, hfloor, reservePct, hpct, -⟩, -⟩, h⟩ := h
  obtain rfl := Except.ok.inj htargets
  generalize htarget : (if 0 < v then vramPct + headroom else 0) = vramTarget at h
  dsimp only at h
  -- only the three outer tests decide between an abort and a plan
  split at h
  · cases h
  split at h
  · cases h
  split at h
  · cases h
  rename_i hvramShort hramShort hflight
  obtain rfl := PlanResult.summary.inj (Except.ok.inj h)
  refine ⟨⟨headroom, vramPct, ramPct,
    ⟨hheadroom, hvramPct, hramPct, ⟨reserveFloor, hfloor⟩, ⟨reservePct, hpct⟩⟩, ?_, ?_⟩, ?_⟩
  · intro hv
    rw [if_pos hv] at htarget
    rw [htarget]
    by_contra hshort
    exact hvramShort ⟨hv, not_le.1 hshort⟩
  · intro hr
    by_contra hshort
    exact hramShort ⟨hr, not_le.1 hshort⟩
  · intro m hm
    rw [List.mem_toFinset] at hm
    constructor
    · obtain hm | ⟨c, hc, rfl⟩ := mem_of_mem_takeVictims hm
      · cases hm
      · rw [candidates, List.mem_insertionSort, List.mem_map] at hc
        obtain ⟨m, hevictable, rfl⟩ := hc
        exact hevictable
    · rintro keys rfl hkey
      refine hflight ?_
      simp only [Option.any_some, List.any_eq_true]
      exact ⟨m, hm, List.contains_iff_mem.2 hkey⟩

theorem exists_selectEvictionVictims (placement : Placement) {effectiveVram effectiveRam : ℤ} {targets : Targets}
    {taken : Taken} {vram : FreedVram} {ram : RamAdmissionEvaluation}
    (htargets : evictionTargets v r margins = .ok targets)
    (htaken : takeVictims (covered v r effectiveVram effectiveRam targets) (candidates g hyst) ⟨[], 0, 0⟩ =
      taken)
    (hvram : correctFreedVram g (decide (taken.models.toFinset = g.loadedModels.elems.toFinset))
      taken.vramMb = .ok vram)
    (hram : evaluateRamReclaim targets.ramMb taken.ramMb g.ramFreeMb g.ramTotalMb
      (max 0 (g.ramFreeMb - effectiveRam))
      (!taken.models.isEmpty && decide (taken.models.toFinset = g.loadedModels.elems.toFinset)) margins =
        .ok ram)
    (hvramFit : 0 < v → targets.vramMb ≤ effectiveVram + vram.mb)
    (hramFit : 0 < r → targets.ramMb ≤ effectiveRam + ram.freeableMb)
    (hflight : ∀ keys, keysInFlight = some keys → ∀ m ∈ taken.models, m.routingKey ∉ keys) :
    ∃ plan, selectEvictionVictims g placement hyst v r effectiveVram effectiveRam margins keysInFlight =
      .ok (.summary plan) ∧ plan.freedVramMb = vram.mb ∧ plan.freedRamMb = ram.freeableMb := by
  have hvramShort : ¬ (0 < v ∧ effectiveVram + vram.mb < targets.vramMb) :=
    fun ⟨hv, hlt⟩ => hlt.not_ge (hvramFit hv)
  have hramShort : ¬ (0 < r ∧ effectiveRam + ram.freeableMb < targets.ramMb) :=
    fun ⟨hr, hlt⟩ => hlt.not_ge (hramFit hr)
  have hclear : ¬ (keysInFlight.any fun keys => taken.models.any fun m => keys.contains m.routingKey) =
      true := by
    intro hany
    obtain ⟨keys, hkeys, hmodels⟩ := (Option.any_eq_true _ _).1 hany
    obtain ⟨m, hm, hkey⟩ := List.any_eq_true.1 hmodels
    exact hflight keys hkeys m hm (List.contains_iff_mem.1 hkey)
  simp only [selectEvictionVictims, htargets, htaken, hvram, hram, ok_bind]
  rw [if_neg hvramShort, if_neg hramShort, if_neg hclear]
  exact ⟨_, rfl, rfl, rfl⟩

/-! ## Plans -/

/-- **What a call that returns a result has gone through.** -/
theorem computeEvictionPlan_eq_some {result : PlanResult} (h : x.computeEvictionPlan = .ok (some result)) :
    ∃ v r vramReserved ramReserved hyst,
      resolveGatewayRequirements x.gateway x.placement = .ok (v, r) ∧
      computeLoadingReservation x.gateway x.placement.modelId x.requirementsLookup =
        .ok (vramReserved, ramReserved) ∧
      x.hysteresis = some hyst ∧
      selectEvictionVictims x.gateway x.placement hyst v r (x.gateway.vramFreeMb - vramReserved)
        (x.gateway.ramFreeMb - ramReserved) x.resourceMargins x.keysInFlight = .ok result := by
  rw [PlanCall.computeEvictionPlan] at h
  split at h
  · cases h
  rename_i v r hresolve
  split at h
  · cases h
  rename_i vramReserved ramReserved hreserve
  split at h
  · cases h
  split at h
  · cases h
  rename_i hyst hhyst
  refine ⟨v, r, vramReserved, ramReserved, hyst, hresolve, hreserve, hhyst, ?_⟩
  cases hselect : selectEvictionVictims x.gateway x.placement hyst v r
      (x.gateway.vramFreeMb - vramReserved) (x.gateway.ramFreeMb - ramReserved) x.resourceMargins
      x.keysInFlight with
  | error e =>
    rw [hselect] at h
    cases h
  | ok result' =>
    rw [hselect] at h
    rw [Option.some.inj (Except.ok.inj h)]

/-- **No victim of a plan is one that must stay.** -/
theorem safeVictim_of_plan (h : x.computeEvictionPlan = .ok (some (.summary plan)))
    (hm : m ∈ plan.modelsToEvict) : SafeVictim x m := by
  obtain ⟨v, r, vramReserved, ramReserved, hyst, -, -, hhyst, hselect⟩ := computeEvictionPlan_eq_some h
  obtain ⟨hevictable, hflight⟩ := (selectEvictionVictims_eq_summary hselect).2 m hm
  have hmem : m ∈ x.evictable := mem_of_filterEvictableWithHysteresis hhyst hevictable
  rw [PlanCall.evictable, List.mem_filter, Bool.and_eq_true, decide_eq_true_eq, Bool.not_eq_true'] at hmem
  obtain ⟨hidle, hne, hprotected⟩ := hmem
  obtain ⟨-, hbusy, -⟩ := mem_idleModels.1 hidle
  refine ⟨⟨hyst, hhyst, hevictable⟩, ?_, ?_, hprotected, hne⟩
  · intro keys hkeys
    exact hflight _ (by rw [PlanCall.keysInFlight, hkeys, Option.map_some])
  · intro hnone
    rw [PlanCall.keysInFlight, hnone, Option.map_none, isModelActuallyBusy, decide_eq_false_iff_not] at hbusy
    exact hbusy

theorem checkResources_unload_of_marginsCover {x : PlanCall}
    (hresolve : resolveGatewayRequirements x.gateway x.placement = .ok (v, r))
    (hcover : MarginsCover x.resourceMargins v r x.gateway.vramTotalMb)
    (h : x.computeEvictionPlan = .ok (some (.summary plan))) :
    checkResources (x.gateway.unload plan) x.placement x.requirementsLookup x.resourceMargins =
      .ok (true, none) := by
  obtain ⟨v', r', vramReserved, ramReserved, hyst, hresolve', hreserve, -, hselect⟩ :=
    computeEvictionPlan_eq_some h
  rw [hresolve, Except.ok.injEq, Prod.mk.injEq] at hresolve'
  obtain ⟨rfl, rfl⟩ := hresolve'
  obtain ⟨⟨headroom, vramPct, ramPct, hplanned, hvram, hram⟩, -⟩ := selectEvictionVictims_eq_summary hselect
  obtain ⟨cap, share, ramNeeded, hneeded, hvramCover, hramCover⟩ := hcover _ _ _ hplanned
  -- unloading changes neither the footprint of the target nor what the loading models reserve
  refine (checkResources_eq_pass_iff (g := x.gateway.unload plan) hresolve hreserve).2
    ⟨headroom, cap, share, ramNeeded, hneeded, fun hv => ?_, fun hr => ?_⟩
  · have hclamp : clamp share headroom cap ≤ vramPct - v + headroom := by
      rw [clamp_le_iff]
      obtain hcap | ⟨hpct, hshare⟩ := hvramCover hv
      · exact .inl hcap
      · exact .inr ⟨by omega, hshare⟩
    have hfree := hvram hv
    show v + clamp share headroom cap ≤ x.gateway.vramFreeMb + plan.freedVramMb - vramReserved
    omega
  · have hfree := hram hr
    have hneed := hramCover hr
    show ramNeeded ≤ x.gateway.ramFreeMb + plan.freedRamMb - ramReserved
    omega

/-! ## A gateway with nothing to spare -/

/-- The model to be placed. -/
def incoming : ModelId := ⟨"incoming-8192", none⟩

/-- An idle model of no size, and one that is busy. -/
def spare : ModelId := ⟨"spare-8192", none⟩

@[inherit_doc spare]
def serving : ModelId := ⟨"serving-8192", none⟩

/-- A call for a target of footprint `(v, r)`, on a gateway that has the given memory free and one idle
model whose eviction frees nothing. -/
def tightCall (margins : Margins) (v r t vramFreeMb ramFreeMb : ℤ) : PlanCall where
  gateway :=
    { name := "edge"
      ramFreeMb := ramFreeMb
      vramFreeMb := vramFreeMb
      ramTotalMb := 0
      vramTotalMb := t
      loadedModels := ⟨[spare, serving], by decide⟩
      busyModels := ⟨[serving], by decide⟩
      loadingModels := ∅
      modelDetails := (∅ : Dict ModelId ModelDetails).set incoming ⟨some v, some r⟩
      modelMeasuredVram := ∅
      modelLoadedAt := ∅ }
  placement := ⟨incoming⟩
  requirementsLookup _ := (0, 0)
  routingKeyTracker := none
  evictionCooldownS := .finite 120
  hasDemand := none
  resourceMargins := margins
  requestClass := .required
  now := 1000
  rag := ⟨none, none⟩

/-- What hysteresis leaves of the idle model. -/
def spareOnly : HysteresisResult :=
  { evictable := [spare]
    cooldownProtectedCount := 0
    demandProtectedCount := 0 }

theorem tightCall_evictable (margins : Margins) (v r t vramFreeMb ramFreeMb : ℤ) :
    (tightCall margins v r t vramFreeMb ramFreeMb).evictable = [spare] := rfl

theorem tightCall_hysteresis (margins : Margins) (v r t vramFreeMb ramFreeMb : ℤ) :
    (tightCall margins v r t vramFreeMb ramFreeMb).hysteresis = some spareOnly := by
  have hpast : Binary64.lt (.finite 1000 - .finite 0) (.finite 120) = false := by decide +kernel
  rw [PlanCall.hysteresis, tightCall_evictable]
  refine filterEvictableWithHysteresis_of_past (List.cons_ne_nil _ _) fun m hm => ?_
  obtain rfl := List.mem_singleton.1 hm
  exact hpast

theorem correctFreedVram_of_partly (g : Gateway) (catalogMb : ℤ) :
    correctFreedVram g false catalogMb = .ok ⟨catalogMb, none, 0, false⟩ := by
  rw [correctFreedVram, if_neg (fun h => Bool.false_ne_true h.2)]
  rfl

theorem evictionTargets_of_planned (h : Planned margins v r headroom vramPct ramPct) :
    evictionTargets v r margins = .ok ⟨if 0 < v then vramPct + headroom else 0, ramPct⟩ := by
  rw [evictionTargets, bind_eq_ok]
  refine ⟨headroom, h.headroom, ?_⟩
  rw [bind_eq_ok]
  refine ⟨vramPct, h.vramPct, ?_⟩
  rw [bind_eq_ok]
  exact ⟨ramPct, h.ramPct, rfl⟩

theorem exists_evaluateRamReclaim_of_planned
    (h : Planned margins v r headroom vramPct ramPct) (needed catalog free reserved : ℤ) (fullEvict : Bool) :
    ∃ e, evaluateRamReclaim needed catalog free 0 reserved fullEvict margins = .ok e ∧
      e.freeableMb = max 0 catalog := by
  obtain ⟨reserveFloor, hfloor⟩ := h.reserveFloor
  obtain ⟨reservePct, hpct⟩ := h.reservePct
  have hreserve : computeNonEvictableRamReserveMb 0 margins = .ok reserveFloor := by
    rw [computeNonEvictableRamReserveMb, bind_eq_ok]
    refine ⟨reserveFloor, hfloor, ?_⟩
    rw [bind_eq_ok]
    exact ⟨reservePct, hpct, rfl⟩
  refine ⟨_, bind_eq_ok.2 ⟨reserveFloor, hreserve, rfl⟩, ?_⟩
  simp

theorem takeVictims_tightCall (margins : Margins) (v r t vramFreeMb ramFreeMb : ℤ) (covered : Taken → Bool) :
    takeVictims covered (candidates (tightCall margins v r t vramFreeMb ramFreeMb).gateway spareOnly)
      ⟨[], 0, 0⟩ = ⟨[spare], 0, 0⟩ := by
  show takeVictims covered [⟨spare, 0, 0⟩] ⟨[], 0, 0⟩ = _
  rw [takeVictims]
  split_ifs <;> rfl

theorem tightCall_partly (margins : Margins) (v r t vramFreeMb ramFreeMb : ℤ) :
    decide ([spare].toFinset =
      (tightCall margins v r t vramFreeMb ramFreeMb).gateway.loadedModels.elems.toFinset) = false := by
  show decide ([spare].toFinset = [spare, serving].toFinset) = false
  decide

theorem tightCall_computeEvictionPlan (margins : Margins) (v r t vramFreeMb ramFreeMb : ℤ) :
    (tightCall margins v r t vramFreeMb ramFreeMb).computeEvictionPlan =
      some <$> selectEvictionVictims (tightCall margins v r t vramFreeMb ramFreeMb).gateway ⟨incoming⟩
        spareOnly v r (vramFreeMb - 0) (ramFreeMb - 0) margins none := by
  set x := tightCall margins v r t vramFreeMb ramFreeMb with hx
  have hresolve : resolveGatewayRequirements x.gateway x.placement = .ok (v, r) := rfl
  have hreserve : computeLoadingReservation x.gateway x.placement.modelId x.requirementsLookup =
      .ok (0, 0) := rfl
  have hevictable : x.evictable = [spare] := rfl
  have hhyst : x.hysteresis = some spareOnly := tightCall_hysteresis _ _ _ _ _ _
  simp only [PlanCall.computeEvictionPlan, hresolve, hreserve, hevictable, hhyst, reduceCtorEq, if_false]
  rfl

theorem exists_plan_tightCall (h : Planned margins v r headroom vramPct ramPct) (t : ℤ) :
    ∃ plan, (tightCall margins v r t (vramPct + headroom) ramPct).computeEvictionPlan =
      .ok (some (.summary plan)) ∧ plan.freedVramMb = 0 ∧ plan.freedRamMb = 0 := by
  set x := tightCall margins v r t (vramPct + headroom) ramPct
  obtain ⟨ram, hram, hfreeable⟩ := exists_evaluateRamReclaim_of_planned h ramPct 0 ramPct
    (max 0 (ramPct - (ramPct - 0))) (!([spare] : List ModelId).isEmpty && false)
  rw [max_self] at hfreeable
  have hvramFit : 0 < v → (if 0 < v then vramPct + headroom else 0) ≤ vramPct + headroom - 0 + 0 := by
    intro hv
    rw [if_pos hv]
    omega
  have hramFit : 0 < r → ramPct ≤ ramPct - 0 + ram.freeableMb := by
    intro hr
    omega
  have hvram := correctFreedVram_of_partly x.gateway 0
  have hfull := tightCall_partly margins v r t (vramPct + headroom) ramPct
  rw [← hfull] at hram hvram
  have hflight : ∀ keys, (none : Option (List String)) = some keys → ∀ m ∈ [spare], m.routingKey ∉ keys := by
    intro keys hkeys
    cases hkeys
  obtain ⟨plan, hplan, hvramFreed, hramFreed⟩ := exists_selectEvictionVictims ⟨incoming⟩
    (evictionTargets_of_planned h) (takeVictims_tightCall _ _ _ _ _ _ _) hvram hram hvramFit hramFit hflight
  refine ⟨plan, ?_, hvramFreed, hramFreed.trans hfreeable⟩
  rw [tightCall_computeEvictionPlan, hplan]
  rfl

/-- **When plans are sound**: every plan for a target of footprint `(v, r)`, on any gateway with `t` of VRAM
in all, passes the check and has only victims that may go, exactly when the planner's margins cover those of
the check. -/
theorem plans_sound_iff (margins : Margins) (v r t : ℤ) :
    (∀ x : PlanCall, x.resourceMargins = margins →
      resolveGatewayRequirements x.gateway x.placement = .ok (v, r) → x.gateway.vramTotalMb = t → Sound x) ↔
    MarginsCover margins v r t := by
  constructor
  · intro hsound headroom vramPct ramPct hplanned
    obtain ⟨plan, hplan, hvramFreed, hramFreed⟩ := exists_plan_tightCall hplanned t
    have hpass := (hsound (tightCall margins v r t (vramPct + headroom) ramPct) rfl rfl rfl plan hplan).1
    have hresolve : resolveGatewayRequirements
        ((tightCall margins v r t (vramPct + headroom) ramPct).gateway.unload plan) ⟨incoming⟩ =
          .ok (v, r) := rfl
    have hreserve : computeLoadingReservation
        ((tightCall margins v r t (vramPct + headroom) ramPct).gateway.unload plan) incoming
          (fun _ => (0, 0)) = .ok (0, 0) := rfl
    obtain ⟨headroom', cap, share, ramNeeded, hneeded, hvram, hram⟩ :=
      (checkResources_eq_pass_iff hresolve hreserve).1 hpass
    obtain rfl := Except.ok.inj (hplanned.headroom.symm.trans hneeded.headroom)
    refine ⟨cap, share, ramNeeded, hneeded, fun hv => ?_, fun hr => ?_⟩
    · have hfit : v + clamp share headroom cap ≤ vramPct + headroom + plan.freedVramMb - 0 := hvram hv
      have hclamp : clamp share headroom cap ≤ vramPct - v + headroom := by omega
      obtain hcap | ⟨hfloor, hshare⟩ := clamp_le_iff.1 hclamp
      · exact .inl hcap
      · exact .inr ⟨by omega, hshare⟩
    · have hfit : ramNeeded ≤ ramPct + plan.freedRamMb - 0 := hram hr
      omega
  · rintro hcover x rfl hresolve rfl plan hplan
    exact ⟨checkResources_unload_of_marginsCover hresolve hcover hplan,
      fun m hm => safeVictim_of_plan hplan hm⟩

/-! ## A plan that the check does not pass -/

/-- A model of 24000 MB is to be loaded where 7599 MB are free and one of 20000 MB is idle, with a margin of
15 percent and no headroom: 15 percent more than 24000 is 27599 in floats, and 15 percent of 24000 is 3600. -/
def roundedDown : PlanCall where
  gateway :=
    { name := "edge"
      ramFreeMb := 32000
      vramFreeMb := 7599
      ramTotalMb := 64000
      vramTotalMb := 32607
      loadedModels := ⟨[spare, serving], by decide⟩
      busyModels := ⟨[serving], by decide⟩
      loadingModels := ∅
      modelDetails := (((∅ : Dict ModelId ModelDetails).set incoming ⟨some 24000, some 0⟩).set
        spare ⟨some 20000, some 0⟩).set serving ⟨some 4000, some 0⟩
      modelMeasuredVram := ∅
      modelLoadedAt := ∅ }
  placement := ⟨incoming⟩
  requirementsLookup _ := (0, 0)
  routingKeyTracker := none
  evictionCooldownS := .finite 120
  hasDemand := none
  resourceMargins := ((∅ : Margins).set "vram_margin_pct" (.int 15)).set "vram_headroom_mb" (.int 0)
  requestClass := .required
  now := 1000
  rag := ⟨none, none⟩

/-- The plan for `roundedDown`. -/
def roundedDownPlan : EvictionPlanSummary where
  modelsToEvict := [spare].toFinset
  freedVramMb := 20000
  freedRamMb := 0
  estimatedCost := .finite (-50)
  catalogFreedVramMb := 20000
  hardwareUsedVramMb := none
  nonEvictableVramReserveMb := 0
  hardwareCorrectionApplied := false
  catalogFreedRamMb := 0
  hardwareUsedRamMb := none
  nonEvictableRamReserveMb := 6400
  ramHardwareCorrectionApplied := false
  triggerModelId := incoming
  hysteresis := spareOnly

theorem roundedDown_not_sound : ¬ Sound roundedDown := by
  intro h
  have hplan : roundedDown.computeEvictionPlan = .ok (some (.summary roundedDownPlan)) := by
    decide +kernel
  have hshort : checkResources (roundedDown.gateway.unload roundedDownPlan) roundedDown.placement
      roundedDown.requirementsLookup roundedDown.resourceMargins ≠ .ok (true, none) := by
    decide +kernel
  exact hshort (h roundedDownPlan hplan).1

end LlmGateway.Eviction
