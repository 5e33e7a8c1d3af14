import LlmGateway.Eviction.Margins
import LlmGateway.Eviction.Soundness

/-!
# When the greedy choice of victims is minimal

Candidates are taken in the order of their VRAM until both targets are covered. The last victim is needed: before
it something was short. An earlier victim takes at least as much VRAM as the last one, so if it was VRAM that was
short, no victim can be spared. If it was RAM, one that takes less RAM than the last one may be superfluous.
`alwaysMinimal_iff` says for which candidates this never happens: those whose order by VRAM is an order by RAM.
-/

namespace LlmGateway.Eviction

variable {g : Gateway} {placement : Placement} {margins : Margins} {hyst : HysteresisResult}
  {plan : EvictionPlanSummary} {keysInFlight : Option (List String)}

/-! ## The loop -/

namespace Taken

/-- What is taken when the candidates `cs` are taken as well. -/
def addAll (taken : Taken) (cs : List Candidate) : Taken where
  models := taken.models ++ cs.map Candidate.modelId
  vramMb := taken.vramMb + (cs.map Candidate.vramUsage).sum
  ramMb := taken.ramMb + (cs.map Candidate.ramUsage).sum

@[simp] theorem addAll_nil (taken : Taken) : taken.addAll [] = taken := by
  simp [addAll]

theorem addAll_cons (taken : Taken) (c : Candidate) (cs : List Candidate) :
    taken.addAll (c :: cs) =
      (⟨taken.models ++ [c.modelId], taken.vramMb + c.vramUsage, taken.ramMb + c.ramUsage⟩ : Taken).addAll cs := by
  simp [addAll, add_assoc]

end Taken

/-- **What the loop takes**: a prefix of the candidates, whose own prefixes do not cover the targets. -/
theorem takeVictims_eq (covered : Taken → Bool) (cs : List Candidate) (taken : Taken) (h : cs ≠ []) :
    ∃ earlier last rest, cs = earlier ++ last :: rest ∧
      takeVictims covered cs taken = taken.addAll (earlier ++ [last]) ∧
      (earlier ≠ [] → covered (taken.addAll earlier) = false) := by
  induction cs generalizing taken with
  | nil => exact (h rfl).elim
  | cons c cs ih =>
    rw [takeVictims]
    split_ifs with hcovered
    · exact ⟨[], c, cs, rfl, by simp [Taken.addAll], fun hne => (hne rfl).elim⟩
    · by_cases hcs : cs = []
      · subst hcs
        exact ⟨[], c, [], rfl, by simp [Taken.addAll, takeVictims], fun hne => (hne rfl).elim⟩
      · obtain ⟨earlier, last, rest, rfl, htaken, hshort⟩ := ih _ hcs
        refine ⟨c :: earlier, last, rest, rfl, ?_, fun _ => ?_⟩
        · rw [htaken, List.cons_append, Taken.addAll_cons]
        · rw [Taken.addAll_cons]
          by_cases hearlier : earlier = []
          · rw [hearlier, Taken.addAll_nil]
            simpa using hcovered
          · exact hshort hearlier

theorem takeVictims_append {covered : Taken → Bool} {earlier rest : List Candidate} {last : Candidate}
    {taken : Taken}
    (hshort : ∀ front back, earlier = front ++ back → front ≠ [] → covered (taken.addAll front) = false)
    (hcovered : covered (taken.addAll (earlier ++ [last])) = true) :
    takeVictims covered (earlier ++ last :: rest) taken = taken.addAll (earlier ++ [last]) := by
  induction earlier generalizing taken with
  | nil =>
    rw [List.nil_append, takeVictims, if_pos (by simpa [Taken.addAll] using hcovered)]
    simp [Taken.addAll]
  | cons c earlier ih =>
    have hfirst := hshort [c] earlier rfl (List.cons_ne_nil _ _)
    rw [Taken.addAll_cons, Taken.addAll_nil] at hfirst
    rw [List.cons_append, takeVictims, hfirst, if_neg Bool.false_ne_true, List.cons_append, Taken.addAll_cons]
    refine ih (fun front back hfront hne => ?_) (by simpa [Taken.addAll_cons] using hcovered)
    have := hshort (c :: front) back (by rw [hfront, List.cons_append]) (List.cons_ne_nil _ _)
    rwa [Taken.addAll_cons] at this

/-! ## Minimal plans -/

/-- What the models of a set free. -/
def freedBy (g : Gateway) (victims : Finset ModelId) : Taken where
  models := []
  vramMb := ∑ m ∈ victims, (candidate g m).vramUsage
  ramMb := ∑ m ∈ victims, (candidate g m).ramUsage

/-- The gateway with other amounts of memory. -/
def Gateway.withMemory (g : Gateway) (ramFreeMb vramFreeMb ramTotalMb vramTotalMb : ℤ) : Gateway :=
  { g with ramFreeMb, vramFreeMb, ramTotalMb, vramTotalMb }

/-- A plan whose freed memory is the catalog's. -/
def EvictionPlanSummary.Uncorrected (plan : EvictionPlanSummary) : Prop :=
  plan.hardwareCorrectionApplied = false ∧ plan.ramHardwareCorrectionApplied = false

/-- Whatever is to be placed and whatever memory there is: when something is short, an uncorrected plan has no
victim that can be spared. -/
def AlwaysMinimal (g : Gateway) (hyst : HysteresisResult) : Prop :=
  ∀ (ramFreeMb vramFreeMb ramTotalMb vramTotalMb : ℤ) (placement : Placement)
    (vramMb ramMb effectiveVram effectiveRam : ℤ) (margins : Margins) (keysInFlight : Option (List String))
    (targets : Targets) (plan : EvictionPlanSummary),
    evictionTargets vramMb ramMb margins = .ok targets →
    selectEvictionVictims (g.withMemory ramFreeMb vramFreeMb ramTotalMb vramTotalMb) placement hyst vramMb ramMb
      effectiveVram effectiveRam margins keysInFlight = .ok (.summary plan) →
    plan.Uncorrected →
    covered vramMb ramMb effectiveVram effectiveRam targets ⟨[], 0, 0⟩ = false →
    ∀ m ∈ plan.modelsToEvict,
      covered vramMb ramMb effectiveVram effectiveRam targets (freedBy g (plan.modelsToEvict.erase m)) = false

/-- The order of the candidates, by VRAM, is one by RAM as well. -/
def RamDescends (g : Gateway) (hyst : HysteresisResult) : Prop :=
  (candidates g hyst).Pairwise fun a b => b.ramUsage ≤ a.ramUsage

theorem candidates_withMemory (ramFreeMb vramFreeMb ramTotalMb vramTotalMb : ℤ) (hyst : HysteresisResult) :
    candidates (g.withMemory ramFreeMb vramFreeMb ramTotalMb vramTotalMb) hyst = candidates g hyst := rfl

theorem modelsToEvict_of_plan {vramMb ramMb effectiveVram effectiveRam : ℤ} {targets : Targets}
    (htargets : evictionTargets vramMb ramMb margins = .ok targets)
    (h : selectEvictionVictims g placement hyst vramMb ramMb effectiveVram effectiveRam margins keysInFlight =
      .ok (.summary plan)) :
    plan.modelsToEvict = (takeVictims (covered vramMb ramMb effectiveVram effectiveRam targets)
      (candidates g hyst) ⟨[], 0, 0⟩).models.toFinset := by
  simp only [selectEvictionVictims, htargets, ok_bind, bind_eq_ok] at h
  obtain ⟨vram, -, ram, -, h⟩ := h
  split at h
  · cases h
  split at h
  · cases h
  split at h
  · cases h
  obtain rfl := PlanResult.summary.inj (Except.ok.inj h)
  rfl

theorem mem_candidates {c : Candidate} :
    c ∈ candidates g hyst ↔ ∃ m ∈ hyst.evictable, candidate g m = c := by
  rw [candidates, List.mem_insertionSort, List.mem_map]

theorem candidate_modelId {c : Candidate} (h : c ∈ candidates g hyst) : candidate g c.modelId = c := by
  obtain ⟨m, -, rfl⟩ := mem_candidates.1 h
  rfl

theorem nodup_modelId (hnodup : hyst.evictable.Nodup) :
    ((candidates g hyst).map Candidate.modelId).Nodup := by
  have hperm := (List.perm_insertionSort largerFirst (hyst.evictable.map (candidate g))).map Candidate.modelId
  rw [candidates, hperm.nodup_iff, List.map_map]
  have hid : Candidate.modelId ∘ candidate g = id := rfl
  rwa [hid, List.map_id]

instance : Std.Total largerFirst := ⟨fun a b => by unfold largerFirst; omega⟩

instance : IsTrans Candidate largerFirst := ⟨fun a b c => by unfold largerFirst; omega⟩

theorem pairwise_vram : (candidates g hyst).Pairwise fun a b => b.vramUsage ≤ a.vramUsage :=
  (List.pairwise_insertionSort largerFirst _).imp fun {a b} h => by
    rcases h with h | ⟨h, -⟩
    · exact h.le
    · exact h.ge

theorem freedBy_erase {cs : List Candidate} (hcs : cs ⊆ candidates g hyst)
    (hnodup : (cs.map Candidate.modelId).Nodup) {c : Candidate} (hc : c ∈ cs) :
    freedBy g ((cs.map Candidate.modelId).toFinset.erase c.modelId) =
      ⟨[], (cs.map Candidate.vramUsage).sum - c.vramUsage, (cs.map Candidate.ramUsage).sum - c.ramUsage⟩ := by
  have hmem : c.modelId ∈ (cs.map Candidate.modelId).toFinset :=
    List.mem_toFinset.2 (List.mem_map_of_mem hc)
  have hsum (usage : Candidate → ℤ) :
      ∑ m ∈ (cs.map Candidate.modelId).toFinset.erase c.modelId, usage (candidate g m) =
        (cs.map usage).sum - usage c := by
    have hall : ∑ m ∈ (cs.map Candidate.modelId).toFinset, usage (candidate g m) = (cs.map usage).sum := by
      rw [List.sum_toFinset _ hnodup, List.map_map]
      refine congrArg List.sum (List.map_congr_left fun d hd => ?_)
      rw [Function.comp_apply, candidate_modelId (hcs hd)]
    rw [← hall, ← Finset.add_sum_erase _ _ hmem, candidate_modelId (hcs hc), add_sub_cancel_left]
  rw [freedBy, hsum, hsum]

theorem covered_anti {vramMb ramMb effectiveVram effectiveRam : ℤ} {targets : Targets} {t t' : Taken}
    (hvram : t'.vramMb ≤ t.vramMb) (hram : t'.ramMb ≤ t.ramMb)
    (h : covered vramMb ramMb effectiveVram effectiveRam targets t = false) :
    covered vramMb ramMb effectiveVram effectiveRam targets t' = false := by
  rw [← Bool.not_eq_true] at h ⊢
  simp only [covered, Bool.and_eq_true, Bool.or_eq_true, decide_eq_true_eq] at h ⊢
  omega

theorem alwaysMinimal_of_ramDescends (hnodup : hyst.evictable.Nodup) (h : RamDescends g hyst) :
    AlwaysMinimal g hyst := by
  intro ramFreeMb vramFreeMb ramTotalMb vramTotalMb placement vramMb ramMb effectiveVram effectiveRam margins
    keysInFlight targets plan htargets hplan _ hshort m hm
  rw [modelsToEvict_of_plan htargets hplan, candidates_withMemory] at hm ⊢
  by_cases hnil : candidates g hyst = []
  · rw [hnil] at hm
    cases List.mem_toFinset.1 hm
  obtain ⟨earlier, last, rest, hcs, htaken, hearlier⟩ := takeVictims_eq
    (covered vramMb ramMb effectiveVram effectiveRam targets) (candidates g hyst) ⟨[], 0, 0⟩ hnil
  have hbefore : covered vramMb ramMb effectiveVram effectiveRam targets
      ((⟨[], 0, 0⟩ : Taken).addAll earlier) = false := by
    by_cases hempty : earlier = []
    · rwa [hempty, Taken.addAll_nil]
    · exact hearlier hempty
  have hinit : earlier ++ [last] <+: candidates g hyst := ⟨rest, by rw [hcs]; simp⟩
  rw [htaken] at hm ⊢
  simp only [Taken.addAll, List.nil_append] at hm ⊢
  obtain ⟨c, hc, rfl⟩ := List.mem_map.1 (List.mem_toFinset.1 hm)
  have hvram : last.vramUsage ≤ c.vramUsage := by
    obtain hc | hc := List.mem_append.1 hc
    · exact (List.pairwise_append.1 (pairwise_vram.sublist hinit.sublist)).2.2 c hc last (List.mem_singleton_self _)
    · rw [List.mem_singleton.1 hc]
  have hram : last.ramUsage ≤ c.ramUsage := by
    obtain hc | hc := List.mem_append.1 hc
    · exact (List.pairwise_append.1 (h.sublist hinit.sublist)).2.2 c hc last (List.mem_singleton_self _)
    · rw [List.mem_singleton.1 hc]
  have hmodels : ((earlier ++ [last]).map Candidate.modelId).Nodup :=
    (nodup_modelId hnodup).sublist (hinit.sublist.map _)
  rw [freedBy_erase hinit.subset hmodels hc]
  refine covered_anti ?_ ?_ hbefore
  · simp only [Taken.addAll, List.map_append, List.sum_append, List.map_cons, List.map_nil, List.sum_cons,
      List.sum_nil]
    omega
  · simp only [Taken.addAll, List.map_append, List.sum_append, List.map_cons, List.map_nil, List.sum_cons,
      List.sum_nil]
    omega

/-! ## Candidates of which one may be superfluous -/

theorem exists_of_not_pairwise {α : Type*} {R : α → α → Prop} {l : List α} (h : ¬ l.Pairwise R) :
    ∃ front a middle b back, l = (front ++ a :: middle) ++ b :: back ∧ ¬ R a b := by
  induction l with
  | nil => exact (h .nil).elim
  | cons c l ih =>
    rw [List.pairwise_cons, not_and_or] at h
    rcases h with h | h
    · push Not at h
      obtain ⟨b, hb, hR⟩ := h
      obtain ⟨middle, back, rfl⟩ := List.append_of_mem hb
      exact ⟨[], c, middle, b, back, rfl, hR⟩
    · obtain ⟨front, a, middle, b, back, rfl, hR⟩ := ih h
      exact ⟨c :: front, a, middle, b, back, rfl, hR⟩

theorem exists_evictionTargets_ramOnly : ∃ target, evictionTargets 0 1 ∅ = .ok ⟨0, target⟩ := by
  have hplanned : Planned ∅ 0 1 2048 _ _ := ⟨rfl, markUp_eq (p := 5) rfl (by norm_num) (by norm_num) le_rfl (by norm_num),
    markUp_eq (p := 3) rfl (by norm_num) (by norm_num) zero_le_one (by norm_num), ⟨4096, rfl⟩, ⟨_, rfl⟩⟩
  exact ⟨_, evictionTargets_of_planned hplanned⟩

theorem covered_ramOnly (target need : ℤ) (taken : Taken) :
    covered 0 1 0 (target - need) ⟨0, target⟩ taken = decide (need ≤ taken.ramMb) := by
  have hle : target ≤ target - need + taken.ramMb ↔ need ≤ taken.ramMb := by omega
  simp [covered, hle]

theorem exists_plan_ramOnly {target : ℤ} (need : ℤ) (htargets : evictionTargets 0 1 ∅ = .ok ⟨0, target⟩)
    (g : Gateway) (hyst : HysteresisResult)
    (hneed : need ≤ (takeVictims (covered 0 1 0 (target - need) ⟨0, target⟩) (candidates g hyst) ⟨[], 0, 0⟩).ramMb) :
    ∃ plan, selectEvictionVictims (g.withMemory 0 0 0 0) ⟨incoming⟩ hyst 0 1 0 (target - need) ∅ none =
      .ok (.summary plan) ∧ plan.Uncorrected := by
  set taken := takeVictims (covered 0 1 0 (target - need) ⟨0, target⟩) (candidates g hyst) ⟨[], 0, 0⟩ with htaken
  have hreserve : computeNonEvictableRamReserveMb 0 ∅ = .ok 4096 := rfl
  have hvram (full : Bool) (mb : ℤ) : correctFreedVram (g.withMemory 0 0 0 0) full mb = .ok ⟨mb, none, 0, false⟩ := by
    rw [correctFreedVram, if_neg (fun h => lt_irrefl 0 h.1)]
    rfl
  have hshort : ¬ ((0 : ℤ) < 1 ∧ target - need + max 0 taken.ramMb < target) := by omega
  simp only [selectEvictionVictims, htargets, candidates_withMemory, ← htaken, hvram, ok_bind]
  have hram (loading : ℤ) (full : Bool) : ∃ e, evaluateRamReclaim target taken.ramMb
      (g.withMemory 0 0 0 0).ramFreeMb (g.withMemory 0 0 0 0).ramTotalMb loading full ∅ = .ok e ∧
        e.freeableMb = max 0 taken.ramMb ∧ e.correctionApplied = false :=
    ⟨_, bind_eq_ok.2 ⟨_, hreserve, rfl⟩, rfl, rfl⟩
  generalize max 0 ((g.withMemory 0 0 0 0).ramFreeMb - (target - need)) = loading
  generalize (!taken.models.isEmpty && decide (taken.models.toFinset =
    (g.withMemory 0 0 0 0).loadedModels.elems.toFinset)) = full
  obtain ⟨e, he, hfreeable, hcorrection⟩ := hram loading full
  rw [he, ok_bind, hfreeable, if_neg (fun h => lt_irrefl 0 h.1), if_neg hshort, if_neg Bool.false_ne_true]
  exact ⟨_, rfl, rfl, hcorrection⟩

theorem ram_nonneg (h : ∀ m ∈ hyst.evictable, 0 ≤ (candidate g m).ramUsage) {c : Candidate}
    (hc : c ∈ candidates g hyst) : 0 ≤ c.ramUsage := by
  obtain ⟨m, hm, rfl⟩ := mem_candidates.1 hc
  exact h m hm

theorem sum_ram_le (front : List Candidate) {back : List Candidate} (h : ∀ c ∈ back, 0 ≤ c.ramUsage) :
    (front.map Candidate.ramUsage).sum ≤ ((front ++ back).map Candidate.ramUsage).sum := by
  rw [List.map_append, List.sum_append, le_add_iff_nonneg_right]
  refine List.sum_nonneg fun n hn => ?_
  obtain ⟨c, hc, rfl⟩ := List.mem_map.1 hn
  exact h c hc

theorem sum_ram_concat (front : List Candidate) (b : Candidate) :
    ((front ++ [b]).map Candidate.ramUsage).sum = (front.map Candidate.ramUsage).sum + b.ramUsage := by
  rw [List.map_append, List.sum_append, List.map_singleton, List.sum_singleton]

theorem ramMb_addAll (cs : List Candidate) :
    ((⟨[], 0, 0⟩ : Taken).addAll cs).ramMb = (cs.map Candidate.ramUsage).sum := zero_add _

theorem ramDescends_of_alwaysMinimal (hnodup : hyst.evictable.Nodup)
    (hnonneg : ∀ m ∈ hyst.evictable, 0 ≤ (candidate g m).ramUsage) (h : AlwaysMinimal g hyst) :
    RamDescends g hyst := by
  by_contra hnot
  obtain ⟨front, a, middle, b, back, hcs, hlt⟩ := exists_of_not_pairwise hnot
  obtain ⟨target, htargets⟩ := exists_evictionTargets_ramOnly
  have hmem : ∀ c ∈ (front ++ a :: middle) ++ b :: back, 0 ≤ c.ramUsage := fun c hc =>
    ram_nonneg hnonneg (hcs ▸ hc)
  -- the need is what all up to `b` free, but for `a`
  obtain ⟨need, hneed⟩ : ∃ need, need = ((front ++ a :: middle).map Candidate.ramUsage).sum + b.ramUsage - a.ramUsage :=
    ⟨_, rfl⟩
  have ha : 0 ≤ a.ramUsage := hmem a (by simp)
  have hsum : 0 ≤ ((front ++ middle).map Candidate.ramUsage).sum := by
    have := sum_ram_le [] fun c (hc : c ∈ front ++ middle) =>
      hmem c (by rw [List.mem_append] at hc; rcases hc with hc | hc <;> simp [hc])
    simpa using this
  have hall : ((front ++ a :: middle).map Candidate.ramUsage).sum =
      a.ramUsage + ((front ++ middle).map Candidate.ramUsage).sum := by
    simp only [List.map_append, List.sum_append, List.map_cons, List.sum_cons]
    ring
  have htake : takeVictims (covered 0 1 0 (target - need) ⟨0, target⟩) (candidates g hyst) ⟨[], 0, 0⟩ =
      (⟨[], 0, 0⟩ : Taken).addAll ((front ++ a :: middle) ++ [b]) := by
    rw [hcs]
    refine takeVictims_append (fun front' back' hfront _ => ?_) ?_
    · have hle := sum_ram_le front' fun c (hc : c ∈ back') =>
        hmem c (List.mem_append_left _ (hfront ▸ List.mem_append_right _ hc))
      rw [← hfront] at hle
      rw [covered_ramOnly, decide_eq_false_iff_not, ramMb_addAll]
      omega
    · rw [covered_ramOnly, decide_eq_true_eq, ramMb_addAll, sum_ram_concat]
      omega
  obtain ⟨plan, hplan, huncorrected⟩ := exists_plan_ramOnly need htargets g hyst (by
    rw [htake, ramMb_addAll, sum_ram_concat]
    omega)
  have hmodels : plan.modelsToEvict =
      (((front ++ a :: middle) ++ [b]).map Candidate.modelId).toFinset := by
    rw [modelsToEvict_of_plan htargets hplan, candidates_withMemory, htake, Taken.addAll, List.nil_append]
  have hinit : (front ++ a :: middle) ++ [b] <+: candidates g hyst := ⟨back, by rw [hcs]; simp⟩
  have hspare := h 0 0 0 0 ⟨incoming⟩ 0 1 0 (target - need) ∅ none ⟨0, target⟩ plan htargets hplan huncorrected (by
    rw [covered_ramOnly, decide_eq_false_iff_not]
    show ¬ need ≤ 0
    omega) a.modelId (by
      rw [hmodels, List.mem_toFinset]
      exact List.mem_map_of_mem (by simp))
  rw [hmodels, freedBy_erase hinit.subset ((nodup_modelId hnodup).sublist (hinit.sublist.map _)) (by simp),
    covered_ramOnly, decide_eq_false_iff_not] at hspare
  refine hspare ?_
  show need ≤ (((front ++ a :: middle) ++ [b]).map Candidate.ramUsage).sum - a.ramUsage
  rw [sum_ram_concat]
  omega

/-- **When the greedy choice is always minimal**: where the candidates' order by VRAM is an order by RAM as well,
and, for amounts of RAM that are not negative, nowhere else. -/
theorem alwaysMinimal_iff (g : Gateway) (hyst : HysteresisResult) (hnodup : hyst.evictable.Nodup) :
    (RamDescends g hyst → AlwaysMinimal g hyst) ∧
      ((∀ m ∈ hyst.evictable, 0 ≤ (candidate g m).ramUsage) → (AlwaysMinimal g hyst ↔ RamDescends g hyst)) :=
  ⟨alwaysMinimal_of_ramDescends hnodup, fun hnonneg =>
    ⟨ramDescends_of_alwaysMinimal hnodup hnonneg, alwaysMinimal_of_ramDescends hnodup⟩⟩

/-! ## A plan with a victim too many -/

/-- An idle model that is in the VRAM, and one that is in the RAM. -/
def resident : ModelId := ⟨"resident-8192", none⟩

@[inherit_doc resident]
def offloaded : ModelId := ⟨"offloaded-8192", none⟩

/-- A gateway with the two, of which the first takes 10 MB of VRAM and 1 MB of RAM and the second takes 5 MB and
100 MB. -/
def lopsided : Gateway where
  name := "edge"
  ramFreeMb := 0
  vramFreeMb := 0
  ramTotalMb := 0
  vramTotalMb := 0
  loadedModels := ⟨[resident, offloaded], by decide⟩
  busyModels := ∅
  loadingModels := ∅
  modelDetails := ((∅ : Dict ModelId ModelDetails).set resident ⟨some 10, some 1⟩).set offloaded ⟨some 5, some 100⟩
  modelMeasuredVram := ∅
  modelLoadedAt := ∅

/-- Both may go. -/
def bothIdle : HysteresisResult where
  evictable := [resident, offloaded]
  cooldownProtectedCount := 0
  demandProtectedCount := 0

/-- The same, where the model that takes more VRAM takes more RAM too. -/
def level : Gateway :=
  { lopsided with
    modelDetails := ((∅ : Dict ModelId ModelDetails).set resident ⟨some 10, some 100⟩).set offloaded ⟨some 5, some 1⟩ }

theorem alwaysMinimal_level : (candidates level bothIdle).map Candidate.ramUsage = [100, 1] ∧
    AlwaysMinimal level bothIdle := by
  have hdescends : RamDescends level bothIdle := by
    unfold RamDescends
    decide
  exact ⟨by decide, ((alwaysMinimal_iff level bothIdle (by decide)).2 (by decide)).2 hdescends⟩

/-- The plan for a model that takes 98 MB of RAM, which are 100 with the margin. -/
def lopsidedPlan : EvictionPlanSummary where
  modelsToEvict := [resident, offloaded].toFinset
  freedVramMb := 15
  freedRamMb := 101
  estimatedCost := .finite (-70)
  catalogFreedVramMb := 15
  hardwareUsedVramMb := none
  nonEvictableVramReserveMb := 0
  hardwareCorrectionApplied := false
  catalogFreedRamMb := 101
  hardwareUsedRamMb := none
  nonEvictableRamReserveMb := 4096
  ramHardwareCorrectionApplied := false
  triggerModelId := incoming
  hysteresis := bothIdle

/-- The model in the VRAM is evicted for nothing. -/
theorem lopsided_not_minimal : ¬ AlwaysMinimal lopsided bothIdle := by
  intro h
  have hplanned : Planned ∅ 0 98 2048 0 100 :=
    ⟨rfl, by decide +kernel, by decide +kernel, ⟨4096, rfl⟩, ⟨_, rfl⟩⟩
  have hplan : selectEvictionVictims (lopsided.withMemory 0 0 0 0) ⟨incoming⟩ bothIdle 0 98 0 0 ∅ none =
      .ok (.summary lopsidedPlan) := by
    decide +kernel
  have hneeded := h 0 0 0 0 ⟨incoming⟩ 0 98 0 0 ∅ none ⟨0, 100⟩ lopsidedPlan (evictionTargets_of_planned hplanned)
    hplan ⟨rfl, rfl⟩ (by decide) resident (by decide)
  have hcovered : covered 0 98 0 0 ⟨0, 100⟩ (freedBy lopsided (lopsidedPlan.modelsToEvict.erase resident)) = true := by
    decide
  rw [hcovered] at hneeded
  cases hneeded

end LlmGateway.Eviction
