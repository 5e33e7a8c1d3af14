import LlmGateway.Foundations.Fallible
import LlmGateway.Pipeline.MapExecution

/-!
# When the fail-fast mode agrees with the plain one

Without a stall the plain mode waits for all iterations and compares the number of successes with the threshold. The
fail-fast mode gives up as soon as the successes that are still possible are fewer than a required number, and compares
at the end as well. The two differ in two ways. An iteration that another has cancelled counts as a failure in the plain
mode; the fail-fast mode asks it for its exception, which raises `CancelledError`. And the required number is a rounded
product where the comparison is of a rounded quotient: of 100 iterations at 0.07 the one wants 8 successes and the other
is content with 7. `failFast_agrees_iff` says that there are no others.
-/

namespace LlmGateway.Pipeline.MapReduce

variable {Output : Type} {keys : List (Option String)} {threshold : Threshold} {outcome : ℕ → TaskOutcome Output}
  {batches : List (List ℕ)} {total : ℕ} {done : List ℕ} {k : ℕ}

/-! ## Agreement -/

/-- What the modes have in common of what they return. -/
def MapOutcome.core (a : MapOutcome Output) : List Output × List (Option String) × List ℕ :=
  (a.outputs, a.outputKeys, a.outputPositions)

/-- **The modes agree**: they accept with the same outputs, and where the fail-fast mode does not accept it raises a
`MapPartialFailureError`. -/
structure Agrees (plain fast : Except MapError (MapOutcome Output)) : Prop where
  accepts : ∀ core, (∃ a, fast = .ok a ∧ a.core = core) ↔ ∃ b, plain = .ok b ∧ b.core = core
  rejects : (∀ a, fast ≠ .ok a) → ∃ e, fast = .error (.partialFailure e)

/-- **The fail-fast mode cancels rightly**: when it gives up, however many of the iterations that it reports as
cancelled had succeeded, the threshold would not have been met. -/
def CancelsRightly (total : ℕ) (threshold : Threshold) (outcome : ℕ → TaskOutcome Output)
    (batches : List (List ℕ)) : Prop :=
  ∀ e, failFastLoop total threshold outcome [] batches = .error (.partialFailure e) → ∀ s, e.completedCount ≤ s →
    s ≤ e.completedCount + e.iterationResults.countP (fun r => r.status = .cancelled) →
      successCountMeetsThreshold s total threshold = false

/-- The iterations of the first `k` batches. -/
def reached (batches : List (List ℕ)) (k : ℕ) : List ℕ := (batches.take k).flatten

/-- None of the iterations was cancelled by another. -/
def Uncancelled (outcome : ℕ → TaskOutcome Output) (done : List ℕ) : Prop :=
  ∀ i ∈ done, (outcome i).isCancelled = false

/-- The successes that are still possible are as many as are required. -/
def Hopeful (total : ℕ) (threshold : Threshold) (outcome : ℕ → TaskOutcome Output) (done : List ℕ) : Prop :=
  computeRequiredSuccessCount total threshold ≤ maxPossible total outcome done

instance (total : ℕ) (threshold : Threshold) (outcome : ℕ → TaskOutcome Output) (done : List ℕ) :
    Decidable (Hopeful total threshold outcome done) :=
  inferInstanceAs (Decidable (_ ≤ _))

/-! ## Thresholds -/

theorem meets_eq_false_of_le {s s' : ℕ} (hle : s ≤ s') (hs' : s' ≤ total)
    (h : successCountMeetsThreshold s' total threshold = false) :
    successCountMeetsThreshold s total threshold = false := by
  cases threshold with
  | all =>
    simp only [successCountMeetsThreshold, decide_eq_false_iff_not] at h ⊢
    omega
  | count n =>
    simp only [successCountMeetsThreshold, decide_eq_false_iff_not, not_le] at h ⊢
    omega
  | fraction q =>
    simp only [successCountMeetsThreshold, decide_eq_false_iff_not, not_or, not_le] at h ⊢
    refine ⟨h.1, lt_of_le_of_lt (Binary64.nearest_mono (by positivity) ?_) h.2⟩
    gcongr

theorem required_le_of_meets {s : ℕ} (hfraction : ∀ q, threshold ≠ .fraction q)
    (h : successCountMeetsThreshold s total threshold = true) : computeRequiredSuccessCount total threshold ≤ s := by
  cases threshold with
  | all =>
    simp only [successCountMeetsThreshold, decide_eq_true_eq] at h
    rw [h]
    exact le_rfl
  | count n =>
    simp only [successCountMeetsThreshold, decide_eq_true_eq] at h
    exact h
  | fraction q => exact (hfraction q rfl).elim

/-! ## The loop -/

theorem Uncancelled.any_eq_false (h : Uncancelled outcome done) :
    (done.any fun i => (outcome i).isCancelled) = false := by
  rw [List.any_eq_false]
  intro i hi
  rw [h i hi]
  exact Bool.false_ne_true

theorem failFastLoop_cons (newlyDone : List ℕ) (hopeful : Hopeful total threshold outcome (done ++ newlyDone))
    (huncancelled : Uncancelled outcome (done ++ newlyDone)) :
    failFastLoop total threshold outcome done (newlyDone :: batches) =
      failFastLoop total threshold outcome (done ++ newlyDone) batches := by
  rw [failFastLoop, huncancelled.any_eq_false, if_neg Bool.false_ne_true, if_neg (not_lt.2 hopeful)]

theorem reached_succ (hk : k < batches.length) : reached batches (k + 1) = reached batches k ++ batches[k] := by
  rw [reached, List.take_succ_eq_append_getElem hk, List.flatten_append, List.flatten_singleton, reached]

theorem failFastLoop_reached (hk : k ≤ batches.length)
    (hgood : ∀ j ≤ k, 0 < j → Hopeful total threshold outcome (reached batches j) ∧
      Uncancelled outcome (reached batches j)) :
    failFastLoop total threshold outcome [] batches =
      failFastLoop total threshold outcome (reached batches k) (batches.drop k) := by
  induction k with
  | zero => rfl
  | succ k ih =>
    obtain ⟨hopeful, huncancelled⟩ := hgood (k + 1) le_rfl (Nat.succ_pos k)
    have hlt : k < batches.length := hk
    rw [reached_succ hlt] at hopeful huncancelled ⊢
    rw [ih hlt.le fun j hj => hgood j (by omega), List.drop_eq_getElem_cons hlt,
      failFastLoop_cons _ hopeful huncancelled]

/-! ## What is pending -/

theorem reached_append_drop : reached batches k ++ (batches.drop k).flatten = batches.flatten := by
  rw [reached, ← List.flatten_append, List.take_append_drop]

theorem reached_subset {j : ℕ} (hjk : j ≤ k) : reached batches j ⊆ reached batches k := by
  intro i hi
  obtain ⟨batch, hbatch, hi⟩ := List.mem_flatten.1 hi
  exact List.mem_flatten.2 ⟨batch, (List.take_subset_take_left batches hjk) hbatch, hi⟩

section Pending

variable (hperm : batches.flatten.Perm (List.range total))
include hperm

theorem mem_flatten_iff {i : ℕ} : i ∈ batches.flatten ↔ i < total := by
  rw [hperm.mem_iff, List.mem_range]

theorem pendingOf_perm : (pendingOf total (reached batches k)).Perm (batches.drop k).flatten := by
  have hnodup : (reached batches k ++ (batches.drop k).flatten).Nodup := by
    rw [reached_append_drop]
    exact hperm.nodup_iff.2 List.nodup_range
  have hdisjoint : (reached batches k).Disjoint (batches.drop k).flatten := (List.nodup_append'.1 hnodup).2.2
  have hdone : (reached batches k).filter (· ∉ reached batches k) = [] := by
    rw [List.filter_eq_nil_iff]
    intro i hi
    simpa using hi
  have hrest : (batches.drop k).flatten.filter (· ∉ reached batches k) = (batches.drop k).flatten := by
    rw [List.filter_eq_self]
    intro i hi
    simpa using fun hmem => hdisjoint hmem hi
  have hfilter := hperm.symm.filter (· ∉ reached batches k)
  rwa [← reached_append_drop (k := k), List.filter_append, hdone, hrest, List.nil_append] at hfilter

theorem successCount_le_maxPossible :
    successCount outcome batches.flatten ≤ maxPossible total outcome (reached batches k) := by
  rw [maxPossible, (pendingOf_perm hperm).length_eq, ← reached_append_drop (k := k), successCount, List.countP_append]
  exact Nat.add_le_add_left List.countP_le_length _

theorem maxPossible_le : maxPossible total outcome (reached batches k) ≤ total := by
  have hlength : (reached batches k).length + (batches.drop k).flatten.length = total := by
    rw [← List.length_append, reached_append_drop, hperm.length_eq, List.length_range]
  rw [maxPossible, (pendingOf_perm hperm).length_eq]
  exact (Nat.add_le_add_right List.countP_le_length _).trans hlength.le

end Pending

theorem countP_cancelled (huncancelled : Uncancelled outcome done) (pending : List ℕ) :
    (collectIterationResults outcome done pending .cancelled).1.countP (fun r => r.status = .cancelled) =
      pending.length := by
  have hdone : (done.map (resultOf outcome .cancelled)).countP (fun r => r.status = .cancelled) = 0 := by
    rw [List.countP_eq_zero]
    intro r hr
    obtain ⟨i, hi, rfl⟩ := List.mem_map.1 hr
    have hcancelled := huncancelled i hi
    rw [resultOf]
    cases houtcome : outcome i with
    | succeeded => simp
    | failed => simp
    | cancelled =>
      rw [houtcome] at hcancelled
      cases hcancelled
  rw [collectIterationResults, (List.perm_insertionSort _ _).countP_eq, List.countP_append, hdone, Nat.zero_add,
    List.countP_map]
  exact List.countP_eq_length.2 fun _ _ => by simp

/-! ## The modes -/

theorem agrees_of_loop_ok
    (hloop : failFastLoop keys.length threshold outcome [] batches = .ok batches.flatten) :
    Agrees (executeWithTimeout keys threshold outcome batches.flatten [])
      (executeWithFailFast keys threshold outcome batches) := by
  cases hmeets : successCountMeetsThreshold (resultsByIndex outcome batches.flatten).items.length keys.length threshold
    with
  | true =>
    have hfast : executeWithFailFast keys threshold outcome batches =
        .ok (accept keys (resultsByIndex outcome batches.flatten) none) := by
      rw [executeWithFailFast, hloop]
      exact if_pos hmeets
    refine ⟨fun core => ?_, fun hreject => (hreject _ hfast).elim⟩
    rw [hfast]
    simp only [executeWithTimeout, collectIterationResults, hmeets, if_true, Except.ok.injEq, exists_eq_left']
    rfl
  | false =>
    have hfast : ∃ e, executeWithFailFast keys threshold outcome batches = .error (.partialFailure e) := by
      rw [executeWithFailFast, hloop]
      exact ⟨_, if_neg (Bool.eq_false_iff.1 hmeets)⟩
    obtain ⟨e, hfast⟩ := hfast
    refine ⟨fun core => ?_, fun _ => ⟨e, hfast⟩⟩
    rw [hfast]
    simp [executeWithTimeout, collectIterationResults, hmeets]

section Modes

variable (hperm : batches.flatten.Perm (List.range keys.length))
include hperm

theorem executeWithTimeout_eq_ok_iff : (∃ b, executeWithTimeout keys threshold outcome batches.flatten [] = .ok b) ↔
    successCountMeetsThreshold (successCount outcome batches.flatten) keys.length threshold = true := by
  have hlength : (collectIterationResults outcome batches.flatten [] .timeout).2.items.length =
      successCount outcome batches.flatten :=
    length_resultsByIndex (hperm.nodup_iff.2 List.nodup_range)
  simp only [executeWithTimeout, hlength]
  split_ifs with hmeets <;> simp [hmeets]

theorem agrees_iff_of_loop_gives_up {e : MapPartialFailureError}
    (hloop : failFastLoop keys.length threshold outcome [] batches = .error (.partialFailure e)) :
    Agrees (executeWithTimeout keys threshold outcome batches.flatten [])
        (executeWithFailFast keys threshold outcome batches) ↔
      successCountMeetsThreshold (successCount outcome batches.flatten) keys.length threshold = false := by
  have hfast : executeWithFailFast keys threshold outcome batches = .error (.partialFailure e) := by
    rw [executeWithFailFast, hloop]
    rfl
  rw [← Bool.not_eq_true, ← executeWithTimeout_eq_ok_iff hperm]
  constructor
  · rintro hagrees ⟨b, hb⟩
    obtain ⟨a, ha, -⟩ := (hagrees.accepts b.core).2 ⟨b, hb, rfl⟩
    rw [hfast] at ha
    cases ha
  · intro hplain
    refine ⟨fun core => ⟨?_, ?_⟩, fun _ => ⟨e, hfast⟩⟩
    · rintro ⟨a, ha, -⟩
      rw [hfast] at ha
      cases ha
    · rintro ⟨b, hb, -⟩
      exact (hplain ⟨b, hb⟩).elim

end Modes

/-! ## The loop, by its first obstacle -/

/-- Nothing stops the loop after the first `k` batches. -/
def Good (total : ℕ) (threshold : Threshold) (outcome : ℕ → TaskOutcome Output) (done : List ℕ) : Prop :=
  Hopeful total threshold outcome done ∧ Uncancelled outcome done

theorem failFastLoop_of_good (hgood : ∀ k ≤ batches.length, 0 < k → Good total threshold outcome (reached batches k)) :
    failFastLoop total threshold outcome [] batches = .ok batches.flatten := by
  rw [failFastLoop_reached le_rfl hgood, List.drop_length, reached, List.take_length]
  rfl

section Obstacle

variable (hk : k < batches.length)
  (hgood : ∀ j ≤ k, 0 < j → Good total threshold outcome (reached batches j))
include hk hgood

theorem failFastLoop_of_cancelled (hcancelled : ¬Uncancelled outcome (reached batches (k + 1))) :
    failFastLoop total threshold outcome [] batches = .error .cancelledError := by
  have hany : ((reached batches (k + 1)).any fun i => (outcome i).isCancelled) = true := by
    rw [List.any_eq_true]
    by_contra hnone
    exact hcancelled fun i hi => Bool.eq_false_iff.2 fun h => hnone ⟨i, hi, h⟩
  rw [failFastLoop_reached hk.le hgood, List.drop_eq_getElem_cons hk, failFastLoop, ← reached_succ hk, if_pos hany]

theorem failFastLoop_of_hopeless (huncancelled : Uncancelled outcome (reached batches (k + 1)))
    (hopeless : ¬Hopeful total threshold outcome (reached batches (k + 1))) :
    ∃ e, failFastLoop total threshold outcome [] batches = .error (.partialFailure e) ∧
      e.completedCount + e.iterationResults.countP (fun r => r.status = .cancelled) =
        maxPossible total outcome (reached batches (k + 1)) := by
  have hloop := failFastLoop_reached hk.le hgood
  rw [List.drop_eq_getElem_cons hk, failFastLoop, ← reached_succ hk, huncancelled.any_eq_false,
    if_neg Bool.false_ne_true, if_pos (not_le.1 hopeless)] at hloop
  refine ⟨_, hloop, ?_⟩
  rw [countP_cancelled huncancelled, maxPossible]

end Obstacle

theorem hopeless_of_gives_up {e : MapPartialFailureError}
    (hloop : failFastLoop total threshold outcome done batches = .error (.partialFailure e)) :
    ∃ done', ¬Hopeful total threshold outcome done' ∧
      e.completedCount + e.iterationResults.countP (fun r => r.status = .cancelled) =
        maxPossible total outcome done' := by
  induction batches generalizing done with
  | nil => cases hloop
  | cons newlyDone batches ih =>
    rw [failFastLoop] at hloop
    split_ifs at hloop with hany hopeless
    · cases hloop
    · injection hloop with h
      injection h with h
      have huncancelled : Uncancelled outcome (done ++ newlyDone) := by
        intro i hi
        by_contra hcancelled
        exact hany (List.any_eq_true.2 ⟨i, hi, Bool.not_eq_false _ ▸ hcancelled⟩)
      refine ⟨done ++ newlyDone, not_le.2 hopeless, ?_⟩
      rw [← h, countP_cancelled huncancelled, maxPossible]
    · exact ih hloop

/-- Under `None` and under a count the fail-fast mode always cancels rightly. -/
theorem cancelsRightly_of_not_fraction (hfraction : ∀ q, threshold ≠ .fraction q) :
    CancelsRightly total threshold outcome batches := by
  intro e hloop s _ hs
  obtain ⟨done, hopeless, hcount⟩ := hopeless_of_gives_up hloop
  by_contra hmeets
  have hrequired := required_le_of_meets hfraction (Bool.not_eq_false _ ▸ hmeets)
  exact hopeless (hrequired.trans (by exact_mod_cast hcount ▸ hs))

theorem cancelsRightly_of_count : (fun outcome : ℕ → TaskOutcome ℕ =>
    CancelsRightly 3 (.count 2) outcome [[0, 1], [2]]) fun i => if i = 2 then .succeeded 7 else .failed "boom" :=
  cancelsRightly_of_not_fraction fun _ => Threshold.noConfusion

theorem cancelsRightly_iff {e : MapPartialFailureError}
    (hloop : failFastLoop total threshold outcome [] batches = .error (.partialFailure e))
    (hpossible : e.completedCount + e.iterationResults.countP (fun r => r.status = .cancelled) ≤ total) :
    CancelsRightly total threshold outcome batches ↔ successCountMeetsThreshold
      (e.completedCount + e.iterationResults.countP fun r => r.status = .cancelled) total threshold = false := by
  constructor
  · intro hright
    exact hright e hloop _ (Nat.le_add_right _ _) le_rfl
  · intro hmeets e' hloop' s _ hs
    obtain rfl : e = e' := by
      rw [hloop] at hloop'
      injection hloop' with h
      injection h
    exact meets_eq_false_of_le hs hpossible hmeets

/-- **The fail-fast mode agrees with the plain one** and cancels rightly just when either no iteration was cancelled by
another and after every batch the successes still possible are as many as are required, or none was cancelled up to the
first batch after which they are not, and so many would not have met the threshold. -/
theorem failFast_agrees_iff (keys : List (Option String)) (threshold : Threshold)
    (outcome : ℕ → TaskOutcome Output) (batches : List (List ℕ))
    (hperm : batches.flatten.Perm (List.range keys.length)) :
    (Agrees (executeWithTimeout keys threshold outcome batches.flatten [])
        (executeWithFailFast keys threshold outcome batches) ∧
      CancelsRightly keys.length threshold outcome batches) ↔
    ((∀ i < keys.length, (outcome i).isCancelled = false) ∧
        ∀ k ≤ batches.length, 0 < k → Hopeful keys.length threshold outcome (reached batches k)) ∨
      ∃ k ≤ batches.length, 0 < k ∧ Uncancelled outcome (reached batches k) ∧
        (∀ j < k, 0 < j → Hopeful keys.length threshold outcome (reached batches j)) ∧
        ¬Hopeful keys.length threshold outcome (reached batches k) ∧
        successCountMeetsThreshold (maxPossible keys.length outcome (reached batches k)) keys.length threshold =
          false := by
  have hmem : ∀ {k i}, i ∈ reached batches k → i < keys.length := by
    intro k i hi
    rw [← mem_flatten_iff hperm, ← reached_append_drop (k := k)]
    exact List.mem_append_left _ hi
  by_cases hall : ∀ k ≤ batches.length, 0 < k → Good keys.length threshold outcome (reached batches k)
  · have hloop := failFastLoop_of_good hall
    refine iff_of_true ⟨agrees_of_loop_ok hloop, ?_⟩ (.inl ⟨?_, fun k hk hpos => (hall k hk hpos).1⟩)
    · intro e he
      rw [hloop] at he
      cases he
    · intro i hi
      have hflatten : i ∈ batches.flatten := (mem_flatten_iff hperm).2 hi
      rcases Nat.eq_zero_or_pos batches.length with hzero | hpos
      · rw [List.length_eq_zero_iff.1 hzero] at hflatten
        cases hflatten
      · exact (hall _ le_rfl hpos).2 i (by rwa [reached, List.take_length])
  · -- the first batch after which something stops the loop
    have hbad : ∃ k, k < batches.length ∧ ¬Good keys.length threshold outcome (reached batches (k + 1)) := by
      by_contra hnone
      refine hall fun k hk hpos => ?_
      obtain ⟨k, rfl⟩ := Nat.exists_eq_succ_of_ne_zero hpos.ne'
      by_contra hbad
      exact hnone ⟨k, hk, hbad⟩
    classical
    obtain ⟨hk, hfirst⟩ := Nat.find_spec hbad
    have hgood : ∀ j ≤ Nat.find hbad, 0 < j → Good keys.length threshold outcome (reached batches j) := by
      intro j hj hpos
      obtain ⟨j, rfl⟩ := Nat.exists_eq_succ_of_ne_zero hpos.ne'
      by_contra hnot
      exact Nat.find_min hbad (Nat.lt_of_succ_le hj) ⟨lt_of_lt_of_le hj hk.le, hnot⟩
    generalize Nat.find hbad = k at hk hfirst hgood
    have hcomplete : (∀ i < keys.length, (outcome i).isCancelled = false) →
        ¬∀ k ≤ batches.length, 0 < k → Hopeful keys.length threshold outcome (reached batches k) :=
      fun hnone hhopeful => hfirst ⟨hhopeful _ hk (Nat.succ_pos k), fun i hi => hnone i (hmem hi)⟩
    by_cases huncancelled : Uncancelled outcome (reached batches (k + 1))
    · have hopeless : ¬Hopeful keys.length threshold outcome (reached batches (k + 1)) :=
        fun hhopeful => hfirst ⟨hhopeful, huncancelled⟩
      obtain ⟨e, hloop, hcount⟩ := failFastLoop_of_hopeless hk hgood huncancelled hopeless
      have hle : maxPossible keys.length outcome (reached batches (k + 1)) ≤ keys.length := maxPossible_le hperm
      rw [agrees_iff_of_loop_gives_up hperm hloop, cancelsRightly_iff hloop (hcount ▸ hle), hcount]
      constructor
      · rintro ⟨-, hmeets⟩
        exact .inr ⟨k + 1, hk, Nat.succ_pos k, huncancelled, fun j hj hpos => (hgood j (Nat.le_of_lt_succ hj) hpos).1,
          hopeless, hmeets⟩
      · rintro (⟨hnone, hhopeful⟩ | ⟨k', -, hpos, -, hbefore, hopeless', hmeets⟩)
        · exact (hcomplete hnone hhopeful).elim
        · -- the batch is the first one after which too few are possible
          obtain rfl : k' = k + 1 := by
            rcases Nat.lt_trichotomy k' (k + 1) with hlt | rfl | hlt
            · exact (hopeless' (hgood k' (Nat.le_of_lt_succ hlt) hpos).1).elim
            · rfl
            · exact (hopeless (hbefore _ hlt (Nat.succ_pos k))).elim
          exact ⟨meets_eq_false_of_le (successCount_le_maxPossible hperm) hle hmeets, hmeets⟩
    · have hloop := failFastLoop_of_cancelled hk hgood huncancelled
      refine iff_of_false ?_ ?_
      · rintro ⟨hagrees, -⟩
        have hfast : executeWithFailFast keys threshold outcome batches = .error .cancelledError := by
          rw [executeWithFailFast, hloop]
          rfl
        obtain ⟨e, he⟩ := hagrees.rejects fun a ha => by
          rw [hfast] at ha
          cases ha
        rw [hfast] at he
        cases he
      · rintro (⟨hnone, hhopeful⟩ | ⟨k', -, hpos, huncancelled', -, hopeless', -⟩)
        · exact hcomplete hnone hhopeful
        · rcases Nat.lt_or_ge k k' with hlt | hle
          · exact huncancelled fun i hi => huncancelled' i (reached_subset hlt hi)
          · exact hopeless' (hgood k' hle hpos).1

/-- Two iterations in one batch, with a threshold of one: the first succeeds, the second fails. -/
theorem failFast_agrees_second_failed :
    (fun outcome : ℕ → TaskOutcome ℕ =>
      Agrees (executeWithTimeout [none, none] (.count 1) outcome [0, 1] [])
        (executeWithFailFast [none, none] (.count 1) outcome [[0, 1]]) ∧
      CancelsRightly 2 (.count 1) outcome [[0, 1]])
        fun i => if i = 0 then .succeeded 7 else .failed "boom" := by
  refine (failFast_agrees_iff [none, none] (.count 1) _ [[0, 1]] (by decide)).2 (.inl ⟨by decide, ?_⟩)
  intro k hk hpos
  obtain rfl : k = 1 := Nat.le_antisymm hk hpos
  decide

/-- Of 100 iterations at 0.07 the rounded product asks for 8, where the rounded quotient is met by 7. -/
example : computeRequiredSuccessCount 100 (.fraction (5044031582654956 / 2 ^ 56)) = 8 ∧
    successCountMeetsThreshold 7 100 (.fraction (5044031582654956 / 2 ^ 56)) = true := by
  decide +kernel

/-- Where another has cancelled the second of two iterations, the plain mode is content with the first, and the
fail-fast mode raises `CancelledError`. -/
theorem second_cancelled_disagrees :
    (fun outcome : ℕ → TaskOutcome ℕ =>
      (∃ b, executeWithTimeout [none, none] (.count 1) outcome [0, 1] [] = .ok b ∧ b.outputs = [7]) ∧
      executeWithFailFast [none, none] (.count 1) outcome [[0, 1]] = .error .cancelledError ∧
      ¬Agrees (executeWithTimeout [none, none] (.count 1) outcome [0, 1] [])
        (executeWithFailFast [none, none] (.count 1) outcome [[0, 1]]))
          fun i => if i = 0 then .succeeded 7 else .cancelled := by
  have hfast : executeWithFailFast [none, none] (.count 1)
      (fun i => if i = 0 then .succeeded 7 else (.cancelled : TaskOutcome ℕ)) [[0, 1]] = .error .cancelledError :=
    rfl
  refine ⟨⟨_, rfl, rfl⟩, hfast, ?_⟩
  intro hagrees
  obtain ⟨e, he⟩ := hagrees.rejects fun a ha => by
    rw [hfast] at ha
    cases ha
  rw [hfast] at he
  cases he

end LlmGateway.Pipeline.MapReduce
