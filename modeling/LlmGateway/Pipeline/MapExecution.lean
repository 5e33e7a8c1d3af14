import Mathlib.Data.List.Sort
import LlmGateway.Foundations.Binary64
import LlmGateway.Pipeline.MapOutputs

/-!
# The execution of a map step

`threshold_policy.py`, `iteration_result_collector.py`, the modes of execution and `execute_flow.py`. The iterations of
a map are tasks, numbered from 0; they end in batches, the sets that successive calls of `asyncio.wait` return. The
plain mode waits for all, or until no iteration ends for a while, and then compares the number of successes with the
threshold; the fail-fast mode gives up as soon as the successes that are still possible are fewer than required; without
a timeout and without fail-fast, all have to succeed.
-/

namespace LlmGateway.Pipeline.MapReduce

/-! ## Thresholds -/

/-- `min_success_threshold`. A fraction is a finite float. -/
inductive Threshold
  | all
  | count (n : ℤ)
  | fraction (q : ℚ)
  deriving DecidableEq

/-- `success_count_meets_threshold`. The quotient of two integers is rounded. -/
def successCountMeetsThreshold (successCount total : ℕ) : Threshold → Bool
  | .all => successCount = total
  | .count n => n ≤ successCount
  | .fraction q => total = 0 ∨ q ≤ Binary64.nearest (successCount / total)

/-- `compute_required_success_count`. The product is rounded. -/
def computeRequiredSuccessCount (total : ℕ) : Threshold → ℤ
  | .all => total
  | .count n => n
  | .fraction q => ⌈Binary64.nearest (total * q)⌉

/-! ## Results -/

/-- How the task of an iteration ends. -/
inductive TaskOutcome (Output : Type)
  | succeeded (output : Output)
  | failed (message : String)
  /-- Another has cancelled it. -/
  | cancelled

namespace TaskOutcome

variable {Output : Type}

/-- `task.result()`, where there is one. -/
def output? : TaskOutcome Output → Option Output
  | succeeded output => some output
  | _ => none

/-- `task.cancelled()`. -/
def isCancelled : TaskOutcome Output → Bool
  | cancelled => true
  | _ => false

end TaskOutcome

/-- The terminal values of `IterationStatus`. -/
inductive IterationStatus
  | completed
  | failed
  | timeout
  | cancelled
  deriving DecidableEq

/-- `IterationResult`, with what the modes read of it. -/
structure IterationResult where
  index : ℕ
  status : IterationStatus
  errorMessage : Option String
  deriving DecidableEq

structure MapPartialFailureError where
  completedCount : ℕ
  failedCount : ℕ
  totalCount : ℕ
  threshold : Threshold
  iterationResults : List IterationResult

/-- What a mode raises. -/
inductive MapError
  | partialFailure (e : MapPartialFailureError)
  | cancelledError
  /-- The exception of an iteration. -/
  | iteration (message : String)

/-- What a mode returns. -/
structure MapOutcome (Output : Type) where
  outputs : List Output
  outputKeys : List (Option String)
  outputPositions : List ℕ
  failedHints : Option (List FailedIterationHint)

variable {Output : Type}

/-- `threshold if threshold is not None else total`. -/
def Threshold.reported (threshold : Threshold) (total : ℕ) : Threshold :=
  if threshold = .all then .count total else threshold

/-- The result of an iteration that is done. -/
def resultOf (outcome : ℕ → TaskOutcome Output) (timeoutStatus : IterationStatus) (i : ℕ) : IterationResult :=
  match outcome i with
  | .succeeded _ => ⟨i, .completed, none⟩
  | .failed message => ⟨i, .failed, some message⟩
  | .cancelled => ⟨i, timeoutStatus, none⟩

/-- The outputs of the iterations that succeeded, by their indices. -/
def resultsByIndex (outcome : ℕ → TaskOutcome Output) (done : List ℕ) : Dict ℕ Output :=
  done.foldl (fun d i => (outcome i).output?.elim d fun output => d.set i output) ∅

/-- `collect_iteration_results`, sorted by index as its callers do. -/
def collectIterationResults (outcome : ℕ → TaskOutcome Output) (done cancelled : List ℕ)
    (timeoutStatus : IterationStatus) : List IterationResult × Dict ℕ Output :=
  ((done.map (resultOf outcome timeoutStatus) ++ cancelled.map fun i =>
    (⟨i, timeoutStatus, none⟩ : IterationResult)).insertionSort
    fun a b => a.index ≤ b.index, resultsByIndex outcome done)

/-! ## The modes -/

/-- What a mode returns of the outputs there are. -/
def accept (keys : List (Option String)) (resultsByIndex : Dict ℕ Output)
    (failedHints : Option (List FailedIterationHint)) : MapOutcome Output :=
  let ordered := orderedSuccessfulOutputs (iterationMetadata keys) resultsByIndex
  { outputs := ordered.map fun e => e.1
    outputKeys := ordered.map fun e => e.2.1
    outputPositions := ordered.map fun e => e.2.2
    failedHints := failedHints }

/-- `execute_with_timeout`, once the iterations `done` have ended and those that are `pending` have stalled. -/
def executeWithTimeout (keys : List (Option String)) (threshold : Threshold) (outcome : ℕ → TaskOutcome Output)
    (done pending : List ℕ) : Except MapError (MapOutcome Output) :=
  let collected := collectIterationResults outcome done pending .timeout
  let completed := collected.2.items.length
  if successCountMeetsThreshold completed keys.length threshold then
    .ok (accept keys collected.2 (some
      ((collected.1.filter fun r => r.status ≠ .completed).map fun r => ⟨r.index, r.errorMessage.getD ""⟩)))
  else
    .error (.partialFailure
      { completedCount := completed
        failedCount := keys.length - completed
        totalCount := keys.length
        threshold := threshold.reported keys.length
        iterationResults := collected.1 })

/-- The iterations that are not done. -/
def pendingOf (total : ℕ) (done : List ℕ) : List ℕ := (List.range total).filter (· ∉ done)

/-- The number of the iterations that succeeded. -/
def successCount (outcome : ℕ → TaskOutcome Output) (done : List ℕ) : ℕ :=
  done.countP fun i => (outcome i).output?.isSome

/-- The successes that are still possible. -/
def maxPossible (total : ℕ) (outcome : ℕ → TaskOutcome Output) (done : List ℕ) : ℕ :=
  successCount outcome done + (pendingOf total done).length

/-- The loop of `execute_with_fail_fast`: the iterations that are done in the end. To ask a task that was cancelled for
its exception raises. -/
def failFastLoop (total : ℕ) (threshold : Threshold) (outcome : ℕ → TaskOutcome Output) :
    List ℕ → List (List ℕ) → Except MapError (List ℕ)
  | done, [] => .ok done
  | done, newlyDone :: batches =>
    let done := done ++ newlyDone
    if done.any fun i => (outcome i).isCancelled then .error .cancelledError
    else if maxPossible total outcome done < computeRequiredSuccessCount total threshold then
      let pending := pendingOf total done
      .error (.partialFailure
        { completedCount := successCount outcome done
          failedCount := done.length - successCount outcome done + pending.length
          totalCount := total
          threshold := threshold.reported total
          iterationResults := (collectIterationResults outcome done pending .cancelled).1 })
    else failFastLoop total threshold outcome done batches

def executeWithFailFast (keys : List (Option String)) (threshold : Threshold) (outcome : ℕ → TaskOutcome Output)
    (batches : List (List ℕ)) : Except MapError (MapOutcome Output) := do
  let done ← failFastLoop keys.length threshold outcome [] batches
  let collected := collectIterationResults outcome done [] .cancelled
  let completed := collected.2.items.length
  if successCountMeetsThreshold completed keys.length threshold then
    return accept keys collected.2 none
  else
    throw (.partialFailure
      { completedCount := completed
        failedCount := collected.1.length - completed
        totalCount := keys.length
        threshold := threshold.reported keys.length
        iterationResults := collected.1 })

/-- `asyncio.gather`: the outputs in order, or the first exception. -/
def gatherOutputs (total : ℕ) (outcome : ℕ → TaskOutcome Output) (done : List ℕ) : Except MapError (List Output) :=
  match done.find? fun i => (outcome i).output?.isNone with
  | none => .ok ((List.range total).filterMap fun i => (outcome i).output?)
  | some i =>
    match outcome i with
    | .failed message => .error (.iteration message)
    | _ => .error .cancelledError

/-- What `execute_map` reads of a `MapConfig`. -/
structure MapConfig where
  failFast : Bool
  timeoutSeconds : Option ℚ
  inferenceTimeoutSeconds : Option ℚ
  minSuccessThreshold : Threshold

/-- The mode that the configuration chooses: `batches` are the iterations in the order in which they end, `pending`
those that stall. -/
def executeMode (config : MapConfig) (keys : List (Option String)) (outcome : ℕ → TaskOutcome Output)
    (batches : List (List ℕ)) (pending : List ℕ) : Except MapError (MapOutcome Output) :=
  if config.failFast then executeWithFailFast keys config.minSuccessThreshold outcome batches
  else if config.timeoutSeconds.isSome || config.inferenceTimeoutSeconds.isSome then
    executeWithTimeout keys config.minSuccessThreshold outcome batches.flatten pending
  else
    (gatherOutputs keys.length outcome batches.flatten).map fun outputs =>
      ⟨outputs, keys, List.range keys.length, none⟩

def executeMap (config : MapConfig) (keys : List (Option String)) (outcome : ℕ → TaskOutcome Output)
    (batches : List (List ℕ)) (pending : List ℕ) : Except MapError (MapOutputCollection Output) :=
  if keys.length = 0 then .ok (.new [] (some []) none none none)
  else
    (executeMode config keys outcome batches pending).map fun result =>
      .new result.outputs (some result.outputKeys) (some result.outputPositions) (some keys.length)
        result.failedHints

/-! ## What is collected -/

section Collected

variable {outcome : ℕ → TaskOutcome Output} {done : List ℕ} {i : ℕ}

theorem resultsByIndex_fold_get? (d : Dict ℕ Output) (i : ℕ) :
    (done.foldl (fun d i => (outcome i).output?.elim d fun output => d.set i output) d).get? i =
      if i ∈ done then (outcome i).output?.or (d.get? i) else d.get? i := by
  induction done generalizing d with
  | nil => rfl
  | cons j done ih =>
    rw [List.foldl_cons, ih]
    by_cases hij : i = j
    · subst hij
      cases (outcome i).output? <;> simp
    · cases houtput : (outcome j).output? <;> simp [hij, Dict.get?_set_ne _ hij]

theorem resultsByIndex_get? (outcome : ℕ → TaskOutcome Output) (done : List ℕ) (i : ℕ) :
    (resultsByIndex outcome done).get? i = if i ∈ done then (outcome i).output? else none := by
  rw [resultsByIndex, resultsByIndex_fold_get?]
  by_cases hi : i ∈ done <;> simp [hi]

theorem resultsByIndex_fold_length (d : Dict ℕ Output) (hnodup : done.Nodup) (hnew : ∀ i ∈ done, d.get? i = none) :
    (done.foldl (fun d i => (outcome i).output?.elim d fun output => d.set i output) d).items.length =
      d.items.length + successCount outcome done := by
  induction done generalizing d with
  | nil => rfl
  | cons j done ih =>
    obtain ⟨hj, hnodup⟩ := List.nodup_cons.1 hnodup
    rw [List.foldl_cons, successCount, List.countP_cons]
    cases houtput : (outcome j).output? with
    | none =>
      rw [Option.elim_none, ih d hnodup fun i hi => hnew i (List.mem_cons_of_mem _ hi)]
      simp [successCount]
    | some output =>
      have hnone : j ∉ d.items.map Prod.fst := by
        intro hmem
        obtain ⟨⟨_, v⟩, he, rfl⟩ := List.mem_map.1 hmem
        have hget := Dict.mem_items_iff.1 he
        rw [hnew _ List.mem_cons_self] at hget
        cases hget
      rw [Option.elim_some, ih _ hnodup, Dict.items_set_of_not_mem hnone, List.length_append, List.length_singleton]
      · simp [successCount]
        omega
      · intro i hi
        have hij : i ≠ j := fun hij => hj (hij ▸ hi)
        rw [Dict.get?_set_ne _ hij, hnew i (List.mem_cons_of_mem _ hi)]

theorem length_resultsByIndex (hnodup : done.Nodup) :
    (resultsByIndex outcome done).items.length = successCount outcome done := by
  rw [resultsByIndex, resultsByIndex_fold_length ∅ hnodup fun _ _ => rfl]
  exact Nat.zero_add _

end Collected

end LlmGateway.Pipeline.MapReduce
