import LlmGateway.Pipeline.DispatchJournal
import Mathlib.Data.List.Perm.Subperm

/-!
# The admission of continuations

A stopped run is continued by one successor, which has to claim it. `AssessPhase.run` is one statement of
`assess_continuation_sync`: the record, the walk along the claims to a pinned root, the pin, the claim, and for
the loser of a claim the row of the winner. Each is on a connection of its own, so other calls and the pruning of
old rows come between.

`resolveLineageRoot` is the walk when the tables stay as they are; it comes to an end on every table
(`resolveLineageRoot_isSome`), since it enters no execution twice.
-/

namespace LlmGateway.Pipeline

/-! ## Records that may be continued -/

def cancelledErrorCodes : List String := ["pipeline_execution_cancelled", "cancelled"]

/-- The object under a key; an empty one when there is another value. -/
def objectAt (items : List (String × Json)) (key : String) : List (String × Json) :=
  match Json.get items key with
  | .obj items => items
  | _ => []

/-- `str(error.get("code") or "")`. -/
def errorCode (payload : List (String × Json)) : String :=
  let code := Json.get (objectAt payload "error") "code"
  if code.truthy then code.text else ""

/-- `_refusal_for_record`: the code and the message, when the run must not be continued. -/
def refusalForRecord (payload : List (String × Json)) (status : DispatchStatus) : Option (String × String) :=
  if cancelledErrorCodes.contains (errorCode payload) then
    some ("cancelled", "A cancelled run cannot be resumed.")
  else
    match status with
    | .completed =>
      if (Json.get (objectAt payload "result") "stop").truthy then none
      else some ("not_resumable", "Run completed without a stop and cannot be resumed.")
    | .failed =>
      if errorCode payload = "interrupted_by_restart" then none
      else some ("not_resumable", "Run is not a resumable stop.")
    | .started => some ("not_resumable", "Run is not a resumable stop.")

/-! ## The walk to the root -/

/-- `_predecessor_stop_sync`. -/
def Journal.predecessorStop (j : Journal) (successorExecutionId : String) : Option String :=
  (j.claims.items.find? fun e => e.2.successorExecutionId == successorExecutionId).map Prod.fst

/-- A walk before it reads the pin of an execution, or its predecessor. -/
inductive LineageWalk where
  | reading (current : String) (seq : ℕ) (seen : List String)
  | following (current : String) (seq : ℕ) (seen : List String)

/-- The walk at its start. -/
def LineageWalk.start (stopExecutionId : String) : LineageWalk := .reading stopExecutionId 1 [stopExecutionId]

/-- One read of `resolve_lineage_root_sync`: the walk goes on, or it returns. -/
def LineageWalk.run (j : Journal) (stopExecutionId : String) : LineageWalk → LineageWalk ⊕ (String × ℕ)
  | reading current seq seen =>
    if j.lineage.contains current then .inr (current, seq) else .inl (following current seq seen)
  | following current seq seen =>
    match j.predecessorStop current with
    | none => .inr (current, seq)
    | some predecessor =>
      if seen.contains predecessor then .inr (stopExecutionId, 1)
      else .inl (reading predecessor (seq + 1) (predecessor :: seen))

/-- The walk on tables that stay as they are, for at most `fuel` reads. -/
def resolveLineageRoot (j : Journal) (stopExecutionId : String) : ℕ → LineageWalk → Option (String × ℕ)
  | 0, _ => none
  | fuel + 1, w =>
    match w.run j stopExecutionId with
    | .inr out => some out
    | .inl w => resolveLineageRoot j stopExecutionId fuel w

/-! ## Assessing a continuation -/

/-- The arguments of `assess_continuation_sync`. -/
structure AssessArgs where
  stopExecutionId : String
  successorExecutionId : String
  stepsSha256 : String
  pipelineId : String
  claimedAt : String

structure ContinuationDecision where
  admitted : Bool
  httpStatus : ℕ
  code : String
  message : String
  successorExecutionId : Option String
  lineageRoot : Option String
  continuationSeq : ℕ
  freshClaim : Bool

/-- A refusal before the lineage is known. -/
def refusal (code message : String) : ContinuationDecision := ⟨false, 422, code, message, none, none, 0, false⟩

/-- A call under way: what it reads or writes next. -/
inductive AssessPhase where
  | fetching
  | walking (w : LineageWalk)
  | checking (lineageRoot : String) (continuationSeq : ℕ)
  | claiming (lineageRoot : String) (continuationSeq : ℕ)
  | rereading (lineageRoot : String) (continuationSeq : ℕ)

/-- The check of the arguments. -/
def AssessArgs.start (a : AssessArgs) : AssessPhase ⊕ ContinuationDecision :=
  if Json.strip a.stopExecutionId == "" || Json.strip a.successorExecutionId == "" then
    .inr (refusal "not_resumable" "resume_of and the successor execution id are required.")
  else .inl .fetching

/-- Behind `fetch_record_sync`. -/
def AssessArgs.fetched (a : AssessArgs) : Option DispatchRecord → AssessPhase ⊕ ContinuationDecision
  | none => .inr (refusal "not_resumable" "No execution matches resume_of.")
  | some r =>
    match refusalForRecord r.recordJson r.status with
    | some (code, message) => .inr (refusal code message)
    | none => .inl (.walking (.start a.stopExecutionId))

/-- Behind `read_lineage_sync` of the root. -/
def AssessArgs.checked (a : AssessArgs) (lineageRoot : String) (continuationSeq : ℕ) :
    Option LineageRow → AssessPhase ⊕ ContinuationDecision
  | none => .inr { refusal "not_resumable" "Lineage root was never pinned." with
      lineageRoot := some lineageRoot, continuationSeq := continuationSeq }
  | some lineage =>
    if lineage.pipelineId != a.pipelineId || lineage.stepsSha256 != a.stepsSha256 then
      .inr { refusal "lineage_spec_drift" "Pipeline steps hash does not match the lineage root." with
        lineageRoot := some lineageRoot, continuationSeq := continuationSeq }
    else .inl (.claiming lineageRoot continuationSeq)

/-- Behind a claim that is not won, by the row that was read. -/
def AssessArgs.lost (a : AssessArgs) (lineageRoot : String) (continuationSeq : ℕ) (row : Option ClaimRow) :
    ContinuationDecision :=
  let existing := row.elim a.successorExecutionId ClaimRow.successorExecutionId
  if existing = a.successorExecutionId then
    ⟨true, 202, "admitted", "Continuation already claimed by this successor.", some existing,
      some lineageRoot, continuationSeq, false⟩
  else
    ⟨false, 409, "continuation_claimed", "A continuation of this stop was already claimed.", some existing,
      some lineageRoot, continuationSeq, false⟩

/-- The next statement of `assess_continuation_sync`, committed. A claim that is won returns. -/
def AssessPhase.run (a : AssessArgs) (j : Journal) :
    AssessPhase → Journal × (AssessPhase ⊕ ContinuationDecision)
  | fetching => (j, a.fetched (j.records.get? a.stopExecutionId))
  | walking w =>
    match w.run j a.stopExecutionId with
    | .inl w => (j, .inl (walking w))
    | .inr (lineageRoot, continuationSeq) => (j, .inl (checking lineageRoot continuationSeq))
  | checking lineageRoot continuationSeq =>
    (j, a.checked lineageRoot continuationSeq (j.lineage.get? lineageRoot))
  | claiming lineageRoot continuationSeq =>
    if j.claims.contains a.stopExecutionId then (j, .inl (rereading lineageRoot continuationSeq))
    else
      ({ j with claims := j.claims.set a.stopExecutionId ⟨a.successorExecutionId, a.claimedAt⟩ },
        .inr ⟨true, 202, "admitted", "Continuation claimed.", some a.successorExecutionId, some lineageRoot,
          continuationSeq, true⟩)
  | rereading lineageRoot continuationSeq =>
    (j, .inr (a.lost lineageRoot continuationSeq (j.claims.get? a.stopExecutionId)))

/-! ## Other transactions -/

/-- `release_continuation_sync`. -/
def releaseContinuation (stopExecutionId successorExecutionId : String) (j : Journal) : Journal :=
  { j with claims := j.claims.filter fun stop row =>
      !(stop == stopExecutionId && row.successorExecutionId == successorExecutionId) }

/-- `write_lineage_root_sync`. -/
def writeLineageRoot (rootId : String) (row : LineageRow) (j : Journal) : Journal :=
  if j.lineage.contains rootId then j else { j with lineage := j.lineage.set rootId row }

/-- The two kinds of rows that are pruned by their age. -/
inductive Prunable where
  | started
  | completed

/-- The `WHERE` clause over `dispatch_records`. -/
def Prunable.selects (p : Prunable) (cutoff : ℚ) (r : DispatchRecord) : Bool :=
  match p with
  | started => r.status == .started && decide (r.updatedAtEpoch < cutoff)
  | completed => r.completedAtEpoch.any fun epoch => decide (epoch < cutoff)

/-- A transaction that prunes: claims and pins go with the records they follow. -/
def prune (p : Prunable) (cutoff : ℚ) (j : Journal) : Journal :=
  { j with
    claims := j.claims.filter fun stop _ => !(j.records.get? stop).any (p.selects cutoff)
    lineage := j.lineage.filter fun root _ => !(j.records.get? root).any (p.selects cutoff)
    records := j.records.filter fun _ r => !p.selects cutoff r }

/-! ## The end of the walk -/

theorem mem_of_predecessorStop {j : Journal} {id stop : String} (h : j.predecessorStop id = some stop) :
    ∃ row, j.claims.get? stop = some row ∧ row.successorExecutionId = id := by
  obtain ⟨e, he, rfl⟩ := Option.map_eq_some_iff.1 h
  exact ⟨e.2, Dict.mem_items_iff.1 (List.mem_of_find?_eq_some he), by simpa using List.find?_some he⟩

/-- The executions that a walk has entered are distinct, and all but the first are stops with a claim. -/
structure LineageWalk.Entered (j : Journal) (stop : String) (seen : List String) : Prop where
  nodup : seen.Nodup
  subset : ∀ id ∈ seen, id ∈ stop :: j.claims.items.map Prod.fst

theorem LineageWalk.Entered.length_le {j : Journal} {stop : String} {seen : List String}
    (h : LineageWalk.Entered j stop seen) : seen.length ≤ j.claims.items.length + 1 := by
  have hle := (h.nodup.subperm h.subset).length_le
  rwa [List.length_cons, List.length_map] at hle

theorem resolveLineageRoot_of_fuel {j : Journal} {stop : String} (fuel : ℕ) :
    (∀ current seq seen, LineageWalk.Entered j stop seen →
      2 * (j.claims.items.length + 1) + 2 ≤ fuel + 2 * seen.length →
      (resolveLineageRoot j stop fuel (.reading current seq seen)).isSome) ∧
    (∀ current seq seen, LineageWalk.Entered j stop seen →
      2 * (j.claims.items.length + 1) + 1 ≤ fuel + 2 * seen.length →
      (resolveLineageRoot j stop fuel (.following current seq seen)).isSome) := by
  induction fuel with
  | zero =>
    constructor <;>
    · intro current seq seen hseen hfuel
      have := hseen.length_le
      omega
  | succ fuel ih =>
    constructor
    · intro current seq seen hseen hfuel
      simp only [resolveLineageRoot, LineageWalk.run]
      split
      · rename_i heq
        rfl
      · rename_i w heq
        split at heq
        · cases heq
        · obtain rfl := Sum.inl.inj heq
          exact ih.2 current seq seen hseen (by omega)
    · intro current seq seen hseen hfuel
      simp only [resolveLineageRoot, LineageWalk.run]
      rcases hp : j.predecessorStop current with - | p
      · rfl
      · by_cases hmem : seen.contains p = true
        · simp only [hmem, if_true]
          rfl
        · simp only [hmem, Bool.false_eq_true, if_false]
          refine ih.1 p (seq + 1) (p :: seen) ⟨?_, ?_⟩ (by rw [List.length_cons]; omega)
          · exact List.nodup_cons.2 ⟨by simpa using hmem, hseen.nodup⟩
          · intro id hid
            obtain rfl | hid := List.mem_cons.1 hid
            · obtain ⟨row, hrow, -⟩ := mem_of_predecessorStop hp
              exact List.mem_cons_of_mem _ (List.mem_map.2 ⟨_, Dict.mem_items_iff.2 hrow, rfl⟩)
            · exact hseen.subset id hid

/-- **The walk returns on every table**, after two reads for each claim and two more. -/
theorem resolveLineageRoot_isSome (j : Journal) (stop : String) :
    (resolveLineageRoot j stop (2 * j.claims.items.length + 2) (.start stop)).isSome :=
  (resolveLineageRoot_of_fuel _).1 stop 1 [stop] ⟨List.nodup_singleton _, by simp⟩ (by simp; omega)

end LlmGateway.Pipeline
