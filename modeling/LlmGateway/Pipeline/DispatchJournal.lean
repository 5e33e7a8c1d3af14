import LlmGateway.Foundations.Dict
import LlmGateway.Foundations.Json
import Mathlib.Data.Rat.Defs

/-!
# The dispatch journal

One row for each execution with its latest status (the fold), a log of the transitions, the claims of
continuations and the pins of root requests. A call reads the fold and then writes in a transaction of its own
(`JournalTask.run` is one statement or one transaction of a call under way); what it has read may be old by
then.

A time is a text; `isoEpoch` is its reading in seconds, which raises before anything is read when the text is
none. A call with another status than the three fails the `CHECK` of the table and writes nothing.
-/

namespace LlmGateway.Pipeline

/-- The `status` column of `dispatch_records`. -/
inductive DispatchStatus where
  | started
  | completed
  | failed
  deriving DecidableEq

/-- `terminal_statuses`. -/
def DispatchStatus.isTerminal : DispatchStatus → Bool
  | started => false
  | completed | failed => true

/-- A row of `dispatch_records`. -/
structure DispatchRecord where
  pipeline : String
  status : DispatchStatus
  callerAgent : Option String
  startedAt : String
  completedAt : Option String
  completedAtEpoch : Option ℚ
  updatedAt : String
  updatedAtEpoch : ℚ
  recordJson : List (String × Json)

/-- A row of `dispatch_record_transitions`. -/
structure TransitionRow where
  executionId : String
  status : DispatchStatus
  at_ : String
  atEpoch : ℚ

/-- A row of `pipeline_continuation_claims`, under the stopped execution. -/
structure ClaimRow where
  successorExecutionId : String
  claimedAt : String
  deriving DecidableEq

/-- A row of `pipeline_lineage`, under the root execution. -/
structure LineageRow where
  pipelineId : String
  version : String
  stepsSha256 : String
  sourceText : String
  optionsJson : String
  deriving DecidableEq

structure Journal where
  records : Dict String DispatchRecord
  transitions : List TransitionRow
  claims : Dict String ClaimRow
  lineage : Dict String LineageRow

def Journal.empty : Journal := ⟨∅, [], ∅, ∅⟩

/-! ## Transitions -/

/-- The arguments of `write_transition_sync`, with the clock of the call. -/
structure TransitionArgs where
  executionId : String
  pipeline : String
  status : DispatchStatus
  callerAgent : Option String
  startedAt : String
  completedAt : Option String
  recordJson : List (String × Json)
  nowIso : String
  nowEpoch : ℚ

/-- A call whose texts have been read. -/
structure TransitionWrite extends TransitionArgs where
  atIso : String
  atEpoch : ℚ
  completedEpoch : Option ℚ

/-- `completed_at if status != "started" and completed_at else started_at`. -/
def TransitionArgs.atIso (w : TransitionArgs) : String :=
  match w.completedAt with
  | some completedAt => if w.status != .started && completedAt != "" then completedAt else w.startedAt
  | none => w.startedAt

/-- The readings at the start of `write_transition_sync`. -/
def TransitionArgs.prepare (isoEpoch : String → Option ℚ) (w : TransitionArgs) : Option TransitionWrite := do
  let atEpoch ← isoEpoch w.atIso
  match w.completedAt with
  | none => some ⟨w, w.atIso, atEpoch, none⟩
  | some completedAt => (isoEpoch completedAt).map fun epoch => ⟨w, w.atIso, atEpoch, some epoch⟩

/-- The row that an `INSERT` stores. -/
def TransitionWrite.row (w : TransitionWrite) : DispatchRecord where
  pipeline := w.pipeline
  status := w.status
  callerAgent := w.callerAgent
  startedAt := w.startedAt
  completedAt := w.completedAt
  completedAtEpoch := w.completedEpoch
  updatedAt := w.nowIso
  updatedAtEpoch := w.nowEpoch
  recordJson := w.recordJson

/-- The `UPDATE` of a started row; the columns of its completion stay. -/
def TransitionWrite.restart (w : TransitionWrite) (r : DispatchRecord) : DispatchRecord :=
  { r with
    pipeline := w.pipeline
    status := w.status
    callerAgent := w.callerAgent
    startedAt := w.startedAt
    updatedAt := w.nowIso
    updatedAtEpoch := w.nowEpoch
    recordJson := w.recordJson }

/-- The row in the log. -/
def TransitionWrite.log (w : TransitionWrite) : TransitionRow := ⟨w.executionId, w.status, w.atIso, w.atEpoch⟩

/-- The status that a call reads. -/
def Journal.statusOf (j : Journal) (executionId : String) : Option DispatchStatus :=
  (j.records.get? executionId).map DispatchRecord.status

/-- The transaction of `write_transition_sync`, behind the `SELECT` that found `existing`. An `INSERT` over a
row raises and rolls back. -/
def writeTransition (w : TransitionWrite) (existing : Option DispatchStatus) (j : Journal) : Journal :=
  let logged := { j with transitions := j.transitions ++ [w.log] }
  if w.status = .started then
    match existing with
    | none =>
      if j.records.contains w.executionId then j
      else { logged with records := j.records.set w.executionId w.row }
    | some status =>
      if status.isTerminal then logged
      else { logged with records := j.records.mapVal fun id r => if id = w.executionId then w.restart r else r }
  else { logged with records := j.records.set w.executionId w.row }

/-! ## The sweep for started rows of an earlier process -/

/-- The arguments of `sweep_orphan_started_sync`, with the clock of the call. -/
structure SweepArgs where
  processStartedAt : ℚ
  nowIso : String
  nowEpoch : ℚ

/-- The record of an interrupted run. -/
def SweepArgs.body (a : SweepArgs) (recordJson : List (String × Json)) : List (String × Json) :=
  let error := .obj [("code", .str "interrupted_by_restart"),
    ("message", .str "Dispatch interrupted by process restart"), ("data", .obj [("resumable", .bool true)])]
  Json.set "error" error (Json.set "as_of" (.str a.nowIso) (Json.set "completed_at" (.str a.nowIso)
    (Json.set "state" (.str "failed") (Json.set "status" (.str "failed") recordJson))))

/-- The `UPDATE` of one row, by its id and if it is still a started one. -/
def SweepArgs.update (a : SweepArgs) (executionId : String) (recordJson : List (String × Json)) (j : Journal) :
    Journal :=
  { j with records := j.records.mapVal fun id r =>
      if id = executionId ∧ r.status = .started then
        { r with
          status := .failed
          completedAt := some a.nowIso
          completedAtEpoch := some a.nowEpoch
          updatedAt := a.nowIso
          updatedAtEpoch := a.nowEpoch
          recordJson := a.body recordJson }
      else r }

/-- The started rows that the sweep reads. -/
def Journal.startedRows (j : Journal) : List (String × DispatchRecord) :=
  j.records.items.filter fun e => e.2.status == .started

/-- The exception of a text that is no time. -/
inductive JournalError where
  | valueError (text : String)

/-- One row of the sweep. -/
def sweepRow (isoEpoch : String → Option ℚ) (a : SweepArgs) (j : Journal) (e : String × DispatchRecord) :
    Except JournalError Journal :=
  match isoEpoch e.2.startedAt with
  | none => .error (.valueError e.2.startedAt)
  | some epoch => .ok (if a.processStartedAt ≤ epoch then j else a.update e.1 e.2.recordJson j)

/-- The transaction of the sweep, over the rows it has read. An exception rolls it back. -/
def sweepOrphans (isoEpoch : String → Option ℚ) (a : SweepArgs) (rows : List (String × DispatchRecord))
    (j : Journal) : Journal :=
  match rows.foldlM (sweepRow isoEpoch a) j with
  | .ok j' => j'
  | .error _ => j

/-! ## Calls under way -/

/-- A call under way, before its `SELECT` or before its transaction. -/
inductive JournalTask where
  | reading (w : TransitionWrite)
  | writing (w : TransitionWrite) (existing : Option DispatchStatus)
  | listing (a : SweepArgs)
  | sweeping (a : SweepArgs) (rows : List (String × DispatchRecord))

/-- The next statement or transaction of a call: what it commits, and what is left of the call. -/
def JournalTask.run (isoEpoch : String → Option ℚ) (j : Journal) : JournalTask → Journal × Option JournalTask
  | reading w => (j, some (writing w (j.statusOf w.executionId)))
  | writing w existing => (writeTransition w existing j, none)
  | listing a => (j, some (sweeping a j.startedRows))
  | sweeping a rows => (sweepOrphans isoEpoch a rows j, none)

end LlmGateway.Pipeline
