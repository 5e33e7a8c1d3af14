import LlmGateway.DispatchMonitor.Record

/-!
# The row of a dispatch

A row accumulates what the records say of one dispatch. Most of it is text that the first record to carry it writes,
`stamps`; the rest are the times, the counts and the state. The handlers are made of the changes of a row that stand
here, and `merge` folds a row that is keyed on another id of the same dispatch into it.
-/

namespace LlmGateway.DispatchMonitor

/-- The texts of a row that no rule of the fold reads but as a text. -/
inductive Stamp where
  | rootId
  | threadId
  | seat
  | role
  | model
  | contract
  | sourceRepo
  | closeoutUri
  | lastToolName
  | lastToolStatus
  | stallStage
  | admittedVia
  | askedBy
  | purpose
  | storyId
  | topic
  | nestUnder
  | resumeOf
  | mcpSeatClass
  | mcpSurface
  | callerFrom
  | callerVia
  | checkoutLane
  | checkoutBranch
  | packetKind
  | sdkMode
  deriving DecidableEq

structure SdkState where
  dispatchId : String
  state : String
  stamps : Stamp → Option String
  startedMs : Option ℤ
  lastProgressMs : Option ℤ
  terminalMs : Option ℤ
  promptTokens : Option ℤ
  completionTokens : Option ℤ
  cachedTokens : Option ℤ
  failureReason : Option String
  emittersSeen : List String
  divergentFields : List String
  terminalEmitter : Option String
  provenance : Option String
  queuePosition : Option ℤ
  deliveryFailed : Bool
  implementGateBypass : Bool
  leaseReleasedWithoutTerminal : Bool
  preParkState : Option String
  toolCallCount : Option ℤ
  seenToolCallIds : List String
  parentExecutionId : Option String
  reviewChild : Bool
  fast : Option Bool

namespace SdkState

/-- `SdkState(dispatch_id)`. -/
def new (dispatchId : String) : SdkState where
  dispatchId := dispatchId
  state := "unknown"
  stamps := fun _ => none
  startedMs := none
  lastProgressMs := none
  terminalMs := none
  promptTokens := none
  completionTokens := none
  cachedTokens := none
  failureReason := none
  emittersSeen := []
  divergentFields := []
  terminalEmitter := none
  provenance := none
  queuePosition := none
  deliveryFailed := false
  implementGateBypass := false
  leaseReleasedWithoutTerminal := false
  preParkState := none
  toolCallCount := none
  seenToolCallIds := []
  parentExecutionId := none
  reviewChild := false
  fast := none

/-- No terminal has been bound. -/
def isLive (row : SdkState) : Bool := row.terminalMs.isNone

/-! ## Changes of a row -/

/-- The text is written over. -/
def put (row : SdkState) (stamp : Stamp) (text : String) : SdkState :=
  { row with stamps := Function.update row.stamps stamp (some text) }

/-- The text is written when it is there. -/
def put? (row : SdkState) (stamp : Stamp) (text : Option String) : SdkState :=
  match text with
  | none => row
  | some text => row.put stamp text

/-- The text is written when it is there and none stands. -/
def fill (row : SdkState) (stamp : Stamp) (text : Option String) : SdkState :=
  if (row.stamps stamp).isNone then row.put? stamp text else row

/-- `_advance_progress`: the idle clock moves forward only, and not behind a terminal. -/
def advance (row : SdkState) (ts : ℤ) : SdkState :=
  if !row.isLive then row
  else if row.lastProgressMs.all (decide <| · < ts) then { row with lastProgressMs := some ts }
  else row

/-- The row runs when it is live. -/
def run (row : SdkState) : SdkState := if row.isLive then { row with state := "running" } else row

/-- A live row that has not begun runs. -/
def runFresh (row : SdkState) : SdkState :=
  if row.isLive && (row.state == "unknown" || row.state == "queued") then { row with state := "running" } else row

/-- The start, when none is known. -/
def start (row : SdkState) (ts : ℤ) : SdkState :=
  if row.startedMs.isNone then { row with startedMs := some ts } else row

/-- The earlier start. -/
def startEarlier (row : SdkState) (ts : ℤ) : SdkState :=
  if row.startedMs.all (decide <| ts < ·) then { row with startedMs := some ts } else row

/-- `absorb_tool_call_count`, of a count that has been read. -/
def absorbToolCallCount (row : SdkState) (count : Option ℤ) : SdkState :=
  match count with
  | none => row
  | some n => if row.toolCallCount.all (decide <| · < n) then { row with toolCallCount := some n } else row

def noteToolCallId (row : SdkState) (callId : Option String) : SdkState :=
  match callId with
  | none => row
  | some id =>
    if row.seenToolCallIds.contains id then row
    else
      let seen := row.seenToolCallIds ++ [id]
      { row with seenToolCallIds := seen, toolCallCount := some (max (row.toolCallCount.getD 0 + 1) seen.length) }

/-- The emitter is noted once. -/
def noteEmitter (row : SdkState) (emitter : String) : SdkState :=
  if row.emittersSeen.contains emitter then row else { row with emittersSeen := row.emittersSeen ++ [emitter] }

def absorbAdmitStamps (row : SdkState) (r : Record) : SdkState :=
  let row := row.fill .packetKind (r.text? "packet_kind")
  if row.fast.isNone then
    match r.get "model_knobs_requested" with
    | .obj knobs =>
      if (Json.get knobs "fast").isStrIn ["true"] then { row with fast := some true }
      else if (Json.get knobs "fast").isStrIn ["false"] then { row with fast := some false }
      else row
    | _ => row
  else row

/-- The keys of a payload and the texts they fill. -/
def identityKeys : List (String × Stamp) :=
  [("seat", .seat), ("role", .role), ("model", .model), ("resolved_model", .model), ("contract", .contract),
    ("handoff_contract", .contract), ("thread_id", .threadId), ("dispatch_thread_id", .threadId),
    ("worker_thread", .threadId), ("root", .rootId), ("root_id", .rootId), ("source_ref", .rootId),
    ("admitted_via", .admittedVia), ("asked_by", .askedBy), ("purpose", .purpose), ("story_id", .storyId),
    ("topic", .topic), ("nest_under", .nestUnder), ("resume_of", .resumeOf), ("sdk_mode", .sdkMode),
    ("conversation_mode", .sdkMode)]

/-- The texts of a payload, each where none stands. -/
def fillIdentity (row : SdkState) (r : Record) : SdkState :=
  (identityKeys.foldl (fun row e => row.fill e.2 (r.text? e.1)) row).absorbAdmitStamps r

def applyProvenance (row : SdkState) (r : Record) : SdkState :=
  if (r.get "_provenance").isStrIn ["reconciled"] then
    if row.provenance = some "signal" then row else { row with provenance := some "reconciled" }
  else { row with provenance := some "signal" }

/-- A terminal that is bound. -/
def bind (row : SdkState) (ts : ℤ) (emitter state : String) : SdkState :=
  { row with terminalMs := some ts, terminalEmitter := some emitter, state := state }

/-- The failure reason, when one is given. -/
def fail (row : SdkState) (reason : Option String) : SdkState :=
  match reason with
  | none => row
  | some reason => { row with failureReason := some reason }

/-- The idle clock moves forward, whatever the state. -/
def touch (row : SdkState) (ts : ℤ) : SdkState :=
  if row.lastProgressMs.all (decide <| · < ts) then { row with lastProgressMs := some ts } else row

/-- The name of a field on which the lanes disagree, once. -/
def diverge (row : SdkState) (field : String) : SdkState :=
  if row.divergentFields.contains field then row else { row with divergentFields := row.divergentFields ++ [field] }

/-- A terminal of a later lane is compared with the row, and changes nothing else. -/
def compare (row : SdkState) (state : String) (promptTokens completionTokens : Option ℤ)
    (failureReason : Option String) : SdkState :=
  let row := if row.state = state then row else row.diverge "state"
  let row := if promptTokens.isNone || row.promptTokens = promptTokens then row else row.diverge "prompt_tokens"
  let row :=
    if completionTokens.isNone || row.completionTokens = completionTokens then row
    else row.diverge "completion_tokens"
  if failureReason.isNone || row.failureReason = failureReason then row else row.diverge "failure_reason"

/-- The token counts of the first terminal, where it has them. -/
def countTokens (row : SdkState) (promptTokens completionTokens : Option ℤ) : SdkState :=
  { row with
    promptTokens := promptTokens.orElse fun _ => row.promptTokens
    completionTokens := completionTokens.orElse fun _ => row.completionTokens }

/-- `_terminalize_review_child`. -/
def orphan (row : SdkState) (ts : ℤ) (reason : String) : SdkState :=
  (((row.bind ts "worker" "orphaned").fail (some reason)).touch ts)

/-- A live row that is no parked one waits for its child. -/
def park (row : SdkState) : SdkState :=
  if row.isLive && row.state != "parked_waiting" then
    { row with preParkState := some row.state, state := "parked_waiting" }
  else row

/-- The child has ended. -/
def restore (row : SdkState) (ts : ℤ) : SdkState :=
  { row with
    state := (row.preParkState.filter (· != "")).getD "running"
    preParkState := none
    lastProgressMs := some ts }

/-! ## Merging -/

/-- How far a live state is. -/
def rank (state : String) : ℕ :=
  if state = "queued" then 1 else if state = "parked_waiting" then 2 else if state = "running" then 3 else 0

/-- The larger number, of those that are there. -/
def larger : Option ℤ → Option ℤ → Option ℤ
  | cur, none => cur
  | none, some m => some m
  | some n, some m => if n < m then some m else some n

/-- `merge_sdk_state`. -/
def merge (row alt : SdkState) : SdkState :=
  let counted := row.absorbToolCallCount alt.toolCallCount
  let seen := row.seenToolCallIds ++ alt.seenToolCallIds.filter fun id => !row.seenToolCallIds.contains id
  { row with
    -- The mode is the one text that is not merged.
    stamps := fun stamp =>
      if stamp = .sdkMode then row.stamps stamp else (row.stamps stamp).orElse fun _ => alt.stamps stamp
    preParkState := row.preParkState.orElse fun _ => alt.preParkState
    failureReason := row.failureReason.orElse fun _ => alt.failureReason
    terminalEmitter := row.terminalEmitter.orElse fun _ => alt.terminalEmitter
    parentExecutionId := row.parentExecutionId.orElse fun _ => alt.parentExecutionId
    fast := row.fast.orElse fun _ => alt.fast
    startedMs := match alt.startedMs with
      | none => row.startedMs
      | some ts => (row.startEarlier ts).startedMs
    lastProgressMs := larger row.lastProgressMs alt.lastProgressMs
    toolCallCount :=
      if counted.toolCallCount.getD 0 < seen.length then some seen.length else counted.toolCallCount
    seenToolCallIds := seen
    emittersSeen := row.emittersSeen ++ alt.emittersSeen.filter fun e => !row.emittersSeen.contains e
    promptTokens := larger row.promptTokens alt.promptTokens
    completionTokens := larger row.completionTokens alt.completionTokens
    cachedTokens := larger row.cachedTokens alt.cachedTokens
    queuePosition := row.queuePosition.orElse fun _ => alt.queuePosition
    deliveryFailed := row.deliveryFailed || alt.deliveryFailed
    implementGateBypass := row.implementGateBypass || alt.implementGateBypass
    leaseReleasedWithoutTerminal := row.leaseReleasedWithoutTerminal || alt.leaseReleasedWithoutTerminal
    reviewChild := row.reviewChild || alt.reviewChild
    state := if rank row.state < rank alt.state then alt.state else row.state
    provenance := if alt.provenance = some "signal" then some "signal" else row.provenance
    divergentFields := row.divergentFields ++ alt.divergentFields.filter fun f => !row.divergentFields.contains f }

end SdkState

end LlmGateway.DispatchMonitor
