import LlmGateway.DispatchMonitor.SdkFold

/-!
# The handlers of the SDK dispatches

One definition for each handler of the table, and `apply`, which chooses by the signal. A handler returns the fold,
with the exception when it raises one.
-/

namespace LlmGateway.DispatchMonitor

/-- The fold that a handler leaves, and what it raises. -/
abbrev Outcome := SdkFold × Option Raised

namespace SdkFold

/-- The handler returns. -/
def done (x : SdkFold) : Outcome := (x, none)

/-- The handler goes on when the number can be read. -/
def reading (x : SdkFold) (v : Json) (f : Option ℤ → Outcome) : Outcome :=
  match asInt v with
  | .error e => (x, some e)
  | .ok n => f n

/-- The handler of the row of a record. -/
def withRow (x : SdkFold) (r : Record) (queued : Bool) (f : SdkFold → String → Outcome) : Outcome :=
  match x.stateOf r queued with
  | none => x.done
  | some y => f y.1 y.2

/-! ## The lease -/

/-- `set_write_lease_holder`, `park_enter_write_lease` and `park_restore_write_lease`. -/
def setWriteLeaseHolder (x : SdkFold) (id : String) : SdkFold := { x with writeLeaseHolderId := some (x.resolve id) }

/-- The holder that a lease record names. -/
def holdLease (x : SdkFold) (r : Record) : SdkFold :=
  match r.firstStr ["dispatch_id", "execution_id"] with
  | none => x
  | some id => x.setWriteLeaseHolder id

def clearWriteLeaseIfCurrent (x : SdkFold) (id : String) : SdkFold :=
  match x.writeLeaseHolderId with
  | none => x
  | some holder => if x.resolve id = x.resolve holder then { x with writeLeaseHolderId := none } else x

/-! ## Closing what hangs on a terminal row -/

/-- A sibling of `terminalize_id_siblings`. -/
def closeSibling (primary : String) (ts : ℤ) (state : String) (reason : Option String) (emitter : String)
    (x : SdkFold) (alt : String) : SdkFold :=
  let alt := x.resolve alt
  if alt = primary then x
  else x.update alt fun row => if row.isLive then ((row.touch ts).bind ts emitter state).fail reason else row

/-- `terminalize_id_siblings`. -/
def closeSiblings (x : SdkFold) (primary : String) (r : Record) (state : String) (reason : Option String)
    (emitter : String) : SdkFold :=
  ((["dispatch_id", "execution_id", "worker_id"].filterMap r.text?).filter (· != primary)).foldl
    (closeSibling primary r.ts state reason emitter) x

/-- `terminalize_children_of_terminal_parent`. -/
def closeChildren (x : SdkFold) (parent : String) (ts : ℤ) : SdkFold :=
  { x with
    dispatches := x.dispatches.mapVal fun _ row =>
      if row.reviewChild && row.isLive && row.parentExecutionId == some parent then row.orphan ts "parent_terminal"
      else row }

/-- `close_terminal_row`, with the failure reason of the row. -/
def closeTerminalRow (x : SdkFold) (key : String) (r : Record) (state emitter : String) : SdkFold :=
  let row := x.row key
  (x.closeSiblings row.dispatchId r state row.failureReason emitter).closeChildren row.dispatchId r.ts

/-- Whether a live review child has had no progress since the mark. -/
def isStale (row : SdkState) (mark : ℤ) : Bool :=
  -- a start at zero does not count as one
  match (row.startedMs.filter (· != 0)).orElse fun _ => row.lastProgressMs with
  | none => false
  | some anchor => decide (anchor < mark) && row.lastProgressMs.all (decide <| · < mark)

/-- One row of `terminalize_stale_review_children`. -/
def closeStale (ts : ℤ) (x : SdkFold) (key : String) : SdkFold :=
  let row := x.row key
  if !row.reviewChild || !row.isLive then x
  else if (row.parentExecutionId.bind x.dispatches.get?).any fun parent => !parent.isLive then
    x.update key fun row => row.orphan ts "parent_terminal"
  else if isStale row ts then x.update key fun row => row.orphan ts "restart_orphan"
  else x

/-! ## Starts and progress -/

def onStarted (x : SdkFold) (r : Record) : Outcome :=
  x.withRow r false fun x key => done (x.update key fun row => ((row.startEarlier r.ts).advance r.ts).run)

def onProgress (x : SdkFold) (r : Record) : Outcome :=
  x.withRow r false fun x key =>
    let x := x.update key fun row => (row.advance r.ts).run
    x.reading (r.get "tool_call_count") fun count =>
      done (x.update key fun row =>
        let row := row.absorbToolCallCount count
        if row.isLive then row.put? .stallStage (r.firstStr ["stall_stage", "phase"]) else row)

def onToolcall (x : SdkFold) (r : Record) : Outcome :=
  x.withRow r false fun x key => done (x.update key fun row =>
    if row.isLive then
      ((((row.put? .lastToolName (r.text? "tool_name")).put? .lastToolStatus (r.text? "status")).noteToolCallId
        (r.text? "call_id")).advance r.ts).runFresh
    else row)

def onQueued (x : SdkFold) (r : Record) : Outcome :=
  x.withRow r true fun x key =>
    let row := x.row key
    if row.startedMs.isSome || !row.isLive then x.done
    else
      let x := x.update key fun row => { row with state := "queued" }
      x.reading (r.get "queue_position") fun position =>
        done (x.update key fun row =>
          let row := { row with queuePosition := position.orElse fun _ => row.queuePosition }
          ((row.put? .sourceRepo (r.text? "source_repo")).fill .model
            (r.firstStr ["resolved_model", "model", "model_id"])).advance r.ts)

def onGenerateRequested (x : SdkFold) (r : Record) : Outcome :=
  match r.firstStr ["resolved_model", "model"] with
  | none => x.done
  | some model =>
    let x := { x with
      pendingModels := (["request_id", "execution_id"].filterMap r.text?).foldl (fun d id => d.set id model)
        x.pendingModels }
    done { x with dispatches := x.dispatches.mapVal fun _ row => x.applyPendingModel row }

/-! ## Terminals -/

def acceptFirstTerminal (x : SdkFold) (key : String) (r : Record) (emitter state : String)
    (promptTokens completionTokens : Option ℤ) (failureReason : Option String) : Outcome :=
  let x := x.update key fun row =>
    ((row.advance r.ts).bind r.ts emitter state).countTokens promptTokens completionTokens
  x.reading (r.get "cached_tokens") fun cached =>
    let x := x.update key fun row =>
      let row := { row with cachedTokens := cached.orElse fun _ => row.cachedTokens }
      (row.fail failureReason).put? .stallStage (r.text? "stall_stage")
    x.reading (r.get "tool_call_count") fun count =>
      done ((x.update key fun row => row.absorbToolCallCount count).closeTerminalRow key r state emitter)

def onTerminal (x : SdkFold) (r : Record) : Outcome :=
  x.withRow r false fun x key =>
    let emitter := r.signal.emitter.getD "unknown"
    let state := if r.signal.isFailure then "failed" else (r.text? "status").getD "completed"
    x.reading (r.get "prompt_tokens") fun promptTokens =>
    x.reading (r.get "completion_tokens") fun completionTokens =>
    let failureReason := r.firstStr ["failure_reason", "error", "stall_stage"]
    if (x.row key).isLive then
      x.acceptFirstTerminal key r emitter state promptTokens completionTokens failureReason
    else done (x.update key fun row => row.compare state promptTokens completionTokens failureReason)

def bindLifecycleTerminal (x : SdkFold) (r : Record) (state : String) (failureReason : Option String) : Outcome :=
  x.withRow r false fun x key =>
    if !(x.row key).isLive then x.done
    else
      let reason := failureReason.orElse fun _ => r.firstStr ["error", "failure_reason"]
      done ((x.update key fun row =>
        ((((row.advance r.ts).bind r.ts "worker" state).fail reason).fill .model
          (r.text? "resolved_model"))).closeTerminalRow key r state "worker")

def onTimeout (x : SdkFold) (r : Record) : Outcome := x.bindLifecycleTerminal r "timeout" none

def onOrphaned (x : SdkFold) (r : Record) : Outcome :=
  x.bindLifecycleTerminal r "orphaned" (r.firstStr ["terminal_status", "bridge_aborted"])

def onCancelled (x : SdkFold) (r : Record) : Outcome :=
  let parts := (r.text? "method").toList ++ (r.firstStr ["reason", "error"]).toList
  x.bindLifecycleTerminal r "cancelled" (if parts.isEmpty then none else some (": ".intercalate parts))

def onDeliveryFailed (x : SdkFold) (r : Record) : Outcome :=
  x.withRow r false fun x key =>
    let code := r.get "status_code"
    let detail := if isNull code then "bus delivery failed" else "status_code=" ++ code.text
    let detail := match r.text? "sidecar_ref" with
      | none => detail
      | some sidecar => detail ++ "; sidecar=" ++ sidecar
    done (x.update key fun row =>
      if row.isLive then
        let row := { row with deliveryFailed := true }
        let row := if row.state ∈ ["unknown", "running", "queued"] then { row with state := "completed" } else row
        (row.fail (some detail)).advance r.ts
      else row)

/-! ## Closeouts -/

def onImplementSourceRefUnresolved (x : SdkFold) (r : Record) : Outcome :=
  match r.text? "dispatch_id" with
  | none => x.done
  | some id =>
    let y := x.rowForId r id
    done (y.1.update y.2 fun row =>
      (({ row with implementGateBypass := true }.fill .threadId (r.text? "thread_id")).fill .contract
        (some "implement")).advance r.ts)

def onCloseoutRelocated (x : SdkFold) (r : Record) : Outcome :=
  x.withRow r false fun x key => done (x.update key fun row => row.put? .closeoutUri (r.text? "uri"))

def onCloseoutReconciled (x : SdkFold) (r : Record) : Outcome :=
  x.withRow r false fun x key => done (x.update key fun row => row.fill .closeoutUri (r.text? "verifying_path"))

def onPartialWorkSpecimen (x : SdkFold) (r : Record) : Outcome :=
  x.withRow r false fun x key => done (x.update key fun row => row.advance r.ts)

/-! ## Leases and parks -/

def onLeaseAcquired (x : SdkFold) (r : Record) : Outcome :=
  x.withRow r false fun x key =>
    done ((x.update key fun row =>
      (((row.start r.ts).runFresh).fill .sourceRepo (r.text? "source_repo")).advance r.ts).holdLease r)

def onLeasePromoted (x : SdkFold) (r : Record) : Outcome :=
  x.withRow r false fun x key =>
    if !(x.row key).isLive then x.done
    else
      done ((x.update key fun row =>
        { row with state := "running", queuePosition := none }.advance r.ts).holdLease r)

def onLeaseReleased (x : SdkFold) (r : Record) : Outcome :=
  x.withRow r false fun x key =>
    let x := x.update key fun row =>
      let row := row.fill .sourceRepo (r.text? "source_repo")
      if row.isLive && row.state != "parked_waiting" then { row with leaseReleasedWithoutTerminal := true } else row
    match r.firstStr ["dispatch_id", "execution_id"] with
    | none => x.done
    | some id => done (x.clearWriteLeaseIfCurrent id)

/-- The parent of `on_park_enter`. -/
def parkParent (x : SdkFold) (r : Record) : SdkFold :=
  match r.text? "parent_id" with
  | none => x
  | some id =>
    let y := x.rowForId r id
    y.1.update y.2 SdkState.park

/-- The child of `on_park_enter`. -/
def parkChild (x : SdkFold) (r : Record) : SdkFold :=
  match r.text? "child_id" with
  | none => x
  | some id =>
    let y := x.rowForId r id
    y.1.update y.2 fun row => if row.isLive then { row with state := "running" }.advance r.ts else row

def noteLeasePark (x : SdkFold) (parent child : String) : SdkFold :=
  let x := if x.leaseParks.contains (parent, child) then x
    else { x with leaseParks := x.leaseParks ++ [(parent, child)] }
  x.setWriteLeaseHolder child

def onParkEnter (x : SdkFold) (r : Record) : Outcome :=
  let x := (x.parkParent r).parkChild r
  match r.text? "parent_id", r.text? "child_id" with
  | some parent, some child => done (x.noteLeasePark parent child)
  | _, _ => x.done

def onParkRestore (x : SdkFold) (r : Record) : Outcome :=
  match r.text? "parent_id" with
  | none => x.done
  | some id =>
    let parent := x.resolve id
    match x.dispatches.get? parent with
    | none => x.done
    | some row =>
      if !row.isLive then x.done
      else done ((x.update parent fun row => row.restore r.ts).setWriteLeaseHolder parent)

/-! ## Resumes and refusals -/

def markResumedProgress (x : SdkFold) (key : String) (r : Record) : SdkFold :=
  let x := x.update key fun row => (row.start r.ts).runFresh
  let x := x.absorbIdentity key r
  x.update key fun row =>
    (if row.stamps .resumeOf = some row.dispatchId then
      { row with stamps := Function.update row.stamps .resumeOf none }
    else row).advance r.ts

/-- The live row that a resume names. -/
def liveParent (x : SdkFold) (resumeOf : Option String) : Option String :=
  (resumeOf.map x.resolve).filter fun parent => (x.dispatches.get? parent).any SdkState.isLive

def onWorkerResumed (x : SdkFold) (r : Record) : Outcome :=
  match r.text? "dispatch_id" with
  | none => x.done
  | some id =>
    match x.liveParent (r.text? "resume_of") with
    | some parent => done ((x.ensureCanonicalRow parent [id]).markResumedProgress (x.resolve parent) r)
    | none =>
      x.withRow r false fun x key =>
        done ((x.update key fun row => row.fill .resumeOf (r.text? "resume_of")).markResumedProgress key r)

def onDuplicateRefused (x : SdkFold) (r : Record) : Outcome :=
  match r.text? "dispatch_id" with
  | none => x.done
  | some id =>
    done { x with
      duplicateRefused := x.duplicateRefused.setDefault id
        (r.ts, (r.text? "holder_dispatch_id").getD "?", (r.text? "thread_id").getD "") }

/-! ## Review children -/

/-- `_ensure_row`: the fold, and the key of the row. -/
def ensureRow (x : SdkFold) (id : String) : SdkFold × String :=
  let canonical := x.resolve id
  if x.dispatches.contains canonical then (x, canonical)
  else
    ({ x with
        dispatches := x.dispatches.set id (.new id)
        redirects := Aliases.register x.redirects id id }, id)

/-- The parent of `on_review_child_spawned`. -/
def openReviewParent (x : SdkFold) (r : Record) : SdkFold :=
  match r.text? "parent_execution_id" with
  | none => x
  | some id =>
    let y := x.ensureRow id
    y.1.update y.2 fun row => row.runFresh.start r.ts

/-- `on_review_child_spawned`: a row has no slot `job`. -/
def onReviewChildSpawned (x : SdkFold) (r : Record) : Outcome :=
  match r.text? "execution_id" with
  | none => x.done
  | some id =>
    let y := (x.openReviewParent r).ensureRow id
    (y.1.update y.2 fun row =>
      { row with reviewChild := true, parentExecutionId := r.text? "parent_execution_id" }, some .attributeError)

def onSystemStarted (x : SdkFold) (r : Record) : Outcome :=
  done ((x.dispatches.items.map Prod.fst).foldl (closeStale r.ts) x)

/-! ## Callers and lanes -/

/-- The row that an id names, by itself or by what its key begins with. -/
def findRow (x : SdkFold) (id : String) : Option String :=
  if x.dispatches.contains (x.resolve id) then some (x.resolve id)
  else (x.dispatches.items.find? fun e => names id e.2.dispatchId).map Prod.fst

def callerFromMcp (seatClass surface : Option String) : Option (String × String) :=
  if surface = some "code" ∨ seatClass = some "cursor" then some ("ide", "mcp")
  else if surface = some "life" ∨ seatClass = some "claude" then some ("claude.ai", "mcp")
  else none

/-- `stash_or_stamp`. -/
def onTeamDispatch (x : SdkFold) (r : Record) : Outcome :=
  match r.text? "execution_id", callerFromMcp (r.text? "seat_class") (r.text? "surface") with
  | some id, some caller =>
    match x.findRow id with
    | none => done { x with pendingCaller := x.pendingCaller.set id caller }
    | some key => done (x.update key fun row =>
      if row.stamps .callerVia = some "mcp" then row
      else
        (((row.fill .callerFrom (some caller.1)).fill .callerVia (some caller.2)).fill .mcpSeatClass
          (r.text? "seat_class")).fill .mcpSurface (r.text? "surface"))
  | _, _ => x.done

/-- `stash_or_stamp_lane`. -/
def onLaneSelected (x : SdkFold) (r : Record) : Outcome :=
  match r.text? "dispatch_id", r.text? "lane" with
  | some id, some lane =>
    match x.findRow id with
    | none => done { x with pendingLane := x.pendingLane.set id lane }
    | some key => done (x.update key fun row => row.fill .checkoutLane (some lane))
  | _, _ => x.done

/-- `stash_or_stamp_branch`. -/
def onLaneBMinted (x : SdkFold) (r : Record) : Outcome :=
  match r.text? "dispatch_id", r.text? "branch" with
  | some id, some branch =>
    match x.findRow id with
    | none => done { x with pendingBranch := x.pendingBranch.set id branch }
    | some key => done (x.update key fun row => row.fill .checkoutBranch (some branch))
  | _, _ => x.done

/-! ## The table -/

/-- `apply`, as far as the SDK fold goes; `others` is what the other folds do to the index. -/
def apply (others : CorrelationIndex → Record → CorrelationIndex) (x : SdkFold) (r : Record) : Outcome :=
  match r.signal with
  | .metaSdkStarted | .pipelineStarted | .workerDispatched => x.onStarted r
  | .workerProgress => x.onProgress r
  | .workerToolcall => x.onToolcall r
  | .workerCompleted | .workerFailed | .pipelineCompleted | .pipelineFailed => x.onTerminal r
  | .workerQueued => x.onQueued r
  | .generateRequested => x.onGenerateRequested r
  | .workerTimeout => x.onTimeout r
  | .workerOrphaned => x.onOrphaned r
  | .workerCancelled => x.onCancelled r
  | .workerDeliveryFailed => x.onDeliveryFailed r
  | .leaseAcquired => x.onLeaseAcquired r
  | .leasePromoted => x.onLeasePromoted r
  | .leaseReleased => x.onLeaseReleased r
  | .leaseParkEnter => x.onParkEnter r
  | .leaseParkRestore => x.onParkRestore r
  | .closeoutRelocated => x.onCloseoutRelocated r
  | .closeoutReconciled => x.onCloseoutReconciled r
  | .partialWorkSpecimen => x.onPartialWorkSpecimen r
  | .workerResumed => x.onWorkerResumed r
  | .admitDuplicateRefused => x.onDuplicateRefused r
  | .reviewChildSpawned => x.onReviewChildSpawned r
  | .implementSourceRefUnresolved => x.onImplementSourceRefUnresolved r
  | .laneSelected => x.onLaneSelected r
  | .laneBMinted => x.onLaneBMinted r
  | .systemStarted => x.onSystemStarted r
  | .teamDispatchDispatched => x.onTeamDispatch r
  | .other _ => done { x with index := others x.index r }

/-- The fold behind a record. -/
def next (others : CorrelationIndex → Record → CorrelationIndex) (x : SdkFold) (r : Record) : SdkFold :=
  (x.apply others r).1

end SdkFold

end LlmGateway.DispatchMonitor
