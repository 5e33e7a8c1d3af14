import LlmGateway.EventStore.Ingest
import LlmGateway.Foundations.Dict

/-!
# The records of the dispatch monitor

The monitor folds records: a signal, a time, a payload, and the context of the envelope. What a record says of the
identity of a dispatch is read from its payload: the preferred key of the row, and every id that names the dispatch
(`payloadAltIds`).
-/

namespace LlmGateway.DispatchMonitor

/-! ## Signals -/

/-- The signals of the SDK family and of the session boundary; `other` is every other signal. -/
inductive Signal where
  | metaSdkStarted
  | pipelineStarted
  | workerDispatched
  | workerProgress
  | workerToolcall
  | workerCompleted
  | workerFailed
  | pipelineCompleted
  | pipelineFailed
  | workerQueued
  | generateRequested
  | workerTimeout
  | workerOrphaned
  | workerCancelled
  | workerDeliveryFailed
  | leaseAcquired
  | leasePromoted
  | leaseReleased
  | leaseParkEnter
  | leaseParkRestore
  | closeoutRelocated
  | closeoutReconciled
  | partialWorkSpecimen
  | workerResumed
  | admitDuplicateRefused
  | reviewChildSpawned
  | implementSourceRefUnresolved
  | laneSelected
  | laneBMinted
  | systemStarted
  | teamDispatchDispatched
  | other (name : String)
  deriving DecidableEq

namespace Signal

/-- `SDK_EMITTER_BY_SIGNAL`. -/
def emitter : Signal → Option String
  | workerProgress | workerToolcall | workerCompleted | workerFailed | workerQueued | workerDispatched => some "worker"
  | pipelineStarted | pipelineCompleted | pipelineFailed => some "pipeline"
  | _ => none

/-- `SDK_FAILURE_SIGNALS`. -/
def isFailure : Signal → Bool
  | workerFailed | pipelineFailed | workerTimeout | workerOrphaned | workerCancelled => true
  | _ => false

end Signal

/-- `v is None`. -/
def isNull : Json → Bool
  | .null => true
  | _ => false

/-- `EventRecord`, with the `source` and the `subject` of its envelope. -/
structure Record where
  signal : Signal
  ts : ℤ
  payload : List (String × Json)
  source : Option String
  subject : Option String

namespace Record

/-- `payload.get(key)`. -/
def get (r : Record) (key : String) : Json := Json.get r.payload key

/-- `str(payload[key])` when it counts as true. -/
def text? (r : Record) (key : String) : Option String :=
  if (r.get key).truthy then some (r.get key).text else none

def firstStr (r : Record) (keys : List String) : Option String := keys.findSome? r.text?

def envelopeSource (r : Record) : Option String := r.source.filter (· != "")

def envelopeSubject (r : Record) : Option String := r.subject.filter (· != "")

/-- The emitter that is noted for a record. -/
def emitter (r : Record) : String := r.signal.emitter.getD (r.envelopeSource.getD "unknown")

/-! ## Identity -/

def dispatchId (r : Record) : Option String :=
  (r.firstStr ["dispatch_id", "execution_id", "worker_id"]).orElse fun _ => r.envelopeSubject

/-- The shape of a `worker.queued` from stargate. -/
def fromStargate (r : Record) : Bool :=
  (r.get "origin_service").isStrIn ["stargate"] || (!isNull (r.get "request_id") && isNull (r.get "source_repo"))

def queuedDispatchId (r : Record) : Option String :=
  if r.fromStargate then r.firstStr ["dispatch_id", "execution_id", "request_id"] else r.dispatchId

/-- The keys of a payload that name its dispatch. -/
def idKeys (queued : Bool) : List String :=
  if queued then ["dispatch_id", "execution_id", "request_id", "worker_id"]
  else ["dispatch_id", "execution_id", "worker_id"]

/-- The ids under the keys, each once. -/
def idsUnder (r : Record) (keys : List String) : List String := (keys.filterMap r.text?).eraseDups

/-- `payload_alt_ids`: the preferred key and every id, the subject of the envelope last. -/
def payloadAltIds (r : Record) (queued : Bool) : Option String × List String :=
  let ids := r.idsUnder (idKeys queued)
  (if queued then r.queuedDispatchId else r.dispatchId,
    ids ++ (r.envelopeSubject.filter fun s => !ids.contains s).toList)

end Record

/-! ## Numbers -/

/-- The exceptions of the handlers. -/
inductive Raised where
  | overflowError
  | attributeError
  deriving DecidableEq

/-- `as_int`: only an infinite float raises. -/
def asInt (v : Json) : Except Raised (Option ℤ) :=
  match v with
  | .null => .ok none
  | .bool _ => .ok none
  | v =>
    match EventStore.intOf v with
    | .ok n => .ok (some n)
    | .error .overflowError => .error .overflowError
    | .error _ => .ok none

end LlmGateway.DispatchMonitor
