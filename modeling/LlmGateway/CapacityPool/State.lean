import LlmGateway.Foundations.Dict
import Mathlib

/-!
# The capacity pool

The state and the operations of `CapacityPool`
(`services/universal-stargate/systems/routing/capacity/_pool`): per-(gateway, model) slot counts, a
FIFO queue of waiters for each model, admission pauses, and the parts of the event loop the pool
relies on (the futures waiters block on, the suspended `acquire_token` calls, the scheduled
`_dispatch` tasks and the armed resume tasks).

Every function below is one await-free section of the source, or a part of one. What a section reads
from outside is an argument: a `Reading` is one clock reading, given as the delay since the previous
one, together with the permutation `random.shuffle` applies. `_try_immediate` reads the clock once
for each waiter it looks at, so a dispatch takes a sequence of readings and its pause checks need not
agree.

Log lines, telemetry events and the `paused_reason` texts are left out: no modelled function reads
them. A cancelled `_resume_after` task has no further effect on the pool, so `resumeTasks` holds the
armed ones only, each with the earliest time its sleep can end.
-/

namespace LlmGateway.CapacityPool

abbrev GatewayId := String
abbrev ModelId := String
abbrev RequestId := String

/-- Values of `time.monotonic()`, in seconds. -/
abbrev Time := ℚ

/-- The identity of one `acquire_token` call. Calls are numbered in the order they are made, and the
future a call waits on carries the number of the call. -/
abbrev CallId := ℕ

structure Slot where
  gatewayId : GatewayId
  modelId : ModelId
  deriving DecidableEq

/-- The states of the `asyncio.Future` of a waiter. -/
inductive Future
  | pending
  /-- `set_result(gateway_id)`. -/
  | result (gatewayId : GatewayId)
  /-- `set_exception(_WaiterCancelledError(reason))`. -/
  | exception (reason : String)
  | cancelled
  deriving DecidableEq

/-- `_Waiter`: a queued request, with the future it waits on. -/
structure Waiter where
  requestId : RequestId
  allowed : List GatewayId
  future : CallId
  deriving DecidableEq

/-- `CapacityToken`. A token is named by the call that returned it. -/
structure Token where
  gatewayId : GatewayId
  modelId : ModelId
  requestId : RequestId
  queued : Bool
  released : Bool
  deriving DecidableEq

/-- What an `acquire_token` call raises. -/
inductive AcquireError
  /-- `QueueFullError`. -/
  | queueFull (modelId : ModelId) (currentDepth maxDepth : ℕ)
  /-- `CapacityAcquireTimeoutError`. -/
  | timeout (modelId : ModelId) (timeout : Time)
  /-- `asyncio.CancelledError`, with its message when the pool sets one. -/
  | cancelled (message : Option String)
  deriving DecidableEq

/-- Where an `acquire_token` call stands. -/
inductive Phase
  /-- Suspended in `wait_for` until the future is done or the slice ends, and whether `cancel()` has
  been called on its task since. -/
  | waiting (sliceUntil : Time) (cancelRequested : Bool)
  | returned
  | raised (e : AcquireError)
  deriving DecidableEq

/-- One `acquire_token` call: its arguments, its deadline and where it stands. -/
structure Call where
  requestId : RequestId
  modelId : ModelId
  allowed : List GatewayId
  waitDeadline : Option Time
  waitStart : Time
  phase : Phase
  deriving DecidableEq

/-- Whether a call is suspended in `_wait_for_slot`. -/
def Call.isWaiting (call : Call) : Bool :=
  match call.phase with
  | .waiting _ _ => true
  | _ => false

/-- The pool and the event loop around it. -/
structure State where
  maxQueueDepth : ℕ
  now : Time
  capacity : Dict Slot ℤ
  inFlight : Dict Slot ℤ
  slotLastChange : Dict Slot Time
  queues : Dict ModelId (List Waiter)
  pausedUntil : Dict ModelId Time
  resumeTasks : Dict ModelId Time
  /-- The models of the `_dispatch` tasks that are scheduled and have not run. -/
  dispatchTasks : List ModelId
  futures : Dict CallId Future
  calls : Dict CallId Call
  tokens : Dict CallId Token
  nextCall : CallId

/-- The effect of `random.shuffle` on a ranking. -/
structure Shuffle where
  apply : List (GatewayId × ℤ) → List (GatewayId × ℤ)
  perm : ∀ l, (apply l).Perm l

/-- The shuffle that leaves the order alone. -/
def Shuffle.id : Shuffle := ⟨fun l => l, fun l => .refl l⟩

/-- What one `_try_immediate` reads from outside. -/
structure Reading where
  delay : Time
  delay_nonneg : 0 ≤ delay
  shuffle : Shuffle

/-- A reading at the time of the previous one. -/
def Reading.instant : Reading := ⟨0, le_rfl, .id⟩

/-- `_WAITING_EVENT_INTERVAL_S`. -/
def waitingEventInterval : Time := 15

/-- `_cold_slot_reset_quiet_s`. -/
def coldSlotResetQuiet : Time := 120

namespace State

/-- A fresh pool at time `now`. -/
def initial (maxQueueDepth : ℕ) (now : Time) : State where
  maxQueueDepth := maxQueueDepth
  now := now
  capacity := ∅
  inFlight := ∅
  slotLastChange := ∅
  queues := ∅
  pausedUntil := ∅
  resumeTasks := ∅
  dispatchTasks := []
  futures := ∅
  calls := ∅
  tokens := ∅
  nextCall := 0

/-- The clock moves on by `dt`. -/
def tick (s : State) (dt : Time) : State := { s with now := s.now + dt }

/-- The queue of a model. -/
def queue (s : State) (m : ModelId) : List Waiter := (s.queues.get? m).getD []

/-- The queues with the queue of a model replaced; an empty queue is not kept. -/
def putQueue (queues : Dict ModelId (List Waiter)) (m : ModelId) (q : List Waiter) :
    Dict ModelId (List Waiter) :=
  if q = [] then queues.erase m else queues.set m q

/-- `future.done()`. -/
def futureDone (s : State) (c : CallId) : Bool := s.futures.get? c ≠ some .pending

/-- `asyncio.create_task(self._dispatch(model_id))`. -/
def createDispatchTask (s : State) (m : ModelId) : State :=
  { s with dispatchTasks := s.dispatchTasks ++ [m] }

/-! ## Availability and pauses -/

/-- `get_slot_info`: available, in flight, capacity. -/
def getSlotInfo (s : State) (gw : GatewayId) (m : ModelId) : ℤ × ℤ × ℤ :=
  let capacity := s.capacity.getD ⟨gw, m⟩ 0
  let inFlight := s.inFlight.getD ⟨gw, m⟩ 0
  (max 0 (capacity - inFlight), inFlight, capacity)

def available (s : State) (gw : GatewayId) (m : ModelId) : ℤ := (s.getSlotInfo gw m).1

def slotQuietElapsed (s : State) (gw : GatewayId) (m : ModelId) (quiet : Option Time) : Bool :=
  match s.slotLastChange.get? ⟨gw, m⟩ with
  | none => false
  | some last => quiet.getD coldSlotResetQuiet ≤ s.now - last

def clearPause (s : State) (m : ModelId) : State :=
  { s with pausedUntil := s.pausedUntil.erase m, resumeTasks := s.resumeTasks.erase m }

/-- `is_paused`, which drops a pause whose deadline has passed. -/
def isPaused (s : State) (m : ModelId) : Bool × State :=
  match s.pausedUntil.get? m with
  | none => (false, s)
  | some deadline => if deadline ≤ s.now then (false, s.clearPause m) else (true, s)

/-- `pause_admission`: the seconds of pause in force, and the state. -/
def pauseAdmission (s : State) (m : ModelId) (duration : Time) : Time × State :=
  if duration ≤ 0 then (0, s)
  else
    let newDeadline := s.now + duration
    let existing := s.pausedUntil.getD m 0
    if newDeadline ≤ existing then (max 0 (existing - s.now), s)
    else (duration, { s with pausedUntil := s.pausedUntil.set m newDeadline
                             resumeTasks := s.resumeTasks.set m (s.now + duration) })

def resumeAdmission (s : State) (m : ModelId) : Bool × State :=
  if s.pausedUntil.contains m then (true, (s.clearPause m).createDispatchTask m) else (false, s)

/-! ## Admission -/

/-- The two writes that take a slot. -/
def reserve (s : State) (slot : Slot) : State :=
  { s with inFlight := s.inFlight.set slot (s.inFlight.getD slot 0 + 1)
           slotLastChange := s.slotLastChange.set slot s.now }

/-- The allowed gateways with free capacity, each with its availability. -/
def ranked (s : State) (m : ModelId) (allowed : List GatewayId) : List (GatewayId × ℤ) :=
  allowed.filterMap fun gw =>
    if 0 < s.available gw m then some (gw, s.available gw m) else none

def tryImmediate (s : State) (r : Reading) (m : ModelId) (allowed : List GatewayId) :
    Option GatewayId × State :=
  match (s.tick r.delay).isPaused m with
  | (true, s) => (none, s)
  | (false, s) =>
    match ((r.shuffle.apply (s.ranked m allowed)).insertionSort fun x y => y.2 ≤ x.2).head? with
    | none => (none, s)
    | some (gw, _) => (some gw, s.reserve ⟨gw, m⟩)

/-- The loop of `_dispatch`: the waiters it retains, and the state. -/
def dispatchLoop (m : ModelId) (ρ : ℕ → Reading) : List Waiter → State → List Waiter × State
  | [], s => ([], s)
  | w :: rest, s =>
    if s.futureDone w.future then dispatchLoop m ρ rest s
    else
      match s.tryImmediate (ρ 0) m w.allowed with
      | (none, s) =>
        let (unservable, s) := dispatchLoop m (fun i => ρ (i + 1)) rest s
        (w :: unservable, s)
      | (some gw, s) =>
        if s.futureDone w.future then
          -- the re-check after the reservation, and the `InvalidStateError` of `set_result`
          dispatchLoop m (fun i => ρ (i + 1)) rest
            { s with inFlight := s.inFlight.set ⟨gw, m⟩ (max 0 (s.inFlight.getD ⟨gw, m⟩ 0 - 1)) }
        else
          dispatchLoop m (fun i => ρ (i + 1)) rest
            { s with futures := s.futures.set w.future (.result gw) }

def dispatch (s : State) (ρ : ℕ → Reading) (m : ModelId) : State :=
  if s.queue m = [] then s
  else
    let (unservable, s) := dispatchLoop m ρ (s.queue m) s
    { s with queues := putQueue s.queues m unservable }

/-- Dispatches of several models, one after another in one section. -/
def dispatchAll : (ℕ → ℕ → Reading) → List ModelId → State → State
  | _, [], s => s
  | ρ, m :: ms, s => dispatchAll (fun i => ρ (i + 1)) ms (s.dispatch (ρ 0) m)

/-! ## Release -/

/-- The decrement of `_release`, with its guard. -/
def decrement (s : State) (slot : Slot) : State :=
  if s.inFlight.getD slot 0 ≤ 0 then s
  else { s with inFlight := s.inFlight.set slot (s.inFlight.getD slot 0 - 1)
                slotLastChange := s.slotLastChange.set slot s.now }

/-- The deferred removal of a drained slot in `_release`. -/
def cleanupDrained (s : State) (slot : Slot) : State :=
  if s.inFlight.getD slot 0 = 0 ∧ s.capacity.getD slot (-1) = 0 then
    { s with capacity := s.capacity.erase slot, inFlight := s.inFlight.erase slot }
  else s

/-- `_release`. -/
def poolRelease (s : State) (ρ : ℕ → Reading) (token : Token) : State :=
  let slot : Slot := ⟨token.gatewayId, token.modelId⟩
  ((s.decrement slot).cleanupDrained slot).dispatch ρ token.modelId

/-- `CapacityToken.release` of the token of call `c`. -/
def release (s : State) (ρ : ℕ → Reading) (c : CallId) (token : Token) : State :=
  if token.released then s
  else poolRelease { s with tokens := s.tokens.set c { token with released := true } } ρ token

/-! ## Cancellation -/

def recoverLeakedSlot (s : State) (slot : Slot) : State :=
  if s.inFlight.getD slot 0 ≤ 0 then s
  else { s with inFlight := s.inFlight.set slot (s.inFlight.getD slot 0 - 1) }.createDispatchTask
    slot.modelId

/-- The first queued waiter with the request id, with its model and queue. -/
def findWaiter (s : State) (rid : RequestId) : Option (ModelId × List Waiter × Waiter) :=
  s.queues.items.findSome? fun e =>
    (e.2.find? fun w => w.requestId = rid).map fun w => (e.1, e.2, w)

/-- `_remove_waiter`; `outcome` is the exception or the cancellation its future gets. -/
def removeWaiter (s : State) (rid : RequestId) (outcome : Future) : Bool × State :=
  match s.findWaiter rid with
  | none => (false, s)
  | some (m, q, w) =>
    (true, { s with
      futures := if s.futureDone w.future then s.futures else s.futures.set w.future outcome
      queues := putQueue s.queues m (q.eraseP fun w => w.requestId = rid) })

def cancelRequest (s : State) (rid : RequestId) (reason : String) : Bool × State :=
  s.removeWaiter rid (.exception reason)

/-! ## Waiting -/

/-- The call `c` moves to a phase. -/
def setPhase (s : State) (c : CallId) (call : Call) (phase : Phase) : State :=
  { s with calls := s.calls.set c { call with phase := phase } }

/-- `acquire_token` returns a token on `gw`. -/
def returnToken (s : State) (c : CallId) (call : Call) (gw : GatewayId) (queued : Bool) : State :=
  { s with tokens := s.tokens.set c ⟨gw, call.modelId, call.requestId, queued, false⟩ }.setPhase
    c call .returned

/-- The `except asyncio.CancelledError` clause of `_wait_for_slot`. -/
def onCancelled (s : State) (c : CallId) (call : Call) : State :=
  match s.futures.get? c with
  | some (.result gw) =>
    (s.recoverLeakedSlot ⟨gw, call.modelId⟩).setPhase c call (.raised (.cancelled none))
  | some (.exception _) => s.setPhase c call (.raised (.cancelled (some "explicit_cancel")))
  | _ => (s.removeWaiter call.requestId .cancelled).2.setPhase c call (.raised (.cancelled none))

/-- The end of a wait slice: `min(15, max(0, deadline - now))` from now, without a deadline 15. -/
def sliceUntil (s : State) (call : Call) : Time :=
  s.now + call.waitDeadline.elim waitingEventInterval
    fun d => min waitingEventInterval (max 0 (d - s.now))

/-- One turn of the loop of `_wait_for_slot`, from its head to the next suspension or exit. -/
def waitLoop (s : State) (c : CallId) (call : Call) : State :=
  match s.futures.get? c with
  | some (.result gw) => s.returnToken c call gw true
  | some (.exception _) => s.onCancelled c call
  | fut =>
    if call.waitDeadline.any (· ≤ s.now) then
      (s.removeWaiter call.requestId .cancelled).2.setPhase c call
        (.raised (.timeout call.modelId
          (max 0 (call.waitDeadline.getD 0 - call.waitStart))))
    else if fut = some .cancelled then s.onCancelled c call
    else s.setPhase c call (.waiting (s.sliceUntil call) false)

/-- A fresh future for a waiter, and the waiter at the end of the queue of its model. -/
def enqueue (s : State) (m : ModelId) (w : Waiter) : State :=
  { s with futures := s.futures.set w.future .pending
           queues := s.queues.set m (s.queue m ++ [w]) }

/-- `acquire_token`, up to its first suspension or its end. -/
def acquireToken (s : State) (rid : RequestId) (m : ModelId) (allowed : List GatewayId)
    (timeout : Option Time) (r : Reading) : State :=
  let c := s.nextCall
  let deadline := timeout.map fun t => if t ≤ 0 then s.now else s.now + t
  match { s with nextCall := c + 1 }.tryImmediate r m allowed with
  | (some gw, s) => s.returnToken c ⟨rid, m, allowed, deadline, s.now, .returned⟩ gw false
  | (none, s) =>
    let call : Call := ⟨rid, m, allowed, deadline, s.now, .returned⟩
    let depth := (s.queue m).length
    if 0 < s.maxQueueDepth ∧ s.maxQueueDepth ≤ depth then
      s.setPhase c call (.raised (.queueFull m depth s.maxQueueDepth))
    else ((s.setPhase c call (.waiting s.now false)).enqueue m ⟨rid, allowed, c⟩).waitLoop c call

/-! ## Bookkeeping -/

def setCapacity (s : State) (gw : GatewayId) (m : ModelId) (maxConcurrent : ℤ) : State :=
  let slot : Slot := ⟨gw, m⟩
  let maxConcurrent := max 0 maxConcurrent
  let old := s.capacity.getD slot 0
  let s := { s with capacity := s.capacity.set slot maxConcurrent
                    inFlight := s.inFlight.setDefault slot 0 }
  if old < maxConcurrent ∧ s.queues.contains m = true then s.createDispatchTask m else s

/-- What `remove_gateway` and `remove_model` do with one slot: zero its capacity while requests are
in flight, delete it otherwise. -/
def removeSlot (s : State) (slot : Slot) : State :=
  if 0 < s.inFlight.getD slot 0 then { s with capacity := s.capacity.set slot 0 }
  else { s with capacity := s.capacity.erase slot, inFlight := s.inFlight.erase slot }

def removeGateway (s : State) (gw : GatewayId) : State :=
  ((s.capacity.items.map Prod.fst).filter fun slot => slot.gatewayId = gw).foldl removeSlot s

def removeModel (s : State) (gw : GatewayId) (m : ModelId) : State :=
  if s.capacity.contains ⟨gw, m⟩ then s.removeSlot ⟨gw, m⟩ else s

/-- `reset_cold_slot`, inside a running loop. -/
def resetColdSlot (s : State) (gw : GatewayId) (m : ModelId) (placeholder : ℤ) : State :=
  { s with inFlight := s.inFlight.set ⟨gw, m⟩ 0
           capacity := s.capacity.set ⟨gw, m⟩ placeholder
           slotLastChange := s.slotLastChange.set ⟨gw, m⟩ s.now }.createDispatchTask m

/-- The first loop of `reconcile_gateway_state`: the recovered models, and the state. -/
def reconcileLoop (gw : GatewayId) : List ModelId → State → List ModelId × State
  | [], s => ([], s)
  | m :: ms, s =>
    if 0 < s.inFlight.getD ⟨gw, m⟩ 0 then
      let (recovered, s) := reconcileLoop gw ms { s with inFlight := s.inFlight.set ⟨gw, m⟩ 0 }
      (m :: recovered, s)
    else reconcileLoop gw ms s

def reconcileGatewayState (s : State) (ρ : ℕ → ℕ → Reading) (gw : GatewayId)
    (idleModelIds : List ModelId) : State :=
  match reconcileLoop gw idleModelIds s with
  | (recovered, s) => dispatchAll ρ recovered s

/-- The part of `_resume_after` behind its sleep. Its task is done afterwards: the `cancel()` it
gives itself in `_clear_pause` comes too late to stop the dispatch, which never suspends. -/
def resumeAfter (s : State) (ρ : ℕ → Reading) (m : ModelId) : State :=
  match s.pausedUntil.get? m with
  | none => { s with resumeTasks := s.resumeTasks.erase m }
  | some deadline =>
    if s.now < deadline then { s with resumeTasks := s.resumeTasks.erase m }
    else (s.clearPause m).dispatch ρ m

end State

/-! ## Steps -/

/-- The await-free sections that can run next. -/
inductive Action
  /-- An `acquire_token` call starts. -/
  | acquireToken (rid : RequestId) (m : ModelId) (allowed : List GatewayId) (timeout : Option Time)
      (r : Reading)
  /-- `cancel()` is called on the task of a suspended call. -/
  | cancelTask (c : CallId)
  /-- A suspended call resumes because its future is done. -/
  | wake (c : CallId)
  /-- A suspended call resumes because its slice of `wait_for` has ended. -/
  | sliceTimeout (c : CallId)
  /-- A suspended call resumes with `CancelledError`. -/
  | deliverCancel (c : CallId)
  | release (c : CallId) (ρ : ℕ → Reading)
  /-- A scheduled `_dispatch` task runs. -/
  | runDispatch (m : ModelId) (ρ : ℕ → Reading)
  /-- The `GATEWAY_RESOURCE_UPDATE` handler: `_dispatch` for every queue. -/
  | resourceUpdate (ρ : ℕ → ℕ → Reading)
  | setCapacity (gw : GatewayId) (m : ModelId) (maxConcurrent : ℤ)
  | removeGateway (gw : GatewayId)
  | removeModel (gw : GatewayId) (m : ModelId)
  | pauseAdmission (m : ModelId) (duration : Time)
  | resumeAdmission (m : ModelId)
  /-- The sleep of a resume task ends. -/
  | resumeAfter (m : ModelId) (ρ : ℕ → Reading)
  /-- Somebody asks `is_paused`. -/
  | isPaused (m : ModelId)
  | cancelRequest (rid : RequestId) (reason : String)
  | reconcile (gw : GatewayId) (idleModelIds : List ModelId) (ρ : ℕ → ℕ → Reading)
  | resetColdSlot (gw : GatewayId) (m : ModelId) (placeholder : ℤ)
  /-- Time passes. -/
  | tick (dt : Time)

namespace State

/-- A section of the suspended call `c` runs: `next` is given the call, the end of its slice and
whether its cancellation has been requested. -/
def resume (s : State) (c : CallId) (next : Call → Time → Bool → Option State) : Option State :=
  match s.calls.get? c with
  | none => none
  | some call =>
    match call.phase with
    | .waiting sliceUntil cancelRequested => next call sliceUntil cancelRequested
    | _ => none

/-- One step; `none` when the section cannot run in this state. -/
def step (s : State) : Action → Option State
  | .acquireToken rid m allowed timeout r => some (s.acquireToken rid m allowed timeout r)
  | .cancelTask c => s.resume c fun call sliceUntil _ =>
    some (s.setPhase c call (.waiting sliceUntil true))
  | .wake c => s.resume c fun call _ cancelRequested =>
    if s.futureDone c = true ∧ cancelRequested = false then
      some (match s.futures.get? c with
        | some (.result gw) => s.returnToken c call gw true
        | _ => s.onCancelled c call)
    else none
  | .sliceTimeout c => s.resume c fun call sliceUntil cancelRequested =>
    if sliceUntil ≤ s.now ∧ cancelRequested = false then some (s.waitLoop c call) else none
  | .deliverCancel c => s.resume c fun call _ cancelRequested =>
    if cancelRequested then some (s.onCancelled c call) else none
  | .release c ρ => (s.tokens.get? c).map fun token => s.release ρ c token
  | .runDispatch m ρ =>
    if m ∈ s.dispatchTasks then
      some ({ s with dispatchTasks := s.dispatchTasks.erase m }.dispatch ρ m)
    else none
  | .resourceUpdate ρ => some (dispatchAll ρ (s.queues.items.map Prod.fst) s)
  | .setCapacity gw m maxConcurrent => some (s.setCapacity gw m maxConcurrent)
  | .removeGateway gw => some (s.removeGateway gw)
  | .removeModel gw m => some (s.removeModel gw m)
  | .pauseAdmission m duration => some (s.pauseAdmission m duration).2
  | .resumeAdmission m => some (s.resumeAdmission m).2
  | .resumeAfter m ρ =>
    if (s.resumeTasks.get? m).any (· ≤ s.now) then some (s.resumeAfter ρ m) else none
  | .isPaused m => some (s.isPaused m).2
  | .cancelRequest rid reason => some (s.cancelRequest rid reason).2
  | .reconcile gw idleModelIds ρ => some (s.reconcileGatewayState ρ gw idleModelIds)
  | .resetColdSlot gw m placeholder => some (s.resetColdSlot gw m placeholder)
  | .tick dt => if 0 ≤ dt then some (s.tick dt) else none

end State

end LlmGateway.CapacityPool
