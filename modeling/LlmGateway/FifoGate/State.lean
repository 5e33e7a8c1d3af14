import LlmGateway.Foundations.Dict
import LlmGateway.Foundations.System
import Mathlib

/-!
# The FIFO capacity gate

The state and the operations of `FifoCapacityGate`
(`libs/universal_concurrency/fifo_capacity_gate.py`) and the parts of the event loop around it: the
futures waiters block on and the suspended `acquire` calls.

No body under `self._lock` awaits anything, so the lock is never contended and every operation runs
from its start to its end, or to the `asyncio.wait` of `_wait_for_slot`, in one step. What follows an
`asyncio.wait` is spread over the phases of a call: the clean-up of the pending awaitables suspends
once more when there is a `cancel_task` to cancel, and so does the `finally` clause behind a
`CancelledError`. Both swallow a further cancellation of the call.

A callable limit is evaluated by the step that reads it, so the steps carry the values it returns.
The clock is not modelled: the timer of a call with a timeout can run out at any time. Log lines,
`on_wait` and the texts of the errors are left out.
-/

namespace LlmGateway.FifoGate

abbrev RequestId := String

/-- The identity of one `acquire` call. Calls are numbered in the order they are made, and the future
a call waits on carries the number of the call. -/
abbrev CallId := ℕ

inductive LimitSource
  | static (limit : ℤ)
  | callable
  deriving DecidableEq

/-- The states of the `asyncio.Future` of a waiter. -/
inductive Future
  | pending
  /-- `set_result(None)`: a releaser has handed over its slot. -/
  | result
  /-- `set_exception(CancelledError)` by `cancel`. -/
  | exception
  | cancelled
  deriving DecidableEq

/-- `_GateWaiter`. -/
structure Waiter where
  requestId : RequestId
  future : CallId
  deriving DecidableEq

/-- What the operations other than `acquire` raise. -/
inductive GateError
  /-- `CapacityLimitError`, with the refused limit when there is one. -/
  | capacityLimit (limit : Option ℤ)
  | overRelease
  | transferHolder (fromId : RequestId)
  deriving DecidableEq

/-- What an `acquire` call raises. -/
inductive AcquireError
  | timeout
  | cancelled
  | capacityLimit (limit : ℤ)
  deriving DecidableEq

/-- Where an `acquire` call stands. -/
inductive Phase
  /-- Suspended in `asyncio.wait`: whether its timer has run out, its `cancel_task` is done, and
  `cancel()` has been called on its task. -/
  | waiting (timerFired eventDone cancelRequested : Bool)
  /-- Suspended on the cancelled `cancel_task` in the loop over `pending`: whether the future was in
  `done`, and whether the loop has still to cancel the future. -/
  | cleaning (futureIn futureLeft : Bool)
  /-- Suspended on the cancelled `cancel_task` in the `finally` clause, with a `CancelledError` on its
  way. -/
  | unwinding
  | returned
  | raised (e : AcquireError)
  deriving DecidableEq

/-- One `acquire` call: its arguments and where it stands. -/
structure Call where
  requestId : RequestId
  hasTimeout : Bool
  hasEvent : Bool
  phase : Phase
  deriving DecidableEq

/-- The gate and the event loop around it. -/
structure State where
  limitSource : LimitSource
  activeCount : ℕ
  holders : Finset RequestId
  waiters : List Waiter
  totalAcquired : ℕ
  totalReleased : ℕ
  totalTimeouts : ℕ
  totalCancellations : ℕ
  futures : Dict CallId Future
  calls : Dict CallId Call
  nextCall : CallId

namespace State

/-- `FifoCapacityGate(limit)`. -/
def new (limit : LimitSource) : Except GateError State :=
  let gate : State := ⟨limit, 0, ∅, [], 0, 0, 0, 0, ∅, ∅, 0⟩
  match limit with
  | .static n => if n < 1 then .error (.capacityLimit (some n)) else .ok gate
  | .callable => .ok gate

/-- `current_limit`; `reading` is what a callable limit returns. -/
def currentLimit (s : State) (reading : ℤ) : Except GateError ℤ :=
  match s.limitSource with
  | .static limit => .ok limit
  | .callable => if reading < 1 then .error (.capacityLimit (some reading)) else .ok reading

/-- The future of call `c` has been created and is not done. -/
def isPending (s : State) (c : CallId) : Bool := s.futures.get? c = some .pending

/-- The call `c` moves to a phase. -/
def setPhase (s : State) (c : CallId) (call : Call) (phase : Phase) : State :=
  { s with calls := s.calls.set c { call with phase := phase } }

/-! ## Acquiring -/

/-- The writes that take a free slot. -/
def take (s : State) (id : RequestId) : State :=
  { s with activeCount := s.activeCount + 1
           holders := insert id s.holders
           totalAcquired := s.totalAcquired + 1 }

def tryAcquire (s : State) (id : RequestId) (reading : ℤ) : Bool × State :=
  if id ∈ s.holders then (true, s)
  else
    match s.currentLimit reading with
    | .error _ => (false, s)
    | .ok limit => if (s.activeCount : ℤ) < limit then (true, s.take id) else (false, s)

/-- A fresh waiter at the end of the queue. -/
def enqueue (s : State) (w : Waiter) : State :=
  { s with waiters := s.waiters ++ [w], futures := s.futures.set w.future .pending }

/-- `acquire`, up to its suspension or its end. The limit is read by `try_acquire` and again behind
it. -/
def acquire (s : State) (id : RequestId) (hasTimeout hasEvent : Bool) (reading reading' : ℤ) :
    State :=
  let c := s.nextCall
  let call : Call := ⟨id, hasTimeout, hasEvent, .returned⟩
  match { s with nextCall := c + 1 }.tryAcquire id reading with
  | (true, s) => s.setPhase c call .returned
  | (false, s) =>
    match s.currentLimit reading' with
    | .error _ => s.setPhase c call (.raised (.capacityLimit reading'))
    | .ok limit =>
      if (s.activeCount : ℤ) < limit then (s.take id).setPhase c call .returned
      else (s.enqueue ⟨id, c⟩).setPhase c call (.waiting false false false)

/-! ## Giving slots back -/

/-- The loop over the queue in `release` and `force_release`: the oldest waiter whose future is not
done, and the queue behind it. -/
def popLive (s : State) : List Waiter → Option (Waiter × List Waiter)
  | [] => none
  | w :: ws => if s.isPending w.future then some (w, ws) else s.popLive ws

/-- The slot goes to the waiter `w`; `ws` is the queue behind it. -/
def handOff (s : State) (w : Waiter) (ws : List Waiter) : State :=
  { s with waiters := ws
           futures := s.futures.set w.future .result
           holders := insert w.requestId s.holders
           totalAcquired := s.totalAcquired + 1 }

/-- What `release` and `force_release` do with a slot once its holder is gone. -/
def dispose (s : State) : State :=
  let s := { s with totalReleased := s.totalReleased + 1 }
  match s.popLive s.waiters with
  | some (w, ws) => s.handOff w ws
  | none => { s with waiters := [], activeCount := s.activeCount - 1 }

/-- The holder is discarded. -/
def discard (s : State) (id : RequestId) : State := { s with holders := s.holders.erase id }

def release (s : State) : Option RequestId → Except GateError State
  | some id =>
    if id ∉ s.holders then .ok s
    else if s.activeCount = 0 then .error .overRelease
    else .ok (s.discard id).dispose
  | none => if s.activeCount = 0 then .error .overRelease else .ok s.dispose

/-- `force_release`. Without a live waiter it decrements a positive `active_count` only. -/
def forceRelease (s : State) (id : RequestId) : Bool × State :=
  if id ∉ s.holders then (false, s) else (true, (s.discard id).dispose)

def transferHolder (s : State) (fromId toId : RequestId) : Except GateError State :=
  if fromId ∉ s.holders then .error (.transferHolder fromId)
  else if fromId = toId then .ok s
  else .ok { s with holders := insert toId (s.holders.erase fromId) }

def setLimit (s : State) (newLimit : ℤ) : Except GateError State :=
  match s.limitSource with
  | .callable => .error (.capacityLimit none)
  | .static _ =>
    if newLimit < 1 then .error (.capacityLimit (some newLimit))
    else .ok { s with limitSource := .static newLimit }

def cancel (s : State) (id : RequestId) : Bool × State :=
  match s.waiters.find? fun w => w.requestId = id with
  | none => (false, s)
  | some w =>
    (true, { s with
      waiters := s.waiters.eraseP fun w => w.requestId = id
      futures := if s.isPending w.future then s.futures.set w.future .exception else s.futures
      totalCancellations := s.totalCancellations + 1 })

/-! ## Waiting -/

/-- The `except` clause of `acquire`: `_remove_waiter`, the statistics, and the exception goes on. -/
def raise (s : State) (c : CallId) (call : Call) (e : AcquireError) : State :=
  { s with
    waiters := s.waiters.eraseP fun w => w.future = c
    totalTimeouts := if e = AcquireError.timeout then s.totalTimeouts + 1 else s.totalTimeouts
    totalCancellations :=
      if e = AcquireError.timeout then s.totalCancellations else s.totalCancellations + 1 }.setPhase
    c call (.raised e)

/-- `task.cancel()` on the future of call `c`. -/
def cancelFuture (s : State) (c : CallId) : State :=
  if s.isPending c then { s with futures := s.futures.set c .cancelled } else s

/-- `_wait_for_slot` behind its clean-up: `futureIn` and `eventIn` say whether the future and
`cancel_task` are in `done`. -/
def conclude (s : State) (c : CallId) (call : Call) (futureIn eventIn : Bool) : State :=
  if !futureIn && !eventIn then s.raise c call .timeout
  else if eventIn then s.raise c call .cancelled
  else if s.futures.get? c = some .result then s.setPhase c call .returned
  else s.raise c call .cancelled

/-- `asyncio.wait` returns. A `cancel_task` in `pending` is cancelled and awaited; `futureFirst` says
whether the set yields a pending future before it. -/
def waitReturns (s : State) (c : CallId) (call : Call) (eventDone futureFirst : Bool) : State :=
  let futureIn := !s.isPending c
  if call.hasEvent && !eventDone then
    if futureIn then s.setPhase c call (.cleaning true false)
    else if futureFirst then (s.cancelFuture c).setPhase c call (.cleaning false false)
    else s.setPhase c call (.cleaning false true)
  else (s.cancelFuture c).conclude c call futureIn eventDone

/-- The awaited `cancel_task` of the clean-up is done. -/
def cleaned (s : State) (c : CallId) (call : Call) (futureIn futureLeft : Bool) : State :=
  (if futureLeft then s.cancelFuture c else s).conclude c call futureIn false

/-- `CancelledError` comes out of `asyncio.wait`. -/
def waitCancelled (s : State) (c : CallId) (call : Call) (eventDone : Bool) : State :=
  if call.hasEvent && !eventDone then s.setPhase c call .unwinding else s.raise c call .cancelled

/-- The suspended call `c` runs on; `none` when nothing has woken it. -/
def resume (s : State) (c : CallId) (call : Call) (futureFirst : Bool) : Option State :=
  match call.phase with
  | .waiting timerFired eventDone cancelRequested =>
    if cancelRequested then some (s.waitCancelled c call eventDone)
    else if !s.isPending c || timerFired || eventDone then
      some (s.waitReturns c call eventDone futureFirst)
    else none
  | .cleaning futureIn futureLeft => some (s.cleaned c call futureIn futureLeft)
  | .unwinding => some (s.raise c call .cancelled)
  | .returned => none
  | .raised _ => none

end State

/-! ## Steps -/

/-- The await-free sections that can run next. -/
inductive Action
  | tryAcquire (id : RequestId) (reading : ℤ)
  /-- An `acquire` call starts. -/
  | acquire (id : RequestId) (hasTimeout hasEvent : Bool) (reading reading' : ℤ)
  | release (id : Option RequestId)
  | transferHolder (fromId toId : RequestId)
  | forceRelease (id : RequestId)
  | setLimit (newLimit : ℤ)
  | cancel (id : RequestId)
  /-- `cancel()` is called on the task of a suspended call. -/
  | cancelTask (c : CallId)
  /-- The timer of a suspended call runs out. -/
  | fireTimer (c : CallId)
  /-- The cancellation event of a suspended call is set and its `cancel_task` ends. -/
  | eventTask (c : CallId)
  /-- A suspended call runs on. -/
  | resume (c : CallId) (futureFirst : Bool)
  deriving DecidableEq

namespace State

/-- A failed operation leaves the gate as it was. -/
def orElse (s : State) : Except GateError State → State
  | .error _ => s
  | .ok t => t

/-- Something happens to the call `c` while it is suspended in `asyncio.wait`. -/
def signal (s : State) (c : CallId) (next : Call → Bool → Bool → Bool → Option Phase) :
    Option State :=
  match s.calls.get? c with
  | none => none
  | some call =>
    match call.phase with
    | .waiting timerFired eventDone cancelRequested =>
      (next call timerFired eventDone cancelRequested).map (s.setPhase c call)
    | .cleaning _ _ => none
    | .unwinding => none
    | .returned => none
    | .raised _ => none

/-- One step; `none` when the section cannot run in this state. The clean-ups swallow a
cancellation, which leaves no trace there. -/
def step (s : State) : Action → Option State
  | .tryAcquire id reading => some (s.tryAcquire id reading).2
  | .acquire id hasTimeout hasEvent reading reading' =>
    some (s.acquire id hasTimeout hasEvent reading reading')
  | .release id => some (s.orElse (s.release id))
  | .transferHolder fromId toId => some (s.orElse (s.transferHolder fromId toId))
  | .forceRelease id => some (s.forceRelease id).2
  | .setLimit newLimit => some (s.orElse (s.setLimit newLimit))
  | .cancel id => some (s.cancel id).2
  | .cancelTask c => s.signal c fun _ timerFired eventDone _ =>
    some (.waiting timerFired eventDone true)
  | .fireTimer c => s.signal c fun call _ eventDone cancelRequested =>
    if call.hasTimeout then some (.waiting true eventDone cancelRequested) else none
  | .eventTask c => s.signal c fun call timerFired _ cancelRequested =>
    if call.hasEvent then some (.waiting timerFired true cancelRequested) else none
  | .resume c futureFirst => (s.calls.get? c).bind fun call => s.resume c call futureFirst

end State

/-- The gate with all its callers. -/
def gate : System State Action :=
  .ofFn (fun s => ∃ limit, State.new limit = .ok s) State.step

end LlmGateway.FifoGate
