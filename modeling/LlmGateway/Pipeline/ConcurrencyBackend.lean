import LlmGateway.FifoGate.Order

/-!
# The concurrency gate of the pipelines

`InProcessConcurrencyBackend` and `maybe_concurrency_gate`
(`services/universal-stargate/systems/pipeline/core/execution`): one `FifoCapacityGate` with one slot
for each resolved concurrency key, created when an execution asks for a key without a gate and deleted
from the store when a release leaves it idle.

The store keeps references: an execution that waits holds on to its gate object whether or not the
store still has it. So `gates` is the heap of all gate objects and `store` the dictionary `_gates`.
No body under `_store_lock` awaits anything and the gates' locks are free as well, so entering up to
the wait for the slot is one step, and so is leaving. An execution without a concurrency key does not
come to the backend.
-/

namespace LlmGateway.Pipeline

open FifoGate (CallId GateError)

abbrev Key := String
abbrev ExecutionId := String

/-- The identity of a gate object. -/
abbrev GateId := ℕ

/-- The identity of one `async with maybe_concurrency_gate(...)`. One execution id can enter more than
once. -/
abbrev EntryId := ℕ

/-- A gate object; the key is the one in its `gate_id`. -/
structure Gate where
  key : Key
  state : FifoGate.State

/-- What `release` raises. -/
inductive BackendError
  /-- `RuntimeError`: no gate exists for the key. -/
  | noGate
  | gate (e : GateError)
  deriving DecidableEq

/-- Where an execution stands. -/
inductive EntryPhase
  /-- Suspended in `gate.acquire`. -/
  | entering
  /-- Between acquire and release. -/
  | inside
  /-- Behind the release, with what it raised. -/
  | left (e : Option BackendError)
  /-- `acquire` has raised; a timeout goes on as `ConcurrencyLockTimeoutError`. -/
  | failed
  deriving DecidableEq

/-- One execution in `maybe_concurrency_gate`: its id and key, and its `acquire` call. -/
structure Entry where
  executionId : ExecutionId
  key : Key
  gate : GateId
  call : CallId
  phase : EntryPhase
  deriving DecidableEq

/-- The backend and the executions that use it. -/
structure State where
  gates : Dict GateId Gate
  /-- `_gates`. -/
  store : Dict Key GateId
  entries : Dict EntryId Entry
  nextGate : GateId
  nextEntry : EntryId

namespace State

/-- A fresh backend. -/
def initial : State := ⟨∅, ∅, ∅, 0, 0⟩

/-- A `FifoCapacityGate(limit=1)`. -/
def newGate : FifoGate.State := ⟨.static 1, 0, ∅, [], 0, 0, 0, 0, ∅, ∅, 0⟩

def getOrCreateGate (s : State) (key : Key) : GateId × State :=
  match s.store.get? key with
  | some g => (g, s)
  | none =>
    (s.nextGate, { s with gates := s.gates.set s.nextGate ⟨key, newGate⟩
                          store := s.store.set key s.nextGate
                          nextGate := s.nextGate + 1 })

/-- A gate object changes. -/
def setGate (s : State) (g : GateId) (gate : Gate) (state : FifoGate.State) : State :=
  { s with gates := s.gates.set g { gate with state := state } }

/-- The phase of an execution from that of its `acquire` call. -/
def entryPhase : FifoGate.Phase → EntryPhase
  | .waiting _ _ _ => .entering
  | .cleaning _ _ => .entering
  | .unwinding => .entering
  | .returned => .inside
  | .raised _ => .failed

/-- The execution `x` stands where its `acquire` call does. -/
def follow (s : State) (x : EntryId) (entry : Entry) (state : FifoGate.State) : State :=
  match state.calls.get? entry.call with
  | none => s
  | some call => { s with entries := s.entries.set x { entry with phase := entryPhase call.phase } }

/-- `backend.acquire` in `maybe_concurrency_gate`, up to its suspension or its end. -/
def enter (s : State) (executionId : ExecutionId) (key : Key) : Option State :=
  let (g, s) := s.getOrCreateGate key
  (s.gates.get? g).map fun gate =>
    let state := gate.state.acquire executionId true false 0 0
    let entry : Entry := ⟨executionId, key, g, gate.state.nextCall, .entering⟩
    ({ s with nextEntry := s.nextEntry + 1 }.setGate g gate state).follow s.nextEntry entry state

def maybeEvict (s : State) (key : Key) : State :=
  match s.store.get? key with
  | none => s
  | some g =>
    match s.gates.get? g with
    | none => s
    | some gate =>
      if gate.state.activeCount = 0 ∧ gate.state.waiters.length = 0 then
        { s with store := s.store.erase key }
      else s

/-- The execution `x` is behind its `finally` clause. -/
def setLeft (s : State) (x : EntryId) (entry : Entry) (e : Option BackendError) : State :=
  { s with entries := s.entries.set x { entry with phase := .left e } }

/-- `backend.release` in the `finally` clause of `maybe_concurrency_gate`. The release does not name
the execution. -/
def leave (s : State) (x : EntryId) (entry : Entry) : State :=
  match s.store.get? entry.key with
  | none => s.setLeft x entry (some .noGate)
  | some g =>
    match s.gates.get? g with
    | none => s.setLeft x entry (some .noGate)
    | some gate =>
      match gate.state.release none with
      | .error e => s.setLeft x entry (some (.gate e))
      | .ok state => ((s.setGate g gate state).maybeEvict entry.key).setLeft x entry none

/-- Something happens to the `acquire` call of the execution `x`. -/
def gateStep (s : State) (x : EntryId) (entry : Entry) (a : FifoGate.Action) : Option State :=
  (s.gates.get? entry.gate).bind fun gate =>
    (gate.state.step a).map fun state => (s.setGate entry.gate gate state).follow x entry state

end State

/-- The await-free sections that can run next. -/
inductive Action
  | enter (executionId : ExecutionId) (key : Key)
  /-- The body of the `async with` ends: it returns, raises or is cancelled. -/
  | leave (x : EntryId)
  /-- `cancel()` is called on the task of an execution that waits. -/
  | cancelTask (x : EntryId)
  /-- The timeout of an execution that waits runs out. -/
  | fireTimer (x : EntryId)
  /-- An execution that waits runs on. -/
  | resume (x : EntryId) (futureFirst : Bool)
  deriving DecidableEq

namespace State

/-- A step of the execution `x`, when it is in the phase. -/
def inPhase (s : State) (x : EntryId) (phase : EntryPhase) (next : Entry → Option State) :
    Option State :=
  (s.entries.get? x).bind fun entry => if entry.phase = phase then next entry else none

/-- One step; `none` when the section cannot run in this state. -/
def step (s : State) : Action → Option State
  | .enter executionId key => s.enter executionId key
  | .leave x => s.inPhase x .inside fun entry => some (s.leave x entry)
  | .cancelTask x => s.inPhase x .entering fun entry => s.gateStep x entry (.cancelTask entry.call)
  | .fireTimer x => s.inPhase x .entering fun entry => s.gateStep x entry (.fireTimer entry.call)
  | .resume x futureFirst =>
    s.inPhase x .entering fun entry => s.gateStep x entry (.resume entry.call futureFirst)

/-- The number of executions between acquire and release for a key. -/
def insideCount (s : State) (key : Key) : ℕ :=
  s.entries.count fun _ entry => decide (entry.key = key ∧ entry.phase = .inside)

end State

/-- The backend with all its executions. -/
def backend : System State Action := .ofFn (fun s => s = .initial) State.step

end LlmGateway.Pipeline
