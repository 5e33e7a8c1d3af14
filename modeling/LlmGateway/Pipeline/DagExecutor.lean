import LlmGateway.Foundations.Dict
import LlmGateway.Foundations.System
import Mathlib.Logic.Function.Basic
import Mathlib.Logic.Relation

/-!
# The DAG executor

`execute_dag` runs the steps of a pipeline: a pass over the steps that are ready evaluates their conditions and
launches them as tasks, and then the executor waits until some task is done. Between two `await`s that suspend
nothing else runs, so a task ends (`DagExecutor.finish`) only where the executor is suspended
(`Control.suspended`): while it looks up the target model of a step for the first time, while it waits for tasks,
and outside of `execute_dag`.

`Execution.step` is one step of the whole: of `execute_dag`, of `cancel` behind it or of a task. What comes from
outside is in the event: conditions, lookups that raise, the order of the tasks that are done, the clock, the
outcome of a handler, and the interruptions by a timeout or a client that is gone.
-/

namespace LlmGateway.Pipeline

/-! ## Steps -/

inductive StepState where
  | pending
  | ready
  | running
  | completed
  | skipped
  | failed
  deriving DecidableEq

/-- The states that satisfy a dependency. -/
def StepState.done : StepState → Bool
  | completed | skipped => true
  | _ => false

/-- The states in which a step is at its end. -/
def StepState.terminal : StepState → Bool
  | completed | skipped | failed => true
  | _ => false

/-- What the executor reads of a step. -/
structure StepSpec where
  dependencies : List String
  /-- `_sub_pipeline_step`: the step takes no model lock. -/
  subPipelineStep : Bool
  /-- What the lookup for the scheduler gives, once for each step. -/
  targetModel : Option String

/-- The dependencies of a step. -/
def dependenciesOf (steps : Dict String StepSpec) (id : String) : List String :=
  ((steps.get? id).map StepSpec.dependencies).getD []

/-- The nodes that `DAGBuilder.build` accepts: every dependency is a step, and there is no cycle. -/
structure Dag where
  steps : Dict String StepSpec
  known : ∀ id, ∀ dep ∈ dependenciesOf steps id, steps.contains dep = true
  acyclic : ∀ id, ¬ Relation.TransGen (fun x dep => dep ∈ dependenciesOf steps x) id id

variable (D : Dag)

def Dag.dependencies (id : String) : List String := dependenciesOf D.steps id

def Dag.ids : List String := D.steps.items.map Prod.fst

/-- `resolve_target_model`, without its exceptions. -/
def Dag.targetModel (id : String) : Option String := (D.steps.get? id).bind StepSpec.targetModel

/-- `get_lock_model`. -/
def Dag.lockModel (id : String) : Option String :=
  if ((D.steps.get? id).map StepSpec.subPipelineStep).getD false then none else D.targetModel id

/-! ## The executor -/

/-- How a task ended. -/
inductive TaskResult where
  | ok
  | error
  | cancelled
  deriving DecidableEq

/-- The task of a step. -/
structure StepTask where
  cancelRequested : Bool
  result : Option TaskResult
  deriving DecidableEq

/-- `DAGExecutor`, with its `StepModelCoordinator` and what the gateway tracker holds for it. -/
structure DagExecutor where
  /-- The states of the nodes. -/
  state : String → StepState
  /-- `stop_step_id`, when `stop` is set. -/
  stop : Option String
  /-- The tasks that were created. -/
  tasks : String → Option StepTask
  pendingTasks : List String
  /-- `ModelUsageTracker._active`: the step that holds each model. -/
  activeModels : Dict String String
  /-- The requests of the gateway tracker, by step. -/
  trackedRequests : Dict String String
  /-- The steps whose lookup is cached. -/
  resolved : List String
  /-- The steps that entered `RUNNING`, in order. -/
  started : List String

/-- The result of a step's task, when it has ended. -/
def DagExecutor.result (x : DagExecutor) (id : String) : Option TaskResult := (x.tasks id).bind StepTask.result

def DagExecutor.allDone (x : DagExecutor) : Bool := D.ids.all fun id => (x.state id).terminal

/-- `node.state = …`. -/
def DagExecutor.setState (x : DagExecutor) (id : String) (state : StepState) : DagExecutor :=
  { x with state := Function.update x.state id state }

/-- Every prerequisite is `COMPLETED` or `SKIPPED`. -/
def DagExecutor.allDepsDone (x : DagExecutor) (id : String) : Bool :=
  (D.dependencies id).all fun dep => (x.state dep).done

/-- `propagate_completion`. That a dependent becomes ready does not change whether another one does. -/
def DagExecutor.propagateCompletion (x : DagExecutor) (completed : String) : DagExecutor :=
  if x.stop.isSome then x
  else { x with state := fun id =>
    if (D.dependencies id).contains completed && x.allDepsDone D id && x.state id == .pending then .ready
    else x.state id }

/-- `skip_unlaunched_for_stop`, when `stop` is set. -/
def DagExecutor.skipUnlaunchedForStop (x : DagExecutor) : DagExecutor :=
  { x with state := fun id =>
    if D.steps.contains id && (x.state id == .pending || x.state id == .ready) then .skipped else x.state id }

/-- The steps that are ready, in the order of the nodes. -/
def DagExecutor.readySteps (x : DagExecutor) : List String := D.ids.filter fun id => x.state id == .ready

/-- A step whose condition is false, in `filter_ready_steps`. -/
def DagExecutor.skip (x : DagExecutor) (id : String) : DagExecutor :=
  (x.setState id .skipped).propagateCompletion D id

def DagExecutor.canLaunchWithLock (x : DagExecutor) (lockModel : Option String) : Bool :=
  lockModel.all fun model => !x.activeModels.contains model

/-- A step that enters `RUNNING` in `launch_steps`. -/
def DagExecutor.enter (x : DagExecutor) (id : String) : DagExecutor :=
  { x.setState id .running with started := x.started ++ [id] }

/-- The value under a key, when both are there. -/
def setModel {ν : Type} (d : Dict String ν) (model : Option String) (v : ν) : Dict String ν :=
  match model with
  | none => d
  | some model => d.set model v

/-- `on_step_launched`, when the models agree, and the task. -/
def DagExecutor.launch (x : DagExecutor) (id : String) : DagExecutor :=
  { x.enter id with
    activeModels := setModel x.activeModels (D.lockModel id) id
    trackedRequests := ((D.targetModel id).map (x.trackedRequests.set id)).getD x.trackedRequests
    tasks := Function.update x.tasks id (some ⟨false, none⟩)
    pendingTasks := x.pendingTasks ++ [id] }

/-- `ModelUsageTracker.release`. -/
def releaseModel (active : Dict String String) (model : Option String) (id : String) : Dict String String :=
  match model with
  | none => active
  | some model => if active.get? model = some id then active.erase model else active

def DagExecutor.onStepFinished (x : DagExecutor) (id : String) : DagExecutor :=
  { x with
    activeModels := releaseModel x.activeModels (D.targetModel id) id
    trackedRequests := if (D.targetModel id).isSome then x.trackedRequests.erase id else x.trackedRequests }

def StepTask.cancel (t : StepTask) : StepTask :=
  if t.result.isSome then t else { t with cancelRequested := true }

/-- `task.cancel()` of a step. -/
def DagExecutor.cancelTask (x : DagExecutor) (id : String) : DagExecutor :=
  { x with tasks := Function.update x.tasks id ((x.tasks id).map StepTask.cancel) }

/-- `remaining_task.cancel()` of all pending tasks. -/
def DagExecutor.cancelPending (x : DagExecutor) : DagExecutor :=
  { x with tasks := fun id =>
    if x.pendingTasks.contains id then (x.tasks id).map StepTask.cancel else x.tasks id }

/-! ## The end of a task -/

/-- How the coroutine of a task, `execute_step`, ends. -/
inductive Outcome where
  /-- The handler returns, with a stop or without. -/
  | success (stop : Bool)
  /-- The handler returns, and what `record_success` emits behind the state raises. -/
  | unrecorded (stop : Bool)
  /-- The handler raises, or its stop is not declared. -/
  | failure
  /-- The lookup for the execution raises, before the handler is called. -/
  | unresolved
  /-- A `CancelledError`. -/
  | cancelled
  deriving DecidableEq

/-- The result of a task. -/
def DagExecutor.setResult (x : DagExecutor) (id : String) (result : TaskResult) : DagExecutor :=
  { x with tasks := Function.update x.tasks id ((x.tasks id).map fun t => { t with result := some result }) }

def DagExecutor.recordSuccess (x : DagExecutor) (id : String) (stop : Bool) : DagExecutor :=
  let completed := x.setState id .completed
  { completed with stop := if stop && x.stop.isNone then some id else x.stop }.propagateCompletion D id

/-- The last section of a task. -/
def DagExecutor.finish (x : DagExecutor) (id : String) : Outcome → DagExecutor
  | .success stop => (x.recordSuccess D id stop).setResult id .ok
  | .unrecorded stop => ((x.recordSuccess D id stop).setState id .failed).setResult id .error
  | .failure => (x.setState id .failed).setResult id .error
  | .unresolved => x.setResult id .error
  | .cancelled => x.setResult id .cancelled

/-! ## Where the executor is -/

/-- What `execute_dag` raises. -/
inductive ExecuteError where
  | deadline
  | deadlock
  /-- The condition of a step. -/
  | definition (id : String)
  /-- The lookup of a target model, with a `TimeoutError` or another exception. -/
  | lookup (id : String) (timeout : Bool)
  /-- `validate_resolution_consistency`. -/
  | drift (id : String)
  | stepFailed (id : String)
  | unknownStep (id : String)
  /-- The `CancelledError` of a task. -/
  | cancelled (id : String)
  deriving DecidableEq

/-- The exceptions behind which `run_prepared_execution_inner` calls `cancel`. -/
def ExecuteError.cancels : ExecuteError → Bool
  | lookup _ timeout => timeout
  | cancelled _ => true
  | _ => false

/-- How the execution of the pipeline ended. -/
inductive Ending where
  | returned
  | raised (e : ExecuteError)
  /-- `cancel` has run to its end. -/
  | cancelled
  /-- `cancel` raised the exception of a task. -/
  | cancelRaised (id : String)
  deriving DecidableEq

/-- Where `execute_dag`, and `cancel` behind it, is. -/
inductive Control where
  /-- At the head of the loop. -/
  | loop
  /-- `filter_ready_steps`: what was ready, what is left of it, and `steps_to_launch`. -/
  | filtering (ready rest selected : List String)
  /-- In the lookup of a step that is not cached. -/
  | resolving (ready : List String) (id : String) (rest selected : List String)
  /-- `launch_steps`: what is left, `models_in_use_this_iteration`, `launched_any` and `skip_progress`. -/
  | launching (rest inUse : List String) (launched skipped : Bool)
  /-- In `asyncio.wait`. -/
  | waiting
  /-- The tasks that were done and are left to handle. -/
  | handling (done : List String)
  | returned
  | raised (e : ExecuteError)
  /-- `cancel`: the tasks that are left. -/
  | cancelling (rest : List String)
  /-- `cancel` awaits a task. -/
  | awaiting (id : String) (rest : List String)
  | ended (e : Ending)

/-- The places where other tasks may run. -/
def Control.suspended : Control → Bool
  | resolving .. | waiting | returned | raised _ | awaiting .. | ended _ => true
  | _ => false

structure Execution where
  executor : DagExecutor
  control : Control

/-- The end of a pass in `execute_dag`. -/
def passed (x : DagExecutor) (progress : Bool) : Execution :=
  if x.pendingTasks ≠ [] then ⟨x, .waiting⟩
  else if progress || x.allDone D then ⟨x, .loop⟩
  else ⟨x, .raised .deadlock⟩

/-- `launch_steps`, with the nodes that are left. -/
def launching (x : DagExecutor) (rest inUse : List String) (launched skipped : Bool) : Execution :=
  if rest = [] then passed D x (launched || skipped) else ⟨x, .launching rest inUse launched skipped⟩

/-- `filter_ready_steps`, with the nodes that are left, and what comes behind it. -/
def filtering (x : DagExecutor) (ready rest selected : List String) : Execution :=
  let skipped := ready.any fun id => x.state id == .skipped
  if rest ≠ [] then ⟨x, .filtering ready rest selected⟩
  else if selected = [] then passed D x skipped
  else ⟨x, .launching selected [] false skipped⟩

/-- The gate of `filter_ready_steps`. -/
def selectStep (x : DagExecutor) (ready : List String) (id : String) (rest selected : List String) : Execution :=
  if x.canLaunchWithLock (D.lockModel id) then filtering D x ready rest (selected ++ [id])
  else filtering D x ready rest selected

/-- The head of the loop, and `process_ready_steps` up to the first node; `late` when the deadline has passed. -/
def executeDag (x : DagExecutor) (late : Bool) : Execution :=
  if x.allDone D then ⟨x, .returned⟩
  else if late then ⟨x, .raised .deadline⟩
  else if x.stop.isSome then
    passed D (x.skipUnlaunchedForStop D) (D.ids.any fun id => x.state id == .pending || x.state id == .ready)
  else if x.readySteps D = [] then passed D x false
  else filtering D x (x.readySteps D) (x.readySteps D) []

/-- A node in `filter_ready_steps`; `condition` is what `should_execute_step` answers, unless it raises. -/
def filterReadyStep (x : DagExecutor) (ready : List String) (id : String) (rest selected : List String) :
    Option Bool → Execution
  | none => ⟨x, .raised (.definition id)⟩
  | some false => filtering D (x.skip D id) ready rest selected
  | some true =>
    if x.resolved.contains id then selectStep D x ready id rest selected else ⟨x, .resolving ready id rest selected⟩

/-- The lookup of a target model comes back; `error` is what it raises, a `TimeoutError` or not. -/
def resolveTargetModel (x : DagExecutor) (ready : List String) (id : String) (rest selected : List String) :
    Option Bool → Execution
  | some timeout => ⟨x, .raised (.lookup id timeout)⟩
  | none => selectStep D { x with resolved := id :: x.resolved } ready id rest selected

/-- A node in `launch_steps`. Its lookup is cached. -/
def launchStep (x : DagExecutor) (id : String) (rest inUse : List String) (launched skipped drifts : Bool) :
    Execution :=
  if x.stop.isSome then passed D x (launched || skipped)
  else if !x.canLaunchWithLock (D.lockModel id) || (D.lockModel id).any inUse.contains then
    launching D x rest inUse launched skipped
  else if drifts then ⟨x.enter id, .raised (.drift id)⟩
  else launching D (x.launch D id) rest (inUse ++ (D.lockModel id).toList) true skipped

/-- The pending tasks that have ended. -/
def DagExecutor.donePending (x : DagExecutor) : List String := x.pendingTasks.filter fun id => (x.result id).isSome

/-- A task in `await_and_handle_completions`. -/
def handleCompletion (x : DagExecutor) (id : String) (rest : List String) : Execution :=
  if !D.steps.contains id then ⟨x.cancelPending, .raised (.unknownStep id)⟩
  else
    let popped := { x with pendingTasks := x.pendingTasks.erase id }
    match x.result id with
    | some .error =>
      ⟨((popped.setState id .failed).onStepFinished D id).cancelPending, .raised (.stepFailed id)⟩
    | some .cancelled => ⟨popped, .raised (.cancelled id)⟩
    | _ => ⟨popped.onStepFinished D id, if rest = [] then .loop else .handling rest⟩

/-- A task in `cancel`. -/
def cancelStep (x : DagExecutor) (id : String) (rest : List String) : Execution :=
  if (x.result id).isSome then ⟨x.onStepFinished D id, .cancelling rest⟩ else ⟨x.cancelTask id, .awaiting id rest⟩

/-! ## The system -/

/-- What happens next, with what comes from outside. -/
inductive Event where
  | pass (late : Bool)
  | condition (answer : Option Bool)
  | lookup (error : Option Bool)
  | launch (drifts : Bool)
  /-- `asyncio.wait` returns, with its tasks in the order in which the loop takes them. -/
  | wake (done : List String)
  | handle
  /-- The task of a step ends. -/
  | finish (id : String) (outcome : Outcome)
  /-- A timeout or a cancellation reaches the execution of the pipeline. -/
  | interrupt
  /-- `execute_dag` has ended and `run_prepared_execution_inner` goes on. -/
  | settle
  | cancelNext

/-- One step; `none` when the event cannot happen there. -/
def Execution.step (s : Execution) (e : Event) : Option Execution :=
  let x := s.executor
  match e, s.control with
  | .pass late, .loop => some (executeDag D x late)
  | .condition answer, .filtering ready (id :: rest) selected =>
    some (filterReadyStep D x ready id rest selected answer)
  | .lookup error, .resolving ready id rest selected => some (resolveTargetModel D x ready id rest selected error)
  | .launch drifts, .launching (id :: rest) inUse launched skipped =>
    some (launchStep D x id rest inUse launched skipped drifts)
  | .wake done, .waiting =>
    if done ≠ [] ∧ done.Perm x.donePending then some ⟨x, .handling done⟩ else none
  | .handle, .handling (id :: rest) => some (handleCompletion D x id rest)
  | .finish id outcome, control =>
    if control.suspended ∧ (x.tasks id).isSome ∧ x.result id = none then
      some ⟨x.finish D id outcome, control⟩
    else none
  | .interrupt, .resolving .. | .interrupt, .waiting | .interrupt, .returned | .interrupt, .raised _ =>
    some ⟨x, .cancelling x.pendingTasks⟩
  -- `cancel` takes its own cancellation for that of the task.
  | .interrupt, .awaiting id rest => some ⟨x.onStepFinished D id, .cancelling rest⟩
  | .settle, .returned => some ⟨x, .ended .returned⟩
  | .settle, .raised e =>
    if e.cancels then some ⟨x, .cancelling x.pendingTasks⟩ else some ⟨x, .ended (.raised e)⟩
  | .cancelNext, .cancelling [] => some ⟨{ x with pendingTasks := [] }, .ended .cancelled⟩
  | .cancelNext, .cancelling (id :: rest) => some (cancelStep D x id rest)
  | .cancelNext, .awaiting id rest =>
    match x.result id with
    | none => none
    | some .error => some ⟨x, .ended (.cancelRaised id)⟩
    | some _ => some ⟨x.onStepFinished D id, .cancelling rest⟩
  | _, _ => none

/-- The executor behind `DAGBuilder.build`. -/
def DagExecutor.start : DagExecutor where
  state id := if D.steps.contains id && (D.dependencies id).isEmpty then .ready else .pending
  stop := none
  tasks _ := none
  pendingTasks := []
  activeModels := ∅
  trackedRequests := ∅
  resolved := []
  started := []

/-- The executions of a pipeline. -/
def Dag.system : System Execution Event := .ofFn (· = ⟨.start D, .loop⟩) (Execution.step D)

/-! ## The steps one by one -/

/-- The places at which a timeout or a cancellation reaches `execute_dag` or what comes behind it. -/
def Control.interruptible : Control → Bool
  | resolving .. | waiting | returned | raised _ => true
  | _ => false

/-- What a step of an execution is. -/
inductive Transition : Execution → Event → Execution → Prop where
  | pass (x : DagExecutor) (late : Bool) : Transition ⟨x, .loop⟩ (.pass late) (executeDag D x late)
  | condition (x : DagExecutor) (ready : List String) (id : String) (rest selected : List String)
      (answer : Option Bool) : Transition ⟨x, .filtering ready (id :: rest) selected⟩ (.condition answer)
        (filterReadyStep D x ready id rest selected answer)
  | lookup (x : DagExecutor) (ready : List String) (id : String) (rest selected : List String)
      (error : Option Bool) : Transition ⟨x, .resolving ready id rest selected⟩ (.lookup error)
        (resolveTargetModel D x ready id rest selected error)
  | launch (x : DagExecutor) (id : String) (rest inUse : List String) (launched skipped drifts : Bool) :
      Transition ⟨x, .launching (id :: rest) inUse launched skipped⟩ (.launch drifts)
        (launchStep D x id rest inUse launched skipped drifts)
  | wake {x : DagExecutor} {done : List String} (hne : done ≠ []) (hdone : done.Perm x.donePending) :
      Transition ⟨x, .waiting⟩ (.wake done) ⟨x, .handling done⟩
  | handle (x : DagExecutor) (id : String) (rest : List String) :
      Transition ⟨x, .handling (id :: rest)⟩ .handle (handleCompletion D x id rest)
  | finish {x : DagExecutor} {control : Control} {id : String} {t : StepTask} (outcome : Outcome)
      (hsuspended : control.suspended = true) (ht : x.tasks id = some t) (hopen : x.result id = none) :
      Transition ⟨x, control⟩ (.finish id outcome) ⟨x.finish D id outcome, control⟩
  | interrupt (x : DagExecutor) {control : Control} (h : control.interruptible = true) :
      Transition ⟨x, control⟩ .interrupt ⟨x, .cancelling x.pendingTasks⟩
  | interruptCancel (x : DagExecutor) (id : String) (rest : List String) :
      Transition ⟨x, .awaiting id rest⟩ .interrupt ⟨x.onStepFinished D id, .cancelling rest⟩
  | returns (x : DagExecutor) : Transition ⟨x, .returned⟩ .settle ⟨x, .ended .returned⟩
  | cancel (x : DagExecutor) {e : ExecuteError} (h : e.cancels = true) :
      Transition ⟨x, .raised e⟩ .settle ⟨x, .cancelling x.pendingTasks⟩
  | raise (x : DagExecutor) {e : ExecuteError} (h : e.cancels = false) :
      Transition ⟨x, .raised e⟩ .settle ⟨x, .ended (.raised e)⟩
  | cancelled (x : DagExecutor) :
      Transition ⟨x, .cancelling []⟩ .cancelNext ⟨{ x with pendingTasks := [] }, .ended .cancelled⟩
  | cancelStep (x : DagExecutor) (id : String) (rest : List String) :
      Transition ⟨x, .cancelling (id :: rest)⟩ .cancelNext (cancelStep D x id rest)
  | cancelRaise {x : DagExecutor} {id : String} (rest : List String) (h : x.result id = some .error) :
      Transition ⟨x, .awaiting id rest⟩ .cancelNext ⟨x, .ended (.cancelRaised id)⟩
  | awaited {x : DagExecutor} {id : String} {r : TaskResult} (rest : List String) (h : x.result id = some r)
      (hr : r ≠ .error) : Transition ⟨x, .awaiting id rest⟩ .cancelNext ⟨x.onStepFinished D id, .cancelling rest⟩

variable {D}

theorem Execution.transition {s s' : Execution} {e : Event} (h : s.step D e = some s') : Transition D s e s' := by
  obtain ⟨x, control⟩ := s
  unfold Execution.step at h
  dsimp only at h
  split at h
  case h_1 => exact Option.some.inj h ▸ .pass ..
  case h_2 => exact Option.some.inj h ▸ .condition ..
  case h_3 => exact Option.some.inj h ▸ .lookup ..
  case h_4 => exact Option.some.inj h ▸ .launch ..
  case h_5 =>
    split at h
    · rename_i hdone
      exact Option.some.inj h ▸ .wake hdone.1 hdone.2
    · cases h
  case h_6 => exact Option.some.inj h ▸ .handle ..
  case h_7 id outcome =>
    split at h
    · rename_i hfinish
      obtain ⟨t, ht⟩ := Option.isSome_iff_exists.1 hfinish.2.1
      exact Option.some.inj h ▸ .finish outcome hfinish.1 ht hfinish.2.2
    · cases h
  case h_8 | h_9 | h_10 | h_11 => exact Option.some.inj h ▸ .interrupt x rfl
  case h_12 => exact Option.some.inj h ▸ .interruptCancel ..
  case h_13 => exact Option.some.inj h ▸ .returns x
  case h_14 e =>
    split at h
    · exact Option.some.inj h ▸ .cancel x ‹_›
    · exact Option.some.inj h ▸ .raise x (Bool.eq_false_iff.2 ‹_›)
  case h_15 => exact Option.some.inj h ▸ .cancelled x
  case h_16 => exact Option.some.inj h ▸ .cancelStep ..
  case h_17 id rest =>
    rcases hr : x.result id with _ | _ | _ | _ <;> rw [hr] at h
    · cases h
    · exact Option.some.inj h ▸ .awaited rest hr (by decide)
    · exact Option.some.inj h ▸ .cancelRaise rest hr
    · exact Option.some.inj h ▸ .awaited rest hr (by decide)
  case h_18 => cases h

end LlmGateway.Pipeline
