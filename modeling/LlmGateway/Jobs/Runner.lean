import LlmGateway.Foundations.Dict
import LlmGateway.Foundations.Json
import LlmGateway.Foundations.System

/-!
# The runner of jobs

A run is admitted into a journal of transitions, and a task spawns the child, watches it and appends what became
of it. The journal is the authority: whoever appends a transition reads the latest one before. What stands between
two awaits is one step here; `cancel` and the spawn take a lock, the failures before the spawn do not.

A task that waits for the lock may take it as soon as it is free, in any order.
-/

namespace LlmGateway.Jobs

/-! ## The journal -/

/-- The states of the transitions table. -/
inductive RunState where
  | admitted
  | running
  | cancelling
  | completed
  | failed
  | cancelled
  | lost
  | delivered
  | undelivered
  deriving DecidableEq

def RunState.terminal : RunState → Bool
  | completed | failed | cancelled | lost => true
  | _ => false

/-- The delivery rows. -/
def RunState.isDelivery : RunState → Bool
  | delivered | undelivered => true
  | _ => false

/-- A row of the transitions table; the sequence number is its place. -/
structure Row where
  state : RunState
  data : List (String × Json)

/-- A row of the runs table with its transitions. -/
structure Run where
  job : String
  outputContract : String
  rows : List Row

namespace Run

/-- The transitions that are no deliveries. -/
def path (r : Run) : List RunState := (r.rows.map Row.state).filter fun s => !s.isDelivery

/-- `fold`: the latest transition that is no delivery. -/
def fold (r : Run) : Option Row := (r.rows.filter fun row => !row.state.isDelivery).getLast?

def deliveryAttempts (r : Run) : ℕ := (r.rows.filter fun row => row.state.isDelivery).length

def latestDelivery (r : Run) : Option Row := (r.rows.filter fun row => row.state.isDelivery).getLast?

end Run

/-! ## The runner -/

/-- What the runner reads of a job's spec. `resultSchema` parses the output by its last line. -/
structure JobSpec where
  preRun : Bool
  resultSchema : Option (String → Option Json)

/-- Where a task of `_run` stands. -/
inductive Stage where
  | scheduled
  /-- It awaits `spec.pre_run`. -/
  | preparing
  /-- It awaits the lock. -/
  | locking
  /-- It has the lock, and awaits the start of the child. -/
  | starting
  /-- It awaits the pumps. -/
  | watching
  /-- The child was silent for too long, and its group is killed. -/
  | killing
  /-- It awaits the exit of the child. -/
  | waiting
  /-- It awaits the answer to a delivery. -/
  | delivering (attempt : ℕ)
  | done
  deriving DecidableEq

/-- The stages of `_supervise` before the run is finished. -/
def Stage.supervises : Stage → Bool
  | watching | killing | waiting => true
  | _ => false

/-- The stage of `deliver`. -/
def Stage.delivers : Stage → Bool
  | delivering _ => true
  | _ => false

/-- A task of `_run`. -/
structure Task where
  run : String
  stage : Stage

/-- `Runner`, with its journal, its tasks, the task that has the lock between two steps, the runs whose children
have been started, and the process groups that cancels have signalled. -/
structure Runner where
  journal : Dict String Run
  tasks : List Task
  holder : Option ℕ
  children : List String
  signalled : List ℤ

def Runner.start : Runner := ⟨∅, [], none, [], []⟩

namespace Runner

def fold (x : Runner) (run : String) : Option Row := (x.journal.get? run).bind Run.fold

def state (x : Runner) (run : String) : Option RunState := (x.fold run).map Row.state

def append (x : Runner) (run : String) (state : RunState) (data : List (String × Json)) : Runner :=
  { x with journal := x.journal.mapVal fun k r =>
      if k = run then { r with rows := r.rows ++ [⟨state, data⟩] } else r }

/-- The task goes on at a stage. -/
def setStage (x : Runner) (t : ℕ) (run : String) (stage : Stage) : Runner :=
  { x with tasks := x.tasks.set t ⟨run, stage⟩ }

/-- `journal.admit`; a run that is there already is refused. -/
def admitRun (x : Runner) (run job outputContract : String) : Runner :=
  if x.journal.contains run then x
  else { x with journal := x.journal.set run ⟨job, outputContract, [⟨.admitted, []⟩]⟩ }

def schedule (x : Runner) (run : String) : Runner := { x with tasks := x.tasks ++ [⟨run, .scheduled⟩] }

/-- The process group of the data, when it is a number. -/
def groupOf (data : List (String × Json)) : List ℤ :=
  match Json.get data "pgid" with
  | .int n => [n]
  | .bool b => [if b then 1 else 0]
  | _ => []

/-- `cancel`, with its reply. -/
def cancel (x : Runner) (run : String) : Runner × (ℕ × String) :=
  match x.fold run with
  | none => (x, 404, "missing")
  | some row =>
    match row.state with
    | .admitted => (x.append run .cancelled [("signal", .str "none")], 200, "cancelled")
    | .running =>
      ({ x.append run .cancelling [] with signalled := x.signalled ++ groupOf row.data }, 202, "cancelling")
    | .cancelling => (x, 200, "cancelling")
    | .cancelled => (x, 200, "cancelled")
    | _ => (x, 409, "run_terminal")

/-! ### A task -/

/-- An admitted run fails, and any other one is left as it is. -/
def failAdmitted (x : Runner) (run code message : String) : Runner :=
  if x.state run = some .admitted then
    x.append run .failed [("error", .obj [("code", .str code)]), ("message", .str message)]
  else x

/-- The handler of `_run` behind the spawn. -/
def spawnFailed (x : Runner) (t : ℕ) (run message : String) : Runner :=
  (x.setStage t run .done).failAdmitted run "spawn_failed" message

/-- `_spawn` before the lock: the arguments, the state directory and the executable, each of which may raise. -/
def enterSpawn (x : Runner) (t : ℕ) (run : String) (raised : Option String) : Runner :=
  match raised with
  | none => x.setStage t run .locking
  | some message => x.spawnFailed t run message

/-- What `spec.pre_run` does, and `_spawn` behind it. -/
inductive PreRun where
  | raised (message : String)
  | returned (spawn : Option String)

/-- What the start of the child does. -/
inductive Start where
  /-- There is no child. -/
  | raised (message : String)
  /-- The child is gone before its group is read. -/
  | vanished (message : String)
  | spawned (pid pgid : ℤ)

/-- What the answer to a delivery is. -/
inductive Answer where
  | transport (error : String)
  | refused (status : ℕ)
  | turn (number : ℤ)
  /-- It is no JSON with a turn number. -/
  | raised (message : String)

/-- `_run` up to its first await. The spec is missing, or the arguments are not those of the job, unless `valid`;
`spawn` is what `_spawn` raises behind a job that has no `pre_run`. -/
def begin (specs : String → Option JobSpec) (x : Runner) (t : ℕ) (run : String) (valid : Bool)
    (spawn : Option String) : Runner :=
  if x.state run ≠ some .admitted ∨ valid = false then x.setStage t run .done
  else
    match ((x.journal.get? run).bind fun r => specs r.job).map JobSpec.preRun with
    | none => x.setStage t run .done
    | some true => x.setStage t run .preparing
    | some false => x.enterSpawn t run spawn

/-- `_run` behind `spec.pre_run`. -/
def prepared (x : Runner) (t : ℕ) (run : String) (outcome : PreRun) : Runner :=
  match outcome with
  | .raised message => (x.setStage t run .done).failAdmitted run "pre_run_failed" message
  | .returned spawn =>
    if x.state run ≠ some .admitted then x.setStage t run .done else x.enterSpawn t run spawn

/-- `_spawn` with the lock. -/
def acquire (x : Runner) (t : ℕ) (run : String) : Runner :=
  if x.state run ≠ some .admitted then x.setStage t run .done
  else { x.setStage t run .starting with holder := some t }

/-- The lock is given back. -/
def release (x : Runner) : Runner := { x with holder := none }

/-- A child has been started. -/
def addChild (x : Runner) (run : String) : Runner := { x with children := run :: x.children }

/-- `_spawn` behind the start of the child. -/
def started (x : Runner) (t : ℕ) (run : String) (outcome : Start) : Runner :=
  match outcome with
  | .raised message => x.release.spawnFailed t run message
  | .vanished message => (x.release.spawnFailed t run message).addChild run
  | .spawned pid pgid =>
    ((x.release.append run .running [("pid", .int pid), ("pgid", .int pgid)]).addChild run).setStage t run .watching

/-- `deliver` up to its await. -/
def deliver (x : Runner) (t : ℕ) (run : String) : Runner :=
  let due := (x.journal.get? run).filter fun r =>
    r.outputContract == "thread" && (r.fold.any fun row => row.state.terminal) && decide (r.deliveryAttempts < 2) &&
      !(r.latestDelivery.any fun row => row.state == .delivered)
  match due with
  | none => x.setStage t run .done
  | some r => x.setStage t run (.delivering (r.deliveryAttempts + 1))

/-- `deliver` behind its await. -/
def answered (x : Runner) (t : ℕ) (run : String) (attempt : ℕ) (answer : Answer) : Runner :=
  match answer with
  | .transport error =>
    (x.append run .undelivered [("error", .str error), ("attempt", .int attempt)]).setStage t run .done
  | .refused status =>
    (x.append run .undelivered [("http_status", .int status), ("attempt", .int attempt)]).setStage t run .done
  | .turn number =>
    (x.append run .delivered [("turn_number", .int number), ("attempt", .int attempt)]).setStage t run .done
  | .raised message => x.spawnFailed t run message

def finishIdle (x : Runner) (run : String) (code : ℤ) (signal : String) : Runner :=
  if x.state run = some .cancelling then
    x.append run .cancelled [("signal", .str signal), ("exit_code", .int code)]
  else
    x.append run .failed
      [("exit_code", .int code), ("error", .obj [("code", .str "idle_timeout")]), ("signal", .str signal)]

/-- The transition of a child that has exited by itself. -/
def exitRow (spec : Option JobSpec) (code : ℤ) (stdout : String) (duration : ℤ) : Row :=
  let schema := spec.bind JobSpec.resultSchema
  let parsed := schema.bind fun parse => parse stdout
  if code ≠ 0 then
    ⟨.failed, [("exit_code", .int code), ("error", .obj [("code", .str "exit_nonzero")]),
      ("duration_ms", .int duration)]⟩
  else if parsed.isNone ∧ schema.isSome then
    ⟨.failed, [("exit_code", .int 0), ("error", .obj [("code", .str "result_invalid")]),
      ("duration_ms", .int duration)]⟩
  else
    let result := match parsed with
      | some v => [("result", v)]
      | none => if stdout = "" then [] else
          [("result", Json.obj [("raw", .str (String.ofList (stdout.toList.drop (stdout.length - 4000))))])]
    ⟨.completed, [("exit_code", .int 0), ("duration_ms", .int duration)] ++ result⟩

def finishExit (specs : String → Option JobSpec) (x : Runner) (run : String) (code : ℤ) (stdout : String)
    (duration : ℤ) : Runner :=
  if x.state run = some .cancelling then
    x.append run .cancelled [("signal", .str "SIGTERM"), ("exit_code", .int code)]
  else
    let row := exitRow ((x.journal.get? run).bind fun r => specs r.job) code stdout duration
    x.append run row.state row.data

end Runner

/-! ## Steps -/

open Runner in
/-- What happens next. -/
inductive Event where
  | admission (run job outputContract : String)
  | schedule (run : String)
  | cancel (run : String)
  | begin (t : ℕ) (valid : Bool) (spawn : Option String)
  | prepared (t : ℕ) (outcome : PreRun)
  | acquire (t : ℕ)
  | started (t : ℕ) (outcome : Start)
  /-- The pumps end because the child is silent. -/
  | idle (t : ℕ)
  /-- The pumps end because the output does. -/
  | eof (t : ℕ)
  | killed (t : ℕ) (code : ℤ) (signal : String)
  | exited (t : ℕ) (code : ℤ) (stdout : String) (duration : ℤ)
  /-- `_supervise` raises. -/
  | crashed (t : ℕ) (message : String)
  | answered (t : ℕ) (answer : Answer)

/-- The task that the event is about. -/
def Event.task : Event → Option ℕ
  | admission .. => none
  | schedule .. => none
  | cancel .. => none
  | begin t .. => some t
  | prepared t .. => some t
  | acquire t => some t
  | started t .. => some t
  | idle t => some t
  | eof t => some t
  | killed t .. => some t
  | exited t .. => some t
  | crashed t .. => some t
  | answered t .. => some t

namespace Runner

/-- A step of a task that stands at the stage. -/
def taskStep (specs : String → Option JobSpec) (x : Runner) (run : String) : Stage → Event → Option Runner
  | .scheduled, .begin t valid spawn => some (x.begin specs t run valid spawn)
  | .preparing, .prepared t outcome => some (x.prepared t run outcome)
  | .locking, .acquire t => if x.holder.isNone then some (x.acquire t run) else none
  | .starting, .started t outcome => some (x.started t run outcome)
  | .watching, .idle t => some (x.setStage t run .killing)
  | .watching, .eof t => some (x.setStage t run .waiting)
  | .killing, .killed t code signal => some ((x.finishIdle run code signal).deliver t run)
  | .waiting, .exited t code stdout duration => some ((x.finishExit specs run code stdout duration).deliver t run)
  | .watching, .crashed t message => some (x.spawnFailed t run message)
  | .killing, .crashed t message => some (x.spawnFailed t run message)
  | .waiting, .crashed t message => some (x.spawnFailed t run message)
  | .delivering attempt, .answered t answer => some (x.answered t run attempt answer)
  | _, _ => none

/-- A step of the runner. -/
def step (specs : String → Option JobSpec) (x : Runner) (e : Event) : Option Runner :=
  match e with
  | .admission run job outputContract => some (x.admitRun run job outputContract)
  | .schedule run => some (x.schedule run)
  | .cancel run => if x.holder.isNone then some (x.cancel run).1 else none
  | e => (e.task.bind fun t => x.tasks[t]?).bind fun task => x.taskStep specs task.run task.stage e

/-- The runner of the specs. -/
def system (specs : String → Option JobSpec) : System Runner Event :=
  System.ofFn (fun x => x = .start) (step specs)

end Runner

end LlmGateway.Jobs
