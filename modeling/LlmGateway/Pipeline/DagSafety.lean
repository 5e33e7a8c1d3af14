import LlmGateway.Pipeline.DagSchedule

/-!
# The DAG executor is dependency safe

A step starts at most once, behind all that it needs and before any stop, nothing that needs a failed step ever
runs, and the executor never reports a deadlock (`SafeState`, `SafeStep`). What is done stays as it is, with one
exception: `execute_step` hands a result to `record_success` inside of the `try` whose handler is
`record_failure`, so that a step which is `COMPLETED` becomes `FAILED` when its events cannot be recorded
(`Execution.through`).
-/

namespace LlmGateway.Pipeline

variable {D : Dag}

/-! ## Safety -/

/-- What holds in every state of an execution. -/
structure SafeState (D : Dag) (s : Execution) : Prop where
  once : s.executor.started.Nodup
  started : ∀ id, id ∈ s.executor.started ↔
    s.executor.state id = .running ∨ s.executor.state id = .completed ∨ s.executor.state id = .failed
  /-- Nothing that needs a failed step has started. -/
  failed : ∀ id a, D.Ancestor id a → s.executor.state a = .failed → id ∉ s.executor.started
  deadlock : s.control ≠ .raised .deadlock

/-- What the states of the steps may do from one moment to the next. -/
structure SafeStep (D : Dag) (x x' : DagExecutor) : Prop where
  /-- A step enters `RUNNING` for the first time, before any stop, and all that it depends on is done. -/
  enters : ∀ id, x'.state id = .running → x.state id ≠ .running →
    id ∉ x.started ∧ x.stop = none ∧ ∀ dep ∈ D.dependencies id, (x.state dep).done = true
  /-- A step starts when it enters `RUNNING`. -/
  starts : ∀ id ∈ x'.started, id ∉ x.started → x'.state id = .running ∧ x.state id ≠ .running
  stop : x.stop ≠ none → x'.stop = x.stop
  terminal : ∀ id, (x.state id).terminal = true → x'.state id = x.state id

/-- The executor behind each assignment of a state that a step of an execution makes. -/
def Execution.through (D : Dag) (s s' : Execution) : Event → List DagExecutor
  | .finish id (.unrecorded stop) => [s.executor.recordSuccess D id stop, s'.executor]
  | _ => [s'.executor]

/-- The events of a task that are recorded. -/
def Event.recorded : Event → Bool
  | finish _ (.unrecorded _) => false
  | _ => true

/-! ## What the steps of an execution do to the states -/

theorem passed_executor (x : DagExecutor) (progress : Bool) : (passed D x progress).executor = x := by
  unfold passed
  split
  · rfl
  · split <;> rfl

theorem launching_executor (x : DagExecutor) (rest inUse : List String) (launched skipped : Bool) :
    (launching D x rest inUse launched skipped).executor = x := by
  unfold launching
  split
  · exact passed_executor ..
  · rfl

theorem filtering_executor (x : DagExecutor) (ready rest selected : List String) :
    (filtering D x ready rest selected).executor = x := by
  unfold filtering
  dsimp only
  split
  · rfl
  · split
    · exact passed_executor ..
    · rfl

theorem selectStep_executor (x : DagExecutor) (ready : List String) (id : String) (rest selected : List String) :
    (selectStep D x ready id rest selected).executor = x := by
  unfold selectStep
  split <;> exact filtering_executor ..

/-- Nothing starts, and states that are not terminal may change. -/
structure Still (x x' : DagExecutor) : Prop where
  started : x'.started = x.started
  stop : x.stop ≠ none → x'.stop = x.stop
  state : ∀ id, x'.state id = x.state id ∨ ((x.state id).terminal = false ∧ x'.state id ≠ .running)

variable {x x' : DagExecutor} {id : String} {rest : List String} {s s' : Execution} {e : Event}

theorem Still.of_same (hstate : x'.state = x.state) (hstop : x'.stop = x.stop)
    (hstarted : x'.started = x.started) : Still x x' :=
  ⟨hstarted, fun _ => hstop, fun id => .inl (congrFun hstate id)⟩

theorem Still.of_promoted (h : Promoted x x') (hstop : x'.stop = x.stop)
    (hstarted : x'.started = x.started) : Still x x' := by
  refine ⟨hstarted, fun _ => hstop, fun id => (h.state id).imp_right fun ⟨hold, hnew⟩ => ⟨?_, ?_⟩⟩
  · obtain hold | hold := hold <;> rw [hold] <;> rfl
  · obtain hnew | hnew := hnew <;> rw [hnew] <;> decide

theorem Still.running (h : Still x x') (hrun : x'.state id = .running) :
    x.state id = .running := by
  obtain hsame | ⟨-, hnot⟩ := h.state id
  · exact hsame.symm.trans hrun
  · exact absurd hrun hnot

theorem Still.safe (h : Still x x') : SafeStep D x x' := by
  constructor
  case enters => exact fun id hrun hnot => absurd (h.running hrun) hnot
  case starts =>
    intro id hid hfresh
    rw [h.started] at hid
    exact absurd hid hfresh
  case stop => exact h.stop
  case terminal =>
    intro id hterminal
    refine (h.state id).resolve_right fun h => ?_
    rw [hterminal] at h
    cases h.1

theorem SafeStep.of_enter (hready : x.state id = .ready) (hsound : Sound D x)
    (hnone : x.stop = none) (hdeps : ∀ dep ∈ D.dependencies id, (x.state dep).done = true)
    (hstate : x'.state = (x.enter id).state) (hstop : x'.stop = x.stop)
    (hstarted : x'.started = x.started ++ [id]) : SafeStep D x x' := by
  have hne : ∀ {id'}, id' ≠ id → x'.state id' = x.state id' := by
    intro id' hne
    rw [hstate]
    exact enter_ne x hne
  have hself : x'.state id = .running := by
    rw [hstate]
    exact enter_self x id
  constructor
  case enters =>
    intro id' hrun hnot
    have hid : id' = id := by
      by_contra hid
      exact hnot ((hne hid).symm.trans hrun)
    subst hid
    refine ⟨?_, hnone, hdeps⟩
    rw [hsound.started, hready]
    decide
  case starts =>
    intro id' hid' hfresh
    rw [hstarted] at hid'
    obtain rfl := List.mem_singleton.1 ((List.mem_append.1 hid').resolve_left hfresh)
    rw [hready]
    exact ⟨hself, by decide⟩
  case stop => exact fun _ => hstop
  case terminal =>
    intro id' hterminal
    refine hne ?_
    rintro rfl
    rw [hready] at hterminal
    cases hterminal

theorem executeDag_still (x : DagExecutor) (late : Bool) : Still x (executeDag D x late).executor := by
  have hsame : Still x x := .of_same rfl rfl rfl
  unfold executeDag
  split
  · exact hsame
  split
  · exact hsame
  split
  · rw [passed_executor]
    exact .of_promoted (skipUnlaunchedForStop_promoted D x) rfl rfl
  split
  · rw [passed_executor]
    exact hsame
  · rw [filtering_executor]
    exact hsame

theorem filterReadyStep_still {ready selected : List String}
    (h : Scheduled D ⟨x, .filtering ready (id :: rest) selected⟩) (answer : Option Bool) :
    Still x (filterReadyStep D x ready id rest selected answer).executor := by
  obtain ⟨-, -, -, hqueued, -⟩ := h
  rcases answer with _ | _ | _
  case none => exact .of_same rfl rfl rfl
  case some.false =>
    rw [filterReadyStep, filtering_executor]
    exact .of_promoted (skip_promoted (hqueued.ready id List.mem_cons_self)) (complete_stop ..) (complete_started ..)
  case some.true =>
    rw [filterReadyStep]
    split
    · rw [selectStep_executor]
      exact .of_same rfl rfl rfl
    · exact .of_same rfl rfl rfl

theorem launchStep_safe {inUse : List String} {launched skipped : Bool}
    (h : Scheduled D ⟨x, .launching (id :: rest) inUse launched skipped⟩) (drifts : Bool) :
    SafeStep D x (launchStep D x id rest inUse launched skipped drifts).executor := by
  obtain ⟨hsound, -, -, hqueued, -⟩ := h
  have hready := hqueued.ready id List.mem_cons_self
  have hdeps := hqueued.deps id List.mem_cons_self
  unfold launchStep
  split
  · rw [passed_executor]
    exact (Still.of_same rfl rfl rfl).safe
  rename_i hstop
  have hstop : x.stop = none := Option.not_isSome_iff_eq_none.1 hstop
  split
  · rw [launching_executor]
    exact (Still.of_same rfl rfl rfl).safe
  split
  · exact .of_enter hready hsound hstop hdeps rfl rfl rfl
  · rw [launching_executor]
    exact .of_enter hready hsound hstop hdeps rfl rfl rfl

theorem handleCompletion_still
    (h : Scheduled D ⟨x, .handling (id :: rest)⟩) : Still x (handleCompletion D x id rest).executor := by
  unfold handleCompletion
  split
  · exact .of_same rfl rfl rfl
  dsimp only
  split
  · rename_i hr
    -- The task has failed: its step is failed already, or it was running.
    have hagrees : x.state id = .failed ∨ x.state id = .running := h.tasked.agrees_result hr
    refine ⟨rfl, fun _ => rfl, fun id' => ?_⟩
    by_cases hid : id' = id
    · subst hid
      have hself : ((({ x with pendingTasks := x.pendingTasks.erase id' }.setState id' .failed).onStepFinished D
          id').cancelPending).state id' = .failed := setState_self ..
      obtain hfailed | hrun := hagrees
      · exact .inl (hself.trans hfailed.symm)
      · exact .inr ⟨by rw [hrun]; rfl, by rw [hself]; decide⟩
    · exact .inl (setState_ne _ hid _)
  · exact .of_same rfl rfl rfl
  · exact .of_same rfl rfl rfl

theorem recordSuccess_still (hsound : Sound D x) (hid : x.state id = .running)
    (stop : Bool) : Still x (x.recordSuccess D id stop) := by
  obtain ⟨-, -, -, hself, -, hothers⟩ := recordSuccess_cases hsound hid stop
  refine ⟨complete_started .., fun hstop => ?_, fun id' => ?_⟩
  · rw [recordSuccess_eq, complete_stop, Option.isNone_eq_false_iff.2 (Option.isSome_iff_ne_none.2 hstop),
      Bool.and_false]
    rfl
  · by_cases hne : id' = id
    · subst hne
      rw [hid, hself]
      exact .inr ⟨rfl, by decide⟩
    · refine (hothers id' hne).imp_right fun ⟨hold, hnew⟩ => ?_
      rw [hold, hnew]
      exact ⟨rfl, by decide⟩

theorem finish_still (hsound : Sound D x) (hid : x.state id = .running)
    {outcome : Outcome} (hrecorded : (Event.finish id outcome).recorded = true) :
    Still x (x.finish D id outcome) := by
  cases outcome with
  | success stop =>
    obtain ⟨hstarted, hstop, hstate⟩ := recordSuccess_still hsound hid stop
    exact ⟨hstarted, hstop, hstate⟩
  | unrecorded stop => cases hrecorded
  | failure =>
    refine ⟨rfl, fun _ => rfl, fun id' => ?_⟩
    by_cases hne : id' = id
    · subst hne
      have hself : (x.finish D id' .failure).state id' = .failed := setState_self ..
      exact .inr ⟨by rw [hid]; rfl, by rw [hself]; decide⟩
    · exact .inl (setState_ne x hne _)
  | unresolved | cancelled => exact .of_same rfl rfl rfl

theorem not_safe_unrecorded (hsound : Sound D x) (hid : x.state id = .running)
    (stop : Bool) : ¬ SafeStep D (x.recordSuccess D id stop) (x.finish D id (.unrecorded stop)) := by
  obtain ⟨-, -, -, hself, -⟩ := recordSuccess_cases hsound hid stop
  intro h
  have hsame := h.terminal id (by rw [hself]; rfl)
  have hfailed : (x.finish D id (.unrecorded stop)).state id = .failed := setState_self ..
  rw [hself, hfailed] at hsame
  cases hsame

/-! ## Every execution -/

theorem Scheduled.safeState (h : Scheduled D s) : SafeState D s := by
  refine ⟨h.sound.once, h.sound.started, fun id a ha hfailed hid => ?_, fun hcontrol => ?_⟩
  · have hdone := h.sound.ancestors id hid a ha
    rw [hfailed] at hdone
    cases hdone
  · have hplaced := h.placed
    rw [hcontrol] at hplaced
    exact hplaced rfl

theorem Scheduled.still (h : Scheduled D s) (hstep : s.step D e = some s')
    (hrecorded : e.recorded = true) (hlaunch : ∀ drifts, e ≠ .launch drifts) : Still s.executor s'.executor := by
  cases Execution.transition hstep with
  | pass x late => exact executeDag_still x late
  | condition x ready id rest selected answer => exact filterReadyStep_still h answer
  | lookup x ready id rest selected error =>
    cases error with
    | none =>
      rw [Pipeline.resolveTargetModel, selectStep_executor]
      exact .of_same rfl rfl rfl
    | some timeout => exact .of_same rfl rfl rfl
  | launch x id rest inUse launched skipped drifts => exact absurd rfl (hlaunch drifts)
  | handle x id rest => exact handleCompletion_still h
  | finish outcome _ ht hopen => exact finish_still h.sound (h.tasked.running ht hopen) hrecorded
  | cancelStep x id rest =>
    unfold cancelStep
    split <;> exact .of_same rfl rfl rfl
  | wake | interrupt | interruptCancel | returns | cancel | raise | cancelled | cancelRaise | awaited =>
    exact .of_same rfl rfl rfl

/-- A step whose event is recorded is safe. -/
theorem Scheduled.safeStep (h : Scheduled D s) (hstep : s.step D e = some s')
    (hrecorded : e.recorded = true) : SafeStep D s.executor s'.executor := by
  cases Execution.transition hstep with
  | launch x id rest inUse launched skipped drifts => exact launchStep_safe h drifts
  | _ => exact (h.still hstep hrecorded (fun _ he => by cases he)).safe

theorem Scheduled.through_iff (h : Scheduled D s) (hstep : s.step D e = some s') :
    (s.executor :: s.through D s' e).IsChain (SafeStep D) ↔ e.recorded = true := by
  constructor
  · intro hchain
    by_contra hno
    obtain ⟨id, stop, rfl⟩ : ∃ id stop, e = .finish id (.unrecorded stop) := by
      unfold Event.recorded at hno
      split at hno
      · exact ⟨_, _, rfl⟩
      · exact absurd rfl hno
    cases Execution.transition hstep with
    | finish outcome _ ht hopen =>
      have hsafe : SafeStep D _ _ := (List.isChain_cons_cons.1 (List.isChain_cons_cons.1 hchain).2).1
      exact not_safe_unrecorded h.sound (h.tasked.running ht hopen) stop hsafe
  · intro hrecorded
    have hthrough : s.through D s' e = [s'.executor] := by
      unfold Execution.through
      split
      · cases hrecorded
      · rfl
    rw [hthrough]
    exact .cons_cons (h.safeStep hstep hrecorded) (.singleton _)

/-- **Dependency safety**: every state of every execution is safe, and a step of it is safe all the way through
exactly if the events of a task that it completes are recorded. -/
theorem dag_execution_safe {s : Execution} (hs : D.system.Reachable s) : SafeState D s ∧
    ∀ e s', s.step D e = some s' →
      ((s.executor :: s.through D s' e).IsChain (SafeStep D) ↔ e.recorded = true) :=
  have h := Scheduled.reachable hs
  ⟨h.safeState, fun _ _ hstep => h.through_iff hstep⟩

/-- A step, and one that needs it. -/
def needingSteps : Dict String StepSpec :=
  ((∅ : Dict String StepSpec).set "a" ⟨[], false, none⟩).set "b" ⟨["a"], false, some "m"⟩

theorem mem_dependenciesOf_needing {dep : String} (h : dep ∈ dependenciesOf needingSteps id) :
    id = "b" ∧ dep = "a" := by
  rw [dependenciesOf, needingSteps, Dict.get?_set, Dict.get?_set] at h
  split_ifs at h with hb ha
  · exact ⟨hb, List.mem_singleton.1 h⟩
  · exact absurd h List.not_mem_nil
  · exact absurd h List.not_mem_nil

def needing : Dag where
  steps := needingSteps
  known id dep h := by
    rw [(mem_dependenciesOf_needing h).2]
    decide
  acyclic id h := by
    obtain ⟨dep, hdep, hrest⟩ := Relation.TransGen.head'_iff.1 h
    obtain ⟨rfl, rfl⟩ := mem_dependenciesOf_needing hdep
    obtain heq | ⟨_, hfirst, -⟩ := hrest.cases_head
    · exact absurd heq (by decide)
    · exact absurd (mem_dependenciesOf_needing hfirst).1 (by decide)

/-- The first step is done, and the second one runs. -/
def needingRunning : Option Execution :=
  System.exec (Execution.step needing) ⟨.start needing, .loop⟩
    [.pass false, .condition (some true), .lookup none, .launch false, .finish "a" (.success false),
      .wake ["a"], .handle, .pass false, .condition (some true), .lookup none, .launch false]

theorem needingRunning_isSome : needingRunning.isSome = true := by decide

theorem dag_execution_safe_needing : ∃ s, s.executor.started = ["a", "b"] ∧
    (s.step needing (.finish "b" (.success false))).isSome = true ∧ SafeState needing s ∧
    ∀ e s', s.step needing e = some s' →
      ((s.executor :: s.through needing s' e).IsChain (SafeStep needing) ↔ e.recorded = true) :=
  ⟨needingRunning.get needingRunning_isSome, by decide, by decide,
    dag_execution_safe (System.reachable_of_exec rfl (Option.some_get needingRunning_isSome).symm)⟩

/-- One step, which uses no model. -/
def loneSteps : Dict String StepSpec := ⟨[("a", ⟨[], false, none⟩)], List.nodup_singleton "a"⟩

theorem loneSteps_independent : ∀ item ∈ loneSteps.items, item.2.dependencies = [] := by decide

def loneStep : Dag := .independent loneSteps loneSteps_independent

/-- It runs. -/
def loneRunning : Option Execution :=
  System.exec (Execution.step loneStep) ⟨.start loneStep, .loop⟩
    [.pass false, .condition (some true), .lookup none, .launch false]

theorem loneRunning_isSome : loneRunning.isSome = true := by decide

/-- The step is completed and then fails, when its events cannot be recorded. -/
theorem lone_unrecorded : ∃ s s', loneStep.system.Reachable s ∧
    s.step loneStep (.finish "a" (.unrecorded false)) = some s' ∧
    (s.executor.recordSuccess loneStep "a" false).state "a" = .completed ∧ s'.executor.state "a" = .failed ∧
    ¬ (s.executor :: s.through loneStep s' (.finish "a" (.unrecorded false))).IsChain (SafeStep loneStep) := by
  have hreach : loneStep.system.Reachable (loneRunning.get loneRunning_isSome) :=
    System.reachable_of_exec rfl (Option.some_get loneRunning_isSome).symm
  refine ⟨_, _, hreach, rfl, by decide, by decide, fun hchain => ?_⟩
  have hterminal := (List.isChain_cons_cons.1 (List.isChain_cons_cons.1 hchain).2).1.terminal "a" (by decide)
  revert hterminal
  decide

end LlmGateway.Pipeline
