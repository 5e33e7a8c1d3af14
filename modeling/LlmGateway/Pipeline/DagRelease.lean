import LlmGateway.Pipeline.DagSafety

/-!
# What is left when an execution fails

`cancel` releases what the pending steps hold and cancels their tasks, but `run_prepared_execution_inner` calls it
behind a timeout and a cancellation only. Behind the other exceptions of `execute_dag` the pending steps keep
their model locks and their entries in the gateway tracker, and behind some of them their tasks run on.
`Execution.releases` says where a step of an execution leaves nothing behind, and an execution of such steps that
ends with an exception has released everything (`failure_releases`).
-/

namespace LlmGateway.Pipeline

/-! ## Steps that leave nothing behind -/

/-- The task has ended or has been cancelled. -/
def StepTask.settled (t : StepTask) : Bool := t.result.isSome || t.cancelRequested

variable (D : Dag)

/-- The steps have no target model, and their tasks have ended or have been cancelled. -/
def DagExecutor.idle (x : DagExecutor) (steps : List String) : Bool :=
  steps.all fun id => (D.targetModel id).isNone && (x.tasks id).all StepTask.settled

/-- Where a step of an execution raises, what the exception leaves pending holds nothing and does not run. -/
def Execution.releases (s : Execution) (e : Event) : Bool :=
  let x := s.executor
  match e, s.control with
  | .pass late, .loop => !late || x.allDone D || x.idle D x.pendingTasks
  | .condition none, .filtering .. => x.idle D x.pendingTasks
  | .lookup (some false), .resolving .. => x.idle D x.pendingTasks
  | .launch true, .launching (id :: _) inUse _ _ =>
    x.stop.isSome || !x.canLaunchWithLock (D.lockModel id) || (D.lockModel id).any inUse.contains ||
      x.idle D x.pendingTasks
  | .handle, .handling (id :: _) =>
    if x.result id = some .error then (x.pendingTasks.erase id).all fun id' => (D.targetModel id').isNone
    else if x.result id = some .cancelled then (D.targetModel id).isNone
    else true
  | .cancelNext, .awaiting id rest => x.result id != some .error || (D.targetModel id).isNone && x.idle D rest
  | _, _ => true

variable {D}

/-- Every task has ended or has been cancelled, and its step holds neither a model nor an entry of the tracker. -/
def Released (x : DagExecutor) : Prop := ∀ id t, x.tasks id = some t →
  t.settled = true ∧ x.trackedRequests.get? id = none ∧ ∀ model, x.activeModels.get? model ≠ some id

/-! ## What is held, and what runs -/

/-- What is held is held by the ones, and what runs and is not cancelled is among the others. -/
structure Tied (D : Dag) (x : DagExecutor) (held running : List String) : Prop where
  active : ∀ model id, x.activeModels.get? model = some id → id ∈ held ∧ D.targetModel id = some model
  tracked : ∀ id model, x.trackedRequests.get? id = some model → id ∈ held ∧ D.targetModel id = some model
  tasks : ∀ id t, x.tasks id = some t → t.settled = false → id ∈ running

variable {held rest running : List String} {x : DagExecutor} {id : String} {s : Execution}

theorem Tied.mono {held' running' : List String} (h : Tied D x held running)
    (hheld : ∀ id ∈ held, (D.targetModel id).isSome → id ∈ held')
    (hrunning : ∀ id ∈ running, ∀ t, x.tasks id = some t → t.settled = false → id ∈ running') :
    Tied D x held' running' := by
  constructor
  case active =>
    intro model id hactive
    obtain ⟨hmem, htarget⟩ := h.active model id hactive
    exact ⟨hheld id hmem (htarget ▸ rfl), htarget⟩
  case tracked =>
    intro id model htracked
    obtain ⟨hmem, htarget⟩ := h.tracked id model htracked
    exact ⟨hheld id hmem (htarget ▸ rfl), htarget⟩
  case tasks => exact fun id t ht hopen => hrunning id (h.tasks id t ht hopen) t ht hopen

theorem Tied.congr {x' : DagExecutor} (h : Tied D x held running)
    (hactive : x'.activeModels = x.activeModels) (htracked : x'.trackedRequests = x.trackedRequests)
    (htasks : x'.tasks = x.tasks) : Tied D x' held running := by
  constructor
  case active => rw [hactive]; exact h.active
  case tracked => rw [htracked]; exact h.tracked
  case tasks => rw [htasks]; exact h.tasks

theorem Live.tied (h : Live D x) (htasked : Tasked x) :
    Tied D x x.pendingTasks x.pendingTasks := by
  constructor
  case active =>
    intro model id hactive
    obtain ⟨hmem, hlock⟩ := h.held model id hactive
    exact ⟨hmem, targetModel_of_lockModel hlock⟩
  case tracked => exact h.tracked
  case tasks =>
    intro id t ht hopen
    rw [StepTask.settled, Bool.or_eq_false_iff] at hopen
    refine h.running id (htasked.running ht ?_)
    rw [DagExecutor.result, show x.tasks id = some t from ht]
    exact Option.isSome_eq_false_iff.1 hopen.1 |> Option.isNone_iff_eq_none.1

theorem Tied.of_idle {steps : List String} (h : Tied D x steps steps)
    (hidle : x.idle D steps = true) : Tied D x [] [] := by
  have hidle : ∀ id ∈ steps, D.targetModel id = none ∧ (x.tasks id).all StepTask.settled = true := by
    intro id hid
    have hboth := List.all_eq_true.1 hidle id hid
    rw [Bool.and_eq_true, Option.isNone_iff_eq_none] at hboth
    exact hboth
  refine h.mono (fun id hid htarget => ?_) fun id hid t ht hopen => ?_
  · rw [(hidle id hid).1] at htarget
    cases htarget
  · have hsettled := (hidle id hid).2
    rw [ht, Option.all_some, hopen] at hsettled
    cases hsettled

theorem Tied.onStepFinished (h : Tied D x (id :: rest) running) : Tied D (x.onStepFinished D id) rest running := by
  constructor
  case active =>
    intro model id' hactive
    obtain ⟨hold, hne⟩ := get?_releaseModel hactive
    obtain ⟨hmem, htarget⟩ := h.active model id' hold
    refine ⟨(List.mem_cons.1 hmem).resolve_left ?_, htarget⟩
    rintro rfl
    exact hne htarget rfl
  case tracked =>
    intro id' model htracked
    simp only [DagExecutor.onStepFinished] at htracked
    split at htracked
    · rw [Dict.get?_erase] at htracked
      split at htracked
      · cases htracked
      · rename_i hne
        obtain ⟨hmem, htarget⟩ := h.tracked id' model htracked
        exact ⟨(List.mem_cons.1 hmem).resolve_left hne, htarget⟩
    · rename_i hnone
      obtain ⟨hmem, htarget⟩ := h.tracked id' model htracked
      refine ⟨(List.mem_cons.1 hmem).resolve_left ?_, htarget⟩
      rintro rfl
      rw [htarget] at hnone
      exact hnone rfl
  case tasks => exact h.tasks

theorem settled_cancel (t : StepTask) : t.cancel.settled = true := by
  unfold StepTask.cancel StepTask.settled
  split
  · rename_i h
    rw [h, Bool.true_or]
  · exact Bool.or_true _

theorem Tied.cancelTask (h : Tied D x held (id :: running)) : Tied D (x.cancelTask id) held running := by
  refine ⟨h.active, h.tracked, fun id' t ht hopen => ?_⟩
  by_cases hid : id' = id
  · subst hid
    rw [show (x.cancelTask id').tasks id' = (x.tasks id').map StepTask.cancel from Function.update_self ..] at ht
    obtain ⟨t₀, -, rfl⟩ := Option.map_eq_some_iff.1 ht
    rw [settled_cancel] at hopen
    cases hopen
  · rw [show (x.cancelTask id).tasks id' = x.tasks id' from Function.update_of_ne hid ..] at ht
    exact (List.mem_cons.1 (h.tasks id' t ht hopen)).resolve_left hid

theorem Tied.finished {x' : DagExecutor}
    (h : Tied D x held running) (hfinished : Finished x x' id) : Tied D x' held running := by
  obtain ⟨t, r, -, htasks, -⟩ := hfinished.task
  constructor
  case active => rw [hfinished.activeModels]; exact h.active
  case tracked => rw [hfinished.trackedRequests]; exact h.tracked
  case tasks =>
    intro id' t' ht' hopen
    rw [htasks] at ht'
    by_cases hid : id' = id
    · subst hid
      rw [Function.update_self] at ht'
      obtain rfl := Option.some.inj ht'
      cases hopen
    · rw [Function.update_of_ne hid] at ht'
      exact h.tasks id' t' ht' hopen

theorem Tied.released (h : Tied D x [] []) : Released x := by
  have hnone := Dict_get?_none (d := x.trackedRequests) fun id model htracked =>
    List.not_mem_nil (h.tracked id model htracked).1
  refine fun id t ht => ⟨?_, hnone id, fun model hactive => List.not_mem_nil (h.active model id hactive).1⟩
  by_contra hopen
  exact List.not_mem_nil (h.tasks id t ht (Bool.eq_false_iff.2 hopen))

/-! ## Where the execution is -/

/-- What holds behind `execute_dag`, as long as every step leaves nothing behind. -/
def Kept (D : Dag) (x : DagExecutor) : Control → Prop
  | .returned => Tied D x x.pendingTasks x.pendingTasks
  | .raised e => Tied D x x.pendingTasks x.pendingTasks ∧ (e.cancels = false → Tied D x [] [])
  | .cancelling rest => Tied D x rest rest
  | .awaiting id rest => Tied D x (id :: rest) rest
  | .ended ending => ending ≠ .returned → Tied D x [] []
  | _ => True

/-- The places in the loop, and the end that is never reached. -/
def Control.looping : Control → Bool
  | loop | filtering .. | resolving .. | launching .. | waiting | handling _ | raised .deadlock => true
  | _ => false

theorem passed_looping (x : DagExecutor) (progress : Bool) : (passed D x progress).control.looping = true := by
  unfold passed
  split
  · rfl
  · split <;> rfl

theorem launching_looping (x : DagExecutor) (rest inUse : List String) (launched skipped : Bool) :
    (launching D x rest inUse launched skipped).control.looping = true := by
  unfold launching
  split
  · exact passed_looping ..
  · rfl

theorem filtering_looping (x : DagExecutor) (ready rest selected : List String) :
    (filtering D x ready rest selected).control.looping = true := by
  unfold filtering
  dsimp only
  split
  · rfl
  · split
    · exact passed_looping ..
    · rfl

theorem selectStep_looping (x : DagExecutor) (ready : List String) (id : String) (rest selected : List String) :
    (selectStep D x ready id rest selected).control.looping = true := by
  unfold selectStep
  split <;> exact filtering_looping ..

theorem Scheduled.kept (h : Scheduled D s) (hlooping : s.control.looping = true) :
    Kept D s.executor s.control := by
  obtain ⟨x, control⟩ := s
  cases control with
  | raised e =>
    cases e with
    | deadlock => exact absurd rfl h.placed
    | _ => cases hlooping
  | loop | filtering | resolving | launching | waiting | handling => trivial
  | returned | cancelling | awaiting | ended => cases hlooping

theorem Kept.raised (h : Tied D x x.pendingTasks x.pendingTasks)
    (hidle : x.idle D x.pendingTasks = true) (e : ExecuteError) : Kept D x (.raised e) :=
  ⟨h, fun _ => h.of_idle hidle⟩

theorem executeDag_cases (D : Dag) (x : DagExecutor) (late : Bool) :
    (executeDag D x late).control.looping = true ∨ executeDag D x late = ⟨x, .returned⟩ ∨
      (late = true ∧ x.allDone D = false ∧ executeDag D x late = ⟨x, .raised .deadline⟩) := by
  unfold executeDag
  split
  · exact .inr (.inl rfl)
  rename_i hdone
  split
  · exact .inr (.inr ⟨‹_›, Bool.eq_false_iff.2 hdone, rfl⟩)
  split
  · exact .inl (passed_looping ..)
  split
  · exact .inl (passed_looping ..)
  · exact .inl (filtering_looping ..)

theorem filterReadyStep_cases (D : Dag) (x : DagExecutor) (ready : List String) (id : String)
    (rest selected : List String) (answer : Option Bool) :
    (filterReadyStep D x ready id rest selected answer).control.looping = true ∨
      (answer = none ∧ filterReadyStep D x ready id rest selected answer = ⟨x, .raised (.definition id)⟩) := by
  rcases answer with _ | _ | _
  case none => exact .inr ⟨rfl, rfl⟩
  case some.false => exact .inl (filtering_looping ..)
  case some.true =>
    rw [filterReadyStep]
    split
    · exact .inl (selectStep_looping ..)
    · exact .inl rfl

theorem launchStep_cases (D : Dag) (x : DagExecutor) (id : String) (rest inUse : List String)
    (launched skipped drifts : Bool) :
    (launchStep D x id rest inUse launched skipped drifts).control.looping = true ∨
      (drifts = true ∧ x.stop.isSome = false ∧
        (!x.canLaunchWithLock (D.lockModel id) || (D.lockModel id).any inUse.contains) = false ∧
        launchStep D x id rest inUse launched skipped drifts = ⟨x.enter id, .raised (.drift id)⟩) := by
  unfold launchStep
  split
  · exact .inl (passed_looping ..)
  rename_i hstop
  split
  · exact .inl (launching_looping ..)
  rename_i hfree
  split
  · exact .inr ⟨‹_›, Bool.eq_false_iff.2 hstop, Bool.eq_false_iff.2 hfree, rfl⟩
  · exact .inl (launching_looping ..)

theorem Kept.of_cases (h : Scheduled D s) {P : Prop}
    (hcases : s.control.looping = true ∨ P) (hP : P → Kept D s.executor s.control) :
    Kept D s.executor s.control :=
  hcases.elim h.kept hP

theorem executeDag_kept (h : Scheduled D ⟨x, .loop⟩) {late : Bool}
    (hreleases : Execution.releases D ⟨x, .loop⟩ (.pass late) = true) :
    Kept D (executeDag D x late).executor (executeDag D x late).control := by
  have htied := h.placed.1.tied h.tasked
  refine .of_cases (h.executeDag late) (executeDag_cases D x late) ?_
  rintro (heq | ⟨hlate, hdone, heq⟩) <;> rw [heq]
  · exact htied
  · simp only [Execution.releases, hlate, hdone, Bool.not_true, Bool.false_or] at hreleases
    exact .raised htied hreleases _

theorem filterReadyStep_kept {ready selected : List String}
    (h : Scheduled D ⟨x, .filtering ready (id :: rest) selected⟩) {answer : Option Bool}
    (hreleases : Execution.releases D ⟨x, .filtering ready (id :: rest) selected⟩ (.condition answer) = true) :
    Kept D (filterReadyStep D x ready id rest selected answer).executor
      (filterReadyStep D x ready id rest selected answer).control := by
  have htied := h.placed.1.tied h.tasked
  refine .of_cases (h.filterReadyStep answer) (filterReadyStep_cases D x ready id rest selected answer) ?_
  rintro ⟨rfl, heq⟩
  rw [heq]
  exact .raised htied hreleases _

theorem resolveTargetModel_kept {ready selected : List String}
    (h : Scheduled D ⟨x, .resolving ready id rest selected⟩) {error : Option Bool}
    (hreleases : Execution.releases D ⟨x, .resolving ready id rest selected⟩ (.lookup error) = true) :
    Kept D (resolveTargetModel D x ready id rest selected error).executor
      (resolveTargetModel D x ready id rest selected error).control := by
  have htied := h.placed.1.tied h.tasked
  rcases error with _ | _ | _
  case none => exact (h.resolveTargetModel none).kept (selectStep_looping ..)
  case some.false => exact .raised htied hreleases _
  case some.true => exact ⟨htied, fun hcancels => by cases hcancels⟩

theorem launchStep_kept {inUse : List String} {launched skipped : Bool}
    (h : Scheduled D ⟨x, .launching (id :: rest) inUse launched skipped⟩) {drifts : Bool}
    (hreleases : Execution.releases D ⟨x, .launching (id :: rest) inUse launched skipped⟩ (.launch drifts) = true) :
    Kept D (launchStep D x id rest inUse launched skipped drifts).executor
      (launchStep D x id rest inUse launched skipped drifts).control := by
  have htied := h.placed.1.tied h.tasked
  refine .of_cases (h.launchStep drifts) (launchStep_cases D x id rest inUse launched skipped drifts) ?_
  rintro ⟨rfl, hstop, hfree, heq⟩
  rw [Bool.or_eq_false_iff] at hfree
  simp only [Execution.releases, hstop, hfree.1, hfree.2, Bool.false_or] at hreleases
  rw [heq]
  exact .raised (x := x.enter id) (htied.congr rfl rfl rfl) hreleases _

theorem Tied.stepFailed (h : Tied D x x.pendingTasks x.pendingTasks)
    (hended : (x.result id).isSome = true) (hnone : ∀ id' ∈ x.pendingTasks.erase id, D.targetModel id' = none) :
    Tied D ((({ x with pendingTasks := x.pendingTasks.erase id }.setState id .failed).onStepFinished D
      id).cancelPending) [] [] := by
  have hother : ∀ {id'}, id' ∈ x.pendingTasks → id' ≠ id → id' ∈ x.pendingTasks.erase id :=
    fun hmem hne => (List.mem_erase_of_ne hne).2 hmem
  have hheld : Tied D x [id] x.pendingTasks := by
    refine h.mono (fun id' hid' htarget => ?_) fun id' hid' _ _ _ => hid'
    by_cases hid : id' = id
    · exact List.mem_singleton.2 hid
    · rw [hnone id' (hother hid' hid)] at htarget
      cases htarget
  have hpopped : Tied D (({ x with pendingTasks := x.pendingTasks.erase id }.setState id .failed).onStepFinished D
      id) [] x.pendingTasks := .onStepFinished (hheld.congr rfl rfl rfl)
  refine ⟨hpopped.active, hpopped.tracked, fun id' t ht hopen => ?_⟩
  simp only [DagExecutor.cancelPending] at ht
  split at ht
  · obtain ⟨t₀, -, rfl⟩ := Option.map_eq_some_iff.1 ht
    rw [settled_cancel] at hopen
    cases hopen
  · rename_i hno
    have hid : id' = id := by
      by_contra hid
      exact hno (List.contains_iff_mem.2 (hother (h.tasks id' t ht hopen) hid))
    subst hid
    rw [DagExecutor.result, show x.tasks id' = some t from ht] at hended
    rw [StepTask.settled, show t.result.isSome = true from hended] at hopen
    cases hopen

theorem handleCompletion_kept (h : Scheduled D ⟨x, .handling (id :: rest)⟩)
    (hreleases : Execution.releases D ⟨x, .handling (id :: rest)⟩ .handle = true) :
    Kept D (handleCompletion D x id rest).executor (handleCompletion D x id rest).control := by
  have htied := h.placed.1.tied h.tasked
  obtain ⟨hmem, hended⟩ := h.placed.2.2.1 id List.mem_cons_self
  obtain ⟨r, hr⟩ := Option.isSome_iff_exists.1 hended
  have hcontains : D.steps.contains id = true :=
    h.sound.contains (h.tasked.agrees_result hr).started.1
  simp only [Execution.releases, hr, Option.some.injEq] at hreleases
  unfold handleCompletion
  rw [hcontains, Bool.not_true, if_neg Bool.false_ne_true]
  dsimp only
  rw [show x.result id = some r from hr]
  rcases r with _ | _ | _ <;> dsimp only
  · split <;> trivial
  · have hnone : ∀ id' ∈ x.pendingTasks.erase id, D.targetModel id' = none := by
      simpa using hreleases
    have hempty := htied.stepFailed hended hnone
    exact ⟨hempty.mono (fun id' hid' => absurd hid' List.not_mem_nil) fun id' hid' => absurd hid' List.not_mem_nil,
      fun _ => hempty⟩
  · -- The popped step has no target model, and its task has ended.
    have hnone : D.targetModel id = none := by simpa using hreleases
    have hother : ∀ {id'}, id' ∈ x.pendingTasks → id' ≠ id → id' ∈ x.pendingTasks.erase id :=
      fun hmem hne => (List.mem_erase_of_ne hne).2 hmem
    refine ⟨(htied.mono (fun id' hid' htarget => hother hid' ?_) fun id' hid' t ht hopen => hother hid' ?_).congr
      rfl rfl rfl, fun hcancels => by cases hcancels⟩
    · rintro rfl
      rw [hnone] at htarget
      cases htarget
    · rintro rfl
      rw [DagExecutor.result, show x.tasks id' = some t from ht] at hr
      rw [StepTask.settled, show t.result = some .cancelled from hr] at hopen
      cases hopen

theorem finish_kept {control : Control} (h : Scheduled D ⟨x, control⟩)
    (hkept : Kept D x control) {t : StepTask} (ht : x.tasks id = some t) (hopen : x.result id = none)
    (outcome : Outcome) : Kept D (x.finish D id outcome) control := by
  have hfinished := (finish_cases h.sound (h.tasked.running ht hopen) ht outcome).2
  cases control with
  | returned =>
    rw [Kept, hfinished.pendingTasks]
    exact Tied.finished hkept hfinished
  | raised e =>
    rw [Kept, hfinished.pendingTasks]
    exact ⟨hkept.1.finished hfinished, fun hcancels => (hkept.2 hcancels).finished hfinished⟩
  | cancelling rest | awaiting id' rest => exact Tied.finished hkept hfinished
  | ended ending => exact fun hne => (hkept hne).finished hfinished
  | loop | filtering | resolving | launching | waiting | handling => trivial

theorem interrupt_kept {control : Control} (h : Scheduled D ⟨x, control⟩)
    (hkept : Kept D x control) (hinterruptible : control.interruptible = true) :
    Kept D x (.cancelling x.pendingTasks) := by
  cases control with
  | resolving ready id rest selected => exact h.placed.1.tied h.tasked
  | waiting => exact Live.tied h.placed h.tasked
  | returned => exact hkept
  | raised e => exact hkept.1
  | loop | filtering | launching | handling | cancelling | awaiting | ended => cases hinterruptible

theorem cancelStep_kept (h : Kept D x (.cancelling (id :: rest))) :
    Kept D (cancelStep D x id rest).executor (cancelStep D x id rest).control := by
  have htied : Tied D x (id :: rest) (id :: rest) := h
  unfold cancelStep
  split
  · rename_i hended
    refine Tied.onStepFinished (htied.mono (fun id' hid' _ => hid') fun id' hid' t ht hopen => ?_)
    refine (List.mem_cons.1 hid').resolve_left ?_
    rintro rfl
    rw [DagExecutor.result, show x.tasks id' = some t from ht] at hended
    rw [StepTask.settled, show t.result.isSome = true from hended] at hopen
    cases hopen
  · exact Tied.cancelTask htied

theorem cancelRaise_kept (h : Kept D x (.awaiting id rest)) (hr : x.result id = some .error)
    (hreleases : Execution.releases D ⟨x, .awaiting id rest⟩ .cancelNext = true) :
    Kept D x (.ended (.cancelRaised id)) := by
  have htied : Tied D x (id :: rest) rest := h
  simp only [Execution.releases, hr, bne_self_eq_false, Bool.false_or, Bool.and_eq_true,
    Option.isNone_iff_eq_none] at hreleases
  obtain ⟨hnone, hidle⟩ := hreleases
  refine fun _ => Tied.of_idle (htied.mono (fun id' hid' htarget => ?_) fun id' hid' _ _ _ => hid') hidle
  refine (List.mem_cons.1 hid').resolve_left ?_
  rintro rfl
  rw [hnone] at htarget
  cases htarget

/-! ## Every execution -/

/-- A step that releases what it has to keeps locks and slots with those that run. -/
theorem Kept.step {s' : Execution} {e : Event} (h : Scheduled D s) (hkept : Kept D s.executor s.control)
    (hstep : s.step D e = some s') (hreleases : s.releases D e = true) : Kept D s'.executor s'.control := by
  cases Execution.transition hstep with
  | pass x late => exact executeDag_kept h hreleases
  | condition x ready id rest selected answer => exact filterReadyStep_kept h hreleases
  | lookup x ready id rest selected error => exact resolveTargetModel_kept h hreleases
  | launch x id rest inUse launched skipped drifts => exact launchStep_kept h hreleases
  | wake hne hdone => trivial
  | handle x id rest => exact handleCompletion_kept h hreleases
  | finish outcome _ ht hopen => exact finish_kept h hkept ht hopen outcome
  | interrupt x hinterruptible => exact interrupt_kept h hkept hinterruptible
  | interruptCancel x id rest | awaited rest _ _ => exact Tied.onStepFinished hkept
  | returns x => exact fun hne => absurd rfl hne
  | cancel x _ => exact hkept.1
  | raise x hcancels => exact fun _ => hkept.2 hcancels
  | cancelled x => exact fun _ => Tied.congr hkept rfl rfl rfl
  | cancelStep x id rest => exact cancelStep_kept hkept
  | cancelRaise rest hr => exact cancelRaise_kept hkept hr hreleases

/-- **Failure releases everything**, in an execution whose steps leave nothing behind. -/
theorem failure_releases {s : Execution} {ending : Ending}
    (hs : (D.system.restrict fun s e => s.releases D e = true).Reachable s) (hended : s.control = .ended ending)
    (hfailed : ending ≠ .returned) : Released s.executor := by
  have h : Scheduled D s ∧ Kept D s.executor s.control := by
    refine hs.invariant (I := fun s => Scheduled D s ∧ Kept D s.executor s.control) ?_ ?_
    · rintro _ rfl
      exact ⟨.start D, trivial⟩
    · rintro s e s' ⟨hscheduled, hkept⟩ ⟨hreleases, hstep⟩
      exact ⟨hscheduled.step hstep, hkept.step hscheduled hstep hreleases⟩
  have hkept := h.2
  rw [hended] at hkept
  exact (hkept hfailed).released

/-- Both steps run, and the client goes away. -/
def twoCancelled : Option Execution :=
  System.exec (System.guarded (Execution.step twoModels) fun s e => s.releases twoModels e = true)
    ⟨.start twoModels, .loop⟩
    [.pass false, .condition (some true), .lookup none, .condition (some true), .lookup none, .launch false,
      .launch false, .interrupt, .cancelNext, .finish "a" .cancelled, .cancelNext, .cancelNext,
      .finish "b" .failure, .interrupt, .cancelNext]

theorem twoCancelled_isSome : twoCancelled.isSome = true := by decide

theorem twoCancelled_released : Released (twoCancelled.get twoCancelled_isSome).executor :=
  failure_releases
    (System.reachable_of_exec_guarded rfl (Option.some_get twoCancelled_isSome).symm) rfl (by decide)

/-- Both steps run, and the first one fails. -/
def twoFailed : Option Execution :=
  System.exec (Execution.step twoModels) ⟨.start twoModels, .loop⟩
    [.pass false, .condition (some true), .lookup none, .condition (some true), .lookup none, .launch false,
      .launch false, .finish "a" .failure, .wake ["a"], .handle, .settle]

theorem twoFailed_isSome : twoFailed.isSome = true := by decide

/-- The other step keeps its model and its entry. -/
theorem twoFailed_not_released : ∃ s, twoModels.system.Reachable s ∧
    s.control = .ended (.raised (.stepFailed "a")) ∧ s.executor.activeModels.get? "m2" = some "b" ∧
    s.executor.trackedRequests.get? "b" = some "m2" ∧ ¬ Released s.executor := by
  have hreach : twoModels.system.Reachable (twoFailed.get twoFailed_isSome) :=
    System.reachable_of_exec rfl (Option.some_get twoFailed_isSome).symm
  have htracked : (twoFailed.get twoFailed_isSome).executor.trackedRequests.get? "b" = some "m2" := by decide
  refine ⟨_, hreach, rfl, by decide, htracked, fun h => ?_⟩
  have htask : (twoFailed.get twoFailed_isSome).executor.tasks "b" = some ⟨true, none⟩ := by decide
  rw [(h "b" _ htask).2.1] at htracked
  cases htracked

end LlmGateway.Pipeline
