import LlmGateway.Pipeline.DagStates
import Mathlib.Data.Fintype.Card
import Mathlib.Data.Set.Finite.Basic
import Mathlib.Order.WellFounded

/-!
# The invariant of the DAG executor

`Scheduled` relates the states of the steps to the tasks and to where the executor is: a step that runs has a
pending task, a step that has failed has a task whose error is not handled yet, and what a pass has selected is
ready and stays ready until it is launched. Every step of an execution keeps it (`Scheduled.step`).
-/

namespace LlmGateway.Pipeline

variable {D : Dag}

/-! ## Tasks -/

/-- The state of a step whose task has the result. -/
def Agrees : Option TaskResult → StepState → Prop
  | none, state => state = .running
  | some .ok, state => state = .completed
  | some .error, state => state = .failed ∨ state = .running
  | some .cancelled, state => state = .running

/-- What the tasks satisfy at any time. -/
structure Tasked (x : DagExecutor) : Prop where
  nodup : x.pendingTasks.Nodup
  created : ∀ id ∈ x.pendingTasks, ∃ t, x.tasks id = some t
  agrees : ∀ id t, x.tasks id = some t → Agrees t.result (x.state id)

/-- What holds as long as `execute_dag` runs. -/
structure Live (D : Dag) (x : DagExecutor) : Prop where
  running : ∀ id, x.state id = .running → id ∈ x.pendingTasks
  failed : ∀ id, x.state id = .failed → id ∈ x.pendingTasks ∧ x.result id = some .error
  /-- A model is held by a pending step. -/
  held : ∀ model id, x.activeModels.get? model = some id → id ∈ x.pendingTasks ∧ D.lockModel id = some model
  locked : ∀ id model, x.state id = .running → D.lockModel id = some model →
    x.activeModels.get? model = some id
  tracked : ∀ id model, x.trackedRequests.get? id = some model →
    id ∈ x.pendingTasks ∧ D.targetModel id = some model

/-- The steps are ready, and all that they need is done. -/
structure Queued (D : Dag) (x : DagExecutor) (l : List String) : Prop where
  nodup : l.Nodup
  ready : ∀ id ∈ l, x.state id = .ready
  deps : ∀ id ∈ l, ∀ dep ∈ D.dependencies id, (x.state dep).done = true

/-- What was ready is queued or has been skipped. -/
structure Accounted (x : DagExecutor) (ready l : List String) : Prop where
  stop : x.stop = none
  nonempty : ready ≠ []
  rest : ∀ id ∈ ready, id ∈ l ∨ x.state id = .skipped

/-- What holds where the executor is. -/
def Placed (D : Dag) (x : DagExecutor) : Control → Prop
  | .loop => Live D x ∧ ∀ id ∈ x.pendingTasks, x.result id = none
  | .filtering ready rest selected => Live D x ∧ Queued D x (rest ++ selected) ∧
      (x.pendingTasks = [] → Accounted x ready (rest ++ selected))
  | .resolving ready id rest selected => Live D x ∧ Queued D x (id :: (rest ++ selected)) ∧
      (x.pendingTasks = [] → Accounted x ready (id :: (rest ++ selected)))
  | .launching rest inUse _ _ => Live D x ∧ Queued D x rest ∧ (x.pendingTasks = [] → x.stop = none ∧ inUse = [])
  | .waiting => Live D x
  | .handling done => Live D x ∧ done.Nodup ∧ (∀ id ∈ done, id ∈ x.pendingTasks ∧ (x.result id).isSome) ∧
      ∀ id ∈ x.pendingTasks, (x.result id).isSome → id ∈ done
  | .raised e => e ≠ .deadlock
  | _ => True

/-- The invariant of an execution. -/
structure Scheduled (D : Dag) (s : Execution) : Prop where
  sound : Sound D s.executor
  tasked : Tasked s.executor
  placed : Placed D s.executor s.control

/-! ## Where the executor goes -/

theorem Dict_get?_none {ν : Type} {d : Dict String ν} (h : ∀ k v, d.get? k ≠ some v) (k : String) :
    d.get? k = none := by
  rcases hk : d.get? k with _ | v
  · rfl
  · exact absurd hk (h k v)

variable {x x' : DagExecutor} {l ready rest selected : List String} {id id' model : String}
  {state : StepState} {t : StepTask}

theorem Live.canLaunch (h : Live D x) (hpending : x.pendingTasks = []) (model : Option String) :
    x.canLaunchWithLock model = true := by
  cases model with
  | none => rfl
  | some model =>
    have hnone := Dict_get?_none (d := x.activeModels) (fun k v hk => by
      have := (h.held k v hk).1
      rw [hpending] at this
      cases this) model
    simp [DagExecutor.canLaunchWithLock, Dict.contains, hnone]

theorem Scheduled.passed (hsound : Sound D x) (htasked : Tasked x) (hlive : Live D x)
    {progress : Bool} (h : x.pendingTasks = [] → progress = true ∨ x.allDone D = true) :
    Scheduled D (passed D x progress) := by
  unfold Pipeline.passed
  split
  · exact ⟨hsound, htasked, hlive⟩
  rename_i hpending
  rw [not_not] at hpending
  split
  · refine ⟨hsound, htasked, hlive, fun id hid => ?_⟩
    rw [show x.pendingTasks = [] from hpending] at hid
    cases hid
  · rename_i hno
    rw [Bool.or_eq_true] at hno
    exact absurd (h hpending) hno

theorem Scheduled.launching (hsound : Sound D x) (htasked : Tasked x) (hlive : Live D x)
    {inUse : List String} (hqueued : Queued D x rest)
    (h : x.pendingTasks = [] → rest ≠ [] ∧ x.stop = none ∧ inUse = []) (launched skipped : Bool) :
    Scheduled D (launching D x rest inUse launched skipped) := by
  unfold Pipeline.launching
  split
  · rename_i hrest
    exact .passed hsound htasked hlive fun hpending => absurd hrest (h hpending).1
  · exact ⟨hsound, htasked, hlive, hqueued, fun hpending => (h hpending).2⟩

theorem Scheduled.filtering (hsound : Sound D x) (htasked : Tasked x) (hlive : Live D x)
    (hqueued : Queued D x (rest ++ selected)) (h : x.pendingTasks = [] → Accounted x ready (rest ++ selected)) :
    Scheduled D (filtering D x ready rest selected) := by
  unfold Pipeline.filtering
  dsimp only
  split
  · exact ⟨hsound, htasked, hlive, hqueued, h⟩
  rename_i hrest
  rw [not_not] at hrest
  subst hrest
  split
  · -- All that was ready has been skipped.
    rename_i hselected
    subst hselected
    refine .passed hsound htasked hlive fun hpending => .inl ?_
    obtain ⟨-, hne, hall⟩ := h hpending
    obtain ⟨id, hid⟩ := List.exists_mem_of_ne_nil _ hne
    have hskipped := (hall id hid).resolve_left List.not_mem_nil
    exact List.any_eq_true.2 ⟨id, hid, beq_iff_eq.2 hskipped⟩
  · exact ⟨hsound, htasked, hlive, hqueued, fun hpending => ⟨(h hpending).stop, rfl⟩⟩

theorem Queued.perm {l' : List String} (h : Queued D x l) (hperm : l'.Perm l) :
    Queued D x l' :=
  ⟨hperm.nodup_iff.2 h.nodup, fun id hid => h.ready id (hperm.subset hid), fun id hid => h.deps id (hperm.subset hid)⟩

theorem Queued.tail (h : Queued D x (id :: l)) : Queued D x l :=
  ⟨h.nodup.of_cons, fun id' hid => h.ready id' (.tail _ hid), fun id' hid => h.deps id' (.tail _ hid)⟩

theorem Accounted.perm {l' : List String} (h : Accounted x ready l) (hperm : l.Perm l') :
    Accounted x ready l' :=
  ⟨h.stop, h.nonempty, fun id hid => (h.rest id hid).imp_left fun h => hperm.subset h⟩

theorem Scheduled.selectStep (hsound : Sound D x) (htasked : Tasked x) (hlive : Live D x)
    (hqueued : Queued D x (id :: (rest ++ selected)))
    (h : x.pendingTasks = [] → Accounted x ready (id :: (rest ++ selected))) :
    Scheduled D (selectStep D x ready id rest selected) := by
  have hperm : (id :: (rest ++ selected)).Perm (rest ++ (selected ++ [id])) := by
    rw [← List.append_assoc]
    exact (List.perm_append_singleton id _).symm
  unfold Pipeline.selectStep
  split
  · exact .filtering hsound htasked hlive (hqueued.perm hperm.symm) fun hp => (h hp).perm hperm
  · rename_i hno
    exact .filtering hsound htasked hlive hqueued.tail fun hp => absurd (hlive.canLaunch hp _) hno

/-! ## Steps that are promoted or skipped -/

/-- Some steps that have not started become ready or skipped, and nothing else changes. -/
structure Promoted (x x' : DagExecutor) : Prop where
  state : ∀ id, x'.state id = x.state id ∨ ((x.state id = .pending ∨ x.state id = .ready) ∧
    (x'.state id = .ready ∨ x'.state id = .skipped))
  tasks : x'.tasks = x.tasks
  pendingTasks : x'.pendingTasks = x.pendingTasks
  activeModels : x'.activeModels = x.activeModels
  trackedRequests : x'.trackedRequests = x.trackedRequests

theorem Promoted.same (h : Promoted x x')
    (hready : state ≠ .ready) (hskipped : state ≠ .skipped) (h' : x'.state id = state) : x.state id = state := by
  obtain h'' | ⟨-, h'' | h''⟩ := h.state id
  · exact h''.symm.trans h'
  · exact absurd (h'.symm.trans h'') hready
  · exact absurd (h'.symm.trans h'') hskipped

theorem Promoted.kept (h : Promoted x x') (hpending : x.state id ≠ .pending)
    (hready : x.state id ≠ .ready) : x'.state id = x.state id :=
  (h.state id).resolve_right fun h' => h'.1.elim hpending hready

theorem Agrees.started {result : Option TaskResult} (h : Agrees result state) :
    state ≠ .pending ∧ state ≠ .ready := by
  rcases result with _ | _ | _ | _
  · rw [show state = .running from h]
    decide
  · rw [show state = .completed from h]
    decide
  · obtain h | h := (h : state = .failed ∨ state = .running) <;> rw [h] <;> decide
  · rw [show state = .running from h]
    decide

theorem Promoted.tasked (h : Promoted x x') (hx : Tasked x) : Tasked x' := by
  constructor
  case nodup => exact h.pendingTasks ▸ hx.nodup
  case created =>
    rw [h.pendingTasks, h.tasks]
    exact hx.created
  case agrees =>
    intro id t ht
    rw [h.tasks] at ht
    have hagrees := hx.agrees id t ht
    rw [h.kept hagrees.started.1 hagrees.started.2]
    exact hagrees

theorem Promoted.live (h : Promoted x x') (hx : Live D x) : Live D x' := by
  have hresult : ∀ id, x'.result id = x.result id := fun id => by rw [DagExecutor.result, h.tasks]; rfl
  constructor <;> intro id
  case running =>
    intro hrun
    rw [h.pendingTasks]
    exact hx.running id (h.same (by decide) (by decide) hrun)
  case failed =>
    intro hfailed
    rw [h.pendingTasks, hresult]
    exact hx.failed id (h.same (by decide) (by decide) hfailed)
  case held =>
    rw [h.pendingTasks, h.activeModels]
    exact hx.held id
  case locked =>
    intro model hrun
    rw [h.activeModels]
    exact hx.locked id model (h.same (by decide) (by decide) hrun)
  case tracked =>
    rw [h.pendingTasks, h.trackedRequests]
    exact hx.tracked id

theorem skipUnlaunchedForStop_promoted (D : Dag) (x : DagExecutor) : Promoted x (x.skipUnlaunchedForStop D) := by
  refine ⟨fun id => ?_, rfl, rfl, rfl, rfl⟩
  obtain ⟨h, hold⟩ | ⟨h, -⟩ := skipUnlaunchedForStop_state D x id
  · exact .inr ⟨hold, .inr h⟩
  · exact .inl h

theorem complete_rest (D : Dag) (x : DagExecutor) (id : String) (state : StepState) (stop : Option String) :
    ∃ states, x.complete D id state stop = { x with state := states, stop := stop } := by
  obtain ⟨states, h⟩ := propagateCompletion_rest (D := D) { x.setState id state with stop := stop } id
  exact ⟨states, h⟩

theorem skip_promoted (hready : x.state id = .ready) :
    Promoted x (x.skip D id) := by
  obtain ⟨states, h⟩ := complete_rest D x id .skipped x.stop
  rw [skip_eq]
  refine ⟨fun id' => ?_, ?_, ?_, ?_, ?_⟩
  · obtain ⟨rfl, h'⟩ | ⟨-, h' | ⟨h', hpending, -⟩⟩ := complete_state D x id x.stop (rfl : StepState.skipped.done = true) id'
    · exact .inr ⟨.inr hready, .inr h'⟩
    · exact .inl h'
    · exact .inr ⟨.inl hpending, .inl h'⟩
  all_goals rw [h]

/-! ## A pass -/

theorem mem_ids : id ∈ D.ids ↔ D.steps.contains id = true := by
  rw [Dag.ids, List.mem_map, Dict.contains_iff]
  constructor
  · rintro ⟨⟨_, spec⟩, hspec, rfl⟩
    exact ⟨spec, Dict.mem_items_iff.1 hspec⟩
  · rintro ⟨spec, hspec⟩
    exact ⟨(id, spec), Dict.mem_items_iff.2 hspec, rfl⟩

theorem exists_first_pending (D : Dag) (x : DagExecutor) (hc : D.steps.contains id = true)
    (hid : x.state id = .pending) : ∃ id, D.steps.contains id = true ∧ x.state id = .pending ∧
      ∀ dep ∈ D.dependencies id, x.state dep ≠ .pending := by
  -- The order of the steps is well founded, since there are finitely many of them and no cycle.
  let Step := { id : String // id ∈ D.ids }
  let R : Step → Step → Prop := fun a b => D.Ancestor b.1 a.1
  have : Finite Step := (List.finite_toSet D.ids).to_subtype
  have : IsTrans Step R := ⟨fun a b c hab hbc => hbc.trans hab⟩
  have : Std.Irrefl R := ⟨fun a => D.acyclic a.1⟩
  have hwf : WellFounded R := Finite.wellFounded_of_trans_of_irrefl R
  obtain ⟨first, hfirst, hmin⟩ := hwf.has_min { a : Step | x.state a.1 = .pending } ⟨⟨id, mem_ids.2 hc⟩, hid⟩
  refine ⟨first.1, mem_ids.1 first.2, hfirst, fun dep hdep hpending => ?_⟩
  exact hmin ⟨dep, mem_ids.2 (D.known first.1 dep hdep)⟩ hpending (.single hdep)

theorem Live.idle (h : Live D x) (hpending : x.pendingTasks = []) (id : String) :
    x.state id ≠ .running ∧ x.state id ≠ .failed := by
  constructor
  · intro hrun
    have := h.running id hrun
    rw [hpending] at this
    cases this
  · intro hfailed
    have := (h.failed id hfailed).1
    rw [hpending] at this
    cases this

theorem mem_readySteps :
    id ∈ x.readySteps D ↔ D.steps.contains id = true ∧ x.state id = .ready := by
  rw [DagExecutor.readySteps, List.mem_filter, mem_ids, beq_iff_eq]

/-- **No deadlock**: when no step is ready, is running or has failed, all of them are done. -/
theorem Sound.allDone (h : Sound D x) (hstop : x.stop = none)
    (hidle : ∀ id, x.state id ≠ .running ∧ x.state id ≠ .failed) (hready : x.readySteps D = []) :
    x.allDone D = true := by
  have hnotReady : ∀ id, x.state id ≠ .ready := by
    intro id hid
    have hmem := mem_readySteps.2 ⟨h.contains (by rw [hid]; decide), hid⟩
    rw [hready] at hmem
    cases hmem
  refine List.all_eq_true.2 fun id hid => ?_
  rcases hstate : x.state id
  case pending =>
    -- The first pending step needs something that is not done, but nothing else is left.
    obtain ⟨first, hc, hfirst, hmin⟩ := exists_first_pending D x (mem_ids.1 hid) hstate
    obtain ⟨dep, hdep, hnot⟩ := h.blocked hstop first hc hfirst
    have hne := hmin dep hdep
    rcases hd : x.state dep <;> rw [hd] at hnot hne
    · exact absurd rfl hne
    · exact absurd hd (hnotReady dep)
    · exact absurd hd (hidle dep).1
    · cases hnot
    · cases hnot
    · exact absurd hd (hidle dep).2
  case ready => exact absurd hstate (hnotReady id)
  case running => exact absurd hstate (hidle id).1
  case completed => rfl
  case skipped => rfl
  case failed => exact absurd hstate (hidle id).2

theorem Scheduled.executeDag (h : Scheduled D ⟨x, .loop⟩) (late : Bool) :
    Scheduled D (executeDag D x late) := by
  obtain ⟨hsound, htasked, hlive, hopen⟩ := h
  unfold Pipeline.executeDag
  split
  · exact ⟨hsound, htasked, trivial⟩
  split
  · exact ⟨hsound, htasked, ExecuteError.noConfusion⟩
  split
  · rename_i hstop
    have hpromoted := skipUnlaunchedForStop_promoted D x
    refine .passed (hsound.skipUnlaunchedForStop (Option.isSome_iff_ne_none.1 hstop)) (hpromoted.tasked htasked)
      (hpromoted.live hlive) fun hpending => ?_
    rw [or_iff_not_imp_left, Bool.not_eq_true, List.any_eq_false]
    intro hno
    refine List.all_eq_true.2 fun id hid => ?_
    have hidle := hlive.idle hpending id
    have hno := hno id hid
    rw [Bool.or_eq_true, beq_iff_eq, beq_iff_eq, not_or] at hno
    rw [hpromoted.kept hno.1 hno.2]
    rcases hstate : x.state id <;> simp_all [StepState.terminal]
  rename_i hstop
  have hstop : x.stop = none := Option.not_isSome_iff_eq_none.1 hstop
  split
  · rename_i hready
    exact .passed hsound htasked hlive fun hpending => .inr (hsound.allDone hstop (hlive.idle hpending) hready)
  · rename_i hready
    have hqueued : Queued D x (x.readySteps D ++ []) := by
      rw [List.append_nil]
      refine ⟨D.steps.nodup.filter _, fun id hid => (mem_readySteps.1 hid).2, fun id hid dep hdep => ?_⟩
      refine (hsound.ready id (mem_readySteps.1 hid).2 dep hdep).resolve_right fun hfailed => ?_
      -- A failed step has a task that is done, but there is none at the head of the loop.
      obtain ⟨hmem, hresult⟩ := hlive.failed dep hfailed
      rw [hopen dep hmem] at hresult
      cases hresult
    refine .filtering hsound htasked hlive hqueued fun _ => ⟨hstop, hready, fun id hid => .inl ?_⟩
    rw [List.append_nil]
    exact hid

/-! ## Filtering and launching -/

theorem Queued.promoted (h : Queued D x l) (hstate : ∀ id ∈ l, x'.state id = x.state id)
    (hdone : ∀ id, (x.state id).done = true → (x'.state id).done = true) : Queued D x' l :=
  ⟨h.nodup, fun id hid => (hstate id hid).trans (h.ready id hid),
    fun id hid dep hdep => hdone dep (h.deps id hid dep hdep)⟩

theorem Scheduled.filterReadyStep
    (h : Scheduled D ⟨x, .filtering ready (id :: rest) selected⟩) (condition : Option Bool) :
    Scheduled D (filterReadyStep D x ready id rest selected condition) := by
  obtain ⟨hsound, htasked, hlive, hqueued, haccounted⟩ := h
  rcases condition with _ | _ | _
  case none => exact ⟨hsound, htasked, ExecuteError.noConfusion⟩
  case some.true =>
    rw [Pipeline.filterReadyStep]
    split
    · exact .selectStep hsound htasked hlive hqueued haccounted
    · exact ⟨hsound, htasked, hlive, hqueued, haccounted⟩
  case some.false =>
    have hready := hqueued.ready id List.mem_cons_self
    have hdeps := hqueued.deps id List.mem_cons_self
    have hpromoted := skip_promoted (D := D) hready
    have hcases := complete_state D x id x.stop (rfl : StepState.skipped.done = true)
    have hfresh : id ∉ x.started := by
      rw [hsound.started, hready]
      simp
    have hsound' : Sound D (x.skip D id) :=
      hsound.complete rfl (fun h => h) hdeps (by rw [hready]; decide) (iff_of_false hfresh (by decide))
    have hself : (x.skip D id).state id = .skipped := by
      obtain ⟨-, h'⟩ | ⟨hne, -⟩ := hcases id
      · exact h'
      · exact absurd rfl hne
    have hother : ∀ id' ∈ rest ++ selected, (x.skip D id).state id' = x.state id' := by
      intro id' hid'
      obtain ⟨rfl, -⟩ | ⟨-, h' | ⟨-, hpending, -⟩⟩ := hcases id'
      · exact absurd hid' (List.nodup_cons.1 hqueued.nodup).1
      · exact h'
      · rw [hqueued.ready id' (.tail _ hid')] at hpending
        cases hpending
    refine .filtering hsound' (hpromoted.tasked htasked) (hpromoted.live hlive)
      (hqueued.tail.promoted hother fun id' hdone => (complete_done D x id x.stop rfl id').2 (.inr hdone))
      fun hpending => ?_
    rw [hpromoted.pendingTasks] at hpending
    obtain ⟨hstop, hne, hrest⟩ := haccounted hpending
    refine ⟨by rw [skip_eq, complete_stop, hstop], hne, fun id' hid' => ?_⟩
    obtain hmem | hskipped := hrest id' hid'
    · obtain rfl | hmem := List.mem_cons.1 hmem
      · exact .inr hself
      · exact .inl hmem
    · rw [hpromoted.kept (by rw [hskipped]; decide) (by rw [hskipped]; decide)]
      exact .inr hskipped

theorem Scheduled.resolveTargetModel (h : Scheduled D ⟨x, .resolving ready id rest selected⟩) (error : Option Bool) :
    Scheduled D (resolveTargetModel D x ready id rest selected error) := by
  obtain ⟨hsound, htasked, hlive, hqueued, haccounted⟩ := h
  rcases error with _ | timeout
  · refine .selectStep (x := { x with resolved := id :: x.resolved }) (hsound.congr rfl rfl rfl)
      ⟨htasked.nodup, htasked.created, htasked.agrees⟩
      ⟨hlive.running, hlive.failed, hlive.held, hlive.locked, hlive.tracked⟩
      ⟨hqueued.nodup, hqueued.ready, hqueued.deps⟩ fun hpending => ?_
    obtain ⟨hstop, hne, hrest⟩ := haccounted hpending
    exact ⟨hstop, hne, hrest⟩
  · exact ⟨hsound, htasked, ExecuteError.noConfusion⟩

theorem get?_setModel {ν : Type} (d : Dict String ν) (model : Option String) (v : ν) (k : String) :
    (setModel d model v).get? k = if model = some k then some v else d.get? k := by
  cases model with
  | none => simp [setModel]
  | some model => simp [setModel, Dict.get?_set, eq_comm]

theorem targetModel_of_lockModel (h : D.lockModel id = some model) :
    D.targetModel id = some model := by
  unfold Dag.lockModel at h
  split at h
  · cases h
  · exact h

theorem enter_ne (x : DagExecutor) (h : id' ≠ id) : (x.enter id).state id' = x.state id' :=
  setState_ne x h _

theorem enter_self (x : DagExecutor) (id : String) : (x.enter id).state id = .running := setState_self ..

theorem Tasked.no_task (h : Tasked x) (hready : x.state id = .ready) :
    x.tasks id = none := by
  rcases ht : x.tasks id with _ | t
  · rfl
  · exact absurd hready (h.agrees id t ht).started.2

theorem Tasked.enter (h : Tasked x) (hready : x.state id = .ready) :
    Tasked (x.enter id) := by
  refine ⟨h.nodup, h.created, fun id' t ht => ?_⟩
  have hne : id' ≠ id := by
    rintro rfl
    rw [show (x.enter id').tasks id' = x.tasks id' from rfl, h.no_task hready] at ht
    cases ht
  rw [enter_ne x hne]
  exact h.agrees id' t ht

theorem Tasked.launch (h : Tasked x) (hready : x.state id = .ready) :
    Tasked (x.launch D id) := by
  have hfresh : id ∉ x.pendingTasks := by
    intro hmem
    obtain ⟨t, ht⟩ := h.created id hmem
    rw [h.no_task hready] at ht
    cases ht
  constructor
  case nodup => exact h.nodup.append (List.nodup_singleton id) (by simpa using hfresh)
  case created =>
    intro id' hmem
    by_cases hid : id' = id
    · exact ⟨_, by rw [hid]; exact Function.update_self ..⟩
    · obtain ⟨t, ht⟩ := h.created id' ((List.mem_append.1 hmem).resolve_right (by simpa using hid))
      exact ⟨t, (Function.update_of_ne hid ..).trans ht⟩
  case agrees =>
    intro id' t ht
    by_cases hid : id' = id
    · subst hid
      have ht' : Function.update x.tasks id' (some ⟨false, none⟩) id' = some t := ht
      rw [Function.update_self] at ht'
      obtain rfl := Option.some.inj ht'
      exact enter_self x id'
    · have ht' : x.tasks id' = some t := (Function.update_of_ne hid ..).symm.trans ht
      rw [show (x.launch D id).state id' = x.state id' from enter_ne x hid]
      exact h.agrees id' t ht'

theorem Live.launch (h : Live D x) (hready : x.state id = .ready)
    (hfree : x.canLaunchWithLock (D.lockModel id) = true) : Live D (x.launch D id) := by
  have hpending : ∀ {id' : String}, id' ∈ x.pendingTasks → id' ∈ (x.launch D id).pendingTasks :=
    fun hmem => List.mem_append_left _ hmem
  have hself : id ∈ (x.launch D id).pendingTasks := List.mem_append_right _ (List.mem_singleton_self id)
  have hstate : ∀ {id' : String}, id' ≠ id → (x.launch D id).state id' = x.state id' := fun hne => enter_ne x hne
  constructor
  case running =>
    intro id' hrun
    by_cases hid : id' = id
    · exact hid ▸ hself
    · exact hpending (h.running id' ((hstate hid).symm.trans hrun))
  case failed =>
    intro id' hfailed
    have hid : id' ≠ id := by
      rintro rfl
      rw [show (x.launch D id').state id' = .running from enter_self x id'] at hfailed
      cases hfailed
    obtain ⟨hmem, hresult⟩ := h.failed id' ((hstate hid).symm.trans hfailed)
    refine ⟨hpending hmem, ?_⟩
    rw [← hresult, DagExecutor.result, DagExecutor.result]
    exact congrArg (Option.bind · _) (Function.update_of_ne hid ..)
  case held =>
    intro model id' hheld
    rw [show (x.launch D id).activeModels = setModel x.activeModels (D.lockModel id) id from rfl,
      get?_setModel] at hheld
    split at hheld
    · obtain rfl := Option.some.inj hheld
      exact ⟨hself, ‹_›⟩
    · obtain ⟨hmem, hlock⟩ := h.held model id' hheld
      exact ⟨hpending hmem, hlock⟩
  case locked =>
    intro id' model hrun hlock
    rw [show (x.launch D id).activeModels = setModel x.activeModels (D.lockModel id) id from rfl, get?_setModel]
    by_cases hid : id' = id
    · rw [if_pos (hid ▸ hlock), hid]
    · have hold := h.locked id' model ((hstate hid).symm.trans hrun) hlock
      rw [if_neg, hold]
      -- A model that is held is not free.
      intro hsame
      rw [hsame] at hfree
      simp [DagExecutor.canLaunchWithLock, Dict.contains, hold] at hfree
  case tracked =>
    intro id' model htracked
    rw [show (x.launch D id).trackedRequests =
      ((D.targetModel id).map (x.trackedRequests.set id)).getD x.trackedRequests from rfl] at htracked
    rcases htarget : D.targetModel id with _ | target
    · rw [htarget, Option.map_none, Option.getD_none] at htracked
      obtain ⟨hmem, hmodel⟩ := h.tracked id' model htracked
      exact ⟨hpending hmem, hmodel⟩
    · rw [htarget, Option.map_some, Option.getD_some, Dict.get?_set] at htracked
      split at htracked
      · rename_i hid
        obtain rfl := Option.some.inj htracked
        exact ⟨hid ▸ hself, hid ▸ htarget⟩
      · obtain ⟨hmem, hmodel⟩ := h.tracked id' model htracked
        exact ⟨hpending hmem, hmodel⟩

theorem Scheduled.launchStep {inUse : List String} {launched skipped : Bool}
    (h : Scheduled D ⟨x, .launching (id :: rest) inUse launched skipped⟩) (drifts : Bool) :
    Scheduled D (launchStep D x id rest inUse launched skipped drifts) := by
  obtain ⟨hsound, htasked, hlive, hqueued, hidle⟩ := h
  have hready := hqueued.ready id List.mem_cons_self
  have hdeps := hqueued.deps id List.mem_cons_self
  unfold Pipeline.launchStep
  split
  · rename_i hstop
    refine .passed hsound htasked hlive fun hpending => ?_
    rw [(hidle hpending).1] at hstop
    cases hstop
  rename_i hstop
  have hstop : x.stop = none := Option.not_isSome_iff_eq_none.1 hstop
  split
  · rename_i hdeferred
    refine .launching hsound htasked hlive hqueued.tail (fun hpending => ?_) launched skipped
    have hnone : (D.lockModel id).any ([] : List String).contains = false := by cases D.lockModel id <;> rfl
    rw [hlive.canLaunch hpending, (hidle hpending).2, hnone] at hdeferred
    cases hdeferred
  rename_i hfree
  rw [Bool.or_eq_true, not_or, Bool.not_eq_true, Bool.not_eq_false'] at hfree
  have hsound' := hsound.enter hready hstop hdeps
  split
  · exact ⟨hsound', htasked.enter hready, ExecuteError.noConfusion⟩
  · have hother : ∀ id' ∈ rest, (x.launch D id).state id' = x.state id' := by
      intro id' hmem
      refine enter_ne x ?_
      rintro rfl
      exact (List.nodup_cons.1 hqueued.nodup).1 hmem
    have hdone : ∀ id', (x.state id').done = true → ((x.launch D id).state id').done = true := by
      intro id' hdone
      have hne : id' ≠ id := by
        rintro rfl
        rw [hready] at hdone
        cases hdone
      rw [show (x.launch D id).state id' = x.state id' from enter_ne x hne]
      exact hdone
    refine .launching (x := x.launch D id) (hsound'.congr rfl rfl rfl) (htasked.launch hready) (hlive.launch hready hfree.1)
      (hqueued.tail.promoted hother hdone) (fun hpending => ?_) true skipped
    simp [DagExecutor.launch] at hpending

/-! ## Completions -/

theorem cancel_result (t : StepTask) : t.cancel.result = t.result := by
  unfold StepTask.cancel
  split <;> rfl

theorem Tasked.congr (h : Tasked x) (hstate : x'.state = x.state) (htasks : x'.tasks = x.tasks)
    (hpending : x'.pendingTasks = x.pendingTasks) : Tasked x' := by
  constructor
  case nodup => rw [hpending]; exact h.nodup
  case created => rw [hpending, htasks]; exact h.created
  case agrees => rw [htasks, hstate]; exact h.agrees

theorem Tasked.cancelled (h : Tasked x) (hstate : x'.state = x.state) (hpending : x'.pendingTasks = x.pendingTasks)
    (htasks : ∀ id, x'.tasks id = x.tasks id ∨ x'.tasks id = (x.tasks id).map StepTask.cancel) : Tasked x' := by
  constructor
  case nodup => exact hpending ▸ h.nodup
  case created =>
    intro id hid
    rw [hpending] at hid
    obtain ⟨t, ht⟩ := h.created id hid
    obtain h' | h' := htasks id <;> rw [h', ht]
    · exact ⟨t, rfl⟩
    · exact ⟨t.cancel, rfl⟩
  case agrees =>
    intro id t ht
    rw [hstate]
    obtain h' | h' := htasks id <;> rw [h'] at ht
    · exact h.agrees id t ht
    · obtain ⟨t₀, ht₀, rfl⟩ := Option.map_eq_some_iff.1 ht
      rw [cancel_result]
      exact h.agrees id t₀ ht₀

theorem Tasked.cancelPending (h : Tasked x) : Tasked x.cancelPending := by
  refine h.cancelled rfl rfl fun id => ?_
  simp only [DagExecutor.cancelPending]
  split
  · exact .inr rfl
  · exact .inl rfl

theorem Tasked.pop (h : Tasked x) (id : String) :
    Tasked { x with pendingTasks := x.pendingTasks.erase id } :=
  ⟨h.nodup.erase id, fun id' hid' => h.created id' (List.mem_of_mem_erase hid'), h.agrees⟩

theorem Tasked.agrees_result (h : Tasked x) {r : TaskResult}
    (hr : x.result id = some r) : Agrees (some r) (x.state id) := by
  obtain ⟨t, ht, hresult⟩ := Option.bind_eq_some_iff.1 hr
  exact hresult ▸ h.agrees id t ht

theorem Agrees.mem_started (hsound : Sound D x) {result : Option TaskResult}
    (h : Agrees result (x.state id)) : id ∈ x.started := by
  rw [hsound.started]
  rcases result with _ | _ | _ | _
  · exact .inl h
  · exact .inr (.inl h)
  · obtain h | h := (h : x.state id = .failed ∨ x.state id = .running)
    · exact .inr (.inr h)
    · exact .inl h
  · exact .inl h

theorem get?_releaseModel {active : Dict String String} {target : Option String}
    (h : (releaseModel active target id).get? model = some id') :
    active.get? model = some id' ∧ (target = some model → id' ≠ id) := by
  unfold releaseModel at h
  split at h
  · exact ⟨h, fun h' => by cases h'⟩
  · split at h
    · rename_i target hheld
      rw [Dict.get?_erase] at h
      split at h
      · cases h
      · rename_i hne
        exact ⟨h, fun h' => absurd (Option.some.inj h').symm hne⟩
    · rename_i target hheld
      refine ⟨h, ?_⟩
      rintro h' rfl
      obtain rfl := Option.some.inj h'
      exact hheld h

theorem get?_releaseModel_of_ne {active : Dict String String} {target : Option String}
    (h : active.get? model = some id') (hne : id' ≠ id) : (releaseModel active target id).get? model = some id' := by
  unfold releaseModel
  split
  · exact h
  · split
    · rename_i target hheld
      rw [Dict.get?_erase_ne _ ?_]
      · exact h
      · rintro rfl
        exact hne (Option.some.inj (h.symm.trans hheld))
    · exact h

theorem Live.pop (h : Live D x) (hid : x.state id = .completed) :
    Live D ({ x with pendingTasks := x.pendingTasks.erase id }.onStepFinished D id) := by
  have herase : ∀ {id' : String}, id' ∈ x.pendingTasks → id' ≠ id → id' ∈ x.pendingTasks.erase id :=
    fun hmem hne => (List.mem_erase_of_ne hne).2 hmem
  constructor
  case running =>
    intro id' hrun
    refine herase (h.running id' hrun) ?_
    rintro rfl
    rw [show x.state id' = .running from hrun] at hid
    cases hid
  case failed =>
    intro id' hfailed
    refine ⟨herase (h.failed id' hfailed).1 ?_, (h.failed id' hfailed).2⟩
    rintro rfl
    rw [show x.state id' = .failed from hfailed] at hid
    cases hid
  case held =>
    intro model id' hheld
    obtain ⟨hold, hne⟩ := get?_releaseModel hheld
    obtain ⟨hmem, hlock⟩ := h.held model id' hold
    refine ⟨herase hmem ?_, hlock⟩
    rintro rfl
    exact hne (targetModel_of_lockModel hlock) rfl
  case locked =>
    intro id' model hrun hlock
    refine get?_releaseModel_of_ne (h.locked id' model hrun hlock) ?_
    rintro rfl
    rw [show x.state id' = .running from hrun] at hid
    cases hid
  case tracked =>
    intro id' model htracked
    simp only [DagExecutor.onStepFinished] at htracked ⊢
    split at htracked
    · rw [Dict.get?_erase] at htracked
      split at htracked
      · cases htracked
      · rename_i hne
        exact ⟨herase (h.tracked id' model htracked).1 hne, (h.tracked id' model htracked).2⟩
    · rename_i hnone
      obtain ⟨hmem, htarget⟩ := h.tracked id' model htracked
      refine ⟨herase hmem ?_, htarget⟩
      rintro rfl
      rw [htarget] at hnone
      exact hnone rfl

theorem Scheduled.handleCompletion
    (h : Scheduled D ⟨x, .handling (id :: rest)⟩) : Scheduled D (handleCompletion D x id rest) := by
  obtain ⟨hsound, htasked, hlive, hn, hdone, hall⟩ := h
  obtain ⟨hmem, hended⟩ := hdone id List.mem_cons_self
  obtain ⟨r, hr⟩ := Option.isSome_iff_exists.1 hended
  have hagrees := htasked.agrees_result hr
  unfold Pipeline.handleCompletion
  split
  · exact ⟨hsound.congr rfl rfl rfl, htasked.cancelPending, ExecuteError.noConfusion⟩
  dsimp only
  rw [show x.result id = some r from hr]
  rcases r with _ | _ | _ <;> dsimp only
  · have hn' : rest.Nodup ∧ id ∉ rest := (List.nodup_cons.1 hn).symm
    have hlive' := hlive.pop (show x.state id = .completed from hagrees)
    have hrest : ∀ id' ∈ x.pendingTasks.erase id, (x.result id').isSome → id' ∈ rest := by
      intro id' hid' hended
      have hne : id' ≠ id := by
        rintro rfl
        exact htasked.nodup.not_mem_erase hid'
      exact (List.mem_cons.1 (hall id' (List.mem_of_mem_erase hid') hended)).resolve_left hne
    refine ⟨hsound.congr rfl rfl rfl, (htasked.pop id).congr rfl rfl rfl, ?_⟩
    dsimp only
    split
    · rename_i hnil
      refine ⟨hlive', fun id' hid' => Option.not_isSome_iff_eq_none.1 fun hended => ?_⟩
      have hmem' := hrest id' hid' hended
      rw [hnil] at hmem'
      cases hmem'
    · refine ⟨hlive', hn'.1, fun id' hid' => ⟨?_, (hdone id' (.tail _ hid')).2⟩, hrest⟩
      refine (List.mem_erase_of_ne ?_).2 (hdone id' (.tail _ hid')).1
      rintro rfl
      exact hn'.2 hid'
  · have hnot : (x.state id).done = false := by
      obtain h' | h' := (hagrees : x.state id = .failed ∨ x.state id = .running) <;>
        rw [show x.state id = _ from h'] <;> rfl
    have hfail : Tasked (({ x with pendingTasks := x.pendingTasks.erase id }.setState id .failed).onStepFinished D
        id) := by
      refine ⟨htasked.nodup.erase id, fun id' hid' => htasked.created id' (List.mem_of_mem_erase hid'),
        fun id' t ht => ?_⟩
      by_cases hid : id' = id
      · subst hid
        have ht' : t.result = some .error := by
          rw [DagExecutor.result, show x.tasks id' = some t from ht] at hr
          exact hr
        rw [ht']
        exact .inl (setState_self ..)
      · rw [show ((({ x with pendingTasks := x.pendingTasks.erase id } : DagExecutor).setState id
          .failed).onStepFinished D id).state id' = x.state id' from setState_ne x hid _]
        exact htasked.agrees id' t ht
    exact ⟨(hsound.fail (hagrees.mem_started hsound) hnot).congr rfl rfl rfl, hfail.cancelPending,
      ExecuteError.noConfusion⟩
  · exact ⟨hsound.congr rfl rfl rfl, htasked.pop id, ExecuteError.noConfusion⟩

/-! ## The end of a task -/

/-- The task of a step has ended: dependents of the step may be promoted. -/
structure Finished (x x' : DagExecutor) (id : String) : Prop where
  others : ∀ id', id' ≠ id → x'.state id' = x.state id' ∨ (x.state id' = .pending ∧ x'.state id' = .ready)
  task : ∃ t r, x.tasks id = some t ∧
    x'.tasks = Function.update x.tasks id (some { t with result := some r }) ∧
    Agrees (some r) (x'.state id) ∧ (x'.state id = .failed → r = .error)
  pendingTasks : x'.pendingTasks = x.pendingTasks
  activeModels : x'.activeModels = x.activeModels
  trackedRequests : x'.trackedRequests = x.trackedRequests

theorem Finished.setResult {y : DagExecutor} (ht : x.tasks id = some t)
    (hrest : ∃ states stop, y = { x with state := states, stop := stop })
    (hothers : ∀ id', id' ≠ id → y.state id' = x.state id' ∨ (x.state id' = .pending ∧ y.state id' = .ready))
    {r : TaskResult} (hagrees : Agrees (some r) (y.state id)) (hfailed : y.state id = .failed → r = .error) :
    Finished x (y.setResult id r) id := by
  obtain ⟨states, stop, rfl⟩ := hrest
  refine ⟨hothers, ⟨t, r, ht, ?_, hagrees, hfailed⟩, rfl, rfl, rfl⟩
  rw [DagExecutor.setResult, show x.tasks id = some t from ht, Option.map_some]

theorem recordSuccess_cases (hsound : Sound D x) (hid : x.state id = .running)
    (stop : Bool) : Sound D (x.recordSuccess D id stop) ∧
      (∃ states stop', x.recordSuccess D id stop = { x with state := states, stop := stop' }) ∧
      ((x.recordSuccess D id stop).stop = none → x.stop = none) ∧
      (x.recordSuccess D id stop).state id = .completed ∧
      (∀ id', ((x.recordSuccess D id stop).state id').done = true → id' = id ∨ (x.state id').done = true) ∧
      ∀ id', id' ≠ id → (x.recordSuccess D id stop).state id' = x.state id' ∨
        (x.state id' = .pending ∧ (x.recordSuccess D id stop).state id' = .ready) := by
  have hstarted : id ∈ x.started := (hsound.started id).2 (.inl hid)
  have hdeps : ∀ dep ∈ D.dependencies id, (x.state dep).done = true := fun dep hdep =>
    hsound.ancestors id hstarted dep (.single hdep)
  have hstop : (if stop && x.stop.isNone then some id else x.stop) = none → x.stop = none := by
    split
    · exact fun h => by cases h
    · exact fun h => h
  rw [recordSuccess_eq]
  have hcases := complete_state D x id (if stop && x.stop.isNone then some id else x.stop)
    (rfl : StepState.completed.done = true)
  obtain ⟨states, hrest⟩ := complete_rest D x id .completed (if stop && x.stop.isNone then some id else x.stop)
  refine ⟨hsound.complete rfl hstop hdeps (by rw [hid]; decide) (iff_of_true hstarted rfl), ⟨states, _, hrest⟩,
    by rw [complete_stop]; exact hstop, ?_, fun id' hdone => (complete_done D x id _ rfl id').1 hdone,
    fun id' hne => ?_⟩
  · obtain ⟨-, h⟩ | ⟨h, -⟩ := hcases id
    · exact h
    · exact absurd rfl h
  · obtain ⟨h, -⟩ | ⟨-, h | ⟨h, hpending, -⟩⟩ := hcases id'
    · exact absurd h hne
    · exact .inl h
    · exact .inr ⟨hpending, h⟩

theorem finish_cases (hsound : Sound D x) (hid : x.state id = .running)
    (ht : x.tasks id = some t) (outcome : Outcome) :
    Sound D (x.finish D id outcome) ∧ Finished x (x.finish D id outcome) id := by
  have hstarted : id ∈ x.started := (hsound.started id).2 (.inl hid)
  have hnot : (x.state id).done = false := by rw [hid]; rfl
  cases outcome with
  | success stop =>
    obtain ⟨hsound', hrest, -, hself, -, hothers⟩ := recordSuccess_cases hsound hid stop
    refine ⟨hsound'.congr rfl rfl rfl, .setResult ht hrest hothers hself fun hfailed => ?_⟩
    rw [hself] at hfailed
    cases hfailed
  | unrecorded stop =>
    obtain ⟨hsound', ⟨states, stop', hrest⟩, hstop, -, hdone, hothers⟩ := recordSuccess_cases hsound hid stop
    obtain ⟨hfree, hancestor⟩ := hsound.not_needed hnot
    have hstarted' : (x.recordSuccess D id stop).started = x.started := by rw [hrest]
    have hsound'' : Sound D ((x.recordSuccess D id stop).setState id .failed) := by
      refine hsound'.setFailed (hstarted' ▸ hstarted) (fun hnone id' h' hdep => ?_) (hstarted' ▸ hancestor)
      obtain rfl | h' := hdone id' h'
      · exact D.acyclic id' (.single hdep)
      · exact hfree (hstop hnone) id' h' hdep
    refine ⟨hsound''.congr rfl rfl rfl, .setResult ht
      ⟨((x.recordSuccess D id stop).setState id .failed).state, stop', ?_⟩ (fun id' hne => ?_)
      (.inl (setState_self ..)) fun _ => rfl⟩
    · rw [hrest]
      rfl
    · rw [setState_ne _ hne]
      exact hothers id' hne
  | failure =>
    exact ⟨(hsound.fail hstarted hnot).congr rfl rfl rfl, .setResult ht ⟨_, x.stop, rfl⟩
      (fun id' hne => .inl (setState_ne x hne _)) (.inl (setState_self ..)) fun _ => rfl⟩
  | unresolved =>
    exact ⟨hsound.congr rfl rfl rfl, .setResult ht ⟨x.state, x.stop, rfl⟩ (fun _ _ => .inl rfl) (.inr hid)
      fun _ => rfl⟩
  | cancelled =>
    refine ⟨hsound.congr rfl rfl rfl, .setResult ht ⟨x.state, x.stop, rfl⟩ (fun _ _ => .inl rfl) hid
      fun hfailed => ?_⟩
    rw [hid] at hfailed
    cases hfailed

theorem Finished.tasked (h : Finished x x' id) (hx : Tasked x) : Tasked x' := by
  obtain ⟨t, r, ht, htasks, hagrees, -⟩ := h.task
  constructor
  case nodup => exact h.pendingTasks ▸ hx.nodup
  case created =>
    intro id' hid'
    rw [h.pendingTasks] at hid'
    rw [htasks]
    by_cases hne : id' = id
    · exact ⟨_, by rw [hne]; exact Function.update_self ..⟩
    · obtain ⟨t', ht'⟩ := hx.created id' hid'
      exact ⟨t', (Function.update_of_ne hne ..).trans ht'⟩
  case agrees =>
    intro id' t' ht'
    rw [htasks] at ht'
    by_cases hne : id' = id
    · subst hne
      rw [Function.update_self] at ht'
      obtain rfl := Option.some.inj ht'
      exact hagrees
    · rw [Function.update_of_ne hne] at ht'
      have hold := hx.agrees id' t' ht'
      obtain hsame | ⟨hpending, -⟩ := h.others id' hne
      · rw [hsame]
        exact hold
      · exact absurd hpending hold.started.1

theorem Finished.same (h : Finished x x' id) (hne : id' ≠ id)
    (h' : x'.state id' = state) (hready : state ≠ .ready) : x.state id' = state := by
  obtain hsame | ⟨-, hpromoted⟩ := h.others id' hne
  · exact hsame.symm.trans h'
  · exact absurd (h'.symm.trans hpromoted) hready

theorem Finished.running (h : Finished x x' id)
    (hid : x.state id = .running) (hrun : x'.state id' = .running) : x.state id' = .running := by
  by_cases hne : id' = id
  · exact hne ▸ hid
  · exact h.same hne hrun (by decide)

theorem Finished.live (h : Finished x x' id) (hx : Live D x) (hid : x.state id = .running) : Live D x' := by
  obtain ⟨t, r, ht, htasks, -, hfail⟩ := h.task
  constructor
  case running => exact fun id' hrun => h.pendingTasks ▸ hx.running id' (h.running hid hrun)
  case failed =>
    intro id' hfailed
    rw [h.pendingTasks, DagExecutor.result, htasks]
    by_cases hne : id' = id
    · subst hne
      rw [Function.update_self, hfail hfailed]
      exact ⟨hx.running id' hid, rfl⟩
    · rw [Function.update_of_ne hne]
      exact hx.failed id' (h.same hne hfailed (by decide))
  case held =>
    rw [h.pendingTasks, h.activeModels]
    exact hx.held
  case locked =>
    intro id' model hrun
    rw [h.activeModels]
    exact hx.locked id' model (h.running hid hrun)
  case tracked =>
    rw [h.pendingTasks, h.trackedRequests]
    exact hx.tracked

theorem Finished.queued (h : Finished x x' id) (hid : x.state id = .running) (hx : Queued D x l) : Queued D x' l := by
  have hne : ∀ id', x.state id' ≠ .running → id' ≠ id := by
    rintro id' h' rfl
    exact h' hid
  refine hx.promoted (fun id' hid' => ?_) fun id' hdone => ?_
  · have hready := hx.ready id' hid'
    obtain hsame | ⟨hpending, -⟩ := h.others id' (hne id' (by rw [hready]; decide))
    · exact hsame
    · rw [hready] at hpending
      cases hpending
  · obtain hsame | ⟨hpending, -⟩ := h.others id' (hne id' fun hrun => by rw [hrun] at hdone; cases hdone)
    · rw [hsame]
      exact hdone
    · rw [hpending] at hdone
      cases hdone

theorem Tasked.running (h : Tasked x) (ht : x.tasks id = some t)
    (hopen : x.result id = none) : x.state id = .running := by
  have hagrees := h.agrees id t ht
  rw [DagExecutor.result, show x.tasks id = some t from ht] at hopen
  rw [show t.result = none from hopen] at hagrees
  exact hagrees

/-- **The end of a task** where the executor is suspended. -/
theorem Scheduled.finish {control : Control} (h : Scheduled D ⟨x, control⟩)
    (hsuspended : control.suspended = true) (ht : x.tasks id = some t)
    (hopen : x.result id = none) (outcome : Outcome) : Scheduled D ⟨x.finish D id outcome, control⟩ := by
  obtain ⟨hsound, htasked, hplaced⟩ := h
  have hid := htasked.running ht hopen
  obtain ⟨hsound', hfinished⟩ := finish_cases hsound hid ht outcome
  refine ⟨hsound', hfinished.tasked htasked, ?_⟩
  cases control with
  | resolving ready id' rest selected =>
    obtain ⟨hlive, hqueued, -⟩ := hplaced
    refine ⟨hfinished.live hlive hid, hfinished.queued hid hqueued, fun hpending => ?_⟩
    rw [hfinished.pendingTasks] at hpending
    exact absurd hid (hlive.idle hpending id).1
  | waiting => exact hfinished.live hplaced hid
  | raised e => exact hplaced
  | returned | awaiting | ended => trivial
  | loop | filtering | launching | handling | cancelling => cases hsuspended

/-! ## Every step -/

theorem Scheduled.start (D : Dag) : Scheduled D ⟨.start D, .loop⟩ := by
  have hsound := Sound.start D
  have hnot : ∀ id, (DagExecutor.start D).state id ≠ .running ∧ (DagExecutor.start D).state id ≠ .failed := by
    intro id
    have h := mt (hsound.started id).2 List.not_mem_nil
    rw [not_or, not_or] at h
    exact ⟨h.1, h.2.2⟩
  have htasked : Tasked (DagExecutor.start D) :=
    ⟨List.nodup_nil, fun _ h => absurd h List.not_mem_nil, fun _ _ h => by cases h⟩
  have hlive : Live D (.start D) :=
    ⟨fun id h => absurd h (hnot id).1, fun id h => absurd h (hnot id).2, fun _ _ h => (by cases h),
      fun id _ h => absurd h (hnot id).1, fun _ _ h => by cases h⟩
  exact ⟨hsound, htasked, hlive, fun _ h => absurd h List.not_mem_nil⟩

theorem Scheduled.settled {control control' : Control} (h : Scheduled D ⟨x, control⟩)
    (hstate : x'.state = x.state) (hstop : x'.stop = x.stop) (hstarted : x'.started = x.started)
    (htasked : Tasked x') (hplaced : Placed D x' control') : Scheduled D ⟨x', control'⟩ :=
  ⟨h.sound.congr hstate hstop hstarted, htasked, hplaced⟩

/-- **Every step keeps the invariant.** -/
theorem Scheduled.step {s s' : Execution} {e : Event} (h : Scheduled D s) (hstep : s.step D e = some s') :
    Scheduled D s' := by
  cases Execution.transition hstep with
  | pass x late => exact h.executeDag late
  | condition x ready id rest selected answer => exact h.filterReadyStep answer
  | lookup x ready id rest selected error => exact h.resolveTargetModel error
  | launch x id rest inUse launched skipped drifts => exact h.launchStep drifts
  | wake hne hdone =>
    refine h.settled rfl rfl rfl h.tasked ⟨h.placed, ?_, fun id hid => ?_, fun id hmem hended => ?_⟩
    · exact hdone.nodup_iff.2 (h.tasked.nodup.filter _)
    · exact List.mem_filter.1 (hdone.mem_iff.1 hid)
    · exact hdone.mem_iff.2 (List.mem_filter.2 ⟨hmem, hended⟩)
  | handle x id rest => exact h.handleCompletion
  | finish outcome hsuspended ht hopen => exact h.finish hsuspended ht hopen outcome
  | interrupt x _ => exact h.settled rfl rfl rfl h.tasked trivial
  | interruptCancel x id rest | awaited rest _ _ => exact h.settled rfl rfl rfl (h.tasked.congr rfl rfl rfl) trivial
  | returns x => exact h.settled rfl rfl rfl h.tasked trivial
  | cancel x _ => exact h.settled rfl rfl rfl h.tasked trivial
  | raise x _ => exact h.settled rfl rfl rfl h.tasked trivial
  | cancelled x =>
    exact h.settled rfl rfl rfl ⟨List.nodup_nil, fun _ h => absurd h List.not_mem_nil, h.tasked.agrees⟩ trivial
  | cancelStep x id rest =>
    unfold Pipeline.cancelStep
    split
    · exact h.settled rfl rfl rfl (h.tasked.congr rfl rfl rfl) trivial
    · refine h.settled rfl rfl rfl (h.tasked.cancelled rfl rfl fun id' => ?_) trivial
      by_cases hid : id' = id
      · subst hid
        exact .inr (Function.update_self ..)
      · exact .inl (Function.update_of_ne hid ..)
  | cancelRaise rest _ => exact h.settled rfl rfl rfl h.tasked trivial

/-- Every reachable state is one of the schedule. -/
theorem Scheduled.reachable {s : Execution} (hs : D.system.Reachable s) : Scheduled D s := by
  refine hs.invariant ?_ fun _ _ _ h hstep => h.step hstep
  rintro _ rfl
  exact .start D

end LlmGateway.Pipeline
