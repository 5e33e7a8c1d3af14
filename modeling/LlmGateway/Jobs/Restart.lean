import LlmGateway.Jobs.Lifecycle

/-!
# The restart of the jobs service

When the service stops, its tasks are gone and its children are not: the journal says which runs are open, and
`reconcile_on_start` kills the process group of each and closes it as lost. The service may stop between any two
steps, while a task awaits the start of a child that is there already, and in the middle of the next start.

The group is read from the data of the fold. It stands in the running transition, and a cancel appends a transition
without data behind it: `reconcile_reaches_iff` says that every child is reached exactly when no run is being
cancelled and no child is without its running transition.
-/

namespace LlmGateway.Jobs

/-- `_OPEN`. -/
def RunState.isOpen : RunState → Bool
  | admitted | running | cancelling => true
  | _ => false

namespace Run

/-- The running transitions. -/
def spawns (r : Run) : List Row := r.rows.filter fun row => row.state == .running

/-- The state of the fold is open. -/
def isOpen (r : Run) : Bool := r.fold.any fun row => row.state.isOpen

/-- The run with a row more. -/
def add (r : Run) (row : Row) : Run := { r with rows := r.rows ++ [row] }

/-- The transition of a run that was open. -/
def lostRow : Row := ⟨.lost, [("recovery", .str "restart_reconcile")]⟩

end Run

/-! ## `reconcile_on_start` -/

/-- Where `reconcile_on_start` stands: the signals it has sent, each for its run, and the runs it has closed. -/
structure Recovery where
  runner : Runner
  kills : List (String × ℤ)
  lost : List String

/-- The loop for one run. The run is left open when the service stops between the signal and the transition, as
if the loop had not come to it. -/
def Recovery.close (w : Recovery) (run : String) : Recovery :=
  match w.runner.fold run with
  | none => w
  | some row =>
    if row.state.isOpen then
      ⟨w.runner.append run Run.lostRow.state Run.lostRow.data,
        w.kills ++ (Runner.groupOf row.data).map fun group => (run, group), w.lost ++ [run]⟩
    else w

/-- `reconcile_on_start`, for the runs in the order in which the table gives them. -/
def Runner.reconcileOnStart (x : Runner) (ids : List String) : Recovery := ids.foldl Recovery.close ⟨x, [], []⟩

/-- The names of the runs table. -/
def Runner.runIds (x : Runner) : List String := x.journal.items.map Prod.fst

/-! ## The service -/

/-- The service, with the runs that `reconcile_on_start` has yet to come to. -/
structure Service where
  runner : Runner
  pending : List String

def Service.start : Service := ⟨.start, []⟩

/-- What happens to the service. -/
inductive ServiceEvent where
  | runner (e : Event)
  /-- The process is gone, and a new one has read the names of the runs. -/
  | restart (ids : List String)
  /-- The loop of `reconcile_on_start` for one run. -/
  | close
  /-- `Delivery.recover` posts a run. -/
  | redeliver (run : String)

namespace Service

/-- A step of the service. The runner waits for `reconcile_on_start`. -/
def step (specs : String → Option JobSpec) (s : Service) : ServiceEvent → Option Service
  | .runner e => if s.pending = [] then (s.runner.step specs e).map fun x => ⟨x, []⟩ else none
  | .restart ids =>
    if ids.Perm s.runner.runIds then some ⟨{ Runner.start with journal := s.runner.journal }, ids⟩ else none
  | .close =>
    match s.pending with
    | [] => none
    | run :: rest => some ⟨(Recovery.close ⟨s.runner, [], []⟩ run).runner, rest⟩
  | .redeliver run =>
    if s.pending = [] then some ⟨(s.runner.schedule run).deliver s.runner.tasks.length run, []⟩ else none

/-- The service of the specs. -/
def system (specs : String → Option JobSpec) : System Service ServiceEvent :=
  System.ofFn (fun s => s = .start) (step specs)

end Service

/-! ## What a restart ought to do -/

/-- The service stops here. `unrecorded` is the child, with its run, that a task has started without a row yet. -/
inductive Runner.Stops (x : Runner) : List (String × ℤ) → Prop
  | between : Stops x []
  | starting {t : ℕ} {run : String} (ht : x.tasks[t]? = some ⟨run, .starting⟩) (group : ℤ) : Stops x [(run, group)]

/-- What is asked of `reconcile_on_start`. -/
structure Runner.Reaches (x : Runner) (unrecorded : List (String × ℤ)) (w : Recovery) : Prop where
  /-- The recorded group of an open run is killed. -/
  recorded : ∀ run r, x.journal.get? run = some r → r.isOpen = true → ∀ row ∈ r.spawns,
    ∀ group ∈ Runner.groupOf row.data, (run, group) ∈ w.kills
  /-- An open run is lost, once, and no other run is. -/
  lost : ∀ run, w.runner.journal.get? run =
    (x.journal.get? run).map fun r => if r.isOpen then r.add Run.lostRow else r
  observed : ∀ child ∈ unrecorded, child ∈ w.kills

namespace Run

variable {r : Run} {row : Row}

theorem isOpen_iff : r.isOpen = true ↔ ∃ row, r.fold = some row ∧ row.state.isOpen = true := by
  rw [isOpen]
  cases r.fold <;> simp

theorem fold_add_of_delivery (h : row.state.isDelivery = true) : (r.add row).fold = r.fold := by
  rw [fold, fold, add, List.filter_append]
  simp [h]

theorem fold_add (h : row.state.isDelivery = false) : (r.add row).fold = some row := by
  rw [fold, add, List.filter_append]
  simp [h]

theorem spawns_add (h : row.state ≠ .running) : (r.add row).spawns = r.spawns := by
  rw [spawns, spawns, add, List.filter_append]
  simp [h]

theorem spawns_add_running (h : row.state = .running) : (r.add row).spawns = r.spawns ++ [row] := by
  rw [spawns, spawns, add, List.filter_append]
  simp [h]

theorem mem_rows_of_fold (h : r.fold = some row) : row ∈ r.rows := List.mem_of_mem_filter (List.mem_of_getLast? h)

/-- What the rows of a run keep to. -/
structure Recorded (r : Run) : Prop where
  once : r.spawns.length ≤ 1
  group : ∀ row ∈ r.spawns, Runner.groupOf row.data ≠ []
  admitted : ∀ row, r.fold = some row → row.state = .admitted → r.spawns = []
  cancelling : ∀ row, r.fold = some row → row.state = .cancelling → r.spawns ≠ []
  /-- Only the running transition says which group it is. -/
  quiet : ∀ row, r.fold = some row → row.state.isOpen = true → row.state ≠ .running → Runner.groupOf row.data = []

namespace Recorded

theorem start (job contract : String) : Recorded ⟨job, contract, [⟨.admitted, []⟩]⟩ where
  once := Nat.zero_le 1
  group row h := by cases h
  admitted _ _ _ := rfl
  cancelling row h hs := by
    cases h
    cases hs
  quiet row h _ _ := by
    cases h
    rfl

theorem add (h : Recorded r) (hadmitted : row.state ≠ .admitted) (hrunning : row.state ≠ .running)
    (hcancelling : row.state = .cancelling → r.spawns ≠ [] ∧ Runner.groupOf row.data = []) :
    Recorded (r.add row) := by
  cases hdelivery : row.state.isDelivery with
  | true =>
    have hfold := fold_add_of_delivery (r := r) hdelivery
    have hspawns := spawns_add (r := r) hrunning
    constructor
    · rw [hspawns]
      exact h.once
    · rw [hspawns]
      exact h.group
    · rw [hfold, hspawns]
      exact h.admitted
    · rw [hfold, hspawns]
      exact h.cancelling
    · rw [hfold]
      exact h.quiet
  | false =>
    have hfold := fold_add (r := r) hdelivery
    have hspawns := spawns_add (r := r) hrunning
    constructor
    · rw [hspawns]
      exact h.once
    · rw [hspawns]
      exact h.group
    · intro other hother hs
      rw [hfold] at hother
      cases hother
      exact (hadmitted hs).elim
    · intro other hother hs
      rw [hfold] at hother
      cases hother
      rw [hspawns]
      exact (hcancelling hs).1
    · intro other hother hopen hne
      rw [hfold] at hother
      cases hother
      cases hs : row.state with
      | admitted => exact (hadmitted hs).elim
      | running => exact (hrunning hs).elim
      | cancelling => exact (hcancelling hs).2
      | _ =>
        rw [hs] at hopen
        cases hopen

theorem spawn (h : r.spawns = []) (hrow : row.state = .running) (hgroup : Runner.groupOf row.data ≠ []) :
    Recorded (r.add row) := by
  have hfold : (r.add row).fold = some row := fold_add (by rw [hrow]; rfl)
  have hspawns : (r.add row).spawns = [row] := by rw [spawns_add_running hrow, h, List.nil_append]
  constructor
  · rw [hspawns]
    exact le_rfl
  · intro other hother
    rw [hspawns, List.mem_singleton] at hother
    rw [hother]
    exact hgroup
  · intro other hother hs
    rw [hfold] at hother
    cases hother
    rw [hrow] at hs
    cases hs
  · intro other hother hs
    rw [hspawns]
    exact List.cons_ne_nil _ _
  · intro other hother _ hne
    rw [hfold] at hother
    cases hother
    exact (hne hrow).elim

theorem eq_of_running (h : Recorded r) (hfold : r.fold = some row) (hrow : row.state = .running) :
    r.spawns = [row] := by
  have hmem : row ∈ r.spawns := List.mem_filter.2 ⟨mem_rows_of_fold hfold, beq_iff_eq.2 hrow⟩
  obtain hnil | ⟨other, hone⟩ := Nat.le_one_iff_eq_zero_or_eq_one.1 h.once |>.imp
    List.length_eq_zero_iff.1 List.length_eq_one_iff.1
  · rw [hnil] at hmem
    cases hmem
  · rw [hone, List.mem_singleton] at hmem
    rw [hone, hmem]

end Recorded

end Run

/-! ## The runner -/

namespace Runner

variable {x : Runner} {run : String}

theorem get?_append_add (x : Runner) (run : String) (row : Row) (run' : String) :
    (x.append run row.state row.data).journal.get? run' =
      (x.journal.get? run').map fun r => if run' = run then r.add row else r := get?_append ..

/-- What a runner keeps to, whatever its tasks do. -/
structure Kept (x : Runner) : Prop where
  recorded : ∀ run r, x.journal.get? run = some r → r.Recorded
  /-- Who starts a child has the lock, and its run has none yet. -/
  starting : ∀ (t : ℕ) (task : Task), x.tasks[t]? = some task → task.stage = .starting →
    x.holder = some t ∧ ∀ r, x.journal.get? task.run = some r → r.spawns = []

namespace Kept

variable {t : ℕ} {task : Task} {stage : Stage} {s : RunState} {data : List (String × Json)}

theorem start : Kept .start where
  recorded _ _ h := by cases h
  starting _ _ h := by cases h

theorem append (h : x.Kept) (hadmitted : s ≠ .admitted) (hrunning : s ≠ .running)
    (hcancelling : s = .cancelling → x.state run = some .running ∧ groupOf data = []) :
    (x.append run s data).Kept := by
  have hget : ∀ run' r', (x.append run s data).journal.get? run' = some r' →
      ∃ r, x.journal.get? run' = some r ∧ (r' = r ∨ run' = run ∧ r' = r.add ⟨s, data⟩) := by
    intro run' r' hr'
    rw [get?_append_add x run ⟨s, data⟩] at hr'
    obtain ⟨r, hr, rfl⟩ := Option.map_eq_some_iff.1 hr'
    refine ⟨r, hr, ?_⟩
    split
    · exact .inr ⟨‹_›, rfl⟩
    · exact .inl rfl
  constructor
  · intro run' r' hr'
    obtain ⟨r, hr, rfl | ⟨rfl, rfl⟩⟩ := hget run' r' hr'
    · exact h.recorded run' r' hr
    · refine (h.recorded run' r hr).add hadmitted hrunning fun hs => ?_
      obtain ⟨hstate, hdata⟩ := hcancelling hs
      refine ⟨?_, hdata⟩
      rw [Runner.state, Runner.fold, hr, Option.bind_some] at hstate
      obtain ⟨row, hrow, hrunning⟩ := Option.map_eq_some_iff.1 hstate
      rw [(h.recorded run' r hr).eq_of_running hrow hrunning]
      exact List.cons_ne_nil _ _
  · intro t task ht hstage
    obtain ⟨hholder, hnone⟩ := h.starting t task ht hstage
    refine ⟨hholder, fun r' hr' => ?_⟩
    obtain ⟨r, hr, rfl | ⟨-, rfl⟩⟩ := hget task.run r' hr'
    · exact hnone r' hr
    · rw [Run.spawns_add hrunning]
      exact hnone r hr

theorem setStage (h : x.Kept) (t : ℕ) (run : String) (hstage : stage ≠ .starting) : (x.setStage t run stage).Kept := by
  refine ⟨h.recorded, fun u other hu hother => ?_⟩
  rw [Runner.setStage, List.getElem?_set] at hu
  split at hu
  · split at hu
    · cases hu
      exact (hstage hother).elim
    · cases hu
  · exact h.starting u other hu hother

theorem settle (h : x.Kept) (ht : x.tasks[t]? = some task) (hholds : task.stage = .starting) (stage : Stage)
    (hstage : stage ≠ .starting) : (x.release.setStage t task.run stage).Kept := by
  refine ⟨h.recorded, fun u other hu hother => ?_⟩
  rw [Runner.setStage, Runner.release, List.getElem?_set] at hu
  split at hu
  · split at hu
    · cases hu
      exact (hstage hother).elim
    · cases hu
  · rename_i hne
    have hholder := (h.starting t task ht hholds).1
    rw [(h.starting u other hu hother).1] at hholder
    exact (hne (Option.some.inj hholder).symm).elim

theorem failAdmitted (h : x.Kept) (run code message : String) : (x.failAdmitted run code message).Kept := by
  unfold Runner.failAdmitted
  split
  · exact h.append (by decide) (by decide) (fun hs => by cases hs)
  · exact h

theorem spawnFailed (h : x.Kept) (t : ℕ) (run message : String) : (x.spawnFailed t run message).Kept :=
  (h.setStage t run (by decide)).failAdmitted run "spawn_failed" message

theorem enterSpawn (h : x.Kept) (t : ℕ) (run : String) (raised : Option String) :
    (x.enterSpawn t run raised).Kept := by
  cases raised with
  | none => exact h.setStage t run (by decide)
  | some message => exact h.spawnFailed t run message

theorem deliver (h : x.Kept) (t : ℕ) (run : String) : (x.deliver t run).Kept := by
  simp only [Runner.deliver]
  split
  · exact h.setStage t run (by decide)
  · exact h.setStage t run (by simp)

theorem schedule (h : x.Kept) (run : String) : (x.schedule run).Kept := by
  refine ⟨h.recorded, fun t task ht hstage => ?_⟩
  rw [Runner.schedule, List.getElem?_append] at ht
  split at ht
  · exact h.starting t task ht hstage
  · rw [List.mem_singleton.1 (List.mem_of_getElem? ht)] at hstage
    cases hstage

theorem admitRun (h : x.Kept) (run job contract : String) : (x.admitRun run job contract).Kept := by
  unfold Runner.admitRun
  split
  · exact h
  have hget : ∀ run' r, (x.journal.set run ⟨job, contract, [⟨.admitted, []⟩]⟩).get? run' = some r →
      r = ⟨job, contract, [⟨.admitted, []⟩]⟩ ∨ x.journal.get? run' = some r := by
    intro run' r hr
    rw [Dict.get?_set] at hr
    split at hr
    · exact .inl (Option.some.inj hr).symm
    · exact .inr hr
  refine ⟨fun run' r hr => ?_, fun t task ht hstage => ?_⟩
  · obtain rfl | hr := hget run' r hr
    · exact Run.Recorded.start job contract
    · exact h.recorded run' r hr
  · obtain ⟨hholder, hnone⟩ := h.starting t task ht hstage
    refine ⟨hholder, fun r hr => ?_⟩
    obtain rfl | hr := hget task.run r hr
    · rfl
    · exact hnone r hr

theorem cancel (h : x.Kept) (run : String) : (x.cancel run).1.Kept := by
  unfold Runner.cancel
  cases hrow : x.fold run with
  | none => exact h
  | some row =>
    cases hstate : row.state with
    | admitted =>
      simp only [hstate]
      exact h.append (by decide) (by decide) (fun hs => by cases hs)
    | running =>
      have hrunning : x.state run = some .running := by rw [Runner.state, hrow, Option.map_some, hstate]
      have hcancelling : (x.append run .cancelling []).Kept :=
        h.append (by decide) (by decide) fun _ => ⟨hrunning, rfl⟩
      simp only [hstate]
      exact ⟨hcancelling.recorded, hcancelling.starting⟩
    | _ =>
      simp only [hstate]
      exact h

theorem begin (specs : String → Option JobSpec) (h : x.Kept) (t : ℕ) (run : String) (valid : Bool)
    (spawn : Option String) : (x.begin specs t run valid spawn).Kept := by
  unfold Runner.begin
  split
  · exact h.setStage t run (by decide)
  split
  · exact h.setStage t run (by decide)
  · exact h.setStage t run (by decide)
  · exact h.enterSpawn t run spawn

theorem prepared (h : x.Kept) (t : ℕ) (run : String) (outcome : PreRun) : (x.prepared t run outcome).Kept := by
  cases outcome with
  | raised message => exact (h.setStage t run (by decide)).failAdmitted run "pre_run_failed" message
  | returned spawn =>
    rw [Runner.prepared]
    split
    · exact h.setStage t run (by decide)
    · exact h.enterSpawn t run spawn

theorem acquire (h : x.Kept) (hfree : x.holder = none) (t : ℕ) (run : String) : (x.acquire t run).Kept := by
  unfold Runner.acquire
  split
  · exact h.setStage t run (by decide)
  rename_i hadmitted
  refine ⟨h.recorded, fun u other hu hother => ?_⟩
  rw [Runner.setStage, List.getElem?_set] at hu
  split at hu
  · rename_i htu
    subst htu
    split at hu
    · cases hu
      refine ⟨rfl, fun r hr => ?_⟩
      have hstate := not_not.1 hadmitted
      rw [Runner.state, Runner.fold] at hstate
      change x.journal.get? run = some r at hr
      rw [hr, Option.bind_some] at hstate
      obtain ⟨row, hrow, hs⟩ := Option.map_eq_some_iff.1 hstate
      exact (h.recorded run r hr).admitted row hrow hs
    · cases hu
  · have hholder := (h.starting u other hu hother).1
    rw [hfree] at hholder
    cases hholder

theorem started (h : x.Kept) (ht : x.tasks[t]? = some task) (hstage : task.stage = .starting) (outcome : Start) :
    (x.started t task.run outcome).Kept := by
  cases outcome with
  | raised message => exact (h.settle ht hstage _ (by decide)).failAdmitted _ _ _
  | vanished message =>
    have hfailed := (h.settle ht hstage .done (by decide)).failAdmitted task.run "spawn_failed" message
    exact ⟨hfailed.recorded, hfailed.starting⟩
  | spawned pid pgid =>
    have hsettled := h.settle ht hstage .watching (by decide)
    have hnone := (h.starting t task ht hstage).2
    have hget := x.get?_append_add task.run ⟨.running, [("pid", .int pid), ("pgid", .int pgid)]⟩
    refine ⟨fun run' r' hr' => ?_, fun u other hu hother => ?_⟩
    · obtain ⟨r, hr, rfl⟩ := Option.map_eq_some_iff.1 ((hget run').symm.trans hr')
      split
      · subst run'
        exact Run.Recorded.spawn (hnone r hr) rfl (List.cons_ne_nil _ _)
      · exact h.recorded run' r hr
    · cases (hsettled.starting u other hu hother).1

theorem finishIdle (h : x.Kept) (run : String) (code : ℤ) (signal : String) :
    (x.finishIdle run code signal).Kept := by
  unfold Runner.finishIdle
  split
  · exact h.append (by decide) (by decide) (fun hs => by cases hs)
  · exact h.append (by decide) (by decide) (fun hs => by cases hs)

theorem finishExit (specs : String → Option JobSpec) (h : x.Kept) (run : String) (code : ℤ) (stdout : String)
    (duration : ℤ) : (x.finishExit specs run code stdout duration).Kept := by
  rw [Runner.finishExit]
  split
  · exact h.append (by decide) (by decide) (fun hs => by cases hs)
  · have hstate := Sound.exitRow_state ((x.journal.get? run).bind fun r => specs r.job) code stdout duration
    refine h.append ?_ ?_ fun hs => ?_
    · obtain hs | hs := hstate <;> rw [hs] <;> decide
    · obtain hs | hs := hstate <;> rw [hs] <;> decide
    · obtain hs' | hs' := hstate <;> rw [hs'] at hs <;> cases hs

theorem answered (h : x.Kept) (t : ℕ) (run : String) (attempt : ℕ) (answer : Answer) :
    (x.answered t run attempt answer).Kept := by
  cases answer with
  | transport error | refused status | turn number =>
    exact (h.append (by decide) (by decide) (fun hs => by cases hs)).setStage t run (by decide)
  | raised message => exact h.spawnFailed t run message

/-- **One step of a task.** -/
theorem taskStep {specs : String → Option JobSpec} {e : Event} {y : Runner} (h : x.Kept) (he : e.task = some t)
    (ht : x.tasks[t]? = some task) (hstep : x.taskStep specs task.run task.stage e = some y) : y.Kept := by
  cases hstage : task.stage with
  | scheduled =>
    rw [hstage] at hstep
    cases e with
    | begin u valid spawn =>
      cases hstep
      exact h.begin specs u task.run valid spawn
    | _ => cases hstep
  | preparing =>
    rw [hstage] at hstep
    cases e with
    | prepared u outcome =>
      cases hstep
      exact h.prepared u task.run outcome
    | _ => cases hstep
  | locking =>
    rw [hstage] at hstep
    cases e with
    | acquire u =>
      rw [Runner.taskStep] at hstep
      split at hstep
      · cases hstep
        exact h.acquire (Option.isNone_iff_eq_none.1 ‹_›) u task.run
      · cases hstep
    | _ => cases hstep
  | starting =>
    rw [hstage] at hstep
    cases e with
    | started u outcome =>
      cases he
      cases hstep
      exact h.started ht hstage outcome
    | _ => cases hstep
  | watching =>
    rw [hstage] at hstep
    cases e with
    | idle u | eof u =>
      cases hstep
      exact h.setStage u task.run (by decide)
    | crashed u message =>
      cases hstep
      exact h.spawnFailed u task.run message
    | _ => cases hstep
  | killing =>
    rw [hstage] at hstep
    cases e with
    | killed u code signal =>
      cases hstep
      exact (h.finishIdle task.run code signal).deliver u task.run
    | crashed u message =>
      cases hstep
      exact h.spawnFailed u task.run message
    | _ => cases hstep
  | waiting =>
    rw [hstage] at hstep
    cases e with
    | exited u code stdout duration =>
      cases hstep
      exact (h.finishExit specs task.run code stdout duration).deliver u task.run
    | crashed u message =>
      cases hstep
      exact h.spawnFailed u task.run message
    | _ => cases hstep
  | delivering attempt =>
    rw [hstage] at hstep
    cases e with
    | answered u answer =>
      cases hstep
      exact h.answered u task.run attempt answer
    | _ => cases hstep
  | done =>
    rw [hstage] at hstep
    cases e <;> cases hstep

/-- **One step of the runner.** -/
theorem step {specs : String → Option JobSpec} {e : Event} {y : Runner} (h : x.Kept)
    (hstep : x.step specs e = some y) : y.Kept := by
  cases htask : e.task with
  | none =>
    cases e with
    | admission run job contract =>
      cases hstep
      exact h.admitRun run job contract
    | schedule run =>
      cases hstep
      exact h.schedule run
    | cancel run =>
      rw [Runner.step] at hstep
      split at hstep
      · cases hstep
        exact h.cancel run
      · cases hstep
    | _ => cases htask
  | some t =>
    obtain ⟨task, ht, hstep'⟩ := task_of_step htask hstep
    exact h.taskStep htask ht hstep'

end Kept

end Runner

/-! ## The loop -/

theorem Runner.Kept.close {w : Recovery} (h : w.runner.Kept) (run : String) : (w.close run).runner.Kept := by
  unfold Recovery.close
  split
  · exact h
  split
  · exact h.append (by decide) (by decide) (fun hs => by cases hs)
  · exact h

namespace Recovery

variable (w : Recovery) (run : String)

theorem get?_close (run' : String) : (w.close run).runner.journal.get? run' =
    (w.runner.journal.get? run').map fun r => if run' = run ∧ r.isOpen then r.add Run.lostRow else r := by
  have hkeep : (∀ r, w.runner.journal.get? run = some r → r.isOpen = false) →
      w.runner.journal.get? run' = (w.runner.journal.get? run').map fun r =>
        if run' = run ∧ r.isOpen then r.add Run.lostRow else r := by
    intro hclosed
    cases hr : w.runner.journal.get? run' with
    | none => rfl
    | some r =>
      rw [Option.map_some, if_neg]
      rintro ⟨rfl, hopen⟩
      rw [hclosed r hr] at hopen
      cases hopen
  unfold close
  cases hfold : w.runner.fold run with
  | none =>
    refine hkeep fun r hr => ?_
    rw [Runner.fold, hr, Option.bind_some] at hfold
    rw [Run.isOpen, hfold, Option.any_none]
  | some row =>
    by_cases hopen : row.state.isOpen = true
    · simp only [hopen, if_true]
      rw [Runner.get?_append_add]
      cases hr : w.runner.journal.get? run' with
      | none => rfl
      | some r =>
        rw [Option.map_some, Option.map_some]
        by_cases hrun : run' = run
        · subst hrun
          rw [Runner.fold, hr, Option.bind_some] at hfold
          have hopen' : r.isOpen = true := by rw [Run.isOpen, hfold, Option.any_some, hopen]
          rw [if_pos rfl, if_pos ⟨rfl, hopen'⟩]
        · rw [if_neg hrun, if_neg fun h => hrun h.1]
    · simp only [hopen, if_neg Bool.false_ne_true]
      refine hkeep fun r hr => ?_
      rw [Runner.fold, hr, Option.bind_some] at hfold
      rw [Run.isOpen, hfold, Option.any_some]
      exact Bool.not_eq_true _ ▸ hopen

/-- The signals that the fold of an open run asks for. -/
def Asks (x : Runner) (child : String × ℤ) : Prop :=
  ∃ row, x.fold child.1 = some row ∧ row.state.isOpen = true ∧ child.2 ∈ Runner.groupOf row.data

theorem mem_kills_close (child : String × ℤ) :
    child ∈ (w.close run).kills ↔ child ∈ w.kills ∨ child.1 = run ∧ Asks w.runner child := by
  obtain ⟨run', group⟩ := child
  unfold close
  cases hfold : w.runner.fold run with
  | none =>
    refine (or_iff_left ?_).symm
    rintro ⟨rfl, row, hrow, -⟩
    rw [hfold] at hrow
    cases hrow
  | some row =>
    by_cases hopen : row.state.isOpen = true
    · simp only [hopen, if_true, List.mem_append, List.mem_map, Prod.mk.injEq]
      refine or_congr_right ⟨?_, ?_⟩
      · rintro ⟨g, hg, rfl, rfl⟩
        exact ⟨rfl, row, hfold, hopen, hg⟩
      · rintro ⟨rfl, other, hother, -, hg⟩
        rw [hfold] at hother
        cases hother
        exact ⟨group, hg, rfl, rfl⟩
    · simp only [hopen, if_neg Bool.false_ne_true]
      refine (or_iff_left ?_).symm
      rintro ⟨rfl, other, hother, hopen', -⟩
      rw [hfold] at hother
      cases hother
      exact hopen hopen'

variable {w run}

theorem fold_close_ne {run' : String} (h : run' ≠ run) : (w.close run).runner.fold run' = w.runner.fold run' := by
  rw [Runner.fold, Runner.fold, get?_close]
  simp [h]

theorem get?_foldl_close {ids : List String} (hnodup : ids.Nodup) (w : Recovery) (run : String) :
    (ids.foldl close w).runner.journal.get? run =
      (w.runner.journal.get? run).map fun r => if run ∈ ids ∧ r.isOpen then r.add Run.lostRow else r := by
  induction ids generalizing w with
  | nil => simp
  | cons a ids ih =>
    obtain ⟨hnew, hrest⟩ := List.nodup_cons.1 hnodup
    rw [List.foldl_cons, ih hrest, get?_close, Option.map_map]
    congr 1
    funext r
    by_cases hrun : run = a
    · subst hrun
      simp [hnew]
    · simp [hrun]

theorem mem_kills_foldl_close {ids : List String} (hnodup : ids.Nodup) (w : Recovery) (child : String × ℤ) :
    child ∈ (ids.foldl close w).kills ↔ child ∈ w.kills ∨ child.1 ∈ ids ∧ Asks w.runner child := by
  induction ids generalizing w with
  | nil => simp
  | cons a ids ih =>
    obtain ⟨hnew, hrest⟩ := List.nodup_cons.1 hnodup
    have hasks : child.1 ∈ ids → (Asks (w.close a).runner child ↔ Asks w.runner child) := by
      intro hmem
      have hne : child.1 ≠ a := fun heq => hnew (heq ▸ hmem)
      rw [Asks, Asks, fold_close_ne hne]
    rw [List.foldl_cons, ih hrest, mem_kills_close, List.mem_cons, or_assoc, or_and_right, and_congr_right hasks]

end Recovery

/-! ## Runs -/

namespace Service

variable {specs : String → Option JobSpec} {s : Service}

/-- **Every state of the service.** -/
theorem kept (h : (Service.system specs).Reachable s) : s.runner.Kept := by
  refine h.invariant (I := fun s => s.runner.Kept) ?_ ?_
  · rintro _ rfl
    exact Runner.Kept.start
  rintro s e t (hs : s.runner.Kept) hstep
  cases e with
  | runner e =>
    obtain ⟨-, hstep⟩ := Option.ite_none_right_eq_some.1 hstep
    obtain ⟨x, hx, rfl⟩ := Option.map_eq_some_iff.1 hstep
    exact hs.step hx
  | restart ids =>
    obtain ⟨-, hstep⟩ := Option.ite_none_right_eq_some.1 hstep
    cases hstep
    exact ⟨hs.recorded, fun t task ht => by cases ht⟩
  | close =>
    change (match s.pending with
      | [] => none
      | run :: rest => some ⟨(Recovery.close ⟨s.runner, [], []⟩ run).runner, rest⟩) = some t at hstep
    split at hstep
    · cases hstep
    · cases hstep
      exact hs.close (w := ⟨s.runner, [], []⟩) _
  | redeliver run =>
    obtain ⟨-, hstep⟩ := Option.ite_none_right_eq_some.1 hstep
    cases hstep
    exact (hs.schedule run).deliver _ run

end Service

namespace Runner

variable {x : Runner} {ids : List String} {unrecorded : List (String × ℤ)}

theorem mem_runIds {run : String} : run ∈ x.runIds ↔ ∃ r, x.journal.get? run = some r := by
  simp [runIds, Dict.mem_items_iff]

theorem get?_reconcileOnStart (hids : ids.Perm x.runIds) (run : String) :
    (x.reconcileOnStart ids).runner.journal.get? run =
      (x.journal.get? run).map fun r => if r.isOpen then r.add Run.lostRow else r := by
  have hnodup : ids.Nodup := hids.nodup_iff.2 x.journal.nodup
  refine (Recovery.get?_foldl_close hnodup ⟨x, [], []⟩ run).trans ?_
  cases hr : x.journal.get? run with
  | none => rfl
  | some r =>
    have hmem : run ∈ ids := hids.mem_iff.2 (mem_runIds.2 ⟨r, hr⟩)
    simp [hmem]

theorem mem_kills_reconcileOnStart (hids : ids.Perm x.runIds) (child : String × ℤ) :
    child ∈ (x.reconcileOnStart ids).kills ↔ Recovery.Asks x child := by
  have hnodup : ids.Nodup := hids.nodup_iff.2 x.journal.nodup
  rw [reconcileOnStart, Recovery.mem_kills_foldl_close hnodup]
  constructor
  · rintro (hmem | ⟨-, hasks⟩)
    · cases hmem
    · exact hasks
  · rintro ⟨row, hrow, hasks⟩
    obtain ⟨r, hr, -⟩ := Option.bind_eq_some_iff.1 hrow
    exact .inr ⟨hids.mem_iff.2 (mem_runIds.2 ⟨r, hr⟩), row, hrow, hasks⟩

namespace Kept

theorem not_recorded (h : x.Kept) (hids : ids.Perm x.runIds) {run : String}
    (hcancelling : x.state run = some .cancelling) : ¬ x.Reaches unrecorded (x.reconcileOnStart ids) := by
  intro hreaches
  obtain ⟨row, hrow, hstate⟩ := Option.map_eq_some_iff.1 hcancelling
  obtain ⟨r, hr, hfold⟩ := Option.bind_eq_some_iff.1 hrow
  have hrecorded := h.recorded run r hr
  obtain ⟨spawn, hspawn⟩ := List.exists_mem_of_ne_nil _ (hrecorded.cancelling row hfold hstate)
  obtain ⟨group, hgroup⟩ := List.exists_mem_of_ne_nil _ (hrecorded.group spawn hspawn)
  have hopen : r.isOpen = true := by rw [Run.isOpen, hfold, Option.any_some, hstate]; rfl
  have hkill := hreaches.recorded run r hr hopen spawn hspawn group hgroup
  rw [mem_kills_reconcileOnStart hids] at hkill
  obtain ⟨other, hother, hopen', hg⟩ := hkill
  rw [hrow] at hother
  cases hother
  rw [hrecorded.quiet row hfold hopen' (by rw [hstate]; decide)] at hg
  cases hg

theorem not_observed (h : x.Kept) (hids : ids.Perm x.runIds) {t : ℕ} {run : String}
    (ht : x.tasks[t]? = some ⟨run, .starting⟩) (group : ℤ) : (run, group) ∉ (x.reconcileOnStart ids).kills := by
  rw [mem_kills_reconcileOnStart hids]
  rintro ⟨row, hrow, hopen, hg⟩
  obtain ⟨r, hr, hfold⟩ := Option.bind_eq_some_iff.1 hrow
  have hnone := (h.starting t _ ht rfl).2 r hr
  by_cases hrunning : row.state = .running
  · rw [(h.recorded run r hr).eq_of_running hfold hrunning] at hnone
    cases hnone
  · rw [(h.recorded run r hr).quiet row hfold hopen hrunning] at hg
    cases hg

theorem recorded_of_ne (h : x.Kept) (hids : ids.Perm x.runIds) (hcancelling : ∀ run, x.state run ≠ some .cancelling)
    {run : String} {r : Run} (hr : x.journal.get? run = some r) (hopen : r.isOpen = true) {row : Row}
    (hrow : row ∈ r.spawns) {group : ℤ} (hg : group ∈ groupOf row.data) :
    (run, group) ∈ (x.reconcileOnStart ids).kills := by
  rw [mem_kills_reconcileOnStart hids]
  obtain ⟨last, hlast, hopen⟩ := Run.isOpen_iff.1 hopen
  have hfold : x.fold run = some last := by rw [Runner.fold, hr, Option.bind_some, hlast]
  refine ⟨last, hfold, hopen, ?_⟩
  cases hstate : last.state with
  | running =>
    have hone := (h.recorded run r hr).eq_of_running hlast hstate
    rw [hone, List.mem_singleton] at hrow
    exact hrow ▸ hg
  | admitted =>
    rw [(h.recorded run r hr).admitted last hlast hstate] at hrow
    cases hrow
  | cancelling =>
    refine (hcancelling run ?_).elim
    rw [Runner.state, hfold, Option.map_some, hstate]
  | _ =>
    rw [hstate] at hopen
    cases hopen

end Kept

end Runner

/-- **A restart reaches every child** exactly when the service has stopped while no run was being cancelled and no
child was without its running transition. Every open run is lost in any case, once. -/
theorem reconcile_reaches_iff {specs : String → Option JobSpec} {s : Service}
    (h : (Service.system specs).Reachable s) {unrecorded : List (String × ℤ)} (hstops : s.runner.Stops unrecorded)
    {ids : List String} (hids : ids.Perm s.runner.runIds) :
    s.runner.Reaches unrecorded (s.runner.reconcileOnStart ids) ↔
      (∀ run, s.runner.state run ≠ some .cancelling) ∧ unrecorded = [] := by
  have hkept := Service.kept h
  constructor
  · intro hreaches
    refine ⟨fun run hcancelling => hkept.not_recorded hids hcancelling hreaches, ?_⟩
    cases hstops with
    | between => rfl
    | starting ht group =>
      exact (hkept.not_observed hids ht group (hreaches.observed _ (List.mem_singleton_self _))).elim
  · rintro ⟨hcancelling, rfl⟩
    exact ⟨fun run r hr hopen row hrow group hg => hkept.recorded_of_ne hids hcancelling hr hopen hrow hg,
      fun run => Runner.get?_reconcileOnStart hids run, fun child hmem => by cases hmem⟩

/-- The service stops while a child runs, and nothing is being cancelled. -/
theorem reconcile_reaches_running : ∃ s, (Service.system fun _ => some ⟨false, none⟩).Reachable s ∧
    s.runner.state "r1" = some .running ∧ s.runner.Reaches [] (s.runner.reconcileOnStart s.runner.runIds) := by
  have hrun : (System.exec (Service.step fun _ => some ⟨false, none⟩) .start
      [.runner (.admission "r1" "j" "inline"), .runner (.schedule "r1"), .runner (.begin 0 true none),
        .runner (.acquire 0), .runner (.started 0 (.spawned 10 10))]).map (fun s =>
      (s.runner.state "r1", s.runner.runIds)) = some (some .running, ["r1"]) := by decide
  obtain ⟨s, hs, heq⟩ := Option.map_eq_some_iff.1 hrun
  obtain ⟨hstate, hids⟩ := Prod.mk.inj heq
  have hreach : (Service.system fun _ => some ⟨false, none⟩).Reachable s := System.reachable_of_exec rfl hs
  refine ⟨s, hreach, hstate, (reconcile_reaches_iff hreach .between (.refl _)).2 ⟨fun run hrunning => ?_, rfl⟩⟩
  -- The journal has one run.
  obtain ⟨row, hrow, -⟩ := Option.map_eq_some_iff.1 hrunning
  obtain ⟨r, hr, -⟩ := Option.bind_eq_some_iff.1 hrow
  have hmem : run ∈ s.runner.runIds := Runner.mem_runIds.2 ⟨r, hr⟩
  rw [hids, List.mem_singleton] at hmem
  rw [hmem, hstate] at hrunning
  cases hrunning

/-- A run is cancelled while its child runs, and the service stops before the child does: its group is not killed. -/
theorem cancelling_not_reached : ∃ s, (Service.system fun _ => some ⟨false, none⟩).Reachable s ∧
    s.runner.Stops [] ∧ ["r1"].Perm s.runner.runIds ∧ s.runner.state "r1" = some .cancelling ∧
    ¬ s.runner.Reaches [] (s.runner.reconcileOnStart ["r1"]) := by
  have hrun : (System.exec (Service.step fun _ => some ⟨false, none⟩) .start
      [.runner (.admission "r1" "j" "inline"), .runner (.schedule "r1"), .runner (.begin 0 true none),
        .runner (.acquire 0), .runner (.started 0 (.spawned 10 10)), .runner (.cancel "r1")]).map (fun s =>
      (s.runner.state "r1", s.runner.runIds)) = some (some .cancelling, ["r1"]) := by decide
  obtain ⟨s, hs, heq⟩ := Option.map_eq_some_iff.1 hrun
  obtain ⟨hstate, hids⟩ := Prod.mk.inj heq
  have hreach : (Service.system fun _ => some ⟨false, none⟩).Reachable s := System.reachable_of_exec rfl hs
  have hperm : ["r1"].Perm s.runner.runIds := .of_eq hids.symm
  exact ⟨s, hreach, .between, hperm, hstate, (Service.kept hreach).not_recorded hperm hstate⟩

end LlmGateway.Jobs
