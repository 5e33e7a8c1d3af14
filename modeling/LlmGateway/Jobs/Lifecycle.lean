import Mathlib.Data.List.Chain
import LlmGateway.Jobs.Runner

/-!
# The lifecycle of a run

The transitions of a run ought to form a path from `admitted` to one terminal state, with one child at most, and
none when the run is cancelled before it runs. The spawn and `cancel` look at the run and append to it under the
lock. A task that fails before it has the lock looks and appends without it, while another task of the same run may
await the start of the child: the child then runs behind the failure. `run_lifecycle` holds of the runs in which
that does not happen.
-/

namespace LlmGateway.Jobs

/-! ## Paths -/

/-- The states that may follow. -/
def RunState.next : RunState → List RunState
  | admitted => [cancelled, failed, running]
  | running => [completed, failed, cancelling]
  | cancelling => [cancelled]
  | _ => []

theorem RunState.next_of_terminal {s : RunState} (h : s.terminal = true) : s.next = [] := by
  cases s <;> first | rfl | cases h

/-- A path from `admitted`, along `RunState.next`. -/
structure Lifecycle (path : List RunState) : Prop where
  head : path.head? = some .admitted
  chain : path.IsChain fun s t => t ∈ s.next

namespace Lifecycle

variable {path : List RunState} {s t : RunState}

theorem single : Lifecycle [.admitted] := ⟨rfl, .singleton _⟩

theorem append (h : Lifecycle path) (hlast : path.getLast? = some s) (hnext : t ∈ s.next) :
    Lifecycle (path ++ [t]) where
  head := by
    rw [List.head?_append, h.head]
    rfl
  chain := by
    refine List.isChain_append.2 ⟨h.chain, .singleton _, ?_⟩
    rintro u hu v ⟨⟩
    rw [hlast] at hu
    cases hu
    exact hnext

theorem eq_of_getLast_admitted (h : Lifecycle path) (hlast : path.getLast? = some .admitted) :
    path = [.admitted] := by
  obtain ⟨front, rfl⟩ := List.getLast?_eq_some_iff.1 hlast
  cases hfront : front.getLast? with
  | none =>
    rw [List.getLast?_eq_none_iff.1 hfront]
    rfl
  | some s =>
    have hstep : RunState.admitted ∈ s.next := (List.isChain_append.1 h.chain).2.2 s hfront _ rfl
    cases s <;> exact absurd hstep (by decide)

theorem not_terminal_of_mem_dropLast (h : Lifecycle path) (hs : s ∈ path.dropLast) : s.terminal = false := by
  obtain ⟨front, back, hpath⟩ := List.append_of_mem hs
  have hne : path ≠ [] := by
    rintro rfl
    cases hs
  have hsplit : path = front ++ s :: (back ++ [path.getLast hne]) := by
    conv_lhs => rw [← List.dropLast_append_getLast hne, hpath]
    simp
  obtain ⟨t, rest, hrest⟩ : ∃ t rest, back ++ [path.getLast hne] = t :: rest := by
    cases back with
    | nil => exact ⟨_, _, rfl⟩
    | cons t rest => exact ⟨t, _, rfl⟩
  have hchain := h.chain
  rw [hsplit, hrest] at hchain
  have hstep : t ∈ s.next := (List.isChain_cons_cons.1 (List.isChain_append.1 hchain).2.1).1
  rw [← Bool.not_eq_true]
  intro hterminal
  rw [RunState.next_of_terminal hterminal] at hstep
  cases hstep

end Lifecycle

namespace Run

theorem path_append (r : Run) (s : RunState) (data : List (String × Json)) :
    Run.path { r with rows := r.rows ++ [⟨s, data⟩] } = if s.isDelivery then r.path else r.path ++ [s] := by
  rw [path, List.map_append, List.filter_append]
  cases h : s.isDelivery <;> simp [path, h]

theorem state_fold (r : Run) : r.fold.map Row.state = r.path.getLast? := by
  rw [fold, path, ← List.getLast?_map, List.filter_map]
  rfl

end Run

namespace Runner

variable {x : Runner} {run run' : String} {s : RunState} {data : List (String × Json)}

/-! ## Appended transitions -/

theorem get?_append (x : Runner) (run : String) (s : RunState) (data : List (String × Json)) (run' : String) :
    (x.append run s data).journal.get? run' = (x.journal.get? run').map fun r =>
      if run' = run then { r with rows := r.rows ++ [⟨s, data⟩] } else r := Dict.get?_mapVal ..

theorem state_eq_some_iff : x.state run = some s ↔ ∃ r, x.journal.get? run = some r ∧ r.path.getLast? = some s := by
  rw [state, fold]
  cases hr : x.journal.get? run with
  | none => simp
  | some r => simp [← Run.state_fold]

theorem state_append_self (hs : s.isDelivery = false) {old : RunState} (hold : x.state run = some old) :
    (x.append run s data).state run = some s := by
  obtain ⟨r, hr, -⟩ := state_eq_some_iff.1 hold
  refine state_eq_some_iff.2 ⟨_, by rw [get?_append, hr, Option.map_some, if_pos rfl], ?_⟩
  rw [Run.path_append, hs, if_neg Bool.false_ne_true, List.getLast?_append, List.getLast?_singleton, Option.some_or]

theorem state_append_ne (h : run' ≠ run) : (x.append run s data).state run' = x.state run' := by
  rw [state, state, fold, fold, get?_append]
  simp [h]

theorem state_append_delivery (hs : s.isDelivery = true) : (x.append run s data).state run' = x.state run' := by
  by_cases hrun : run' = run
  · subst hrun
    rw [state, state, fold, fold, get?_append]
    cases hr : x.journal.get? run' with
    | none => rfl
    | some r =>
      rw [Option.map_some, Option.bind_some, Option.bind_some, if_pos rfl, Run.state_fold, Run.state_fold,
        Run.path_append, if_pos hs]
  · exact state_append_ne hrun

/-! ## The invariant -/

/-- No task of the run stands at one of the stages. -/
def NoTask (x : Runner) (p : Stage → Bool) (run : String) : Prop :=
  ∀ (t : ℕ) (task : Task), x.tasks[t]? = some task → p task.stage = true → task.run ≠ run

/-- What a runner keeps to. -/
structure Sound (x : Runner) : Prop where
  lifecycle : ∀ run r, x.journal.get? run = some r → Lifecycle r.path
  /-- Who starts a child has the lock, and its run is admitted. -/
  starting : ∀ (t : ℕ) (task : Task), x.tasks[t]? = some task → task.stage = .starting →
    x.holder = some t ∧ x.state task.run = some .admitted
  /-- Who supervises a child is alone, and its run is under way. -/
  supervised : ∀ (t : ℕ) (task : Task), x.tasks[t]? = some task → task.stage.supervises = true →
    x.state task.run = some .running ∨ x.state task.run = some .cancelling
  alone : ∀ (t t' : ℕ) (task task' : Task), x.tasks[t]? = some task → x.tasks[t']? = some task' →
    task.stage.supervises = true → task'.stage.supervises = true → task.run = task'.run → t = t'
  delivered : ∀ (t : ℕ) (task : Task), x.tasks[t]? = some task → task.stage.delivers = true →
    ∃ s, x.state task.run = some s ∧ s.terminal = true
  once : ∀ run, x.children.count run ≤ 1
  spawned : ∀ run ∈ x.children, ∃ r, x.journal.get? run = some r ∧ r.path ≠ [.admitted] ∧
    r.path ≠ [.admitted, .cancelled]

namespace Sound

theorem start : Sound .start where
  lifecycle _ _ h := by cases h
  starting _ _ h := by cases h
  supervised _ _ h := by cases h
  alone _ _ _ _ h := by cases h
  delivered _ _ h := by cases h
  once _ := Nat.zero_le 1
  spawned _ h := by cases h

variable {t : ℕ} {task : Task} {stage : Stage}

theorem path_of_admitted (h : x.Sound) (hs : x.state run = some .admitted) :
    ∃ r, x.journal.get? run = some r ∧ r.path = [.admitted] := by
  obtain ⟨r, hr, hlast⟩ := state_eq_some_iff.1 hs
  exact ⟨r, hr, (h.lifecycle run r hr).eq_of_getLast_admitted hlast⟩

theorem not_mem_children (h : x.Sound) (hs : x.state run = some .admitted) : run ∉ x.children := by
  intro hmem
  obtain ⟨r, hr, hpath⟩ := h.path_of_admitted hs
  obtain ⟨r', hr', hne, -⟩ := h.spawned run hmem
  rw [hr] at hr'
  cases hr'
  exact hne hpath

theorem noTask_of_admitted (h : x.Sound) (hs : x.state run = some .admitted) : x.NoTask Stage.supervises run := by
  rintro t task ht hsup rfl
  obtain hrun | hrun := h.supervised t task ht hsup <;> rw [hs] at hrun <;> cases hrun

theorem noTask_of_free (h : x.Sound) (hfree : x.holder = none) (run : String) : x.NoTask (· == .starting) run := by
  intro t task ht hstage
  have hholder := (h.starting t task ht (eq_of_beq hstage)).1
  rw [hfree] at hholder
  cases hholder

theorem setStage (h : x.Sound) (ht : x.tasks[t]? = some task)
    (hstarting : stage = .starting → x.holder = some t ∧ x.state task.run = some .admitted)
    (hsupervises : stage.supervises = true → task.stage.supervises = true ∨
      (x.state task.run = some .running ∧ x.NoTask Stage.supervises task.run))
    (hdelivers : stage.delivers = true → ∃ s, x.state task.run = some s ∧ s.terminal = true) :
    (x.setStage t task.run stage).Sound := by
  have hget : ∀ (u : ℕ) (other : Task), (x.setStage t task.run stage).tasks[u]? = some other →
      (u = t ∧ other = ⟨task.run, stage⟩) ∨ (u ≠ t ∧ x.tasks[u]? = some other) := by
    intro u other hu
    rw [Runner.setStage, List.getElem?_set] at hu
    by_cases htu : t = u
    · subst htu
      rw [if_pos rfl] at hu
      split at hu
      · exact .inl ⟨rfl, (Option.some.inj hu).symm⟩
      · cases hu
    · rw [if_neg htu] at hu
      exact .inr ⟨fun hut => htu hut.symm, hu⟩
  -- A supervising task at the new stage is the same as before, or the only one.
  have hother : stage.supervises = true → ∀ (u : ℕ) (other : Task), u ≠ t → x.tasks[u]? = some other →
      other.stage.supervises = true → other.run ≠ task.run := by
    intro hsup u other hne hu hosup heq
    obtain hbefore | ⟨-, hnone⟩ := hsupervises hsup
    · exact hne (h.alone u t other task hu ht hosup hbefore heq)
    · exact hnone u other hu hosup heq
  refine ⟨h.lifecycle, ?_, ?_, ?_, ?_, h.once, h.spawned⟩
  · intro u other hu hstage
    obtain ⟨rfl, rfl⟩ | ⟨-, hu⟩ := hget u other hu
    · exact hstarting hstage
    · exact h.starting u other hu hstage
  · intro u other hu hstage
    obtain ⟨rfl, rfl⟩ | ⟨-, hu⟩ := hget u other hu
    · obtain hbefore | ⟨hrun, -⟩ := hsupervises hstage
      · exact h.supervised u task ht hbefore
      · exact .inl hrun
    · exact h.supervised u other hu hstage
  · intro u v other other' hu hv hsup hsup' hrun
    obtain ⟨rfl, rfl⟩ | ⟨hne, hu'⟩ := hget u other hu
    · obtain ⟨rfl, rfl⟩ | ⟨hne', hv'⟩ := hget v other' hv
      · rfl
      · exact (hother hsup v other' hne' hv' hsup' hrun.symm).elim
    · obtain ⟨rfl, rfl⟩ | ⟨-, hv'⟩ := hget v other' hv
      · exact (hother hsup' u other hne hu' hsup hrun).elim
      · exact h.alone u v other other' hu' hv' hsup hsup' hrun
  · intro u other hu hstage
    obtain ⟨rfl, rfl⟩ | ⟨-, hu⟩ := hget u other hu
    · exact hdelivers hstage
    · exact h.delivered u other hu hstage

theorem setStage_of_idle (h : x.Sound) (ht : x.tasks[t]? = some task) (hstarting : stage ≠ .starting)
    (hsupervises : stage.supervises = false) (hdelivers : stage.delivers = false) :
    (x.setStage t task.run stage).Sound := by
  refine h.setStage ht (fun hs => (hstarting hs).elim) (fun hs => ?_) fun hs => ?_
  · rw [hsupervises] at hs
    cases hs
  · rw [hdelivers] at hs
    cases hs

theorem append (h : x.Sound) {old : RunState} (hold : x.state run = some old) (hnext : s ∈ old.next)
    (hstarting : x.NoTask (· == .starting) run)
    (hsupervised : s = .running ∨ s = .cancelling ∨ x.NoTask Stage.supervises run) : (x.append run s data).Sound := by
  have hdelivery : s.isDelivery = false := by
    cases old <;> cases s <;> first | rfl | exact absurd hnext (by decide)
  have hself : (x.append run s data).state run = some s := state_append_self hdelivery hold
  refine ⟨?_, ?_, ?_, h.alone, ?_, h.once, ?_⟩
  · intro run' r' hr'
    rw [get?_append] at hr'
    obtain ⟨r, hr, rfl⟩ := Option.map_eq_some_iff.1 hr'
    split
    · subst run'
      obtain ⟨r'', hr'', hlast⟩ := state_eq_some_iff.1 hold
      rw [hr] at hr''
      cases hr''
      rw [Run.path_append, if_neg (by simp [hdelivery])]
      exact (h.lifecycle run r hr).append hlast hnext
    · exact h.lifecycle run' r hr
  · intro t task ht hstage
    have hne : task.run ≠ run := hstarting t task ht (beq_iff_eq.2 hstage)
    rw [state_append_ne hne]
    exact h.starting t task ht hstage
  · intro t task ht hstage
    by_cases hrun : task.run = run
    · rw [hrun, hself]
      obtain rfl | rfl | hnone := hsupervised
      · exact .inl rfl
      · exact .inr rfl
      · exact (hnone t task ht hstage hrun).elim
    · rw [state_append_ne hrun]
      exact h.supervised t task ht hstage
  · -- Nothing follows a terminal state.
    intro t task ht hstage
    obtain ⟨u, hu, hterminal⟩ := h.delivered t task ht hstage
    by_cases hrun : task.run = run
    · rw [hrun, hold, Option.some.injEq] at hu
      rw [RunState.next_of_terminal (hu ▸ hterminal)] at hnext
      cases hnext
    · rw [state_append_ne hrun]
      exact ⟨u, hu, hterminal⟩
  · intro run' hmem
    obtain ⟨r, hr, hne, hne'⟩ := h.spawned run' hmem
    refine ⟨_, by rw [get?_append, hr, Option.map_some], ?_⟩
    split
    · rw [Run.path_append, if_neg (by simp [hdelivery])]
      constructor
      · intro hpath
        rw [List.append_eq_singleton_iff] at hpath
        obtain ⟨hnil, -⟩ | ⟨-, hnil⟩ := hpath
        · have hhead := (h.lifecycle run' r hr).head
          rw [hnil] at hhead
          cases hhead
        · cases hnil
      · intro hpath
        exact hne (List.append_inj_left' (hpath.trans (List.singleton_append (l := [RunState.cancelled])).symm) rfl)
    · exact ⟨hne, hne'⟩

theorem append_delivery (h : x.Sound) (hs : s.isDelivery = true) : (x.append run s data).Sound := by
  have hstate : ∀ run', (x.append run s data).state run' = x.state run' := fun _ => state_append_delivery hs
  have hget : ∀ run' r', (x.append run s data).journal.get? run' = some r' →
      ∃ r, x.journal.get? run' = some r ∧ r'.path = r.path := by
    intro run' r' hr'
    rw [get?_append] at hr'
    obtain ⟨r, hr, rfl⟩ := Option.map_eq_some_iff.1 hr'
    refine ⟨r, hr, ?_⟩
    split
    · rw [Run.path_append, if_pos hs]
    · rfl
  refine ⟨?_, ?_, ?_, h.alone, ?_, h.once, ?_⟩
  · intro run' r' hr'
    obtain ⟨r, hr, hpath⟩ := hget run' r' hr'
    exact hpath ▸ h.lifecycle run' r hr
  · intro t task ht hstage
    rw [hstate]
    exact h.starting t task ht hstage
  · intro t task ht hstage
    rw [hstate]
    exact h.supervised t task ht hstage
  · intro t task ht hstage
    rw [hstate]
    exact h.delivered t task ht hstage
  · intro run' hmem
    obtain ⟨r, hr, hne⟩ := h.spawned run' hmem
    refine ⟨_, by rw [get?_append, hr, Option.map_some], ?_⟩
    split
    · rw [Run.path_append, if_pos hs]
      exact hne
    · exact hne

theorem withHolder (h : x.Sound) (hstarting : ∀ run, x.NoTask (· == .starting) run) (holder : Option ℕ) :
    Sound { x with holder := holder } :=
  ⟨h.lifecycle, fun t task ht hstage => (hstarting task.run t task ht (beq_iff_eq.2 hstage) rfl).elim,
    h.supervised, h.alone, h.delivered, h.once, h.spawned⟩

theorem addChild (h : x.Sound) (hnew : run ∉ x.children) {r : Run} (hr : x.journal.get? run = some r)
    (hne : r.path ≠ [.admitted]) (hne' : r.path ≠ [.admitted, .cancelled]) : (x.addChild run).Sound := by
  refine ⟨h.lifecycle, h.starting, h.supervised, h.alone, h.delivered, fun run' => ?_, fun run' hmem => ?_⟩
  · rw [Runner.addChild, List.count_cons]
    split
    · rename_i heq
      rw [← eq_of_beq heq, List.count_eq_zero.2 hnew]
    · exact h.once run'
  · obtain rfl | hmem := List.mem_cons.1 hmem
    · exact ⟨r, hr, hne, hne'⟩
    · exact h.spawned run' hmem

theorem admitRun (h : x.Sound) (run job contract : String) : (x.admitRun run job contract).Sound := by
  unfold Runner.admitRun
  split
  · exact h
  rename_i hnew
  rw [Dict.contains_iff, not_exists] at hnew
  have hget : ∀ run' r, x.journal.get? run' = some r →
      (x.journal.set run ⟨job, contract, [⟨.admitted, []⟩]⟩).get? run' = some r := by
    intro run' r hr
    rw [Dict.get?_set, if_neg ?_, hr]
    rintro rfl
    exact hnew r hr
  have hstate : ∀ {run' s}, x.state run' = some s →
      Runner.state { x with journal := x.journal.set run ⟨job, contract, [⟨.admitted, []⟩]⟩ } run' = some s := by
    intro run' s hs
    obtain ⟨r, hr, hlast⟩ := state_eq_some_iff.1 hs
    exact state_eq_some_iff.2 ⟨r, hget run' r hr, hlast⟩
  refine ⟨?_, ?_, ?_, h.alone, ?_, h.once, ?_⟩
  · intro run' r hr
    change (x.journal.set run _).get? run' = some r at hr
    rw [Dict.get?_set] at hr
    split at hr
    · cases hr
      exact Lifecycle.single
    · exact h.lifecycle run' r hr
  · intro t task ht hstage
    exact (h.starting t task ht hstage).imp_right hstate
  · intro t task ht hstage
    exact (h.supervised t task ht hstage).imp hstate hstate
  · intro t task ht hstage
    obtain ⟨s, hs, hterminal⟩ := h.delivered t task ht hstage
    exact ⟨s, hstate hs, hterminal⟩
  · intro run' hmem
    obtain ⟨r, hr, hne⟩ := h.spawned run' hmem
    exact ⟨r, hget run' r hr, hne⟩

theorem schedule (h : x.Sound) (run : String) : (x.schedule run).Sound := by
  have hget : ∀ (t : ℕ) (task : Task), (x.schedule run).tasks[t]? = some task →
      task.stage = .scheduled ∨ x.tasks[t]? = some task := by
    intro t task ht
    rw [Runner.schedule, List.getElem?_append] at ht
    split at ht
    · exact .inr ht
    · left
      obtain hmem := List.mem_of_getElem? ht
      rw [List.mem_singleton.1 hmem]
  refine ⟨h.lifecycle, ?_, ?_, ?_, ?_, h.once, h.spawned⟩
  · intro t task ht hstage
    obtain hnew | ht := hget t task ht
    · rw [hnew] at hstage
      cases hstage
    · exact h.starting t task ht hstage
  · intro t task ht hstage
    obtain hnew | ht := hget t task ht
    · rw [hnew] at hstage
      cases hstage
    · exact h.supervised t task ht hstage
  · intro t t' task task' ht ht' hstage hstage' hrun
    obtain hnew | ht := hget t task ht
    · rw [hnew] at hstage
      cases hstage
    obtain hnew | ht' := hget t' task' ht'
    · rw [hnew] at hstage'
      cases hstage'
    exact h.alone t t' task task' ht ht' hstage hstage' hrun
  · intro t task ht hstage
    obtain hnew | ht := hget t task ht
    · rw [hnew] at hstage
      cases hstage
    · exact h.delivered t task ht hstage

end Sound

/-! ## The steps of a task -/

theorem setStage_setStage (x : Runner) (t : ℕ) (run : String) (stage stage' : Stage) :
    (x.setStage t run stage).setStage t run stage' = x.setStage t run stage' := by
  simp [setStage]

theorem getElem?_setStage {t : ℕ} {task : Task} (ht : x.tasks[t]? = some task) (run : String) (stage : Stage) :
    (x.setStage t run stage).tasks[t]? = some ⟨run, stage⟩ := by
  obtain ⟨hlt, -⟩ := List.getElem?_eq_some_iff.1 ht
  rw [setStage, List.getElem?_set_self hlt]

theorem task_of_step {specs : String → Option JobSpec} {e : Event} {t : ℕ} {y : Runner} (htask : e.task = some t)
    (hstep : x.step specs e = some y) :
    ∃ task, x.tasks[t]? = some task ∧ x.taskStep specs task.run task.stage e = some y := by
  have hbind : ((some t).bind fun t => x.tasks[t]?).bind
      (fun task => x.taskStep specs task.run task.stage e) = some y := by
    rw [← htask]
    cases e <;> first | exact hstep | cases htask
  exact Option.bind_eq_some_iff.1 hbind

theorem deliver_setStage (x : Runner) (t : ℕ) (run : String) (stage : Stage) :
    (x.setStage t run stage).deliver t run = x.deliver t run := by
  have hsame : ∀ stage', (x.setStage t run stage).setStage t run stage' = x.setStage t run stage' :=
    x.setStage_setStage t run stage
  unfold deliver
  cases h : (x.journal.get? run).filter fun r =>
    r.outputContract == "thread" && (r.fold.any fun row => row.state.terminal) && decide (r.deliveryAttempts < 2) &&
      !(r.latestDelivery.any fun row => row.state == .delivered) with
  | none =>
    simp only [show (x.setStage t run stage).journal = x.journal from rfl, h]
    exact hsame _
  | some r =>
    simp only [show (x.setStage t run stage).journal = x.journal from rfl, h]
    exact hsame _

namespace Sound

variable {specs : String → Option JobSpec} {t : ℕ} {task : Task}

theorem noTask_of_ne (h : x.Sound) (hs : x.state run ≠ some .admitted) : x.NoTask (· == .starting) run := by
  rintro t task ht hstage rfl
  exact hs (h.starting t task ht (eq_of_beq hstage)).2

theorem noTask_of_done (h : x.Sound) (ht : x.tasks[t]? = some task) (hsup : task.stage.supervises = true) :
    (x.setStage t task.run .done).NoTask Stage.supervises task.run := by
  intro u other hu hosup hrun
  rw [Runner.setStage, List.getElem?_set] at hu
  split at hu
  · split at hu
    · cases hu
      cases hosup
    · cases hu
  · rename_i hne
    exact hne (h.alone t u task other ht hu hsup hosup hrun.symm)

theorem setDone (h : x.Sound) (ht : x.tasks[t]? = some task) : (x.setStage t task.run .done).Sound :=
  h.setStage_of_idle ht (by decide) rfl rfl

theorem failAdmitted (h : x.Sound) (hstarting : x.state run = some .admitted → x.NoTask (· == .starting) run)
    (code message : String) : (x.failAdmitted run code message).Sound := by
  unfold Runner.failAdmitted
  split
  · rename_i hadm
    exact h.append hadm (by decide) (hstarting hadm) (.inr (.inr (h.noTask_of_admitted hadm)))
  · exact h

theorem noTask_setStage {stage : Stage} (hstage : stage ≠ .starting) (hnone : x.NoTask (· == .starting) run) :
    (x.setStage t run' stage).NoTask (· == .starting) run := by
  intro u other hu hosup
  rw [Runner.setStage, List.getElem?_set] at hu
  split at hu
  · split at hu
    · cases hu
      exact (hstage (eq_of_beq hosup)).elim
    · cases hu
  · exact hnone u other hu hosup

theorem spawnFailed (h : x.Sound) (ht : x.tasks[t]? = some task)
    (hstarting : x.state task.run = some .admitted → x.NoTask (· == .starting) task.run) (message : String) :
    (x.spawnFailed t task.run message).Sound :=
  (h.setDone ht).failAdmitted (fun hadm => noTask_setStage (by decide) (hstarting hadm)) _ _

theorem enterSpawn (h : x.Sound) (ht : x.tasks[t]? = some task) (raised : Option String)
    (hstarting : raised.isSome = true → x.NoTask (· == .starting) task.run) :
    (x.enterSpawn t task.run raised).Sound := by
  unfold Runner.enterSpawn
  split
  · exact h.setStage_of_idle ht (by decide) rfl rfl
  · exact h.spawnFailed ht (fun _ => hstarting rfl) _

/-- Behind a child that has been started. -/
theorem started (h : x.Sound) (ht : x.tasks[t]? = some task) (hstage : task.stage = .starting) (outcome : Start) :
    (x.started t task.run outcome).Sound := by
  obtain ⟨hholder, hadm⟩ := h.starting t task ht hstage
  -- Whoever starts a child has the lock, so nobody does when this task has gone on.
  have hnone : ∀ run, (x.setStage t task.run .done).NoTask (· == .starting) run := by
    intro run u other hu hother _
    rw [Runner.setStage, List.getElem?_set] at hu
    split at hu
    · split at hu
      · cases hu
        exact absurd hother Bool.false_ne_true
      · cases hu
    · rename_i hne
      have hholder' := (h.starting u other hu (eq_of_beq hother)).1
      rw [hholder, Option.some.injEq] at hholder'
      exact hne hholder'
  have hreleased : ((x.setStage t task.run .done).release).Sound := (h.setDone ht).withHolder hnone none
  have hadm' : (x.setStage t task.run .done).release.state task.run = some .admitted := hadm
  have hnew : task.run ∉ x.children := h.not_mem_children hadm
  have hpath : ∀ s data, s.isDelivery = false → ∃ r,
      ((x.setStage t task.run .done).release.append task.run s data).journal.get? task.run = some r ∧
        r.path = [.admitted, s] := by
    intro s data hs
    obtain ⟨r, hr, hpath⟩ := h.path_of_admitted hadm
    have hr' : (x.setStage t task.run .done).release.journal.get? task.run = some r := hr
    refine ⟨_, by rw [get?_append, hr', Option.map_some, if_pos rfl], ?_⟩
    rw [Run.path_append, if_neg (by simp [hs]), hpath]
    rfl
  cases outcome with
  | raised message => exact hreleased.failAdmitted (fun _ => hnone task.run) _ _
  | vanished message =>
    have hfailed : ((x.setStage t task.run .done).release.failAdmitted task.run "spawn_failed" message).Sound :=
      hreleased.failAdmitted (fun _ => hnone task.run) "spawn_failed" message
    rw [Runner.failAdmitted, if_pos hadm'] at hfailed
    obtain ⟨r, hr, hp⟩ := hpath .failed [("error", .obj [("code", .str "spawn_failed")]),
      ("message", .str message)] rfl
    have hchild := hfailed.addChild hnew hr (by rw [hp]; decide) (by rw [hp]; decide)
    have heq : x.started t task.run (.vanished message) =
        ((x.setStage t task.run .done).release.failAdmitted task.run "spawn_failed" message).addChild task.run := rfl
    rw [heq, Runner.failAdmitted, if_pos hadm']
    exact hchild
  | spawned pid pgid =>
    have hrunning : ((x.setStage t task.run .done).release.append task.run .running
        [("pid", .int pid), ("pgid", .int pgid)]).Sound :=
      hreleased.append hadm' (by decide) (hnone task.run) (.inl rfl)
    obtain ⟨r, hr, hp⟩ := hpath .running [("pid", .int pid), ("pgid", .int pgid)] rfl
    have hchild := hrunning.addChild hnew hr (by rw [hp]; decide) (by rw [hp]; decide)
    have ht' : (((x.setStage t task.run .done).release.append task.run .running
        [("pid", .int pid), ("pgid", .int pgid)]).addChild task.run).tasks[t]? = some ⟨task.run, .done⟩ :=
      getElem?_setStage ht task.run .done
    have hwatching : ((((x.setStage t task.run .done).release.append task.run .running
        [("pid", .int pid), ("pgid", .int pgid)]).addChild task.run).setStage t (Task.mk task.run .done).run
          .watching).Sound :=
      hchild.setStage ht' (fun hs => by cases hs)
        (fun _ => .inr ⟨state_append_self rfl hadm', (h.setDone ht).noTask_of_admitted hadm⟩) (fun hs => by cases hs)
    have heq : x.started t task.run (.spawned pid pgid) =
        (((x.setStage t task.run .done).release.append task.run .running
          [("pid", .int pid), ("pgid", .int pgid)]).addChild task.run).setStage t task.run .watching := by
      have hset := setStage_setStage ((x.release.append task.run .running
        [("pid", .int pid), ("pgid", .int pgid)]).addChild task.run) t task.run .done .watching
      exact hset.symm
    rw [heq]
    exact hwatching

theorem deliver (h : x.Sound) (ht : x.tasks[t]? = some task) : (x.deliver t task.run).Sound := by
  simp only [Runner.deliver]
  split
  · exact h.setDone ht
  · rename_i r hr
    obtain ⟨hr, hdue⟩ := Option.filter_eq_some_iff.1 hr
    simp only [Bool.and_eq_true, Option.any_eq_true] at hdue
    obtain ⟨⟨⟨-, row, hrow, hterminal⟩, -⟩, -⟩ := hdue
    refine h.setStage ht (fun hs => by cases hs) (fun hs => by cases hs) fun _ => ⟨row.state, ?_, hterminal⟩
    rw [Runner.state, Runner.fold, hr, Option.bind_some, hrow, Option.map_some]

theorem finished (h : x.Sound) (ht : x.tasks[t]? = some task) (hsup : task.stage.supervises = true)
    {s : RunState} {data : List (String × Json)}
    (hnext : ∀ old, x.state task.run = some old → old = .running ∨ old = .cancelling → s ∈ old.next) :
    ((x.append task.run s data).deliver t task.run).Sound := by
  obtain ⟨old, hold, hway⟩ : ∃ old, x.state task.run = some old ∧ (old = .running ∨ old = .cancelling) := by
    obtain hrun | hrun := h.supervised t task ht hsup
    · exact ⟨_, hrun, .inl rfl⟩
    · exact ⟨_, hrun, .inr rfl⟩
  have hne : x.state task.run ≠ some .admitted := by
    rw [hold]
    obtain rfl | rfl := hway <;> decide
  have hdone : ((x.setStage t task.run .done).append task.run s data).Sound :=
    (h.setDone ht).append hold (hnext old hold hway) ((h.setDone ht).noTask_of_ne hne)
      (.inr (.inr (h.noTask_of_done ht hsup)))
  have ht' : ((x.setStage t task.run .done).append task.run s data).tasks[t]? = some ⟨task.run, .done⟩ :=
    getElem?_setStage ht task.run .done
  have hdelivered := hdone.deliver ht'
  have heq : ((x.setStage t task.run .done).append task.run s data).deliver t task.run =
      (x.append task.run s data).deliver t task.run := deliver_setStage (x.append task.run s data) t task.run .done
  rw [← heq]
  exact hdelivered

end Sound

/-! ## Runs -/

/-- A task awaits the start of a child of the run. -/
def startsRun (x : Runner) (run : String) : Bool :=
  (x.holder.bind fun t => x.tasks[t]?).any fun task => task.run == run

/-- The event is a failure of the run's task before it asks for the lock: `pre_run` raises, or `_spawn` does. -/
def failsEarly (specs : String → Option JobSpec) (x : Runner) (run : String) : Event → Bool
  | .begin _ _ spawn => spawn.isSome && ((x.journal.get? run).bind fun r => specs r.job).any fun spec => !spec.preRun
  | .prepared _ (.raised _) => true
  | .prepared _ (.returned spawn) => spawn.isSome
  | _ => false

/-- No task fails before it asks for the lock while another one starts a child of its run. -/
def undisturbed (specs : String → Option JobSpec) (x : Runner) (e : Event) : Bool :=
  (e.task.bind fun t => x.tasks[t]?).all fun task => !(x.failsEarly specs task.run e && x.startsRun task.run)

/-- What is asked of a run. -/
structure Orderly (x : Runner) (run : String) : Prop where
  lifecycle : ∀ r, x.journal.get? run = some r →
    Lifecycle r.path ∧ ∀ s ∈ r.path.dropLast, s.terminal = false
  once : x.children.count run ≤ 1
  /-- A run that is cancelled while it is admitted. -/
  unspawned : ∀ r, x.journal.get? run = some r → r.path = [.admitted, .cancelled] → run ∉ x.children

namespace Sound

variable {specs : String → Option JobSpec}

theorem orderly (h : x.Sound) (run : String) : x.Orderly run where
  lifecycle r hr := ⟨h.lifecycle run r hr, fun _ hs => (h.lifecycle run r hr).not_terminal_of_mem_dropLast hs⟩
  once := h.once run
  unspawned r hr hpath hmem := by
    obtain ⟨r', hr', -, hne⟩ := h.spawned run hmem
    rw [hr] at hr'
    cases hr'
    exact hne hpath

theorem noTask_of_not_startsRun (h : x.Sound) (hs : x.startsRun run = false) : x.NoTask (· == .starting) run := by
  rintro t task ht hstage rfl
  have hholder := (h.starting t task ht (eq_of_beq hstage)).1
  simp [startsRun, hholder, ht] at hs

theorem cancel (h : x.Sound) (hfree : x.holder = none) (run : String) : (x.cancel run).1.Sound := by
  unfold Runner.cancel
  cases hrow : x.fold run with
  | none => exact h
  | some row =>
    have hold : x.state run = some row.state := by rw [Runner.state, hrow, Option.map_some]
    have hnone := h.noTask_of_free hfree run
    cases hstate : row.state with
    | admitted =>
      rw [hstate] at hold
      simp only [hstate]
      exact h.append hold (by decide) hnone (.inr (.inr (h.noTask_of_admitted hold)))
    | running =>
      rw [hstate] at hold
      simp only [hstate]
      have hcancelling : (x.append run .cancelling []).Sound :=
        h.append hold (by decide) hnone (.inr (.inl rfl))
      exact ⟨hcancelling.lifecycle, hcancelling.starting, hcancelling.supervised, hcancelling.alone,
        hcancelling.delivered, hcancelling.once, hcancelling.spawned⟩
    | _ =>
      simp only [hstate]
      exact h

variable {t : ℕ} {task : Task}

theorem begin (h : x.Sound) (ht : x.tasks[t]? = some task) (valid : Bool) (spawn : Option String)
    (hearly : x.failsEarly specs task.run (.begin t valid spawn) = true → x.startsRun task.run = false) :
    (x.begin specs t task.run valid spawn).Sound := by
  unfold Runner.begin
  split
  · exact h.setDone ht
  cases hspec : (x.journal.get? task.run).bind fun r => specs r.job with
  | none => exact h.setDone ht
  | some spec =>
    cases hpre : spec.preRun with
    | true =>
      simp only [Option.map_some, hpre]
      exact h.setStage_of_idle ht (by decide) rfl rfl
    | false =>
      simp only [Option.map_some, hpre]
      refine h.enterSpawn ht spawn fun hspawn => h.noTask_of_not_startsRun (hearly ?_)
      simp [failsEarly, hspawn, hspec, hpre]

theorem prepared (h : x.Sound) (ht : x.tasks[t]? = some task) (outcome : PreRun)
    (hearly : x.failsEarly specs task.run (.prepared t outcome) = true → x.startsRun task.run = false) :
    (x.prepared t task.run outcome).Sound := by
  cases outcome with
  | raised message =>
    exact (h.setDone ht).failAdmitted
      (fun _ => noTask_setStage (by decide) (h.noTask_of_not_startsRun (hearly rfl))) _ _
  | returned spawn =>
    simp only [Runner.prepared]
    split
    · exact h.setDone ht
    · exact h.enterSpawn ht spawn fun hspawn => h.noTask_of_not_startsRun (hearly hspawn)

theorem acquire (h : x.Sound) (ht : x.tasks[t]? = some task) (hfree : x.holder = none) :
    (x.acquire t task.run).Sound := by
  unfold Runner.acquire
  split
  · exact h.setDone ht
  · rename_i hadm
    have hlocked : Sound { x with holder := some t } := h.withHolder (h.noTask_of_free hfree) (some t)
    exact hlocked.setStage (t := t) ht (fun _ => ⟨rfl, not_not.1 hadm⟩) (fun hs => by cases hs) (fun hs => by cases hs)

theorem exitRow_state (spec : Option JobSpec) (code : ℤ) (stdout : String) (duration : ℤ) :
    (exitRow spec code stdout duration).state = .failed ∨ (exitRow spec code stdout duration).state = .completed := by
  simp only [exitRow]
  split
  · exact .inl rfl
  split
  · exact .inl rfl
  · exact .inr rfl

theorem crashed (h : x.Sound) (ht : x.tasks[t]? = some task) (hsup : task.stage.supervises = true)
    (message : String) : (x.spawnFailed t task.run message).Sound := by
  refine h.spawnFailed ht (fun hadm => ?_) message
  obtain hrun | hrun := h.supervised t task ht hsup <;> rw [hrun] at hadm <;> cases hadm

/-- **One step of a task.** -/
theorem taskStep {e : Event} {y : Runner} (h : x.Sound) (he : e.task = some t)
    (ht : x.tasks[t]? = some task) (hstep : x.taskStep specs task.run task.stage e = some y)
    (hearly : x.failsEarly specs task.run e = true → x.startsRun task.run = false) : y.Sound := by
  cases hstage : task.stage with
  | scheduled =>
    rw [hstage] at hstep
    cases e with
    | begin u valid spawn =>
      cases he
      cases hstep
      exact h.begin ht valid spawn hearly
    | _ => cases hstep
  | preparing =>
    rw [hstage] at hstep
    cases e with
    | prepared u outcome =>
      cases he
      cases hstep
      exact h.prepared ht outcome hearly
    | _ => cases hstep
  | locking =>
    rw [hstage] at hstep
    cases e with
    | acquire u =>
      cases he
      rw [Runner.taskStep] at hstep
      split at hstep
      · cases hstep
        exact h.acquire ht (Option.isNone_iff_eq_none.1 ‹_›)
      · cases hstep
    | _ => cases hstep
  | starting =>
    rw [hstage] at hstep
    cases e with
    | started u outcome =>
      cases he
      cases hstep
      exact h.started ht hstage outcome
    | _ => cases hstep
  | watching =>
    rw [hstage] at hstep
    have hsup : task.stage.supervises = true := by rw [hstage]; rfl
    cases e with
    | idle u | eof u =>
      cases he
      cases hstep
      exact h.setStage ht (fun hs => by cases hs) (fun _ => .inl hsup) (fun hs => by cases hs)
    | crashed u message =>
      cases he
      cases hstep
      exact h.crashed ht hsup message
    | _ => cases hstep
  | killing =>
    rw [hstage] at hstep
    have hsup : task.stage.supervises = true := by rw [hstage]; rfl
    cases e with
    | killed u code signal =>
      cases he
      cases hstep
      unfold Runner.finishIdle
      split
      · rename_i hcancelling
        refine h.finished ht hsup fun old hold _ => ?_
        rw [hcancelling] at hold
        cases hold
        decide
      · rename_i hcancelling
        refine h.finished ht hsup fun old hold hway => ?_
        obtain rfl | rfl := hway
        · decide
        · exact (hcancelling hold).elim
    | crashed u message =>
      cases he
      cases hstep
      exact h.crashed ht hsup message
    | _ => cases hstep
  | waiting =>
    rw [hstage] at hstep
    have hsup : task.stage.supervises = true := by rw [hstage]; rfl
    cases e with
    | exited u code stdout duration =>
      cases he
      cases hstep
      simp only [Runner.finishExit]
      split
      · rename_i hcancelling
        refine h.finished ht hsup fun old hold _ => ?_
        rw [hcancelling] at hold
        cases hold
        decide
      · rename_i hcancelling
        refine h.finished ht hsup fun old hold hway => ?_
        obtain rfl | rfl := hway
        · obtain hrow | hrow := exitRow_state ((x.journal.get? task.run).bind fun r => specs r.job) code stdout
            duration <;> rw [hrow] <;> decide
        · exact (hcancelling hold).elim
    | crashed u message =>
      cases he
      cases hstep
      exact h.crashed ht hsup message
    | _ => cases hstep
  | delivering attempt =>
    rw [hstage] at hstep
    cases e with
    | answered u answer =>
      cases he
      cases hstep
      cases answer with
      | transport error | refused status | turn number => exact (h.append_delivery rfl).setDone ht
      | raised message =>
        refine h.spawnFailed ht (fun hadm => ?_) message
        obtain ⟨s, hs, hterminal⟩ := h.delivered t task ht (by rw [hstage]; rfl)
        rw [hadm] at hs
        cases hs
        cases hterminal
    | _ => cases hstep
  | done =>
    rw [hstage] at hstep
    cases e <;> cases hstep

/-- **One step.** -/
theorem step {e : Event} {y : Runner} (h : x.Sound) (hstep : x.step specs e = some y)
    (hundisturbed : x.undisturbed specs e = true) : y.Sound := by
  cases htask : e.task with
  | none =>
    cases e with
    | admission run job contract =>
      cases hstep
      exact h.admitRun run job contract
    | schedule run =>
      cases hstep
      exact h.schedule run
    | cancel run =>
      rw [Runner.step] at hstep
      split at hstep
      · cases hstep
        exact h.cancel (Option.isNone_iff_eq_none.1 ‹_›) run
      · cases hstep
    | _ => cases htask
  | some t =>
    obtain ⟨task, ht, hstep'⟩ := task_of_step htask hstep
    rw [undisturbed, htask, Option.bind_some, ht, Option.all_some, Bool.not_eq_true', Bool.and_eq_false_iff]
      at hundisturbed
    refine h.taskStep htask ht hstep' fun hearly => hundisturbed.resolve_left ?_
    rw [hearly]
    decide

end Sound

end Runner

/-- **The lifecycle of a run.** As long as no task of a run fails before it has asked for the lock while another
one starts the run's child, every run goes along a path from `admitted` to one terminal state, has one child at
most, and none when it was cancelled before it ran. -/
theorem run_lifecycle {specs : String → Option JobSpec} {x : Runner}
    (h : ((Runner.system specs).restrict fun x e => x.undisturbed specs e = true).Reachable x) (run : String) :
    x.Orderly run := by
  refine Runner.Sound.orderly (h.invariant ?_ ?_) run
  · rintro _ rfl
    exact Runner.Sound.start
  · rintro x e y hsound ⟨hundisturbed, hstep⟩
    exact hsound.step hstep hundisturbed

/-- A run that is cancelled while its child runs. -/
theorem run_lifecycle_cancelled : ∃ x, (Runner.system fun _ => some ⟨false, none⟩).Reachable x ∧
    (x.journal.get? "r1").map Run.path = some [.admitted, .running, .cancelling, .cancelled] ∧ x.Orderly "r1" := by
  have hrun : (System.exec (System.guarded (Runner.step fun _ => some ⟨false, none⟩) fun x e =>
      x.undisturbed (fun _ => some ⟨false, none⟩) e = true) .start
      [.admission "r1" "j" "inline", .schedule "r1", .begin 0 true none, .acquire 0, .started 0 (.spawned 10 10),
        .cancel "r1", .eof 0, .exited 0 (-15) "" 5]).map (fun x => (x.journal.get? "r1").map Run.path) =
      some (some [.admitted, .running, .cancelling, .cancelled]) := by decide
  obtain ⟨x, hx, hpath⟩ := Option.map_eq_some_iff.1 hrun
  have hreach : ((Runner.system fun _ => some ⟨false, none⟩).restrict fun x e =>
      x.undisturbed (fun _ => some ⟨false, none⟩) e = true).Reachable x := System.reachable_of_exec_guarded rfl hx
  exact ⟨x, hreach.of_restrict, hpath, run_lifecycle hreach "r1"⟩

/-- A run is scheduled twice. While the first task starts the child, `pre_run` of the second one raises: the run has
failed, and then it runs. -/
theorem failed_then_running : ∃ x, (Runner.system fun _ => some ⟨true, none⟩).Reachable x ∧
    (x.journal.get? "r1").map Run.path = some [.admitted, .failed, .running] ∧ ¬ x.Orderly "r1" := by
  have hrun : (System.exec (Runner.step fun _ => some ⟨true, none⟩) .start
      [.admission "r1" "j" "inline", .schedule "r1", .schedule "r1", .begin 0 true none, .begin 1 true none,
        .prepared 0 (.returned none), .acquire 0, .prepared 1 (.raised "down"),
        .started 0 (.spawned 10 10)]).map (fun x => (x.journal.get? "r1").map Run.path) =
      some (some [.admitted, .failed, .running]) := by decide
  obtain ⟨x, hx, hpath⟩ := Option.map_eq_some_iff.1 hrun
  refine ⟨x, System.reachable_of_exec rfl hx, hpath, fun horderly => ?_⟩
  obtain ⟨r, hr, hpath⟩ := Option.map_eq_some_iff.1 hpath
  have hterminal := (horderly.lifecycle r hr).2 .failed (by rw [hpath]; decide)
  cases hterminal

end LlmGateway.Jobs
