import LlmGateway.Pipeline.DagSafety

/-!
# The DAG executor comes to an end

Every execution ends: there is always something that can happen (`execution_progresses`), and the number of steps is
bounded by the number of nodes (`execution_bounded`), whatever comes from outside and in any order. That a pass
over the ready steps leads to another one at once only where it has launched or skipped a step is what
`progress` in the source is for; `Control.credit` counts it.
-/

namespace LlmGateway.Pipeline

variable {D : Dag}

/-! ## The measure -/

variable (D) in
/-- The steps that are pending or ready. -/
def DagExecutor.unlaunched (x : DagExecutor) : Finset String :=
  D.ids.toFinset.filter fun id => x.state id = .pending ∨ x.state id = .ready

variable (D) in
/-- The steps whose task has not ended. -/
def DagExecutor.unended (x : DagExecutor) : Finset String :=
  D.ids.toFinset.filter fun id => (x.tasks id).any (fun t => t.result.isNone) = true

variable (D) in
/-- A step that is launched leaves less work: its task has to end and to be handled. -/
def DagExecutor.work (x : DagExecutor) : ℕ :=
  5 * (x.unlaunched D).card + x.pendingTasks.length + 2 * (x.unended D).card

/-- One, where the pass has launched or skipped a step. -/
def Control.credit (x : DagExecutor) : Control → ℕ
  | .filtering ready .. | .resolving ready .. => (ready.any fun id => x.state id == .skipped).toNat
  | .launching _ _ launched skipped => (launched || skipped).toNat
  | _ => 0

variable (D) in
/-- What is left to do with the same work. -/
def Control.left (x : DagExecutor) : Control → ℕ
  | .loop => (if x.allDone D then 1 else 5 * D.ids.length + 5) + 2 * x.pendingTasks.length + 4
  | .filtering _ rest selected => 5 * rest.length + 3 * selected.length + 4 + 2 * x.pendingTasks.length + 4
  | .resolving _ _ rest selected => 5 * rest.length + 3 * selected.length + 8 + 2 * x.pendingTasks.length + 4
  | .launching rest .. => 3 * rest.length + 4 + 2 * x.pendingTasks.length + 4
  | .waiting => 2 + 2 * x.pendingTasks.length + 4
  | .handling _ => 1 + 2 * x.pendingTasks.length + 4
  | .returned | .raised _ => 2 * x.pendingTasks.length + 4
  | .cancelling rest => 2 * rest.length + 1
  | .awaiting _ rest => 2 * rest.length + 2
  | .ended _ => 0

variable (D) in
def Execution.weight (s : Execution) : ℕ :=
  (5 * D.ids.length + 8) * (s.executor.work D + s.control.credit s.executor) + s.control.left D s.executor

theorem Control.credit_le (x : DagExecutor) (c : Control) : c.credit x ≤ 1 := by
  unfold credit
  split
  · exact Bool.toNat_le _
  · exact Bool.toNat_le _
  · exact Bool.toNat_le _
  · exact Nat.zero_le 1

theorem left_loop_le (x : DagExecutor) :
    Control.left D x .loop ≤ 5 * D.ids.length + 9 + 2 * x.pendingTasks.length := by
  simp only [Control.left]
  split <;> omega

section

variable {x y : DagExecutor} {c d : Control}

theorem weight_lt_of_left (hwork : y.work D + d.credit y ≤ x.work D + c.credit x)
    (hleft : d.left D y < c.left D x) : Execution.weight D ⟨y, d⟩ < Execution.weight D ⟨x, c⟩ := by
  have hle := Nat.mul_le_mul_left (5 * D.ids.length + 8) hwork
  simp only [Execution.weight]
  omega

theorem weight_lt_of_work (hwork : y.work D + d.credit y < x.work D + c.credit x)
    (hleft : d.left D y < c.left D x + (5 * D.ids.length + 8)) :
    Execution.weight D ⟨y, d⟩ < Execution.weight D ⟨x, c⟩ := by
  have hle := Nat.mul_le_mul_left (5 * D.ids.length + 8) (Nat.succ_le_of_lt hwork)
  rw [Nat.succ_eq_add_one, Nat.mul_add, Nat.mul_one] at hle
  simp only [Execution.weight]
  omega

/-! ## Where a pass ends -/

theorem weight_passed {progress : Bool} (hwork : y.work D + progress.toNat ≤ x.work D + c.credit x)
    (hleft : 2 * y.pendingTasks.length + 6 < c.left D x) :
    (passed D y progress).weight D < Execution.weight D ⟨x, c⟩ := by
  have hidle : y.work D + 0 ≤ x.work D + c.credit x := by omega
  unfold passed
  split
  · refine weight_lt_of_left (d := .waiting) hidle ?_
    show 2 + 2 * y.pendingTasks.length + 4 < c.left D x
    omega
  split
  · rename_i hprogress
    by_cases hall : y.allDone D = true
    · refine weight_lt_of_left (d := .loop) hidle ?_
      show (if y.allDone D then 1 else 5 * D.ids.length + 5) + 2 * y.pendingTasks.length + 4 < c.left D x
      rw [if_pos hall]
      omega
    · obtain rfl : progress = true := by simpa [hall] using hprogress
      rw [Bool.toNat_true] at hwork
      refine weight_lt_of_work (d := .loop) (Nat.lt_of_succ_le hwork) ((left_loop_le y).trans_lt ?_)
      omega
  · refine weight_lt_of_left (d := .raised .deadlock) hidle ?_
    show 2 * y.pendingTasks.length + 4 < c.left D x
    omega

variable {ready rest selected : List String} {id : String}

theorem weight_launching {inUse : List String} {launched skipped : Bool}
    (hwork : y.work D + (launched || skipped).toNat ≤ x.work D + c.credit x)
    (hleft : 3 * rest.length + 4 + 2 * y.pendingTasks.length + 4 < c.left D x) :
    (launching D y rest inUse launched skipped).weight D < Execution.weight D ⟨x, c⟩ := by
  unfold launching
  split
  · exact weight_passed hwork (by omega)
  · exact weight_lt_of_left hwork hleft

theorem weight_filtering
    (hwork : y.work D + (ready.any fun id => y.state id == .skipped).toNat ≤ x.work D + c.credit x)
    (hleft : 5 * rest.length + 3 * selected.length + 4 + 2 * y.pendingTasks.length + 4 < c.left D x) :
    (filtering D y ready rest selected).weight D < Execution.weight D ⟨x, c⟩ := by
  unfold filtering
  dsimp only
  split
  · exact weight_lt_of_left hwork hleft
  split
  · exact weight_passed hwork (by omega)
  · refine weight_lt_of_left hwork ?_
    show 3 * selected.length + 4 + 2 * y.pendingTasks.length + 4 < c.left D x
    omega

theorem weight_selectStep
    (hwork : y.work D + (ready.any fun id => y.state id == .skipped).toNat ≤ x.work D + c.credit x)
    (hleft : 5 * rest.length + 3 * (selected.length + 1) + 4 + 2 * y.pendingTasks.length + 4 < c.left D x) :
    (selectStep D y ready id rest selected).weight D < Execution.weight D ⟨x, c⟩ := by
  unfold selectStep
  split
  · refine weight_filtering hwork ?_
    rw [List.length_append, List.length_singleton]
    exact hleft
  · exact weight_filtering hwork (by omega)

/-! ## The work of the steps -/

theorem mem_unlaunched :
    id ∈ x.unlaunched D ↔ id ∈ D.ids ∧ (x.state id = .pending ∨ x.state id = .ready) := by
  rw [DagExecutor.unlaunched, Finset.mem_filter, List.mem_toFinset]

theorem mem_unended :
    id ∈ x.unended D ↔ id ∈ D.ids ∧ ∃ t, x.tasks id = some t ∧ t.result = none := by
  rw [DagExecutor.unended, Finset.mem_filter, List.mem_toFinset]
  simp [Option.any_eq_true]

theorem Promoted.unlaunched_subset (h : Promoted x y) : y.unlaunched D ⊆ x.unlaunched D := by
  intro id hid
  rw [mem_unlaunched] at hid ⊢
  refine ⟨hid.1, ?_⟩
  obtain hsame | ⟨hold, -⟩ := h.state id
  · rw [← hsame]
    exact hid.2
  · exact hold

theorem unended_congr (htasks : y.tasks = x.tasks) : y.unended D = x.unended D := by
  unfold DagExecutor.unended
  rw [htasks]

theorem unlaunched_lt (hsub : y.unlaunched D ⊆ x.unlaunched D) (hid : id ∈ x.unlaunched D)
    (hid' : id ∉ y.unlaunched D) : (y.unlaunched D).card < (x.unlaunched D).card :=
  Finset.card_lt_card (Finset.ssubset_iff_subset_ne.2 ⟨hsub, fun heq => hid' (heq ▸ hid)⟩)

theorem Promoted.work_le (h : Promoted x y) : y.work D ≤ x.work D := by
  have hle := Finset.card_le_card (h.unlaunched_subset (D := D))
  simp only [DagExecutor.work, unended_congr h.tasks, h.pendingTasks]
  omega

theorem Promoted.work_lt (h : Promoted x y) (hid : id ∈ x.unlaunched D)
    (hid' : id ∉ y.unlaunched D) : y.work D + 5 ≤ x.work D := by
  have hlt := unlaunched_lt h.unlaunched_subset hid hid'
  simp only [DagExecutor.work, unended_congr h.tasks, h.pendingTasks]
  omega

theorem unlaunched_enter (hid : id ∈ x.unlaunched D) : ((x.enter id).unlaunched D).card < (x.unlaunched D).card := by
  refine unlaunched_lt (fun id' hid' => ?_) hid fun hmem => ?_
  · rw [mem_unlaunched] at hid' ⊢
    refine ⟨hid'.1, ?_⟩
    by_cases hne : id' = id
    · subst hne
      exact (mem_unlaunched.1 hid).2
    · rw [← enter_ne x hne]
      exact hid'.2
  · rw [mem_unlaunched, enter_self] at hmem
    obtain ⟨-, hmem | hmem⟩ := hmem <;> cases hmem

theorem launch_pendingTasks (D : Dag) (x : DagExecutor) (id : String) :
    (x.launch D id).pendingTasks = x.pendingTasks ++ [id] := rfl

theorem work_launch (hid : id ∈ x.unlaunched D) : (x.launch D id).work D + 2 ≤ x.work D := by
  have hstates : (x.launch D id).unlaunched D = (x.enter id).unlaunched D := rfl
  have hlt := unlaunched_enter hid
  have htasks : (x.launch D id).unended D ⊆ insert id (x.unended D) := by
    intro id' hid'
    rw [mem_unended] at hid'
    obtain ⟨hmem, t, ht, hopen⟩ := hid'
    rw [Finset.mem_insert]
    by_cases hne : id' = id
    · exact .inl hne
    · exact .inr (mem_unended.2 ⟨hmem, t, (Function.update_of_ne hne ..).symm.trans ht, hopen⟩)
  have hle := (Finset.card_le_card htasks).trans (Finset.card_insert_le _ _)
  rw [DagExecutor.work, DagExecutor.work, hstates, launch_pendingTasks, List.length_append, List.length_singleton]
  omega

theorem Finished.work_le (h : Finished x y id) (hid : id ∈ x.unended D) : y.work D + 2 ≤ x.work D := by
  have hrunning : id ∉ y.unlaunched D := by
    obtain ⟨t, r, -, -, hagrees, -⟩ := h.task
    rw [mem_unlaunched]
    rintro ⟨-, hp | hr⟩
    · exact hagrees.started.1 hp
    · exact hagrees.started.2 hr
  have hstates : y.unlaunched D ⊆ x.unlaunched D := by
    intro id' hid'
    have hne : id' ≠ id := by
      rintro rfl
      exact hrunning hid'
    rw [mem_unlaunched] at hid' ⊢
    refine ⟨hid'.1, ?_⟩
    obtain hsame | ⟨hpending, -⟩ := h.others id' hne
    · rw [← hsame]
      exact hid'.2
    · exact .inl hpending
  have htasks : y.unended D ⊆ (x.unended D).erase id := by
    intro id' hid'
    obtain ⟨t, r, -, hupdate, -, -⟩ := h.task
    rw [mem_unended, hupdate] at hid'
    obtain ⟨hmem, t', ht', hopen⟩ := hid'
    by_cases hne : id' = id
    · subst hne
      rw [Function.update_self] at ht'
      obtain rfl := Option.some.inj ht'
      cases hopen
    · rw [Function.update_of_ne hne] at ht'
      exact Finset.mem_erase.2 ⟨hne, mem_unended.2 ⟨hmem, t', ht', hopen⟩⟩
  have hle := Finset.card_le_card hstates
  have hlt := (Finset.card_le_card htasks).trans_lt (Finset.card_erase_lt_of_mem hid)
  simp only [DagExecutor.work, h.pendingTasks]
  omega

theorem skip_work_lt (hid : id ∈ D.ids) (hready : x.state id = .ready) : (x.skip D id).work D + 5 ≤ x.work D := by
  refine (skip_promoted hready).work_lt (mem_unlaunched.2 ⟨hid, .inr hready⟩) fun hmem => ?_
  obtain ⟨-, hskipped⟩ | ⟨hne, -⟩ := complete_state D x id x.stop (rfl : StepState.skipped.done = true) id
  · rw [mem_unlaunched, skip_eq, hskipped] at hmem
    obtain ⟨-, hmem | hmem⟩ := hmem <;> cases hmem
  · exact hne rfl

theorem skipUnlaunchedForStop_work (x : DagExecutor) : (x.skipUnlaunchedForStop D).work D +
    (D.ids.any fun id => x.state id == .pending || x.state id == .ready).toNat ≤ x.work D := by
  have hpromoted := skipUnlaunchedForStop_promoted D x
  rcases hany : D.ids.any fun id => x.state id == .pending || x.state id == .ready
  · exact hpromoted.work_le
  · obtain ⟨id, hid, hopen⟩ := List.any_eq_true.1 hany
    rw [Bool.or_eq_true, beq_iff_eq, beq_iff_eq] at hopen
    have hlt := hpromoted.work_lt (D := D) (mem_unlaunched.2 ⟨hid, hopen⟩) fun hmem => ?_
    · rw [Bool.toNat_true]
      omega
    · obtain ⟨h, -⟩ | ⟨-, hnot⟩ := skipUnlaunchedForStop_state D x id
      · rw [mem_unlaunched, h] at hmem
        obtain ⟨-, hmem | hmem⟩ := hmem <;> cases hmem
      · exact hopen.elim (hnot (mem_ids.1 hid)).1 (hnot (mem_ids.1 hid)).2

/-! ## The steps of an execution -/

theorem executeDag_weight (x : DagExecutor) (late : Bool) :
    (executeDag D x late).weight D < Execution.weight D ⟨x, .loop⟩ := by
  unfold executeDag
  split
  · refine weight_lt_of_left (d := .returned) le_rfl ?_
    simp only [Control.left]
    split <;> omega
  rename_i hall
  have hleft : Control.left D x .loop = 5 * D.ids.length + 5 + 2 * x.pendingTasks.length + 4 := by
    simp only [Control.left, if_neg hall]
  split
  · refine weight_lt_of_left (d := .raised .deadline) le_rfl ?_
    rw [hleft]
    simp only [Control.left]
    omega
  split
  · refine weight_passed (skipUnlaunchedForStop_work x) ?_
    rw [hleft, (skipUnlaunchedForStop_promoted D x).pendingTasks]
    omega
  split
  · refine weight_passed le_rfl ?_
    rw [hleft]
    omega
  · have hnone : ((x.readySteps D).any fun id => x.state id == .skipped) = false := by
      rw [List.any_eq_false]
      intro id hid
      rw [(mem_readySteps.1 hid).2]
      decide
    refine weight_filtering (by rw [hnone]; exact le_rfl) ?_
    have hle : (x.readySteps D).length ≤ D.ids.length := List.length_filter_le ..
    rw [hleft, List.length_nil]
    omega

theorem filterReadyStep_weight (hid : id ∈ D.ids)
    (hready : x.state id = .ready) (answer : Option Bool) : (filterReadyStep D x ready id rest selected answer).weight D <
      Execution.weight D ⟨x, .filtering ready (id :: rest) selected⟩ := by
  rcases answer with _ | _ | _
  · refine weight_lt_of_left (d := .raised (.definition id)) (Nat.add_le_add_left (Nat.zero_le _) _) ?_
    simp only [Control.left]
    omega
  · have hlt := skip_work_lt hid hready
    have hle := Bool.toNat_le (ready.any fun id' => (x.skip D id).state id' == .skipped)
    refine weight_filtering (by omega) ?_
    rw [(skip_promoted hready).pendingTasks]
    simp only [Control.left, List.length_cons]
    omega
  · unfold filterReadyStep
    dsimp only
    split
    · refine weight_selectStep le_rfl ?_
      simp only [Control.left, List.length_cons]
      omega
    · refine weight_lt_of_left (d := .resolving ready id rest selected) le_rfl ?_
      simp only [Control.left, List.length_cons]
      omega

theorem resolveTargetModel_weight (x : DagExecutor) (ready : List String) (id : String) (rest selected : List String)
    (error : Option Bool) : (resolveTargetModel D x ready id rest selected error).weight D <
      Execution.weight D ⟨x, .resolving ready id rest selected⟩ := by
  rcases error with _ | timeout
  · refine weight_selectStep le_rfl ?_
    simp only [Control.left]
    omega
  · refine weight_lt_of_left (d := .raised (.lookup id timeout)) (Nat.add_le_add_left (Nat.zero_le _) _) ?_
    simp only [Control.left]
    omega

theorem launchStep_weight (hid : id ∈ D.ids) (hready : x.state id = .ready) (rest inUse : List String)
    (launched skipped drifts : Bool) : (launchStep D x id rest inUse launched skipped drifts).weight D <
      Execution.weight D ⟨x, .launching (id :: rest) inUse launched skipped⟩ := by
  have hmem : id ∈ x.unlaunched D := mem_unlaunched.2 ⟨hid, .inr hready⟩
  unfold launchStep
  split
  · refine weight_passed le_rfl ?_
    simp only [Control.left, List.length_cons]
    omega
  split
  · refine weight_launching le_rfl ?_
    simp only [Control.left, List.length_cons]
    omega
  split
  · have hlt := unlaunched_enter hmem
    refine weight_lt_of_left (d := .raised (.drift id)) ?_ ?_
    · have hle : (x.enter id).work D ≤ x.work D := by
        simp only [DagExecutor.work]
        exact Nat.add_le_add_right (Nat.add_le_add_right (Nat.mul_le_mul_left 5 hlt.le) _) _
      exact hle.trans (Nat.le_add_right _ _)
    · show 2 * x.pendingTasks.length + 4 < _
      simp only [Control.left, List.length_cons]
      omega
  · have hlt := work_launch hmem
    refine weight_launching ?_ ?_
    · have hle := Bool.toNat_le (true || skipped)
      omega
    · rw [launch_pendingTasks, List.length_append, List.length_singleton]
      simp only [Control.left, List.length_cons]
      omega

theorem cancel_unended (t : StepTask) : t.cancel.result.isNone = t.result.isNone := by rw [cancel_result]

theorem cancelPending_unended (x : DagExecutor) : x.cancelPending.unended D = x.unended D := by
  ext id
  rw [DagExecutor.unended, DagExecutor.unended, Finset.mem_filter, Finset.mem_filter, DagExecutor.cancelPending]
  dsimp only
  split
  · rw [Option.any_map]
    simp only [cancel_unended]
  · exact Iff.rfl

theorem work_pop (hid : id ∈ x.pendingTasks) (hstates : y.unlaunched D ⊆ x.unlaunched D)
    (htasks : y.unended D = x.unended D) (hpending : y.pendingTasks = x.pendingTasks.erase id) :
    y.work D + 1 ≤ x.work D := by
  have hlength : (x.pendingTasks.erase id).length + 1 = x.pendingTasks.length := List.length_erase_add_one hid
  have hle := Finset.card_le_card hstates
  rw [DagExecutor.work, DagExecutor.work, htasks, hpending]
  omega

theorem fail_unlaunched (x : DagExecutor) (id : String) : (x.setState id .failed).unlaunched D ⊆ x.unlaunched D := by
  intro id' hid'
  rw [mem_unlaunched] at hid' ⊢
  refine ⟨hid'.1, ?_⟩
  by_cases hne : id' = id
  · rw [hne, setState_self] at hid'
    obtain ⟨-, h | h⟩ := hid' <;> cases h
  · rw [setState_ne x hne] at hid'
    exact hid'.2

theorem handleCompletion_weight (hid : id ∈ x.pendingTasks) :
    (handleCompletion D x id rest).weight D < Execution.weight D ⟨x, .handling (id :: rest)⟩ := by
  have hlength : (x.pendingTasks.erase id).length + 1 = x.pendingTasks.length := List.length_erase_add_one hid
  have hleft : Control.left D x (.handling (id :: rest)) = 1 + 2 * x.pendingTasks.length + 4 := rfl
  have hpop := work_pop (D := D) (y := { x with pendingTasks := x.pendingTasks.erase id }) hid (fun _ h => h) rfl rfl
  unfold handleCompletion
  split
  · refine weight_lt_of_left (d := .raised (.unknownStep id)) ?_ ?_
    · rw [DagExecutor.work, cancelPending_unended]
      exact le_rfl
    · show 2 * x.pendingTasks.length + 4 < _
      omega
  dsimp only
  split
  · refine weight_lt_of_left (d := .raised (.stepFailed id)) ((Nat.le_succ _).trans (work_pop hid ?_ ?_ rfl)) ?_
    · exact fail_unlaunched x id
    · rw [cancelPending_unended]
      rfl
    · show 2 * (x.pendingTasks.erase id).length + 4 < _
      omega
  · refine weight_lt_of_left (d := .raised (.cancelled id)) ((Nat.le_succ _).trans hpop) ?_
    show 2 * (x.pendingTasks.erase id).length + 4 < _
    omega
  split
  · refine weight_lt_of_work (d := .loop) hpop ?_
    refine (left_loop_le _).trans_lt ?_
    show 5 * D.ids.length + 9 + 2 * (x.pendingTasks.erase id).length < _
    omega
  · refine weight_lt_of_left (d := .handling rest) ((Nat.le_succ _).trans hpop) ?_
    show 1 + 2 * (x.pendingTasks.erase id).length + 4 < _
    omega

theorem Finished.weight_lt (h : Finished x y id) (hid : id ∈ x.unended D)
    (hsuspended : c.suspended = true) : Execution.weight D ⟨y, c⟩ < Execution.weight D ⟨x, c⟩ := by
  have hwork := h.work_le hid
  have hcredit := c.credit_le y
  have hleft : c.left D y = c.left D x := by
    cases c with
    | resolving | waiting | returned | raised | awaiting | ended => simp only [Control.left, h.pendingTasks]
    | loop | filtering | launching | handling | cancelling => cases hsuspended
  refine weight_lt_of_work (by omega) ?_
  rw [hleft]
  omega

theorem cancelTask_unended (x : DagExecutor) (id : String) : (x.cancelTask id).unended D = x.unended D := by
  ext id'
  rw [DagExecutor.unended, DagExecutor.unended, Finset.mem_filter, Finset.mem_filter, DagExecutor.cancelTask]
  by_cases hid : id' = id
  · subst hid
    simp only [Function.update_self, Option.any_map, cancel_unended]
  · simp only [Function.update_of_ne hid]

theorem cancelStep_weight (x : DagExecutor) (id : String) (rest : List String) :
    (cancelStep D x id rest).weight D < Execution.weight D ⟨x, .cancelling (id :: rest)⟩ := by
  unfold cancelStep
  split
  · refine weight_lt_of_left (d := .cancelling rest) le_rfl ?_
    simp only [Control.left, List.length_cons]
    omega
  · refine weight_lt_of_left (d := .awaiting id rest) ?_ ?_
    · rw [DagExecutor.work, cancelTask_unended]
      exact le_rfl
    · simp only [Control.left, List.length_cons]
      omega

end

variable {s : Execution}

/-- **Every step leaves less to do.** -/
theorem Scheduled.weight_lt {s' : Execution} {e : Event} (h : Scheduled D s) (hstep : s.step D e = some s') :
    s'.weight D < s.weight D := by
  have hnode : ∀ {id}, s.executor.state id ≠ .pending → id ∈ D.ids := fun hne => mem_ids.2 (h.sound.contains hne)
  cases Execution.transition hstep with
  | pass x late => exact executeDag_weight x late
  | condition x ready id rest selected answer =>
    have hready := h.placed.2.1.ready id List.mem_cons_self
    exact filterReadyStep_weight (hnode (by rw [hready]; decide)) hready answer
  | lookup x ready id rest selected error => exact resolveTargetModel_weight ..
  | launch x id rest inUse launched skipped drifts =>
    have hready := h.placed.2.1.ready id List.mem_cons_self
    exact launchStep_weight (hnode (by rw [hready]; decide)) hready rest inUse launched skipped drifts
  | handle x id rest => exact handleCompletion_weight (h.placed.2.2.1 id List.mem_cons_self).1
  | @finish x control id t outcome hsuspended ht hopen =>
    have hid := h.tasked.running ht hopen
    have hfinished := (finish_cases h.sound hid ht outcome).2
    refine hfinished.weight_lt (mem_unended.2 ⟨hnode (by rw [hid]; decide), t, ht, ?_⟩) hsuspended
    rwa [DagExecutor.result, show x.tasks id = some t from ht] at hopen
  | @interrupt x control hcontrol =>
    refine weight_lt_of_left (Nat.add_le_add_left (Nat.zero_le _) _) ?_
    cases control with
    | resolving | waiting | returned | raised =>
      simp only [Control.left]
      omega
    | loop | filtering | launching | handling | cancelling | awaiting | ended => cases hcontrol
  | cancelled x =>
    refine weight_lt_of_left ?_ ?_
    · exact Nat.add_le_add_right (Nat.add_le_add_right (Nat.add_le_add_left (Nat.zero_le _) _) _) 0
    · simp only [Control.left]
      omega
  | cancelStep x id rest => exact cancelStep_weight x id rest
  | wake | interruptCancel | returns | cancel | raise | cancelRaise | awaited =>
    -- the executor has the same work
    refine weight_lt_of_left le_rfl ?_
    simp only [Control.left]
    omega

theorem start_weight (D : Dag) : Execution.weight D ⟨.start D, .loop⟩ ≤
    (5 * D.ids.length + 8) * (5 * D.ids.length) + (5 * D.ids.length + 9) := by
  have hsteps : ((DagExecutor.start D).unlaunched D).card ≤ D.ids.length :=
    (Finset.card_filter_le _ _).trans (List.toFinset_card_le _)
  have htasks : (DagExecutor.start D).unended D = ∅ := by
    refine Finset.eq_empty_of_forall_notMem fun id hid => ?_
    obtain ⟨-, t, ht, -⟩ := mem_unended.1 hid
    cases ht
  have hwork : (DagExecutor.start D).work D ≤ 5 * D.ids.length := by
    rw [DagExecutor.work, htasks]
    exact Nat.mul_le_mul_left 5 hsteps
  exact Nat.add_le_add (Nat.mul_le_mul_left _ hwork) (left_loop_le _)

/-- **Every execution comes to an end**: whatever happens from outside, the number of steps is bounded by the
number of nodes. -/
theorem execution_bounded {es : List Event} {s : Execution} (h : D.system.Run ⟨.start D, .loop⟩ es s) :
    es.length ≤ (5 * D.ids.length + 8) * (5 * D.ids.length) + (5 * D.ids.length + 9) := by
  have hle := h.length_add_le (fun _ _ _ hs hstep => hs.step hstep) (fun _ _ _ hs hstep => hs.weight_lt hstep)
    (Scheduled.start D)
  exact (Nat.le_add_right _ _).trans (hle.trans (start_weight D))

/-- One step from its start to the end of the execution. -/
def loneEvents : List Event :=
  [.pass false, .condition (some true), .lookup none, .launch false, .finish "a" (.success false), .wake ["a"],
    .handle, .pass false, .settle]

theorem loneEvents_isSome :
    (System.exec (Execution.step loneStep) ⟨.start loneStep, .loop⟩ loneEvents).isSome = true := by decide

theorem execution_bounded_lone : ∃ s, loneStep.system.Run ⟨.start loneStep, .loop⟩ loneEvents s ∧
    loneEvents.length ≤ 79 := by
  obtain ⟨s, hs⟩ := Option.isSome_iff_exists.1 loneEvents_isSome
  have hrun : loneStep.system.Run ⟨.start loneStep, .loop⟩ loneEvents s := System.run_of_exec hs
  exact ⟨s, hrun, execution_bounded hrun⟩

/-! ## What can happen next -/

/-- The executor is where it is for something. -/
def Busy (x : DagExecutor) : Control → Prop
  | .filtering _ rest _ => rest ≠ []
  | .launching rest .. => rest ≠ []
  | .waiting => x.pendingTasks ≠ []
  | .handling done => done ≠ []
  | .cancelling rest => ∀ id ∈ rest, (x.tasks id).isSome
  | .awaiting id rest => ∀ id' ∈ id :: rest, (x.tasks id').isSome
  | _ => True

def Execution.Busy (s : Execution) : Prop := Pipeline.Busy s.executor s.control

section

variable {x y : DagExecutor}

theorem passed_busy (x : DagExecutor) (progress : Bool) : (passed D x progress).Busy := by
  unfold passed
  split
  · assumption
  · split <;> trivial

theorem launching_busy (x : DagExecutor) (rest inUse : List String) (launched skipped : Bool) :
    (launching D x rest inUse launched skipped).Busy := by
  unfold launching
  split
  · exact passed_busy ..
  · assumption

theorem filtering_busy (x : DagExecutor) (ready rest selected : List String) :
    (filtering D x ready rest selected).Busy := by
  unfold filtering
  dsimp only
  split
  · assumption
  split
  · exact passed_busy ..
  · assumption

theorem selectStep_busy (x : DagExecutor) (ready : List String) (id : String) (rest selected : List String) :
    (selectStep D x ready id rest selected).Busy := by
  unfold selectStep
  split <;> exact filtering_busy ..

theorem executeDag_busy (x : DagExecutor) (late : Bool) : (executeDag D x late).Busy := by
  unfold executeDag
  split
  · trivial
  split
  · trivial
  split
  · exact passed_busy ..
  split
  · exact passed_busy ..
  · exact filtering_busy ..

theorem launchStep_busy (x : DagExecutor) (id : String) (rest inUse : List String) (launched skipped drifts : Bool) :
    (launchStep D x id rest inUse launched skipped drifts).Busy := by
  unfold launchStep
  split
  · exact passed_busy ..
  split
  · exact launching_busy ..
  split
  · trivial
  · exact launching_busy ..

theorem handleCompletion_busy (x : DagExecutor) (id : String) (rest : List String) :
    (handleCompletion D x id rest).Busy := by
  unfold handleCompletion
  split
  · trivial
  dsimp only
  split
  · trivial
  · trivial
  split
  · trivial
  · assumption

theorem Finished.busy {id : String} {c : Control} (h : Finished x y id) (hsuspended : c.suspended = true)
    (hbusy : Busy x c) : Busy y c := by
  obtain ⟨t, r, -, htasks, -⟩ := h.task
  have hsome : ∀ id', (x.tasks id').isSome → (y.tasks id').isSome := by
    intro id' hid'
    rw [htasks]
    by_cases hne : id' = id
    · rw [hne, Function.update_self]
      rfl
    · rwa [Function.update_of_ne hne]
  cases c with
  | waiting => exact (h.pendingTasks ▸ hbusy : y.pendingTasks ≠ [])
  | awaiting id' rest => exact fun id'' hid'' => hsome id'' (hbusy id'' hid'')
  | resolving | returned | raised | ended => trivial
  | loop | filtering | launching | handling | cancelling => cases hsuspended

theorem cancelStep_busy {id : String} {rest : List String} (h : Busy x (.cancelling (id :: rest))) :
    (cancelStep D x id rest).Busy := by
  unfold cancelStep
  split
  · exact fun id' hid' => h id' (.tail _ hid')
  · intro id' hid'
    show (Function.update x.tasks id ((x.tasks id).map StepTask.cancel) id').isSome
    by_cases hne : id' = id
    · rw [hne, Function.update_self, Option.isSome_map]
      exact h id List.mem_cons_self
    · rw [Function.update_of_ne hne]
      exact h id' hid'

end

/-- A step keeps what the places in the loop have to work on. -/
theorem Execution.Busy.step {s' : Execution} {e : Event} (h : s.Busy) (hs : Scheduled D s)
    (hstep : s.step D e = some s') : s'.Busy := by
  have hpending : ∀ id ∈ s.executor.pendingTasks, (s.executor.tasks id).isSome :=
    fun id hid => Option.isSome_iff_exists.2 (hs.tasked.created id hid)
  cases Execution.transition hstep with
  | pass x late => exact executeDag_busy x late
  | condition x ready id rest selected answer =>
    rcases answer with _ | _ | _
    · trivial
    · exact filtering_busy ..
    · unfold filterReadyStep
      dsimp only
      split
      · exact selectStep_busy ..
      · trivial
  | lookup x ready id rest selected error =>
    rcases error with _ | timeout
    · exact selectStep_busy ..
    · trivial
  | launch x id rest inUse launched skipped drifts => exact launchStep_busy ..
  | wake hne hdone => exact hne
  | handle x id rest => exact handleCompletion_busy x id rest
  | finish outcome hsuspended ht hopen =>
    exact (finish_cases hs.sound (hs.tasked.running ht hopen) ht outcome).2.busy hsuspended h
  | interrupt x _ => exact hpending
  | interruptCancel x id rest | awaited rest _ _ => exact fun id' hid' => h id' (.tail _ hid')
  | returns x => trivial
  | cancel x _ => exact hpending
  | raise x _ => trivial
  | cancelled x => trivial
  | cancelStep x id rest => exact cancelStep_busy h
  | cancelRaise rest _ => trivial

theorem Execution.Busy.reachable (hs : D.system.Reachable s) : s.Busy := by
  induction hs with
  | init h =>
    obtain rfl := h
    trivial
  | step hs hstep ih => exact ih.step (.reachable hs) hstep

theorem finish_some {x : DagExecutor} {c : Control} {id : String} (hsuspended : c.suspended = true)
    (ht : (x.tasks id).isSome) (hopen : x.result id = none) (outcome : Outcome) :
    Execution.step D ⟨x, c⟩ (.finish id outcome) = some ⟨x.finish D id outcome, c⟩ := by
  cases c with
  | resolving | waiting | returned | raised | awaiting | ended =>
    simp only [Execution.step]
    rw [if_pos ⟨hsuspended, ht, hopen⟩]
  | loop | filtering | launching | handling | cancelling => cases hsuspended

/-- **Nothing is stuck**: until the execution has ended, something other than an interruption can happen. -/
theorem execution_progresses {s : Execution} (hs : D.system.Reachable s) (hopen : ∀ ending, s.control ≠ .ended ending) :
    ∃ e s', e ≠ .interrupt ∧ s.step D e = some s' := by
  have hscheduled := Scheduled.reachable hs
  have hbusy := Execution.Busy.reachable hs
  obtain ⟨x, control⟩ := s
  cases control with
  | loop => exact ⟨.pass false, _, Event.noConfusion, rfl⟩
  | filtering ready rest selected =>
    obtain ⟨id, rest, rfl⟩ := List.exists_cons_of_ne_nil hbusy
    exact ⟨.condition none, _, Event.noConfusion, rfl⟩
  | resolving ready id rest selected => exact ⟨.lookup none, _, Event.noConfusion, rfl⟩
  | launching rest inUse launched skipped =>
    obtain ⟨id, rest, rfl⟩ := List.exists_cons_of_ne_nil hbusy
    exact ⟨.launch false, _, Event.noConfusion, rfl⟩
  | waiting =>
    by_cases hdone : x.donePending = []
    · obtain ⟨id, hid⟩ := List.exists_mem_of_ne_nil _ hbusy
      obtain ⟨t, ht⟩ := hscheduled.tasked.created id hid
      have hresult : x.result id = none := by
        have hno := List.filter_eq_nil_iff.1 hdone id hid
        exact Option.not_isSome_iff_eq_none.1 hno
      exact ⟨.finish id .failure, _, Event.noConfusion, finish_some rfl (Option.isSome_of_eq_some ht) hresult _⟩
    · exact ⟨.wake x.donePending, ⟨x, .handling x.donePending⟩, Event.noConfusion, if_pos ⟨hdone, .refl _⟩⟩
  | handling done =>
    obtain ⟨id, rest, rfl⟩ := List.exists_cons_of_ne_nil hbusy
    exact ⟨.handle, _, Event.noConfusion, rfl⟩
  | returned => exact ⟨.settle, _, Event.noConfusion, rfl⟩
  | raised error =>
    rcases hcancels : error.cancels
    · exact ⟨.settle, ⟨x, .ended (.raised error)⟩, Event.noConfusion, by simp [Execution.step, hcancels]⟩
    · exact ⟨.settle, ⟨x, .cancelling x.pendingTasks⟩, Event.noConfusion, by simp [Execution.step, hcancels]⟩
  | cancelling rest =>
    cases rest with
    | nil | cons id rest => exact ⟨.cancelNext, _, Event.noConfusion, rfl⟩
  | awaiting id rest =>
    rcases hresult : x.result id with _ | _ | _ | _
    · exact ⟨.finish id .cancelled, _, Event.noConfusion, finish_some rfl (hbusy id List.mem_cons_self) hresult _⟩
    · exact ⟨.cancelNext, ⟨x.onStepFinished D id, .cancelling rest⟩, Event.noConfusion, by simp [Execution.step, hresult]⟩
    · exact ⟨.cancelNext, ⟨x, .ended (.cancelRaised id)⟩, Event.noConfusion, by simp [Execution.step, hresult]⟩
    · exact ⟨.cancelNext, ⟨x.onStepFinished D id, .cancelling rest⟩, Event.noConfusion, by simp [Execution.step, hresult]⟩
  | ended ending => exact absurd rfl (hopen ending)

theorem execution_progresses_lone : ∃ s, loneStep.system.Reachable s ∧ s.executor.state "a" = .running ∧
    ∃ e s', e ≠ .interrupt ∧ s.step loneStep e = some s' := by
  have hreach : loneStep.system.Reachable (loneRunning.get loneRunning_isSome) :=
    System.reachable_of_exec rfl (Option.some_get loneRunning_isSome).symm
  exact ⟨_, hreach, by decide, execution_progresses hreach fun _ => Control.noConfusion⟩

end LlmGateway.Pipeline
