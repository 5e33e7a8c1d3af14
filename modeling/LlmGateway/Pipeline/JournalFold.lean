import LlmGateway.Foundations.Fallible
import LlmGateway.Foundations.System
import LlmGateway.Pipeline.DispatchJournal

/-!
# The fold of the dispatch journal

Calls that write transitions, and sweeps, one statement or transaction at a time in any order.
`JournalRun.Monotone` says that no execution that was once terminal is started again, and that a started row has no
`completed_at`.

A terminal write replaces the row and a sweep compares the status in its `UPDATE`. A started write compares it
with what it has read before, so a terminal write that comes between the two is undone. `monotone_iff` says exactly
when the fold is sound.
-/

namespace LlmGateway.Pipeline

/-- The journal, the calls under way, and the executions whose row was ever terminal. -/
structure JournalRun where
  journal : Journal
  tasks : List JournalTask
  ended : List String

def JournalRun.start : JournalRun := ⟨.empty, [], []⟩

inductive JournalEvent where
  | write (w : TransitionArgs)
  | sweep (a : SweepArgs)
  /-- The call at this place takes its next statement or transaction. -/
  | advance (i : ℕ)
  /-- The call at this place ends with what it has committed. -/
  | drop (i : ℕ)

/-- The executions with a terminal row. -/
def Journal.terminalIds (j : Journal) : List String :=
  (j.records.items.filter fun e => e.2.status.isTerminal).map Prod.fst

def JournalRun.step (isoEpoch : String → Option ℚ) (x : JournalRun) : JournalEvent → JournalRun
  | .write w => { x with tasks := x.tasks ++ ((w.prepare isoEpoch).map JournalTask.reading).toList }
  | .sweep a => { x with tasks := x.tasks ++ [.listing a] }
  | .advance i =>
    match x.tasks[i]? with
    | some task =>
      let out := task.run isoEpoch x.journal
      { journal := out.1
        tasks := x.tasks.eraseIdx i ++ out.2.toList
        ended := out.1.terminalIds ++ x.ended }
    | none => x
  | .drop i => { x with tasks := x.tasks.eraseIdx i }

/-- An execution that was once terminal is so, and a started one has no time of completion. -/
structure JournalRun.Monotone (x : JournalRun) : Prop where
  ended : ∀ id ∈ x.ended, ∃ r, x.journal.records.get? id = some r ∧ r.status.isTerminal = true
  started : ∀ id r, x.journal.records.get? id = some r → r.status = .started → r.completedAt = none

/-- When a started write that has read a started row gets to its transaction, the row is still a started one;
and one that inserts its row has no time of completion. -/
def JournalTask.Keeps (j : Journal) : JournalTask → Prop
  | writing w existing => w.status = .started →
    (existing = some .started → ∀ r, j.records.get? w.executionId = some r → r.status = .started) ∧
    (existing = none → j.records.get? w.executionId = none → w.completedAt = none)
  | _ => True

def JournalEvent.Keeps (x : JournalRun) : JournalEvent → Prop
  | .advance i => ∀ task, x.tasks[i]? = some task → task.Keeps x.journal
  | _ => True

/-! ## What a transaction does to the rows -/

/-- Terminal rows stay terminal, and a started row has the time of completion that it had as one, or none. -/
structure Forward (j j' : Journal) : Prop where
  terminal : ∀ id r, j.records.get? id = some r → r.status.isTerminal = true →
    ∃ r', j'.records.get? id = some r' ∧ r'.status.isTerminal = true
  started : ∀ id r', j'.records.get? id = some r' → r'.status = .started → r'.completedAt = none ∨
    ∃ r, j.records.get? id = some r ∧ r.status = .started ∧ r'.completedAt = r.completedAt

theorem Forward.refl (j : Journal) : Forward j j where
  terminal _ r hr ht := ⟨r, hr, ht⟩
  started _ r' hr' hs := .inr ⟨r', hr', hs, rfl⟩

variable {j : Journal} {x : JournalRun}

theorem Forward.trans {j' j'' : Journal} (h : Forward j j') (h' : Forward j' j'') : Forward j j'' where
  terminal id r hr ht := by
    obtain ⟨r', hr', ht'⟩ := h.terminal id r hr ht
    exact h'.terminal id r' hr' ht'
  started id r'' hr'' hs := by
    obtain hnone | ⟨r', hr', hs', heq⟩ := h'.started id r'' hr'' hs
    · exact .inl hnone
    · rw [heq]
      exact h.started id r' hr' hs'

theorem isTerminal_iff {s : DispatchStatus} : s.isTerminal = true ↔ s ≠ .started := by
  cases s <;> decide

theorem forward_set (j : Journal) (id : String) (row : DispatchRecord) (hrow : row.status ≠ .started)
    (log : List TransitionRow) : Forward j { j with records := j.records.set id row, transitions := log } where
  terminal i r hr ht := by
    by_cases hi : i = id
    · subst hi
      exact ⟨row, Dict.get?_set_self _ _ _, isTerminal_iff.2 hrow⟩
    · exact ⟨r, (Dict.get?_set_ne _ hi _).trans hr, ht⟩
  started i r' hr' hs := by
    by_cases hi : i = id
    · subst hi
      rw [Dict.get?_set_self] at hr'
      exact absurd (Option.some.inj hr' ▸ hs) hrow
    · rw [Dict.get?_set_ne _ hi] at hr'
      exact .inr ⟨r', hr', hs, rfl⟩

theorem forward_mapVal (j : Journal) (f : String → DispatchRecord → DispatchRecord) (log : List TransitionRow)
    (hf : ∀ id r, j.records.get? id = some r → f id r = r ∨ (r.status = .started ∧
      ((f id r).status = .started → (f id r).completedAt = r.completedAt))) :
    Forward j { j with records := j.records.mapVal f, transitions := log } where
  terminal id r hr ht := by
    refine ⟨f id r, by rw [Dict.get?_mapVal, hr]; rfl, ?_⟩
    obtain heq | ⟨hs, -⟩ := hf id r hr
    · rw [heq]
      exact ht
    · exact absurd hs (isTerminal_iff.1 ht)
  started id r' hr' hs := by
    rw [Dict.get?_mapVal, Option.map_eq_some_iff] at hr'
    obtain ⟨r, hr, rfl⟩ := hr'
    obtain heq | ⟨hs', hkeep⟩ := hf id r hr
    · rw [heq] at hs ⊢
      exact .inr ⟨r, hr, hs, rfl⟩
    · exact .inr ⟨r, hr, hs', hkeep hs⟩

theorem forward_sweepOrphans (isoEpoch : String → Option ℚ) (a : SweepArgs)
    (rows : List (String × DispatchRecord)) (j : Journal) : Forward j (sweepOrphans isoEpoch a rows j) := by
  unfold sweepOrphans
  split
  · rename_i j' h
    refine foldlM_rel Forward.refl Forward.trans ?_ h
    intro j e j' hstep
    unfold sweepRow at hstep
    split at hstep
    · cases hstep
    · obtain rfl := Except.ok.inj hstep
      split
      · exact .refl j
      · refine forward_mapVal j _ j.transitions fun id r _ => ?_
        by_cases hid : id = e.1 ∧ r.status = .started
        · refine .inr ⟨hid.2, fun hs => ?_⟩
          rw [if_pos hid] at hs
          cases hs
        · exact .inl (if_neg hid)
  · exact .refl j

variable {isoEpoch : String → Option ℚ}

theorem JournalTask.Keeps.forward {task : JournalTask} (h : task.Keeps j) :
    Forward j (task.run isoEpoch j).1 := by
  cases task with
  | reading w => exact .refl j
  | listing a => exact .refl j
  | sweeping a rows => exact forward_sweepOrphans isoEpoch a rows j
  | writing w existing =>
    simp only [JournalTask.run, writeTransition]
    split
    · rename_i hs
      obtain ⟨hupdate, hinsert⟩ := h hs
      cases existing with
      | none =>
        dsimp only
        split
        · exact .refl j
        · rename_i hfree
          have hnone : j.records.get? w.executionId = none := by
            rw [Option.eq_none_iff_forall_ne_some]
            intro r hr
            exact hfree (Dict.contains_iff.2 ⟨r, hr⟩)
          refine ⟨fun id r hr ht => ?_, fun id r' hr' hs' => ?_⟩
          · refine ⟨r, (Dict.get?_set_ne _ ?_ _).trans hr, ht⟩
            rintro rfl
            rw [hnone] at hr
            cases hr
          · by_cases hid : id = w.executionId
            · subst hid
              rw [Dict.get?_set_self] at hr'
              obtain rfl := Option.some.inj hr'
              exact .inl (hinsert rfl hnone)
            · rw [Dict.get?_set_ne _ hid] at hr'
              exact .inr ⟨r', hr', hs', rfl⟩
      | some status =>
        dsimp only
        split
        · exact ⟨(Forward.refl j).terminal, (Forward.refl j).started⟩
        · rename_i hstatus
          have hstarted : status = .started := by
            by_contra hne
            exact hstatus (isTerminal_iff.2 hne)
          subst hstarted
          refine forward_mapVal j _ _ fun id r hr => ?_
          by_cases hid : id = w.executionId
          · subst hid
            exact .inr ⟨hupdate rfl r hr, fun _ => by rw [if_pos rfl]; rfl⟩
          · exact .inl (if_neg hid)
    · rename_i hs
      exact forward_set j _ _ hs _

/-! ## Runs -/

/-- Every execution with a terminal row has been recorded as ended. -/
def JournalRun.Sound (x : JournalRun) : Prop :=
  ∀ id r, x.journal.records.get? id = some r → r.status.isTerminal = true → id ∈ x.ended

theorem mem_terminalIds {id : String} :
    id ∈ j.terminalIds ↔ ∃ r, j.records.get? id = some r ∧ r.status.isTerminal = true := by
  constructor
  · intro h
    obtain ⟨e, he, rfl⟩ := List.mem_map.1 h
    obtain ⟨he, ht⟩ := List.mem_filter.1 he
    exact ⟨e.2, Dict.mem_items_iff.1 he, ht⟩
  · rintro ⟨r, hr, ht⟩
    exact List.mem_map.2 ⟨(id, r), List.mem_filter.2 ⟨Dict.mem_items_iff.2 hr, ht⟩, rfl⟩

/-- Every event keeps the journal sound. -/
theorem JournalRun.Sound.step (h : x.Sound) (e : JournalEvent) : (x.step isoEpoch e).Sound := by
  cases e with
  | write w => exact h
  | sweep a => exact h
  | drop i => exact h
  | advance i =>
    simp only [JournalRun.step]
    split
    · intro id r hr ht
      exact List.mem_append_left _ (mem_terminalIds.2 ⟨r, hr, ht⟩)
    · exact h

theorem JournalRun.Monotone.of_forward (h : x.Monotone) (hf : Forward x.journal j) (tasks : List JournalTask) :
    (⟨j, tasks, j.terminalIds ++ x.ended⟩ : JournalRun).Monotone where
  ended id hid := by
    obtain hid | hid := List.mem_append.1 hid
    · exact mem_terminalIds.1 hid
    · obtain ⟨r, hr, ht⟩ := h.ended id hid
      exact hf.terminal id r hr ht
  started id r hr hs := by
    obtain hnone | ⟨r₀, hr₀, hs₀, heq⟩ := hf.started id r hr hs
    · exact hnone
    · rw [heq]
      exact h.started id r₀ hr₀ hs₀

/-- **One step.** -/
theorem monotone_step_iff (hx : x.Sound) (h : x.Monotone) (e : JournalEvent) :
    (x.step isoEpoch e).Monotone ↔ e.Keeps x := by
  cases e with
  | write w | sweep a | drop i => exact iff_of_true ⟨h.ended, h.started⟩ trivial
  | advance i =>
    simp only [JournalRun.step]
    rcases hi : x.tasks[i]? with - | task
    · refine iff_of_true h fun task htask => ?_
      rw [hi] at htask
      cases htask
    constructor
    · intro h' task' htask'
      obtain rfl := Option.some.inj (hi.symm.trans htask')
      cases task with
      | reading w => trivial
      | listing a => trivial
      | sweeping a rows => trivial
      | writing w existing =>
        refine fun hs => ⟨?_, ?_⟩
        · rintro rfl r hr
          by_contra hne
          -- The execution has ended, and the update makes its row a started one.
          have hended := hx _ r hr (isTerminal_iff.2 hne)
          obtain ⟨r', hr', ht'⟩ := h'.ended _ (List.mem_append_right _ hended)
          simp only [JournalTask.run, writeTransition, if_pos hs, DispatchStatus.isTerminal,
            Bool.false_eq_true, if_false, Dict.get?_mapVal, hr, Option.map_some, if_true] at hr'
          obtain rfl := Option.some.inj hr'
          exact isTerminal_iff.1 ht' hs
        · rintro rfl hnone
          have hfree : x.journal.records.contains w.executionId = false := by
            rw [Bool.eq_false_iff]
            intro hc
            obtain ⟨r, hr⟩ := Dict.contains_iff.1 hc
            rw [hnone] at hr
            cases hr
          refine h'.started w.executionId w.row ?_ hs
          simp only [JournalTask.run, writeTransition, if_pos hs, hfree, Bool.false_eq_true, if_false,
            Dict.get?_set_self]
    · intro hkeeps
      exact h.of_forward (hkeeps task hi).forward _

theorem sound_start : JournalRun.start.Sound := fun _ _ h => by cases h

theorem monotone_start : JournalRun.start.Monotone where
  ended _ h := by cases h
  started _ _ h := by cases h

/-- **No execution that has ended is started again, and no started one has a time of completion, exactly in the
runs in which a started write that has read a started row finds it so in its transaction.** -/
theorem monotone_iff (isoEpoch : String → Option ℚ) (events : List JournalEvent) :
    System.Throughout (JournalRun.step isoEpoch) JournalRun.Monotone .start events ↔
      System.EachStep (JournalRun.step isoEpoch) (fun x e => e.Keeps x) .start events :=
  System.throughout_iff_eachStep (W := JournalRun.Sound) (fun _ e h => h.step e)
    (fun _ e hx h => monotone_step_iff hx h e) sound_start monotone_start events

/-- A write for one execution of one pipeline. -/
def writeOf (status : DispatchStatus) (completedAt : Option String) : TransitionArgs where
  executionId := "e1"
  pipeline := "review"
  status := status
  callerAgent := none
  startedAt := "2026-01-05T10:00:00Z"
  completedAt := completedAt
  recordJson := []
  nowIso := "2026-01-05T10:00:00Z"
  nowEpoch := 0

/-- A started write that is repeated reads the started row, and the run completes before it writes. -/
def repeatedStart : List JournalEvent :=
  [.write (writeOf .started none), .advance 0, .advance 0, .write (writeOf .started none), .advance 0,
    .write (writeOf .completed (some "2026-01-05T10:05:00Z")), .advance 1, .advance 1, .advance 0]

/-- The completed execution is started again, and has a time of completion. -/
theorem repeatedStart_not_monotone :
    (((repeatedStart.take 8).foldl (JournalRun.step fun _ => some 0) .start).journal.statusOf "e1") =
      some .completed ∧
    (((repeatedStart.foldl (JournalRun.step fun _ => some 0) .start).journal.records.get? "e1").map fun r =>
      (r.status, r.completedAt)) = some (.started, some "2026-01-05T10:05:00Z") ∧
    ¬ System.Throughout (JournalRun.step fun _ => some 0) JournalRun.Monotone .start repeatedStart := by
  have hrow : (((repeatedStart.foldl (JournalRun.step fun _ => some 0) .start).journal.records.get? "e1").map
    fun r => (r.status, r.completedAt)) = some (.started, some "2026-01-05T10:05:00Z") := by decide
  refine ⟨by decide, hrow, ?_⟩
  rintro ⟨-, -, -, -, -, -, -, -, -, h⟩
  obtain ⟨r, hr, heq⟩ := Option.map_eq_some_iff.1 hrow
  obtain ⟨hs, hc⟩ := Prod.mk.inj heq
  have hnone := h.started "e1" r hr hs
  rw [hc] at hnone
  cases hnone

end LlmGateway.Pipeline
