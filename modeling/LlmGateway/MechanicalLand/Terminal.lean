import LlmGateway.Foundations.System
import LlmGateway.MechanicalLand.Transition

/-!
# Runs that have ended

A run that is closed or blocked ought to stay so, and `transition` answers with `noop` as long as it does. But
no handler looks at the status before it sets one, and closeouts of other dispatches still come in behind the
end. `terminal_absorbing_iff` says which continuations leave an ended run alone.
-/

namespace LlmGateway.MechanicalLand

/-- The status of a run that has ended. -/
def RunState.Ended (s : RunState) : Prop := s.status = some .closed ∨ s.status = some .blocked

/-- The events that end a run. -/
def JournalEvent.stops : JournalEvent → Bool
  | closed _ => true
  | blocked _ => true
  | rulingFolded p => p.verb == "BLOCK"
  | _ => false

/-- The events that set the status of a run under way. -/
def JournalEvent.resumes : JournalEvent → Bool
  | runBirthed _ => true
  | legAdmitted _ => true
  | legClosed _ => true
  | reviewAdmitted _ => true
  | restartIssued _ => true
  | rulingFolded p => p.verb == "HOLD"
  | _ => false

/-- One more entry of the journal; one that is refused is not appended. -/
def Fold.next (x : Fold) (e : JournalEntry) : Fold := (x.step e).toOption.getD x

/-- The run has ended, and nothing is done any more. -/
def Fold.Absorbed (x : Fold) : Prop := x.state.Ended ∧ ∀ policy, (transition policy x.state).command = .noop

/-- The entry sets no status of a run under way, unless it is refused or redelivered. -/
def Fold.LeavesEnded (x : Fold) (e : JournalEntry) : Prop :=
  x.checkEntry e = .ok () → e.event.resumes = true → x.redelivered e.event = true

theorem Fold.next_of_ok {x y : Fold} {e : JournalEntry} (h : x.step e = .ok y) : x.next e = y := by
  rw [Fold.next, h]
  rfl

theorem Fold.next_of_error {x : Fold} {e : JournalEntry} {err : JournalError} (h : x.step e = .error err) :
    x.next e = x := by
  rw [Fold.next, h]
  rfl

theorem Fold.absorbed_iff {x : Fold} : x.Absorbed ↔ x.state.Ended :=
  ⟨fun h => h.1, fun h => ⟨h, fun _ => by rw [RunState.transition_of_terminal h]⟩⟩

/-! ## What the handlers do to the status -/

namespace RunState

variable {s : RunState} {e : JournalEntry}

theorem ended_of_status_eq {s t : RunState} (h : t.status = s.status) : t.Ended ↔ s.Ended := by
  rw [Ended, Ended, h]

theorem applyRulingFolded_ended_iff (hs : s.Ended) (p : RulingFolded) :
    (s.applyRulingFolded e p).Ended ↔ p.verb ≠ "HOLD" := by
  unfold applyRulingFolded
  split
  · rename_i hhold
    exact iff_of_false (by simp [Ended]) (fun h => h hhold)
  rename_i hhold
  refine iff_of_true ?_ hhold
  split
  · exact .inr rfl
  split
  · exact hs
  split
  · exact hs
  · exact hs

theorem apply_ended_iff (hs : s.Ended) (e : JournalEntry) : (s.apply e).Ended ↔ e.event.resumes = false := by
  unfold apply
  cases hevent : e.event with
  | runBirthed kind | restartIssued p => exact iff_of_false (by simp [Ended]) (by simp [JournalEvent.resumes])
  | legAdmitted p => exact iff_of_false (by simp [Ended, applyLegAdmitted]) (by simp [JournalEvent.resumes])
  | legClosed p => exact iff_of_false (by simp [Ended, applyLegClosed]) (by simp [JournalEvent.resumes])
  | reviewAdmitted p => exact iff_of_false (by simp [Ended, applyReviewAdmitted]) (by simp [JournalEvent.resumes])
  | rulingFolded p => exact (applyRulingFolded_ended_iff hs p).trans (by simp [JournalEvent.resumes])
  | legAdmitFailed | blocked p => exact iff_of_true (.inr rfl) rfl
  | closed r => exact iff_of_true (.inl rfl) rfl
  | reviewVerdict p =>
    refine iff_of_true ((ended_of_status_eq (t := s.applyReviewVerdict p) ?_).2 hs) rfl
    unfold applyReviewVerdict
    split <;> rfl
  | resumed =>
    refine iff_of_true ((ended_of_status_eq ?_).2 hs) rfl
    have hne : s.status ≠ some .blockedHold := by
      rintro h
      obtain hs | hs := hs <;> rw [h] at hs <;> cases hs
    rw [applyResumed, if_neg hne]
  | policyStamped p => exact iff_of_true hs rfl
  | transitionDecided p => exact iff_of_true hs rfl
  | gateRan p => exact iff_of_true hs rfl
  | reviewFallbackAdmitted m r => exact iff_of_true hs rfl
  | landAttempted p => exact iff_of_true hs rfl
  | restartPlanned r => exact iff_of_true hs rfl
  | probeRan a b => exact iff_of_true hs rfl
  | evidenceHarvested r => exact iff_of_true hs rfl
  | rulingIgnored w => exact iff_of_true hs rfl
  | flowForked => exact iff_of_true hs rfl
  | flowJoined f => exact iff_of_true hs rfl
  | unknown n => exact iff_of_true hs rfl
  | malformed n => exact iff_of_true hs rfl

theorem apply_ended (h : e.event.stops = true) : (s.apply e).Ended := by
  unfold apply
  cases hevent : e.event with
  | closed r => exact .inl rfl
  | blocked p => exact .inr rfl
  | rulingFolded p =>
    rw [hevent, JournalEvent.stops, beq_iff_eq] at h
    right
    simp [applyRulingFolded, h]
  | _ => simp [hevent, JournalEvent.stops] at h

end RunState

/-! ## Continuations -/

theorem Fold.take_ended_iff {x : Fold} (hx : x.state.Ended) (e : JournalEntry) :
    (x.take e).state.Ended ↔ (e.event.resumes = true → x.redelivered e.event = true) := by
  cases hre : x.redelivered e.event with
  | true =>
    rw [Fold.take_of_redelivered hre]
    exact iff_of_true hx fun _ => rfl
  | false =>
    rw [Fold.take_of_new hre]
    have hentered : (x.entered e).Ended := hx
    rw [RunState.apply_ended_iff hentered]
    simp

/-- **One entry.** An ended run stays so exactly when the entry leaves it alone. -/
theorem Fold.next_absorbed_iff {x : Fold} (hx : x.Absorbed) (e : JournalEntry) :
    (x.next e).Absorbed ↔ x.LeavesEnded e := by
  rw [absorbed_iff] at hx
  rw [absorbed_iff, LeavesEnded]
  cases hentry : x.checkEntry e with
  | error err =>
    have hstep : x.step e = .error err := by
      rw [Fold.step, hentry]
      rfl
    rw [next_of_error hstep]
    exact iff_of_true hx (fun h => by cases h)
  | ok u =>
    cases hevent : e.event.check with
    | error err =>
      have hstep : x.step e = .error err := by
        rw [Fold.step, hentry, ok_bind, hevent]
        rfl
      rw [next_of_error hstep]
      refine iff_of_true hx fun _ hr => ?_
      -- Events that are refused set no status.
      cases hev : e.event <;> rw [hev] at hevent hr <;> cases hevent <;> cases hr
    | ok v =>
      rw [next_of_ok (Fold.step_eq_ok.2 ⟨hentry, hevent, rfl⟩), take_ended_iff hx]
      exact ⟨fun h _ => h, fun h => h rfl⟩

/-- **Terminal states.** Behind an entry that closes or blocks a run, the run stays ended through a continuation
exactly when no entry of it is accepted that sets another status: a birth, an admitted leg, the first closeout of
a dispatch, an admitted review, an issued restart or a hold. -/
theorem terminal_absorbing_iff {x y : Fold} {e : JournalEntry} (hstep : x.step e = .ok y)
    (hstops : e.event.stops = true) (later : List JournalEntry) :
    System.Throughout Fold.next Fold.Absorbed y later ↔ System.EachStep Fold.next Fold.LeavesEnded y later := by
  obtain ⟨-, -, rfl⟩ := Fold.step_eq_ok.1 hstep
  have hnew : x.redelivered e.event = false := by
    refine Fold.redelivered_of_not_closeout ?_
    cases hevent : e.event with
    | legClosed p => rw [hevent] at hstops; cases hstops
    | _ => rfl
  have hended : (x.take e).Absorbed := by
    rw [Fold.absorbed_iff, Fold.take_of_new hnew]
    exact RunState.apply_ended hstops
  exact System.throughout_iff_eachStep (W := fun _ => True) (I := Fold.Absorbed) (fun _ _ _ => trivial)
    (fun _ e' _ hx => Fold.next_absorbed_iff hx e') trivial hended later

/-- A run that is born and closed. -/
def bornAndClosed : List JournalEntry :=
  [⟨"ml-1", 1, 0, "run", 1, "main", .runBirthed "implement"⟩, ⟨"ml-1", 2, 1, "run", 1, "main", .closed "done"⟩]

/-- The closeout of a leg that comes in late. -/
def lateCloseout : JournalEntry :=
  ⟨"ml-1", 3, 2, "implement", 1, "main", .legClosed ⟨"d1", "complete", "landed", "a1", [], []⟩⟩

/-- A run whose leg has closed, and is closed itself. -/
def legAndClosed : List JournalEntry :=
  [⟨"ml-1", 1, 0, "run", 1, "main", .runBirthed "implement"⟩,
    ⟨"ml-1", 2, 1, "implement", 1, "main", .legClosed ⟨"d1", "complete", "landed", "a1", [], []⟩⟩,
    ⟨"ml-1", 3, 2, "run", 1, "main", .closed "done"⟩]

/-- The closeout of the leg is redelivered behind the end, and a note comes in. -/
def redelivery : List JournalEntry :=
  [⟨"ml-1", 4, 3, "implement", 1, "main", .legClosed ⟨"d1", "complete", "landed", "a1", [], []⟩⟩,
    ⟨"ml-1", 5, 4, "run", 1, "main", .rulingIgnored "late"⟩]

theorem terminal_absorbing_redelivery :
    System.Throughout Fold.next Fold.Absorbed (legAndClosed.foldl Fold.next Fold.start) redelivery := by
  refine (terminal_absorbing_iff (x := (legAndClosed.take 2).foldl Fold.next Fold.start)
    (e := ⟨"ml-1", 3, 2, "run", 1, "main", .closed "done"⟩) rfl rfl redelivery).2 ⟨fun _ _ => ?_, fun _ h => ?_, trivial⟩
  · decide
  · cases h

/-- The late closeout sets the closed run going again, and its leg is up for a gate. -/
theorem lateCloseout_reopens : (fold (bornAndClosed ++ [lateCloseout])).toOption.map
      (fun s => (s.status, (transition ⟨[]⟩ s).command)) = some (some .running, .gate) ∧
    ¬ System.Throughout Fold.next Fold.Absorbed (bornAndClosed.foldl Fold.next Fold.start) [lateCloseout] := by
  refine ⟨by decide, ?_⟩
  rintro ⟨-, h, -⟩
  revert h
  unfold RunState.Ended
  decide

end LlmGateway.MechanicalLand
