import LlmGateway.MechanicalLand.Terminal

/-!
# Answers that are awaited

A run waits for the closeout of its leg or for the verdict of its review. A closeout sets the status back; a verdict
clears `reviewAdmittedPending` and leaves the status `awaiting_review`, at which `transition` waits whatever the
verdict is. `RunState.Stuck` says when a run that is not held has nothing to go on with (`transition_wait_iff`), and
`answer_decides_iff` when the answer to what is pending lets it go on.
-/

namespace LlmGateway.MechanicalLand

namespace RunState

variable {policy : Policy} {s : RunState} {e : JournalEntry}

/-- No hold, block or close is in force. -/
structure Unheld (s : RunState) : Prop where
  not_closed : s.status ≠ some .closed
  not_blocked : s.status ≠ some .blocked
  not_hold : s.status ≠ some .blockedHold
  not_pending : s.pendingHold = false
  no_ruling : s.decidingRuling = none

/-! ## Waiting -/

/-- The first leg of the kind is still to be admitted. -/
def Unborn (s : RunState) (kind : String) : Prop := (s.step = none ∨ s.step = some "run") ∧ s.legs.getD kind [] = []

/-- The closeout neither ends the run nor lets its work through. -/
def Incomplete (s : RunState) : Prop := s.legFailedOrScope = none ∧ s.implementCloseoutOk = false

/-- The tip under review is not the gated head. -/
def Drifted (s : RunState) : Prop :=
  (s.gatedHead.filter fun h => h != "").isSome ∧ (s.reviewTip.filter fun t => t != "").isSome ∧
    s.reviewTip.filter (fun t => t != "") ≠ s.gatedHead.filter fun h => h != ""

/-- The verdict and the tip decide nothing. -/
def Undecided (s : RunState) : Prop :=
  s.approved = false ∧ ¬ (s.review.verdict = some .requestChanges ∧ s.review.blockers ≠ []) ∧
    s.review.verdict ≠ some .unbound ∧ ¬ s.Drifted

/-- Services are still to be restarted or probed by someone else. -/
def RestartPending (s : RunState) : Prop :=
  (s.restart.intents.any fun i => i.state == "expired") = false ∧ ¬ (s.restart.restartSet ≠ [] ∧ s.probe.items = [])

/-- The evidence of the run is not there yet. -/
def EvidencePending (s : RunState) : Prop :=
  ¬ s.Unborn "evidence" ∧ (s.evidence.any fun ref => ref != "") = false ∧
    (s.lastCloseout.any fun lc => !lc.filesModified.isEmpty) = false

/-- The run has nothing to go on with. -/
def Stuck (s : RunState) : Prop :=
  if s.isEvidence then s.EvidencePending
  else ¬ s.Unborn "implement" ∧
    ((s.currentStep = "implement" ∧ s.Incomplete) ∨
      (s.currentStep = "fix" ∧ s.legFailedOrScope = none ∧
        (s.status = some .awaitingLeg ∨ s.implementCloseoutOk = false)) ∨
      (s.currentStep = "gate" ∧ s.latestGate = none) ∨
      (s.currentStep = "review" ∧ (s.status = some .awaitingReview ∨ s.Undecided ∧ s.reviewAdmittedPending = true)) ∨
      (s.currentStep = "restart" ∧ (s.status = some .awaitingRestart ∨ s.RestartPending)))

@[simp] theorem command_wait (reason : String) : (Transition.wait reason).command = .wait := rfl

@[simp] theorem command_block (code : String) (step : Option String) (attempt : ℤ) :
    (Transition.block code step attempt).command = .block := rfl

@[simp] theorem command_toGate (reason : String) : (s.toGate reason).command = .gate := rfl

@[simp] theorem command_toFix (reason : String) : (s.toFix reason).command = .admission := rfl

@[simp] theorem command_toReview (attempt : ℤ) (reason route : String) :
    (toReview attempt reason route).command = .review := rfl

@[simp] theorem command_toFirst (command : Command) (step : String) (reason : Option String) :
    (toFirst command step reason).command = command := rfl

theorem command_of_legFailedOrScope {t : Transition} (h : s.legFailedOrScope = some t) : t.command = .block := by
  obtain ⟨lc, -, h⟩ := Option.bind_eq_some_iff.1 h
  split at h
  · exact Option.some.inj h ▸ rfl
  · split at h
    · cases h
    · exact Option.some.inj h ▸ rfl

theorem implement_wait_iff : s.transitionImplement.command = .wait ↔ s.Incomplete := by
  unfold transitionImplement Incomplete
  cases h : s.legFailedOrScope with
  | some t => simp [command_of_legFailedOrScope h]
  | none =>
    cases hok : s.implementCloseoutOk with
    | true => simp
    | false =>
      simp only [Option.getD_none, and_true]
      split
      · simp
      · split <;> simp

theorem fix_wait_iff : s.transitionFix.command = .wait ↔
    s.legFailedOrScope = none ∧ (s.status = some .awaitingLeg ∨ s.implementCloseoutOk = false) := by
  unfold transitionFix
  cases h : s.legFailedOrScope with
  | some t => simp [command_of_legFailedOrScope h]
  | none =>
    by_cases hstatus : s.status = some .awaitingLeg
    · simp [hstatus]
    · cases hok : s.implementCloseoutOk <;> simp [hstatus]

theorem gate_wait_iff : (transitionGate policy s).command = .wait ↔ s.latestGate = none := by
  unfold transitionGate
  cases s.latestGate with
  | none => simp
  | some g =>
    simp only
    split
    · simp
    · split
      · simp
      · split <;> simp

theorem unbound_not_wait : (transitionUnbound policy s).command ≠ .wait := by
  unfold transitionUnbound
  split <;> simp

theorem unreviewed_wait_iff : (transitionUnreviewed policy s).command = .wait ↔
    ¬ s.Drifted ∧ s.reviewAdmittedPending = true := by
  unfold transitionUnreviewed
  simp only
  split
  · rename_i h
    exact iff_of_false (by simp) fun hn => hn.1 h
  · rename_i h
    cases s.reviewAdmittedPending with
    | true => exact iff_of_true rfl ⟨h, rfl⟩
    | false => simp

theorem review_wait_iff : (transitionReview policy s).command = .wait ↔
    s.status = some .awaitingReview ∨ s.Undecided ∧ s.reviewAdmittedPending = true := by
  unfold transitionReview Undecided
  by_cases hstatus : s.status = some .awaitingReview
  · simp [hstatus]
  rw [if_neg hstatus]
  cases happroved : s.approved with
  | true => simp [hstatus]
  | false =>
    by_cases hchanges : s.review.verdict = some .requestChanges ∧ s.review.blockers ≠ []
    · rw [if_neg (by simp), if_pos hchanges]
      split <;> simp [hstatus, hchanges]
    · rw [if_neg (by simp), if_neg hchanges]
      by_cases hunbound : s.review.verdict = some .unbound
      · rw [if_pos hunbound]
        exact iff_of_false unbound_not_wait (by simp [hstatus, hunbound])
      · rw [if_neg hunbound, unreviewed_wait_iff]
        simp [hstatus, hchanges, hunbound]

theorem restart_wait_iff : s.transitionRestart.command = .wait ↔
    s.status = some .awaitingRestart ∨ s.RestartPending := by
  unfold transitionRestart RestartPending
  by_cases hstatus : s.status = some .awaitingRestart
  · simp [hstatus]
  rw [if_neg hstatus]
  cases s.restart.intents.any fun i => i.state == "expired" with
  | true => simp [hstatus]
  | false =>
    by_cases hprobe : s.restart.restartSet ≠ [] ∧ s.probe.items = []
    · simp [hstatus, hprobe]
    · rw [if_neg (by simp), if_neg hprobe]
      simp [hstatus, hprobe]

theorem evidence_wait_iff : s.transitionEvidence.command = .wait ↔ s.EvidencePending := by
  unfold transitionEvidence EvidencePending Unborn
  split
  · rename_i h
    exact iff_of_false (by simp) fun hn => hn.1 h
  · rename_i h
    cases s.evidence.any fun ref => ref != "" with
    | true => simp
    | false => cases s.lastCloseout.any fun lc => !lc.filesModified.isEmpty <;> simp [h]

theorem transitionStep_wait_iff : (transitionStep policy s).command = .wait ↔
    (s.currentStep = "implement" ∧ s.Incomplete) ∨
      (s.currentStep = "fix" ∧ s.legFailedOrScope = none ∧
        (s.status = some .awaitingLeg ∨ s.implementCloseoutOk = false)) ∨
      (s.currentStep = "gate" ∧ s.latestGate = none) ∨
      (s.currentStep = "review" ∧ (s.status = some .awaitingReview ∨ s.Undecided ∧ s.reviewAdmittedPending = true)) ∨
      (s.currentStep = "restart" ∧ (s.status = some .awaitingRestart ∨ s.RestartPending)) := by
  unfold transitionStep
  generalize s.currentStep = step
  by_cases h₁ : step = "implement"
  · subst h₁
    simp [implement_wait_iff]
  rw [if_neg h₁]
  by_cases h₂ : step = "fix"
  · subst h₂
    simp [fix_wait_iff]
  rw [if_neg h₂]
  by_cases h₃ : step = "gate"
  · subst h₃
    simp [gate_wait_iff]
  rw [if_neg h₃]
  by_cases h₄ : step = "review"
  · subst h₄
    simp [review_wait_iff]
  rw [if_neg h₄]
  have hland : s.transitionLand.command ≠ .wait := by
    unfold transitionLand
    split
    · simp
    · split <;> simp
  have hprobe : s.transitionProbe.command ≠ .wait := by
    unfold transitionProbe
    split <;> simp
  have hclose : s.transitionClose.command ≠ .wait := by
    unfold transitionClose
    split <;> simp
  by_cases h₅ : step = "restart"
  · subst h₅
    simp [restart_wait_iff]
  simp only [h₁, h₂, h₃, h₄, h₅, false_and, or_self, iff_false, if_false]
  split
  · exact hland
  · split
    · exact hprobe
    · split
      · exact hclose
      · simp

/-- **A run that is not held waits exactly if it is stuck.** -/
theorem transition_wait_iff (hs : s.Unheld) : (transition policy s).command = .wait ↔ s.Stuck := by
  have hterminal : ¬ (s.status = some .closed ∨ s.status = some .blocked) := by
    rintro (h | h)
    · exact hs.not_closed h
    · exact hs.not_blocked h
  have hhold : ¬ (s.status = some .blockedHold ∨ s.pendingHold = true) := by
    rintro (h | h)
    · exact hs.not_hold h
    · exact absurd (hs.not_pending.symm.trans h) (by decide)
  unfold transition Stuck
  rw [if_neg hterminal, hs.no_ruling, Option.getD_none, if_neg hhold]
  split
  · exact evidence_wait_iff
  · unfold Unborn
    by_cases hborn : (s.step = none ∨ s.step = some "run") ∧ s.legs.getD "implement" [] = []
    · rw [if_pos hborn]
      exact iff_of_false (by simp) fun h => h.1 hborn
    · rw [if_neg hborn, transitionStep_wait_iff, and_iff_right hborn]

end RunState

/-! ## Answers -/

/-- The entry is the verdict for the pending review. -/
def Fold.AnswersReview (x : Fold) (e : JournalEntry) (p : ReviewVerdictPayload) : Prop :=
  e.event = .reviewVerdict p ∧ x.state.reviewAdmittedPending = true

/-- The entry is the closeout of the pending leg. -/
def Fold.AnswersLeg (x : Fold) (e : JournalEntry) (p : LegClosed) : Prop :=
  e.event = .legClosed p ∧ x.state.status = some .awaitingLeg ∧
    ∃ leg ∈ x.state.legs.getD e.stepId [], leg.dispatchId = p.dispatchId ∧ leg.closeout.isNone

/-- The verdict lets the run go on. `s` is the state before, at the step of the entry: at a review that is still
awaited no new verdict does, and a verdict that was folded before or that comes at another step changes nothing. -/
def RunState.VerdictDecides (s : RunState) (p : ReviewVerdictPayload) : Prop :=
  if s.isEvidence = false ∧ s.currentStep = "review" ∧ s.hasFolded p = false then s.status ≠ some .awaitingReview
  else ¬ s.Stuck

/-- A closeout of a leg that ends the run or lets its work through. -/
def LegClosed.Settles (p : LegClosed) : Prop :=
  p.closeoutStatus = "failed" ∨ p.forbiddenGitOps ≠ [] ∨ p.closeoutStatus = "complete" ∨
    p.closeoutStatus = "partial" ∧ p.workOutcome ≠ "checks_failed"

/-- The closeout lets the run go on. `s` is the state before, at the step of the entry. -/
def RunState.CloseoutDecides (s : RunState) (p : LegClosed) : Prop :=
  if s.isEvidence then
    (s.step = some "run" ∧ s.legs.getD "evidence" [] = []) ∨ (s.evidence.any fun ref => ref != "") = true ∨
      p.filesModified ≠ []
  else if s.currentStep = "implement" ∨ s.currentStep = "fix" then p.Settles
  else if s.currentStep = "gate" then s.latestGate ≠ none
  else if s.currentStep = "restart" then ¬ s.RestartPending
  else True

namespace RunState

variable {s : RunState} {e : JournalEntry}

theorem not_unborn_of_currentStep {kind : String} (h : s.currentStep ≠ "run") : ¬ s.Unborn kind := by
  rintro ⟨hstep | hstep, -⟩
  · exact h (by rw [currentStep, hstep]; rfl)
  · exact h (by rw [currentStep, hstep]; rfl)

theorem stuck_iff (h : s.isEvidence = false) : s.Stuck ↔ ¬ s.Unborn "implement" ∧
    ((s.currentStep = "implement" ∧ s.Incomplete) ∨
      (s.currentStep = "fix" ∧ s.legFailedOrScope = none ∧
        (s.status = some .awaitingLeg ∨ s.implementCloseoutOk = false)) ∨
      (s.currentStep = "gate" ∧ s.latestGate = none) ∨
      (s.currentStep = "review" ∧ (s.status = some .awaitingReview ∨ s.Undecided ∧ s.reviewAdmittedPending = true)) ∨
      (s.currentStep = "restart" ∧ (s.status = some .awaitingRestart ∨ s.RestartPending))) := by
  rw [Stuck, h]
  exact Iff.rfl

theorem stuck_evidence_iff (h : s.isEvidence = true) : s.Stuck ↔ s.EvidencePending := by
  rw [Stuck, if_pos h]

theorem stuck_review_iff (h : s.isEvidence = false) (hstep : s.currentStep = "review") :
    s.Stuck ↔ s.status = some .awaitingReview ∨ s.Undecided ∧ s.reviewAdmittedPending = true := by
  rw [stuck_iff h, hstep]
  have hborn : ¬ s.Unborn "implement" := not_unborn_of_currentStep (by rw [hstep]; decide)
  simp [hborn]

/-- The state that a new verdict leaves. -/
def withVerdict (s : RunState) (p : ReviewVerdictPayload) : RunState :=
  { s with
    foldedVerdictKeys := (p.tipSha, p.route) :: s.foldedVerdictKeys
    review := { s.review with tipSha := some p.tipSha, verdict := some p.verdict
                              reviewDispatchId := p.reviewDispatchId, route := p.route
                              blockers := p.blockers }
    reviewAdmittedPending := false
    reviewHistory := s.reviewHistory ++ [p] }

theorem applyReviewVerdict_eq (p : ReviewVerdictPayload) :
    s.applyReviewVerdict p = if s.hasFolded p then s else s.withVerdict p := rfl

theorem withVerdict_stuck_iff (p : ReviewVerdictPayload) (h : ¬ (s.isEvidence = false ∧ s.currentStep = "review")) :
    (s.withVerdict p).Stuck ↔ s.Stuck := by
  cases hkind : s.isEvidence with
  | true => exact (stuck_evidence_iff (s := s.withVerdict p) hkind).trans (stuck_evidence_iff hkind).symm
  | false =>
    have hstep : ¬ s.currentStep = "review" := fun hs => h ⟨hkind, hs⟩
    have hstep' : ¬ (s.withVerdict p).currentStep = "review" := hstep
    rw [stuck_iff (s := s.withVerdict p) hkind, stuck_iff hkind]
    simp only [hstep, hstep', false_and, false_or]
    exact Iff.rfl

theorem applyReviewVerdict_stuck_iff (p : ReviewVerdictPayload) :
    ¬ (s.applyReviewVerdict p).Stuck ↔ s.VerdictDecides p := by
  rw [VerdictDecides, applyReviewVerdict_eq]
  cases s.hasFolded p with
  | true => simp
  | false =>
    by_cases hrev : s.isEvidence = false ∧ s.currentStep = "review"
    · rw [if_neg (by simp), if_pos ⟨hrev.1, hrev.2, rfl⟩, stuck_review_iff (s := s.withVerdict p) hrev.1 hrev.2]
      simp [withVerdict]
    · rw [if_neg (by simp), if_neg fun h => hrev ⟨h.1, h.2.1⟩, withVerdict_stuck_iff p hrev]

theorem incomplete_iff (p : LegClosed) (h : s.lastCloseout = some p) : s.Incomplete ↔ ¬ p.Settles := by
  unfold Incomplete legFailedOrScope implementCloseoutOk LegClosed.Settles
  rw [h]
  by_cases h₁ : p.closeoutStatus = "failed"
  · simp [h₁]
  by_cases h₂ : p.forbiddenGitOps = []
  · by_cases h₃ : p.closeoutStatus = "complete"
    · simp [h₃]
    · by_cases h₄ : p.closeoutStatus = "partial" <;> simp [h₁, h₂, h₃, h₄]
  · simp [h₁, h₂]

theorem applyLegClosed_unborn_iff (hstep : s.step = some e.stepId) (p : LegClosed) (kind : String)
    (hkind : kind ≠ "run") : (s.applyLegClosed e p).Unborn kind ↔ s.step = some "run" ∧ s.legs.getD kind [] = [] := by
  unfold Unborn applyLegClosed
  simp only [hstep, reduceCtorEq, false_or, Option.some.injEq, Dict.getD_set]
  refine and_congr_right fun hrun => ?_
  rw [if_neg (by rw [hrun]; exact hkind)]

theorem applyLegClosed_stuck_iff (hstep : s.step = some e.stepId) (p : LegClosed) :
    ¬ (s.applyLegClosed e p).Stuck ↔ s.CloseoutDecides p := by
  unfold CloseoutDecides
  cases hkind : s.isEvidence with
  | true =>
    rw [stuck_evidence_iff (s := s.applyLegClosed e p) hkind, EvidencePending,
      applyLegClosed_unborn_iff hstep p "evidence" (by decide), if_pos rfl]
    have hfiles : (s.applyLegClosed e p).lastCloseout = some p := rfl
    rw [hfiles, not_and_or, not_not, not_and_or]
    have hevidence : (s.applyLegClosed e p).evidence = s.evidence := rfl
    rw [hevidence]
    simp
  | false =>
    rw [stuck_iff (s := s.applyLegClosed e p) hkind, applyLegClosed_unborn_iff hstep p "implement" (by decide),
      if_neg (by simp), incomplete_iff p rfl]
    have hcurrent : (s.applyLegClosed e p).currentStep = s.currentStep := rfl
    have hgate : (s.applyLegClosed e p).latestGate = s.latestGate := rfl
    have hstatus : (s.applyLegClosed e p).status = some .running := rfl
    have hpending : (s.applyLegClosed e p).reviewAdmittedPending = false := rfl
    have hrestart : (s.applyLegClosed e p).RestartPending ↔ s.RestartPending := Iff.rfl
    have hfix : (s.applyLegClosed e p).legFailedOrScope = none ∧
        (s.applyLegClosed e p).implementCloseoutOk = false ↔ ¬ p.Settles := incomplete_iff p rfl
    have hborn : s.currentStep ≠ "run" → ¬ (s.step = some "run" ∧ s.legs.getD "implement" [] = []) :=
      fun h hs => (not_unborn_of_currentStep h : ¬ s.Unborn "implement") ⟨.inr hs.1, hs.2⟩
    rw [hcurrent, hgate, hstatus, hpending, hrestart]
    simp only [reduceCtorEq, Option.some.injEq, false_or, and_false, hfix]
    generalize s.currentStep = step at hborn
    by_cases h₁ : step = "implement"
    · subst h₁
      simp [hborn]
    by_cases h₂ : step = "fix"
    · subst h₂
      simp [hborn]
    by_cases h₃ : step = "gate"
    · subst h₃
      simp [hborn]
    by_cases h₄ : step = "restart"
    · subst h₄
      simp [hborn]
    simp [h₁, h₂, h₃, h₄]

end RunState

/-- The closeout lets the run go on: a dispatch that was closed before has no other one. -/
def Fold.CloseoutDecides (x : Fold) (e : JournalEntry) (p : LegClosed) : Prop :=
  if x.redelivered e.event = true then ¬ (x.noted e).Stuck else (x.entered e).CloseoutDecides p

theorem fold_append_singleton {events : List JournalEntry} {x : Fold} (hx : events.foldlM Fold.step Fold.start = .ok x)
    {e : JournalEntry} {s : RunState} (h : fold (events ++ [e]) = .ok s) : (x.take e).state = s := by
  rw [fold, List.foldlM_append, hx, ok_bind, List.foldlM_cons] at h
  obtain ⟨y, hy, h⟩ := bind_eq_ok.1 h
  obtain ⟨z, hz, hy⟩ := bind_eq_ok.1 hy
  obtain ⟨-, -, rfl⟩ := Fold.step_eq_ok.1 hz
  cases hy
  exact Except.ok.inj h

/-- **Answers.** Behind the verdict of a pending review or the closeout of a pending leg, a run that is not held goes on
exactly if the answer decides. -/
theorem answer_decides_iff {events : List JournalEntry} {x : Fold} (hx : events.foldlM Fold.step Fold.start = .ok x)
    {e : JournalEntry} {s : RunState} (h : fold (events ++ [e]) = .ok s) (hs : s.Unheld) (policy : Policy) :
    (∀ p, x.AnswersReview e p → ((transition policy s).command ≠ .wait ↔ (x.entered e).VerdictDecides p)) ∧
      ∀ p, x.AnswersLeg e p → ((transition policy s).command ≠ .wait ↔ x.CloseoutDecides e p) := by
  rw [Ne, RunState.transition_wait_iff hs, ← fold_append_singleton hx h]
  constructor
  · rintro p ⟨hevent, -⟩
    have hnew : x.redelivered e.event = false := Fold.redelivered_of_not_closeout (by rw [hevent]; rfl)
    rw [Fold.take_of_new hnew, RunState.apply, hevent]
    exact RunState.applyReviewVerdict_stuck_iff p
  · rintro p ⟨hevent, -⟩
    unfold Fold.CloseoutDecides
    cases hre : x.redelivered e.event with
    | true =>
      rw [Fold.take_of_redelivered hre, if_pos rfl]
    | false =>
      rw [Fold.take_of_new hre, RunState.apply, hevent, if_neg (by simp)]
      exact RunState.applyLegClosed_stuck_iff rfl p

/-- A run whose review is pending. -/
def reviewPending : List JournalEntry :=
  [⟨"ml-1", 1, 0, "run", 1, "main", .runBirthed "implement"⟩,
    ⟨"ml-1", 2, 1, "implement", 1, "main", .legAdmitted ⟨"implement", 1, "d1", "x1", "composer"⟩⟩,
    ⟨"ml-1", 3, 2, "implement", 1, "main", .legClosed ⟨"d1", "complete", "landed", "a1", [], []⟩⟩,
    ⟨"ml-1", 4, 3, "gate", 1, "main", .gateRan ⟨1, "a1", .green⟩⟩,
    ⟨"ml-1", 5, 4, "review", 1, "main", .reviewAdmitted ⟨some "r1", "a1", none⟩⟩]

/-- The approval of the head under review. -/
def approval : JournalEntry :=
  ⟨"ml-1", 6, 5, "review", 1, "main", .reviewVerdict ⟨"a1", .approve, some "r1", none, []⟩⟩

/-- The closeout of the leg lets the run go on. -/
theorem answer_decides_closeout :
    (transition ⟨[]⟩ ((reviewPending.take 3).foldl Fold.next Fold.start).state).command ≠ .wait := by
  have hbefore : (reviewPending.take 2).foldlM Fold.step Fold.start =
      .ok ((reviewPending.take 2).foldl Fold.next Fold.start) := rfl
  have hfold : fold (reviewPending.take 2 ++ [⟨"ml-1", 3, 2, "implement", 1, "main",
      .legClosed ⟨"d1", "complete", "landed", "a1", [], []⟩⟩]) =
      .ok ((reviewPending.take 3).foldl Fold.next Fold.start).state := rfl
  refine ((answer_decides_iff hbefore hfold ⟨?_, ?_, ?_, rfl, rfl⟩ ⟨[]⟩).2
    ⟨"d1", "complete", "landed", "a1", [], []⟩ ⟨rfl, rfl, ?_⟩).2 ?_
  · decide
  · decide
  · decide
  · exact ⟨⟨"implement", 1, "main", "d1", none⟩, List.mem_singleton.2 rfl, rfl, rfl⟩
  · exact .inr (.inr (.inl rfl))

/-- The run waits behind the approval, whatever the routes of its policy are. -/
theorem approval_waits : ∃ x s, reviewPending.foldlM Fold.step Fold.start = .ok x ∧
    fold (reviewPending ++ [approval]) = .ok s ∧ s.Unheld ∧
      x.AnswersReview approval ⟨"a1", .approve, some "r1", none, []⟩ ∧
        ∀ policy, transition policy s = .wait "awaiting_review" := by
  refine ⟨_, _, rfl, rfl, ⟨?_, ?_, ?_, rfl, rfl⟩, ⟨rfl, rfl⟩, fun policy => rfl⟩
  · decide
  · decide
  · decide

end LlmGateway.MechanicalLand
