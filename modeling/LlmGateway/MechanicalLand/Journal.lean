import LlmGateway.Foundations.Dict
import LlmGateway.Foundations.Fallible
import LlmGateway.Foundations.Json

/-!
# The journal of a mechanical land

A run is a journal of events, and `fold` reduces it to the state from which the next command is decided. An
entry has to follow on the one before; an event that is not known or does not parse ends the fold. A payload
stands here as it is when it has been parsed.

Of the state the fields are modelled that the fold or the transition table reads.
-/

namespace LlmGateway.MechanicalLand

/-! ## Payloads -/

inductive GateVerdict where
  | green
  | red
  | infraError
  deriving DecidableEq

inductive ReviewVerdict where
  | approve
  | requestChanges
  | unbound
  deriving DecidableEq

/-- The run's policy: `review.route_order`, empty when it is not there. -/
structure Policy where
  routeOrder : List String
  deriving DecidableEq

/-- `TransitionDecidedPayload`. -/
structure TransitionDecided where
  fromStep : String
  toStep : String
  attempt : ℤ
  reason : String
  deriving DecidableEq

/-- `LegAdmittedPayload`. -/
structure LegAdmitted where
  stepId : String
  attempt : ℤ
  dispatchId : String
  executionId : String
  model : String
  deriving DecidableEq

/-- `LegClosedPayload`. -/
structure LegClosed where
  dispatchId : String
  closeoutStatus : String
  workOutcome : String
  headSha : String
  filesModified : List String
  forbiddenGitOps : List String
  deriving DecidableEq

/-- `GateRanPayload`. -/
structure GateRan where
  attempt : ℤ
  headSha : String
  verdict : GateVerdict
  deriving DecidableEq

/-- `ReviewAdmittedPayload`. -/
structure ReviewAdmitted where
  dispatchId : Option String
  head : String
  route : Option String
  deriving DecidableEq

structure ReviewVerdictPayload where
  tipSha : String
  verdict : ReviewVerdict
  reviewDispatchId : Option String
  route : Option String
  blockers : List String
  deriving DecidableEq

/-- `LandAttemptedPayload`. -/
structure LandAttempted where
  tipSha : String
  landed : Bool
  refuseReason : Option String
  deriving DecidableEq

/-- `RestartIssuedPayload`. -/
structure RestartIssued where
  service : String
  intentId : String
  state : String
  deriving DecidableEq

/-- `RulingFoldedPayload`. -/
structure RulingFolded where
  verb : String
  step : Option String
  reason : Option String
  deriving DecidableEq

/-- `BlockedPayload`. -/
structure Blocked where
  stepId : String
  attempt : ℤ
  reasonCode : String
  detail : String
  deriving DecidableEq

/-- An event with its payload. -/
inductive JournalEvent where
  | runBirthed (kind : String)
  | policyStamped (policy : Policy)
  | transitionDecided (payload : TransitionDecided)
  | legAdmitted (payload : LegAdmitted)
  | legAdmitFailed
  | legClosed (payload : LegClosed)
  | gateRan (payload : GateRan)
  | reviewAdmitted (payload : ReviewAdmitted)
  | reviewVerdict (payload : ReviewVerdictPayload)
  | reviewFallbackAdmitted (model : String) (toRoute : Option String)
  | landAttempted (payload : LandAttempted)
  | restartPlanned (restartSet : List String)
  | restartIssued (payload : RestartIssued)
  | probeRan (service : String) (live : Bool)
  | closed (todoCloseResult : String)
  | evidenceHarvested (sidecarRef : String)
  | rulingFolded (payload : RulingFolded)
  | rulingIgnored (why : String)
  | blocked (payload : Blocked)
  | resumed
  | flowForked
  | flowJoined (survivorFlow : String)
  /-- A name outside of `JOURNAL_EVENT_NAMES`. -/
  | unknown (name : String)
  /-- A payload that `parse_payload` refuses. -/
  | malformed (name : String)
  deriving DecidableEq

structure JournalEntry where
  runId : String
  seq : ℤ
  prevSeq : ℤ
  stepId : String
  attempt : ℤ
  flow : String
  event : JournalEvent
  deriving DecidableEq

/-! ## The state of a run -/

/-- The values of `status`. -/
inductive RunStatus where
  | running
  | awaitingLeg
  | awaitingReview
  | awaitingRestart
  | blockedHold
  | blocked
  | closed
  deriving DecidableEq

/-- `LegRecord`, with its closeout. -/
structure LegRecord where
  stepId : String
  attempt : ℤ
  flow : String
  dispatchId : String
  closeout : Option LegClosed

structure GateResult where
  attempt : ℤ
  verdict : GateVerdict
  headSha : String

structure ReviewState where
  tipSha : Option String
  verdict : Option ReviewVerdict
  reviewDispatchId : Option String
  head : Option String
  fallbackModel : Option String
  route : Option String
  blockers : List String

structure LandState where
  tipSha : Option String
  landed : Option Bool
  refuseReason : Option String

structure RestartState where
  restartSet : List String
  intents : List RestartIssued

/-- An element of `rulings`. -/
inductive Ruling where
  | folded (payload : RulingFolded)
  | ignored (why : String)

structure RunState where
  runId : Option String
  kind : Option String
  policy : Option Policy
  status : Option RunStatus
  step : Option String
  attempt : ℤ
  flow : String
  legs : Dict String (List LegRecord)
  lastCloseout : Option LegClosed
  gateResults : Dict ℤ GateResult
  review : ReviewState
  reviewHistory : List ReviewVerdictPayload
  land : LandState
  restart : RestartState
  probe : Dict String Bool
  rulings : List Ruling
  gateFixUsed : ℕ
  reviewFixUsed : ℕ
  waivedGateAttempts : List ℤ
  reviewAdmittedPending : Bool
  pendingHold : Bool
  blockedReason : Option String
  evidence : Option String
  todoClose : Option String
  tipSeq : ℤ
  foldedVerdictKeys : List (String × Option String)

def freshState : RunState where
  runId := none
  kind := none
  policy := none
  status := none
  step := none
  attempt := 0
  flow := "main"
  legs := ∅
  lastCloseout := none
  gateResults := ∅
  review := ⟨none, none, none, none, none, none, []⟩
  reviewHistory := []
  land := ⟨none, none, none⟩
  restart := ⟨[], []⟩
  probe := ∅
  rulings := []
  gateFixUsed := 0
  reviewFixUsed := 0
  waivedGateAttempts := []
  reviewAdmittedPending := false
  pendingHold := false
  blockedReason := none
  evidence := none
  todoClose := none
  tipSeq := 0
  foldedVerdictKeys := []

namespace RunState

/-! ## The handlers -/

def applyTransitionDecided (s : RunState) (p : TransitionDecided) : RunState :=
  { s with
    step := some p.toStep
    attempt := p.attempt
    gateFixUsed := if p.reason = "gate_red" then max s.gateFixUsed 1 else s.gateFixUsed
    reviewFixUsed := if p.reason = "review_request_changes" then max s.reviewFixUsed 1 else s.reviewFixUsed }

def applyLegAdmitted (s : RunState) (e : JournalEntry) (p : LegAdmitted) : RunState :=
  let leg : LegRecord := ⟨p.stepId, p.attempt, e.flow, p.dispatchId, none⟩
  { s with legs := s.legs.set p.stepId (s.legs.getD p.stepId [] ++ [leg]), status := some .awaitingLeg }

/-- The last leg of the dispatch with its closeout, or one more leg. -/
def closeLeg (legs : List LegRecord) (e : JournalEntry) (p : LegClosed) : List LegRecord :=
  if legs.any fun leg => leg.dispatchId == p.dispatchId then
    let later := legs.reverse.takeWhile fun leg => leg.dispatchId != p.dispatchId
    let rest := legs.reverse.drop later.length
    (later ++ (rest.head?.map fun leg => ({ leg with closeout := some p } : LegRecord)).toList ++ rest.tail).reverse
  else legs ++ [⟨e.stepId, e.attempt, e.flow, p.dispatchId, some p⟩]

def applyLegClosed (s : RunState) (e : JournalEntry) (p : LegClosed) : RunState :=
  { s with
    lastCloseout := some p
    legs := s.legs.set e.stepId (closeLeg (s.legs.getD e.stepId []) e p)
    status := some .running
    reviewAdmittedPending := false }

def applyGateRan (s : RunState) (p : GateRan) : RunState :=
  { s with gateResults := s.gateResults.set p.attempt ⟨p.attempt, p.verdict, p.headSha⟩ }

def applyReviewAdmitted (s : RunState) (p : ReviewAdmitted) : RunState :=
  { s with
    review := { s.review with head := some p.head, reviewDispatchId := p.dispatchId, route := p.route }
    reviewAdmittedPending := true
    status := some .awaitingReview }

/-- A verdict that has been folded before: the same tip, by the same route. -/
def hasFolded (s : RunState) (p : ReviewVerdictPayload) : Bool := s.foldedVerdictKeys.contains (p.tipSha, p.route)

def applyReviewVerdict (s : RunState) (p : ReviewVerdictPayload) : RunState :=
  if s.hasFolded p then s
  else
    { s with
      foldedVerdictKeys := (p.tipSha, p.route) :: s.foldedVerdictKeys
      review := { s.review with tipSha := some p.tipSha, verdict := some p.verdict
                                reviewDispatchId := p.reviewDispatchId, route := p.route
                                blockers := p.blockers }
      reviewAdmittedPending := false
      reviewHistory := s.reviewHistory ++ [p] }

def applyReviewFallbackAdmitted (s : RunState) (model : String) (toRoute : Option String) : RunState :=
  { s with
    review := { s.review with fallbackModel := some model
                              route := (toRoute.filter fun r => r != "").or s.review.route
                              verdict := none }
    reviewAdmittedPending := false }

def applyRulingFolded (s : RunState) (e : JournalEntry) (p : RulingFolded) : RunState :=
  let s : RunState := { s with rulings := s.rulings ++ [.folded p] }
  if p.verb = "HOLD" then { s with pendingHold := true, status := some .blockedHold }
  else if p.verb = "BLOCK" then
    { s with status := some .blocked, blockedReason := some ((p.reason.filter fun r => r != "").getD p.verb) }
  else if p.verb = "RESUME" then { s with pendingHold := false }
  else if p.verb = "WAIVE_GATE" ∧ p.step = some "gate" then
    { s with waivedGateAttempts := e.attempt :: s.waivedGateAttempts }
  else s

def applyResumed (s : RunState) : RunState :=
  { s with pendingHold := false, status := if s.status = some .blockedHold then some .running else s.status }

/-- `_FOLD_HANDLERS`. -/
def apply (s : RunState) (e : JournalEntry) : RunState :=
  match e.event with
  | .runBirthed kind => { s with kind := some kind, status := some .running }
  | .policyStamped policy => { s with policy := some policy }
  | .transitionDecided p => s.applyTransitionDecided p
  | .legAdmitted p => s.applyLegAdmitted e p
  | .legAdmitFailed => { s with status := some .blocked }
  | .legClosed p => s.applyLegClosed e p
  | .gateRan p => s.applyGateRan p
  | .reviewAdmitted p => s.applyReviewAdmitted p
  | .reviewVerdict p => s.applyReviewVerdict p
  | .reviewFallbackAdmitted model toRoute => s.applyReviewFallbackAdmitted model toRoute
  | .landAttempted p => { s with land := ⟨some p.tipSha, some p.landed, p.refuseReason⟩ }
  | .restartPlanned restartSet => { s with restart := { s.restart with restartSet := restartSet } }
  | .restartIssued p =>
    { s with restart := { s.restart with intents := s.restart.intents ++ [p] }, status := some .awaitingRestart }
  | .probeRan service live => { s with probe := s.probe.set service live }
  | .closed todoCloseResult => { s with todoClose := some todoCloseResult, status := some .closed }
  | .evidenceHarvested sidecarRef => { s with evidence := some sidecarRef }
  | .rulingFolded p => s.applyRulingFolded e p
  | .rulingIgnored why => { s with rulings := s.rulings ++ [.ignored why] }
  | .blocked p =>
    { s with status := some .blocked, blockedReason := some p.reasonCode, step := some p.stepId
             attempt := p.attempt }
  | .resumed => s.applyResumed
  | .flowForked => s
  | .flowJoined survivorFlow => { s with flow := survivorFlow }
  | .unknown _ => s
  | .malformed _ => s

end RunState

/-! ## The fold -/

/-- The exceptions of the fold. -/
inductive JournalError where
  | journalForkRefused (text : String)
  | unknownJournalEvent (name : String)
  | invalidPayload (name : String)
  deriving DecidableEq

/-- The variables of the loop. -/
structure Fold where
  state : RunState
  closedDispatchIds : List String
  expectedPrev : ℤ

def Fold.start : Fold := ⟨freshState, [], 0⟩

/-- The dispatch whose closeout the event is. -/
def JournalEvent.closedDispatch : JournalEvent → Option String
  | legClosed p => some p.dispatchId
  | _ => none

/-- The closeout of a dispatch that is closed already. -/
def Fold.redelivered (x : Fold) (event : JournalEvent) : Bool :=
  event.closedDispatch.any fun id => x.closedDispatchIds.contains id

/-- The state with the sequence number of the entry. -/
def Fold.noted (x : Fold) (e : JournalEntry) : RunState :=
  { x.state with runId := some (x.state.runId.getD e.runId), tipSeq := e.seq }

/-- The state at the step of the entry. -/
def Fold.entered (x : Fold) (e : JournalEntry) : RunState :=
  { x.noted e with step := some e.stepId, attempt := e.attempt, flow := e.flow }

/-- The body of the loop, when nothing is raised. -/
def Fold.take (x : Fold) (e : JournalEntry) : Fold :=
  if x.redelivered e.event then ⟨x.noted e, x.closedDispatchIds, e.seq⟩
  else ⟨(x.entered e).apply e, e.event.closedDispatch.toList ++ x.closedDispatchIds, e.seq⟩

/-- What the event raises. -/
def JournalEvent.check : JournalEvent → Except JournalError Unit
  | unknown name => .error (.unknownJournalEvent name)
  | malformed name => .error (.invalidPayload name)
  | _ => .ok ()

/-- What an entry raises that does not follow on. -/
def Fold.checkEntry (x : Fold) (e : JournalEntry) : Except JournalError Unit :=
  let bound := x.state.runId.getD e.runId
  if e.runId ≠ bound then
    .error (.journalForkRefused ("run_id " ++ Json.strRepr e.runId ++ " != bound " ++ Json.strRepr bound ++
      " at seq " ++ toString e.seq))
  else if e.prevSeq ≠ x.expectedPrev then
    .error (.journalForkRefused ("prev_seq " ++ toString e.prevSeq ++ " != expected " ++
      toString x.expectedPrev ++ " at seq " ++ toString e.seq))
  else if e.seq ≠ e.prevSeq + 1 then
    .error (.journalForkRefused ("seq " ++ toString e.seq ++ " != prev_seq+1 (" ++ toString (e.prevSeq + 1) ++
      ") at seq " ++ toString e.seq))
  else .ok ()

/-- The body of the loop. -/
def Fold.step (x : Fold) (e : JournalEntry) : Except JournalError Fold := do
  x.checkEntry e
  e.event.check
  return x.take e

def fold (events : List JournalEntry) : Except JournalError RunState := do
  let x ← events.foldlM Fold.step Fold.start
  return x.state

/-! ## What an entry leaves -/

variable {e : JournalEntry} {x : Fold}

theorem Fold.step_eq_ok {y : Fold} :
    x.step e = .ok y ↔ x.checkEntry e = .ok () ∧ e.event.check = .ok () ∧ y = x.take e := by
  unfold Fold.step
  rw [bind_eq_ok]
  constructor
  · rintro ⟨⟨⟩, hentry, h⟩
    obtain ⟨⟨⟩, hevent, h⟩ := bind_eq_ok.1 h
    exact ⟨hentry, hevent, (Except.ok.inj h).symm⟩
  · rintro ⟨hentry, hevent, rfl⟩
    refine ⟨(), hentry, ?_⟩
    rw [hevent]
    rfl

theorem Fold.take_of_redelivered (h : x.redelivered e.event = true) : (x.take e).state = x.noted e := by
  rw [Fold.take, if_pos h]

theorem Fold.take_of_new (h : x.redelivered e.event = false) : (x.take e).state = (x.entered e).apply e := by
  simp [Fold.take, h]

theorem Fold.redelivered_of_not_closeout {event : JournalEvent} (h : event.closedDispatch = none) :
    x.redelivered event = false := by
  rw [Fold.redelivered, h]
  rfl

end LlmGateway.MechanicalLand
