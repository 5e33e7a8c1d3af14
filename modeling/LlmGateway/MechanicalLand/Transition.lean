import Mathlib.Data.List.Sort
import Mathlib.Order.Nat
import LlmGateway.MechanicalLand.Journal

/-!
# The transition table

`transition` decides from the folded state what comes next: a leg to admit, a gate, a review, the land, or that
the run waits, blocks or has ended. It is written step by step, one definition for each step of the table.
-/

namespace LlmGateway.MechanicalLand

/-- The commands of the reactor. -/
inductive Command where
  | admission  -- `admit`
  | gate
  | review
  | land
  | restart
  | probe
  | close
  | block
  | wait
  | noop
  deriving DecidableEq

structure Transition where
  command : Command
  stepId : Option String := none
  attempt : Option ℤ := none
  toStep : Option String := none
  reason : Option String := none
  needsPacket : Bool := false
  blocked : Bool := false
  reasonCode : Option String := none
  detail : Option String := none
  reviewRoute : Option String := none
  deriving DecidableEq

/-- A transition that waits. -/
def Transition.wait (reason : String) : Transition := { command := .wait, reason := some reason }

/-- A transition that blocks at a step. -/
def Transition.block (reasonCode : String) (stepId : Option String) (attempt : ℤ) : Transition :=
  { command := .block, blocked := true, reasonCode := some reasonCode, stepId := stepId, attempt := some attempt }

def routeOrder (policy : Policy) : List String :=
  if policy.routeOrder.isEmpty then ["check_review"] else policy.routeOrder

namespace RunState

/-- The attempts that have a result, the highest first. -/
def gateAttempts (s : RunState) : List ℤ := (s.gateResults.items.map Prod.fst).insertionSort fun a b => b ≤ a

def latestGate (s : RunState) : Option GateResult := s.gateAttempts.head?.bind s.gateResults.get?

/-- The result lets its head through: it is green, or red and waived. -/
def passes (s : RunState) (g : GateResult) (attempt : ℤ) : Bool :=
  g.verdict == .green || (s.waivedGateAttempts.contains attempt && g.verdict == .red)

/-- `_gated_head`: the head of the highest attempt that passes, or that of the highest attempt. -/
def gatedHead (s : RunState) : Option String :=
  ((s.gateAttempts.findSome? fun attempt => (s.gateResults.get? attempt).filter fun g =>
    s.passes g attempt).or s.latestGate).map GateResult.headSha

/-- `_latest_gate_attempt(state) or 0`. -/
def lastGateAttempt (s : RunState) : ℤ := s.gateAttempts.head?.getD 0

def nextStepAttempt (s : RunState) (stepId : String) : ℤ := (s.legs.getD stepId []).length + 1

def implementCloseoutOk (s : RunState) : Bool :=
  s.lastCloseout.any fun lc => lc.closeoutStatus == "complete" ||
    (lc.closeoutStatus == "partial" && lc.workOutcome != "checks_failed")

def legFailedOrScope (s : RunState) : Option Transition :=
  s.lastCloseout.bind fun lc =>
    if lc.closeoutStatus = "failed" then some (.block "leg_failed" s.step s.attempt)
    else if lc.forbiddenGitOps.isEmpty then none
    else some (.block "forbidden_git_op" s.step s.attempt)

/-- The last ruling, unless it is an ignored one. -/
def lastRuling (s : RunState) : Option RulingFolded :=
  s.rulings.getLast?.bind fun ruling =>
    match ruling with
    | .folded p => some p
    | .ignored _ => none

def rulingOverlay (s : RunState) : Option Transition :=
  if s.rulings.isEmpty then none
  else if s.lastRuling.any (fun p => p.verb == "HOLD") || s.pendingHold then some (.wait "blocked_hold")
  else (s.lastRuling.filter fun p => p.verb == "BLOCK").map fun p =>
    { command := .block, blocked := true, reasonCode := some "ruling_block", detail := p.reason }

/-! ## Step by step -/

/-- A gate over the closed leg. -/
def toGate (s : RunState) (reason : String) : Transition :=
  { command := .gate, stepId := some "gate", attempt := some (s.lastGateAttempt + 1), toStep := some "gate"
    reason := some reason }

/-- A leg that fixes. -/
def toFix (s : RunState) (reason : String) : Transition :=
  { command := .admission, stepId := some "fix", attempt := some (s.nextStepAttempt "fix"), toStep := some "fix"
    reason := some reason, needsPacket := true }

/-- A review by a route. -/
def toReview (attempt : ℤ) (reason route : String) : Transition :=
  { command := .review, stepId := some "review", attempt := some attempt, toStep := some "review"
    reason := some reason, needsPacket := true, reviewRoute := some route }

/-- A transition to the first attempt of a step. -/
def toFirst (command : Command) (step : String) (reason : Option String) : Transition :=
  { command := command, stepId := some step, attempt := some 1, toStep := some step, reason := reason }

/-- The step `implement`. -/
def transitionImplement (s : RunState) : Transition :=
  s.legFailedOrScope.getD
    (if s.status = some .awaitingLeg ∧ s.implementCloseoutOk = false then .wait "awaiting_leg"
    else if (s.legs.getD "implement" []).isEmpty ∧ s.implementCloseoutOk = false then .wait "awaiting_leg"
    else if s.implementCloseoutOk then s.toGate "implement closed"
    else .wait "implement_incomplete")

/-- The step `fix`. -/
def transitionFix (s : RunState) : Transition :=
  s.legFailedOrScope.getD
    (if s.status = some .awaitingLeg then .wait "awaiting_leg"
    else if s.implementCloseoutOk then s.toGate "fix closed"
    else .wait "fix_incomplete")

/-- The route of the review under way, or the first one. -/
def reviewRoute (policy : Policy) (s : RunState) : String :=
  (s.review.route.filter fun r => r != "").getD ((routeOrder policy).headD "")

/-- The step `gate`. -/
def transitionGate (policy : Policy) (s : RunState) : Transition :=
  match s.latestGate with
  | none => .wait "gate_pending"
  | some g =>
    if g.verdict = .infraError then .block "gate_infra" (some "gate") g.attempt
    else if g.verdict = .green ∨ g.attempt ∈ s.waivedGateAttempts then
      toReview (s.reviewHistory.length + 1) "gate green" (reviewRoute policy s)
    else if s.gateFixUsed = 0 then s.toFix "gate_red"
    else .block "gate_red_after_fix" (some "gate") g.attempt

/-- The tip under review, `review.tip_sha or review.head`. -/
def reviewTip (s : RunState) : Option String := (s.review.tipSha.filter fun t => t != "").or s.review.head

/-- The routes behind the one that is tried, or all of them when it is no route of the policy. -/
def laterRoutes (policy : Policy) (route : String) : List String :=
  let order := routeOrder policy
  if order.contains route then (order.dropWhile fun r => r != route).tail else order

/-- A verdict without a binding: the next route, or a block. -/
def transitionUnbound (policy : Policy) (s : RunState) : Transition :=
  match laterRoutes policy (reviewRoute policy s) with
  | next :: _ => toReview (if 0 < s.attempt then s.attempt else 1) "review_route_advanced" next
  | [] => .block "review_unbound" (some "review") s.attempt

/-- The rest of `_transition_review`, when the verdict decides nothing. -/
def transitionUnreviewed (policy : Policy) (s : RunState) : Transition :=
  let gated := s.gatedHead.filter fun h => h != ""
  let tip := s.reviewTip.filter fun t => t != ""
  if gated.isSome ∧ tip.isSome ∧ tip ≠ gated then .block "tip_drift" (some "review") s.attempt
  else if s.reviewAdmittedPending then .wait "awaiting_review"
  else toReview (s.reviewHistory.length + 1) "review_start" (reviewRoute policy s)

/-- The approved tip is the gated head. -/
def approved (s : RunState) : Bool :=
  s.review.verdict == some .approve && (s.gatedHead.any fun h => h != "") && s.reviewTip == s.gatedHead

def transitionReview (policy : Policy) (s : RunState) : Transition :=
  if s.status = some .awaitingReview then .wait "awaiting_review"
  else if s.approved then toFirst .land "land" (some "review approve")
  else if s.review.verdict = some .requestChanges ∧ s.review.blockers ≠ [] then
    if s.reviewFixUsed = 0 then s.toFix "review_request_changes"
    else .block "review_request_changes" (some "review") s.attempt
  else if s.review.verdict = some .unbound then transitionUnbound policy s
  else transitionUnreviewed policy s

/-- The step `land`. -/
def transitionLand (s : RunState) : Transition :=
  if s.land.landed = some true then toFirst .restart "restart" (some "landed")
  else if s.land.landed = some false ∧ (s.land.refuseReason.any fun r => r != "") then
    .block (s.land.refuseReason.getD "") (some "land") s.attempt
  else toFirst .land "land" none

/-- The step `restart`. -/
def transitionRestart (s : RunState) : Transition :=
  if s.status = some .awaitingRestart then .wait "awaiting_restart"
  else if s.restart.intents.any fun i => i.state == "expired" then
    .block "restart_intent_expired" (some "restart") s.attempt
  else if s.restart.restartSet ≠ [] ∧ s.probe.items = [] then toFirst .probe "probe" (some "restart issued")
  else .wait "restart_pending"

/-- The step `probe`. -/
def transitionProbe (s : RunState) : Transition :=
  if s.probe.items ≠ [] ∧ s.probe.items.all (fun p => p.2) then toFirst .close "close" (some "live")
  else .block "not_live" (some "probe") s.attempt

/-- The step `close`. -/
def transitionClose (s : RunState) : Transition :=
  if s.status = some .closed then { command := .noop, reason := some "closed" } else toFirst .close "close" none

def transitionEvidence (s : RunState) : Transition :=
  if (s.step = none ∨ s.step = some "run") ∧ s.legs.getD "evidence" [] = [] then
    { toFirst .admission "evidence" (some "birth") with needsPacket := true }
  else if s.evidence.any fun ref => ref != "" then
    { command := .close, stepId := some "harvest", attempt := some 1, toStep := some "close"
      reason := some "evidence harvested" }
  else if s.lastCloseout.any fun lc => !lc.filesModified.isEmpty then
    { command := .block, blocked := true, reasonCode := some "evidence_run_wrote" }
  else .wait "awaiting_evidence_leg"

/-- `state.step or "run"`. -/
def currentStep (s : RunState) : String := (s.step.filter fun step => step != "").getD "run"

/-- The table, by the step. -/
def transitionStep (policy : Policy) (s : RunState) : Transition :=
  if s.currentStep = "implement" then s.transitionImplement
  else if s.currentStep = "fix" then s.transitionFix
  else if s.currentStep = "gate" then transitionGate policy s
  else if s.currentStep = "review" then transitionReview policy s
  else if s.currentStep = "land" then s.transitionLand
  else if s.currentStep = "restart" then s.transitionRestart
  else if s.currentStep = "probe" then s.transitionProbe
  else if s.currentStep = "close" then s.transitionClose
  else { command := .noop, reason := some ("unhandled step=" ++ s.currentStep) }

/-- The ruling that decides, when one does. A hold that has been resumed does not. -/
def decidingRuling (s : RunState) : Option Transition :=
  s.rulingOverlay.filter fun ruling => ruling.command != .wait || s.pendingHold

/-- `kind == "evidence"`. -/
def isEvidence (s : RunState) : Bool := s.kind == some "evidence"

end RunState

open RunState in
def transition (policy : Policy) (s : RunState) : Transition :=
  if s.status = some .closed ∨ s.status = some .blocked then { command := .noop, reason := some "terminal" }
  else s.decidingRuling.getD
    (if s.isEvidence then s.transitionEvidence
    else if s.status = some .blockedHold ∨ s.pendingHold then .wait "blocked_hold"
    else if (s.step = none ∨ s.step = some "run") ∧ s.legs.getD "implement" [] = [] then
      toFirst .admission "implement" (some "birth")
    else transitionStep policy s)

/-! ## What the commands mean -/

namespace RunState

variable {policy : Policy} {s : RunState}

theorem transition_of_terminal (h : s.status = some .closed ∨ s.status = some .blocked) :
    transition policy s = { command := .noop, reason := some "terminal" } := by
  rw [transition, if_pos h]

end RunState

end LlmGateway.MechanicalLand
