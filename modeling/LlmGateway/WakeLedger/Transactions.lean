import LlmGateway.Foundations.System
import LlmGateway.WakeLedger.State

/-!
# The endpoint wake ledger: transactions

Every writer of the ledger as a function of the store: the scan (`getCursor`, `advanceScan`), the claim
(`claimDueWakes`), the results of a claim (`recordWakeResult`, `recordOrionDeferredStreaming`), the fold
of expired claims, the skips (`suppressEndpointWakeForTurn`, `skipPendingWakesOnPairMarkRead`), the passes
of composer deferral and the direct claim of the Orion delivery owner. A transaction that raises is
rolled back, so `step` leaves the store as it was.

The turns and the subscriptions have writers of their own; `step` has them as insertions, changes and
deletions of arbitrary rows. Deleting a turn deletes its wake rows.
-/

namespace LlmGateway.WakeLedger

/-- `WakeConflictError`, and the constraints of the tables. -/
inductive WakeError where
  | staleHighWater
  | wakeNotClaimed
  | integrity
  deriving DecidableEq

/-! ## Scanning -/

/-- An item of `pending`. -/
structure Item where
  agent : String
  threadId : String
  turnId : ℕ
  turnNumber : ℤ
  decidedByRule : Option String

/-- `INSERT OR IGNORE`: the unique key is `(agent, thread_id, turn_id)`, and a turn that is missing is
an error, not ignored. -/
def insertOrIgnore (turns : Table Turn) (ledger : Table Row) (r : Row) :
    Except WakeError (Table Row) :=
  if !(ledger.select fun _ o => o.group = r.group && o.turnId == r.turnId).isEmpty then .ok ledger
  else if (turns.get? r.turnId).isNone then .error .integrity
  else .ok (ledger.insert r)

/-- The row an item is filed as. -/
def Item.row (item : Item) (stamp : ℤ) : Row where
  agent := item.agent
  threadId := item.threadId
  turnId := item.turnId
  turnNumber := item.turnNumber
  state := .pending
  wakeId := none
  route := none
  subscriptionId := none
  cseRegistrationId := none
  reason := none
  decidedByRule := item.decidedByRule
  createdAt := stamp
  claimedAt := none
  finishedAt := none

/-- `get_cursor`: the cursor, starting at the newest turn when there is none. -/
def getCursor (s : Store) (consumer : String) : Store :=
  let newest := ((s.turns.rows.items.map fun e => (e.1 : ℤ)).max?).getD 0
  { s with cursors := s.cursors.setDefault consumer newest }

/-- Whether a turn has been read; a turn that is missing has not. -/
def turnRead (s : Store) (turnId : ℕ) : Bool :=
  (s.turns.get? turnId).any fun t => t.readAt.any (· ≠ "")

def advanceScan (s : Store) (stamp : ℤ) (consumer : String) (expected new : ℤ) (pending : List Item) :
    Except WakeError Store :=
  if s.cursors.get? consumer ≠ some expected then .error .staleHighWater
  else do
    let filtered := pending.filter fun item => !turnRead s item.turnId
    let ledger ← filtered.foldlM (fun ledger item => insertOrIgnore s.turns ledger (item.row stamp)) s.ledger
    return { s with ledger := ledger, cursors := s.cursors.set consumer new }

/-! ## Claiming -/

/-- The arguments of `claim_due_wakes`, with the clock, the fresh wake id and what it reads outside. -/
structure ClaimCall where
  stamp : ℤ
  claimTtl : ℤ
  limit : ℤ
  wakeId : String
  probes : Probes

def ClaimCall.ttlBefore (c : ClaimCall) : ℤ := c.stamp - c.claimTtl

/-- The row claimed under a wake id. -/
def Row.claim (wakeId : String) (stamp : ℤ) (r : Row) : Row :=
  { r with state := .claimed, wakeId := some wakeId, claimedAt := some stamp }

structure ClaimResult where
  wakeId : Option String
  rows : List (ℕ × Row)

/-- The claimed rows as old as the cutoff turn unknown. -/
def foldClaims (s : Store) (cutoff : ℤ) : Store :=
  let expired : Row → Bool := fun r => r.state == .claimed && r.claimedAt.any (· ≤ cutoff)
  { s with ledger := s.ledger.update (fun _ r => expired r) fun r => { r with state := .unknown } }

section

variable (R : Registry) (c : ClaimCall)

/-- A row of the group that composer deferral does not hold back. -/
def undeferredRows (s : Store) (g : Group) : List (ℕ × Row) :=
  (groupPendingRows R s c.stamp g).filter fun e => !composerDeferBlocksClaim e.2

def claimableRows (s : Store) (g : Group) : List (ℕ × Row) :=
  (undeferredRows R c s g).filter fun e => (skipReason R c.probes s e.2).isNone

def skippableRows (s : Store) (g : Group) : List (ℕ × Row) :=
  (undeferredRows R c s g).filter fun e => (skipReason R c.probes s e.2).isSome

/-- The row with `_skip_reason` as its reason. -/
def skipRow (s : Store) (r : Row) : Row :=
  { r with state := .skipped, reason := skipReason R c.probes s r, finishedAt := some c.stamp }

/-- The updates of the loop over the rows of a group. -/
def skipRows (s : Store) (g : Group) : Store :=
  let ids := (skippableRows R c s g).map Prod.fst
  { s with ledger := s.ledger.update (fun id _ => ids.contains id) (skipRow R c s) }

/-- The update that claims the rows `ids`. -/
def claimRows (s : Store) (ids : List ℕ) : Store :=
  { s with ledger := s.ledger.update (fun id _ => ids.contains id) (Row.claim c.wakeId c.stamp) }

/-- The rows of the wake, as the claim returns them. -/
def wakeRows (s : Store) (wakeId : String) : List (ℕ × Row) :=
  (s.ledger.select fun _ r => r.wakeId == some wakeId).insertionSort fun a b => a.2.turnId ≤ b.2.turnId

/-- The loop of `claim_due_wakes`: `n` more groups are looked at. -/
def claimLoop : ℕ → Store → List (ℕ × Row) → Store × ClaimResult
  | 0, s, allSkipped => (s, ⟨none, allSkipped⟩)
  | n + 1, s, allSkipped =>
    match firstGroup s c.stamp c.ttlBefore c.limit with
    | none => (s, ⟨none, allSkipped⟩)
    | some g =>
      if orionPendingCoalesceBlocks R s g (c.stamp - 30) then claimLoop n s allSkipped
      else
        let claimable := claimableRows R c s g
        let s' := skipRows R c s g
        if claimable.isEmpty then
          claimLoop n s' (allSkipped ++ (skippableRows R c s g).map fun e =>
            (e.1, { e.2 with state := .skipped, reason := skipReason R c.probes s e.2 }))
        else
          let t := claimRows c s' (claimable.map Prod.fst)
          (t, ⟨some c.wakeId, wakeRows t c.wakeId⟩)

def claimSkipGroupCap : ℕ := 32

def claimDueWakes (s : Store) : Store × ClaimResult :=
  claimLoop R c claimSkipGroupCap (foldClaims s c.ttlBefore) []

end

/-! ## Recording what became of a claim -/

/-- The texts that the `CHECK` of the `route` column admits; `NULL` is admitted too. -/
def routes : List String :=
  ["exact", "wildcard", "parent", "window-binding", "cse", "agent_id", "remapped"]

def routeOk (route : Option String) : Bool := route.all routes.contains

/-- The columns a result writes beside the state. -/
structure Delivery where
  route : Option String
  subscriptionId : Option ℕ
  cseRegistrationId : Option String

/-- The columns that every result writes. -/
def Row.record (r : Row) (state : RowState) (reason : Option String) (d : Delivery)
    (finishedAt : Option ℤ) (decidedByRule : Option String) : Row :=
  { r with
    state := state
    reason := reason
    route := d.route
    subscriptionId := d.subscriptionId
    cseRegistrationId := d.cseRegistrationId
    finishedAt := finishedAt
    decidedByRule := decidedByRule }

/-- The rows of the wake that are claimed, or unknown since the claim expired. -/
def eligibleRows (s : Store) (wakeId : String) : List (ℕ × Row) :=
  s.ledger.select fun _ r => r.wakeId == some wakeId && r.state.isClaim

/-- The value of the digits, with single underscores between them. -/
def digits? : ℕ → Bool → List Char → Option ℕ
  | acc, true, [] => some acc
  | _, false, [] => none
  | acc, seen, ch :: chs =>
    if ch.isDigit then digits? (10 * acc + (ch.toNat - 48)) true chs
    else if ch == '_' && seen then digits? acc false chs
    else none

/-- `int(text)`, on the ASCII digits. -/
def pyInt? (text : String) : Option ℤ :=
  match (Json.strip text).toList with
  | '-' :: chs => (digits? 0 false chs).map fun n => -(n : ℤ)
  | '+' :: chs => (digits? 0 false chs).map fun n => (n : ℤ)
  | chs => (digits? 0 false chs).map fun n => (n : ℤ)

def orionDeferredAttemptText : String := "orion_deferred_attempt:"

def parseOrionDeferredAttempt (decidedByRule : Option String) : ℕ :=
  let text := decidedByRule.getD ""
  if !Json.startsWith text orionDeferredAttemptText then 0
  else ((pyInt? (String.ofList (text.toList.drop orionDeferredAttemptText.length))).getD 0).toNat

/-- `orion_deferred_retry_delay_s`. -/
def orionDeferredRetryDelay (attempt : ℕ) : ℤ := min 300 (30 * (max 1 attempt : ℕ))

/-- `record_orion_deferred_streaming`: another attempt later, or, after the twenty-fifth, a refusal. -/
def recordOrionDeferredStreaming (s : Store) (stamp : ℤ) (wakeId : String) (d : Delivery) :
    Except WakeError Store :=
  let eligible := eligibleRows s wakeId
  if eligible.isEmpty then .error .wakeNotClaimed
  else if !routeOk d.route then .error .integrity
  else
    let attempt := ((eligible.map fun e => parseOrionDeferredAttempt e.2.decidedByRule).max?).getD 0 + 1
    let ids := eligible.map Prod.fst
    let rule := orionDeferredAttemptText ++ toString attempt
    if 25 < attempt then
      let exhaust : Row → Row := fun r =>
        r.record .refused (some "deferred_exhausted") d (some stamp) (some rule)
      .ok { s with ledger := s.ledger.update (fun id _ => ids.contains id) exhaust }
    else
      let retryAt := stamp + orionDeferredRetryDelay attempt
      let retry : Row → Row := fun r =>
        { r.record .pending (some "deferred_streaming") d (some retryAt) (some rule) with
          wakeId := none, claimedAt := none }
      .ok { s with ledger := s.ledger.update (fun id _ => ids.contains id) retry }

def recordWakeResult (s : Store) (stamp : ℤ) (wakeId outcome : String) (reason : Option String)
    (d : Delivery) (decidedByRule : Option String) : Except WakeError Store :=
  let rule := mergeComposerDeferDecidedByRule decidedByRule reason
  let finished := if outcome = "refused" then none else some stamp
  let eligible := eligibleRows s wakeId
  if eligible.isEmpty then .error .wakeNotClaimed
  else
    match RowState.ofString? outcome with
    | none => .error .integrity
    | some state =>
      if !routeOk d.route then .error .integrity
      else
        let ids := eligible.map Prod.fst
        let write : Row → Row := fun r =>
          r.record state reason d finished (if rule.any (· ≠ "") then rule else r.decidedByRule)
        .ok { s with ledger := s.ledger.update (fun id _ => ids.contains id) write }

/-! ## Skipping -/

/-- The row that suppression files for a turn. -/
def tombstone (canonical threadId reason : String) (turnId : ℕ) (turnNumber stamp : ℤ) : Row where
  agent := canonical
  threadId := threadId
  turnId := turnId
  turnNumber := turnNumber
  state := .skipped
  wakeId := none
  route := none
  subscriptionId := none
  cseRegistrationId := none
  reason := some reason
  decidedByRule := none
  createdAt := stamp
  claimedAt := none
  finishedAt := some stamp

/-- Pending rows become skipped. -/
def skipWhere (ledger : Table Row) (p : Row → Bool) (reason : String) (stamp : ℤ) : Table Row :=
  ledger.update (fun _ r => r.state == .pending && p r) fun r =>
    { r with state := .skipped, reason := some reason, finishedAt := some stamp }

def suppressEndpointWakeForTurn (R : Registry) (s : Store) (stamp : ℤ) (agent threadId : String)
    (turnNumber : ℤ) (reason : String) : Except WakeError Store := do
  let canonical := R.canonicalWakeRecipient agent
  let agents := R.ledgerAgentsForCanonical canonical
  let ledger := skipWhere s.ledger (fun r => r.threadId == threadId && r.turnNumber == turnNumber &&
    agents.contains (Sql.lower (Sql.trim r.agent))) reason stamp
  match (s.turns.select fun _ t => t.thread == threadId && t.turnNumber == turnNumber).head? with
  | none => return { s with ledger := ledger }
  | some turn =>
    let ledger ← insertOrIgnore s.turns ledger
      (tombstone canonical threadId reason turn.1 turnNumber stamp)
    return { s with ledger := ledger }

def skipPendingWakesOnPairMarkRead (R : Registry) (s : Store) (stamp : ℤ) (threadId seat : String)
    (turnIds : List ℕ) : Store :=
  if turnIds.isEmpty || !R.wakeLedgerReadCursorAgent seat then s
  else
    let isRead : Row → Bool := fun r => r.threadId == threadId && turnIds.contains r.turnId &&
      maestroWebAliasPair.contains (Sql.lower (Sql.trim r.agent))
    { s with ledger := skipWhere s.ledger isRead "already_read" stamp }

/-! ## Composer deferral -/

/-- `reason IN (…)`. -/
def reasonDefers (r : Row) : Bool := r.reason.any composerDeferReasons.contains

/-- `decided_by_rule LIKE 'composer_defer:%'`. -/
def ruleLikeDefer (r : Row) : Bool :=
  r.decidedByRule.any fun rule => Sql.likeFrontOf rule composerDeferPrefixText

/-- Pending rows become refused. -/
def refuseWhere (ledger : Table Row) (p : Row → Bool) (rule : String) (stamp : ℤ) : Table Row :=
  ledger.update (fun _ r => r.state == .pending && p r) fun r =>
    { r with state := .refused, decidedByRule := some rule, finishedAt := some stamp }

/-- Pending rows get another rule. -/
def retagWhere (ledger : Table Row) (p : Row → Bool) (rule : Option String) : Table Row :=
  ledger.update (fun _ r => r.state == .pending && p r) fun r => { r with decidedByRule := rule }

def normalizeLegacyPendingWakes (s : Store) (stamp : ℤ) : Store :=
  let refused := refuseWhere s.ledger (fun r => r.reason == some "agent_id_mismatch")
    "legacy_normalize:agent_id_mismatch" stamp
  let armed := retagWhere refused (fun r => reasonDefers r && !ruleLikeDefer r) (some composerDeferArmed)
  { s with ledger := armed }

def finalizeComposerDeferPass (s : Store) : Store :=
  let armed : Row → Bool := fun r => reasonDefers r && r.decidedByRule == some composerDeferArmed
  { s with ledger := retagWhere s.ledger armed (some composerDeferSweep) }

def escalateComposerDeferredOnSweep (s : Store) (stamp : ℤ) : Store :=
  let swept : Row → Bool := fun r => r.decidedByRule == some composerDeferSweep
  { s with ledger := refuseWhere s.ledger swept composerDeferEscalated stamp }

def notifyComposerEmptyForTarget (s : Store) (surface agentId threadScope : String) : Store :=
  let scope := Json.strip threadScope
  if !(["cursor", "grok"] : List String).contains (Json.lower (Json.strip surface)) || Json.strip agentId == "" ||
      scope == "" then s
  else
    let deferred : Row → Bool := fun r => r.threadId == scope && reasonDefers r && ruleLikeDefer r
    { s with ledger := retagWhere s.ledger deferred none }

/-! ## The direct claim -/

/-- `_acquire_direct_claim`, turn by turn: an early return keeps what was written before it. -/
def acquireDirectClaim (s : Store) (stamp : ℤ) (wakeId agent threadId : String) :
    List (ℕ × ℤ) → Except WakeError Store
  | [] => .ok s
  | (turnId, turnNumber) :: turns => do
    let isRow : Row → Bool := fun r => r.agent == agent && r.threadId == threadId && r.turnId == turnId
    let held := s.ledger.select fun _ r => isRow r &&
      (r.state == .delivered || (r.state == .claimed && r.wakeId.getD "" != wakeId))
    if !held.isEmpty then .ok s
    else
      let ledger ← insertOrIgnore s.turns s.ledger
        (Item.row ⟨agent, threadId, turnId, turnNumber, none⟩ stamp)
      let free : Row → Bool := fun r => isRow r && r.state == .pending &&
        (r.wakeId == none || r.wakeId == some wakeId)
      let s' := { s with ledger := ledger.update (fun _ r => free r) (Row.claim wakeId stamp) }
      if (ledger.select fun _ r => free r).length ≠ 1 then .ok s'
      else acquireDirectClaim s' stamp wakeId agent threadId turns

/-! ## Runs -/

inductive Action where
  | getCursor (consumer : String)
  | advanceScan (stamp : ℤ) (consumer : String) (expected new : ℤ) (pending : List Item)
  | claimDueWakes (c : ClaimCall)
  | recordOrionDeferredStreaming (stamp : ℤ) (wakeId : String) (d : Delivery)
  | recordWakeResult (stamp : ℤ) (wakeId outcome : String) (reason : Option String) (d : Delivery)
    (decidedByRule : Option String)
  | foldExpiredClaims (stamp claimTtl : ℤ)
  | suppressEndpointWakeForTurn (stamp : ℤ) (agent threadId : String) (turnNumber : ℤ)
    (reason : String)
  | skipPendingWakesOnPairMarkRead (stamp : ℤ) (threadId seat : String) (turnIds : List ℕ)
  | normalizeLegacyPendingWakes (stamp : ℤ)
  | finalizeComposerDeferPass
  | escalateComposerDeferredOnSweep (stamp : ℤ)
  | notifyComposerEmptyForTarget (surface agentId threadScope : String)
  | acquireDirectClaim (stamp : ℤ) (wakeId agent threadId : String) (turns : List (ℕ × ℤ))
  | insertTurn (t : Turn)
  | updateTurn (id : ℕ) (t : Turn)
  | deleteTurn (id : ℕ)
  | subscribe (subscriptions : Table Subscription)

/-- The store after a transaction: as it was when the transaction raised. -/
def commit (s : Store) : Except WakeError Store → Store
  | .ok t => t
  | .error _ => s

def step (R : Registry) (s : Store) : Action → Store
  | .getCursor consumer => getCursor s consumer
  | .advanceScan stamp consumer expected new pending =>
    commit s (advanceScan s stamp consumer expected new pending)
  | .claimDueWakes c => (claimDueWakes R c s).1
  | .recordOrionDeferredStreaming stamp wakeId d =>
    commit s (recordOrionDeferredStreaming s stamp wakeId d)
  | .recordWakeResult stamp wakeId outcome reason d rule =>
    commit s (recordWakeResult s stamp wakeId outcome reason d rule)
  | .foldExpiredClaims stamp claimTtl => foldClaims s (stamp - claimTtl)
  | .suppressEndpointWakeForTurn stamp agent threadId turnNumber reason =>
    commit s (suppressEndpointWakeForTurn R s stamp agent threadId turnNumber reason)
  | .skipPendingWakesOnPairMarkRead stamp threadId seat turnIds =>
    skipPendingWakesOnPairMarkRead R s stamp threadId seat turnIds
  | .normalizeLegacyPendingWakes stamp => normalizeLegacyPendingWakes s stamp
  | .finalizeComposerDeferPass => finalizeComposerDeferPass s
  | .escalateComposerDeferredOnSweep stamp => escalateComposerDeferredOnSweep s stamp
  | .notifyComposerEmptyForTarget surface agentId threadScope =>
    notifyComposerEmptyForTarget s surface agentId threadScope
  | .acquireDirectClaim stamp wakeId agent threadId turns =>
    commit s (acquireDirectClaim s stamp wakeId (R.normalizeBusAddress agent) threadId turns)
  | .insertTurn t => { s with turns := s.turns.insert t }
  | .updateTurn id t => { s with turns := s.turns.update (fun i _ => i == id) fun _ => t }
  | .deleteTurn id =>
    { s with turns := s.turns.delete fun i _ => i == id
             ledger := s.ledger.delete fun _ r => r.turnId == id }
  | .subscribe subscriptions => { s with subscriptions := subscriptions }

/-- The ledger under any interleaving of transactions, from the empty store. -/
def system (R : Registry) : System Store Action :=
  .ofFn (· = .empty) fun s a => some (step R s a)

/-- The store after a list of transactions. -/
def runFrom (R : Registry) (s : Store) (as : List Action) : Store := as.foldl (step R) s

theorem run_runFrom {R : Registry} (s : Store) (as : List Action) :
    (system R).Run s as (runFrom R s as) := by
  induction as generalizing s with
  | nil => exact .nil s
  | cons a as ih => exact .cons rfl (ih (step R s a))

theorem reachable_runFrom {R : Registry} (as : List Action) :
    (system R).Reachable (runFrom R .empty as) :=
  (System.Reachable.init rfl).run (run_runFrom _ as)

/-- A registry without aliases, with the one mailbox of the window bindings. -/
def Registry.plain : Registry where
  mailboxMembers := ["insyncerator", "grok-bot-gc2", "syncerator"]
  mailboxCanonical := "insyncerator"
  busAddressAliases _ := none
  dispatchAliases _ := none
  busAddressMap _ := none
  mentionsTurn _ _ _ := false

/-- A claim with the usual lifetime, when nothing outside the store speaks against a wake. -/
def claimAt (stamp : ℤ) (wakeId : String) : ClaimCall :=
  ⟨stamp, 300, 1, wakeId, ⟨fun _ _ => false, fun _ _ => false⟩⟩

/-- An unread request. -/
def requestTurn (thread : String) (turnNumber : ℤ) : Turn :=
  ⟨thread, turnNumber, "cursor", "REQUEST | check", "", none, 900, none⟩

end LlmGateway.WakeLedger
