import Mathlib.Data.List.Dedup
import Mathlib.Data.List.MinMax
import Mathlib.Data.List.Sort
import Mathlib.Data.Prod.Lex
import LlmGateway.Foundations.Table

/-!
# The endpoint wake ledger: tables and queries

The store of the endpoint wake dispatcher: the wake ledger, the turns its rows point to, the endpoint
subscriptions and the scan cursors. A wake row says that an agent is to be woken for a turn of a thread;
it is claimed under a wake id, together with the other due rows of its group, and ends delivered,
refused or skipped.

The queries are the ones of `claim_due_wakes`. A row is *due* when the selection of the claim lists it
(`due`); the first group of the due rows (`firstGroup`) is the one whose oldest retry time, and then
whose oldest row, come first.

Timestamps are seconds. The source compares texts of the form `YYYY-MM-DD HH:MM:SS`, whose order is the
same, and `NULL` counts as the empty text, before every time.
-/

namespace LlmGateway.WakeLedger

/-! ## Tables -/

/-- The `state` column. -/
inductive RowState where
  | pending
  | claimed
  | delivered
  | refused
  | skipped
  | unknown
  deriving DecidableEq

namespace RowState

/-- The texts that the `CHECK` of the column admits. -/
def ofString? : String → Option RowState
  | "pending" => some pending
  | "claimed" => some claimed
  | "delivered" => some delivered
  | "refused" => some refused
  | "skipped" => some skipped
  | "unknown" => some unknown
  | _ => none

/-- `_CLAIM_STATES`. -/
def isClaim : RowState → Bool
  | claimed => true
  | unknown => true
  | _ => false

/-- The states a wake ends in. -/
def isTerminal : RowState → Bool
  | delivered => true
  | refused => true
  | skipped => true
  | _ => false

end RowState

/-- A row of `endpoint_wake_ledger`. -/
structure Row where
  agent : String
  threadId : String
  turnId : ℕ
  turnNumber : ℤ
  state : RowState
  wakeId : Option String
  route : Option String
  subscriptionId : Option ℕ
  cseRegistrationId : Option String
  reason : Option String
  decidedByRule : Option String
  createdAt : ℤ
  claimedAt : Option ℤ
  finishedAt : Option ℤ
  deriving DecidableEq

/-- What the ledger reads of a row of `turns`. -/
structure Turn where
  thread : String
  turnNumber : ℤ
  fromAgent : String
  subject : String
  body : String
  supersedesTurn : Option ℤ
  createdAt : ℤ
  readAt : Option String

/-- What the ledger reads of a row of `agent_endpoint_subscriptions`. -/
structure Subscription where
  agent : String
  threadScope : String
  state : String
  agentId : Option String

structure Store where
  ledger : Table Row
  turns : Table Turn
  subscriptions : Table Subscription
  cursors : Dict String ℤ

/-- The store before the first turn. -/
def Store.empty : Store := ⟨∅, ∅, ∅, ∅⟩

/-! ## Addresses -/

def stageManagerAddresses : List String := ["stage-manager", "grok-bot-gc1", "grok-coordinator-1"]

def maestroWebAliasPair : List String := ["maestro", "web-anthropic"]

/-- `lower(trim(agent)) IN (…)`, with the stage manager addresses. -/
@[irreducible] def isStageManager (agent : String) : Bool :=
  stageManagerAddresses.contains (Sql.lower (Sql.trim agent))

/-- `_mailbox_agent_sql`: the two agents share a mailbox. -/
@[irreducible] def sameMailbox (left right : String) : Bool :=
  left == right || (isStageManager left && isStageManager right)

/-- `s.replace(old, new)` for single characters. -/
def replaceChar (old new : Char) (s : String) : String :=
  String.ofList (s.toList.map fun c => if c = old then new else c)

def normalizeAgentKey (slug : String) : String :=
  replaceChar ' ' '_' (replaceChar '-' '_' (Json.lower (Json.strip slug)))

/-- `_norm` of the window bindings. -/
def normMailbox (slug : String) : String :=
  replaceChar ' ' '-' (replaceChar '_' '-' (Json.lower (Json.strip slug)))

/-- The tables that the registry derives from its configuration files, and the regular expression of
`_references_wake_turn` as a test of a text against a thread and a turn number. -/
structure Registry where
  mailboxMembers : List String
  mailboxCanonical : String
  busAddressAliases : String → Option String
  dispatchAliases : String → Option String
  busAddressMap : String → Option String
  mentionsTurn : String → String → ℤ → Bool

namespace Registry

variable (R : Registry)

def normalizeAgentSlug (slug : String) : String :=
  (R.dispatchAliases (normalizeAgentKey slug)).getD (Json.lower (Json.strip slug))

@[irreducible] def normalizeBusAddress (slug : String) : String :=
  if (R.mailboxMembers.map normMailbox).contains (normMailbox slug) then R.mailboxCanonical
  else
    match R.busAddressAliases (normalizeAgentKey slug) with
    | some hit => hit
    | none =>
      let cell := R.normalizeAgentSlug slug
      (R.busAddressMap cell).getD cell

/-- `normalize_bus_address(agent) in STAGE_MANAGER_ADDRESSES`. -/
@[irreducible] def namesStageManager (agent : String) : Bool :=
  stageManagerAddresses.contains (R.normalizeBusAddress agent)

def wakeLedgerReadCursorAgent (agent : String) : Bool :=
  maestroWebAliasPair.contains (Json.lower (Json.strip agent)) ||
    maestroWebAliasPair.contains (R.normalizeBusAddress agent)

def sameWakeAgent (left right : String) : Bool :=
  R.normalizeBusAddress left == R.normalizeBusAddress right ||
    (R.namesStageManager left && R.namesStageManager right) ||
    (R.wakeLedgerReadCursorAgent left && R.wakeLedgerReadCursorAgent right)

def canonicalWakeRecipient (agent : String) : String :=
  let normalized := R.normalizeBusAddress (Json.strip agent)
  if maestroWebAliasPair.contains normalized then "maestro" else normalized

def ledgerAgentsForCanonical (canonical : String) : List String :=
  if R.canonicalWakeRecipient canonical = "maestro" then maestroWebAliasPair
  else [R.canonicalWakeRecipient canonical]

def isOrionChatWakeGroup (agent threadId : String) : Bool :=
  threadId == "21207" && R.normalizeBusAddress agent == "orion"

end Registry

/-! ## Composer deferral -/

def composerDeferReasons : List String := ["composer_not_empty", "composer_busy", "active_chat_busy"]

def composerDeferArmed : String := "composer_defer:armed"
def composerDeferSweep : String := "composer_defer:sweep_eligible"
def composerDeferEscalated : String := "composer_defer:escalated"
def composerDeferPrefixText : String := "composer_defer:"

def isComposerDeferReason (reason : Option String) : Bool :=
  composerDeferReasons.contains (Json.strip (reason.getD ""))

@[irreducible] def composerDeferBlocksClaim (r : Row) : Bool :=
  isComposerDeferReason r.reason && Json.startsWith (r.decidedByRule.getD "") composerDeferPrefixText

def mergeComposerDeferDecidedByRule (decidedByRule reason : Option String) : Option String :=
  if !isComposerDeferReason reason then decidedByRule
  else if Json.startsWith (decidedByRule.getD "") composerDeferPrefixText then decidedByRule
  else some composerDeferArmed

/-! ## Why a due row is skipped -/

/-- What a claim reads outside this store: the owed wakes that were dispatched, and the seats that
`_seat_superseded_skip_reason` finds superseded. -/
structure Probes where
  owedWakeDispatched : String → ℤ → Bool
  seatSuperseded : String → String → Bool

section

variable (R : Registry) (P : Probes) (s : Store)

def referencesWakeTurn (nxt : Turn) (r : Row) : Bool :=
  nxt.supersedesTurn == some (r.turnId : ℤ) ||
    R.mentionsTurn (nxt.subject ++ "\n" ++ nxt.body) r.threadId r.turnNumber

/-- Whether a later turn of the thread answers the row. -/
def alreadyAnswered (r : Row) : Bool :=
  (s.turns.select fun id t => t.thread == r.threadId && decide (r.turnId < id)).any fun e =>
    R.sameWakeAgent e.2.fromAgent r.agent && referencesWakeTurn R e.2 r

@[irreducible] def skipReason (r : Row) : Option String :=
  if (s.turns.get? r.turnId).any fun t => t.readAt.any (· ≠ "") then some "already_read"
  else if maestroWebAliasPair.contains (R.normalizeBusAddress r.agent) &&
      P.owedWakeDispatched r.threadId r.turnNumber then some "deduped_owed_wake"
  else if P.seatSuperseded r.agent r.threadId then some "seat_superseded"
  else if alreadyAnswered R s r then some "already_answered"
  else none

end

/-! ## The selection of a claim -/

/-- `_pending_retry_ready_sql`: a streaming deferral waits for its own time, anything else for a
minute. -/
def retryReady (stamp : ℤ) (r : Row) : Bool :=
  match r.finishedAt with
  | none => true
  | some f => if r.reason = some "deferred_streaming" then f ≤ stamp else f ≤ stamp - 60

/-- The debounce window of the selection, which is shorter for Orion in its house. -/
def debounceBefore (stamp : ℤ) (p : Row) : ℤ :=
  if Sql.lower (Sql.trim p.agent) = "orion" ∧ p.threadId = "21207" then stamp - 30 else stamp - 600

section

variable (s : Store) (stamp ttlBefore : ℤ)

/-- Whether a turn after the delivery `d` is by the agent of `p`. -/
def answeredSince (p d : Row) : Bool :=
  (s.turns.select fun _ t => d.finishedAt.any (· < t.createdAt)).any fun e =>
    let sender := Sql.lower (Sql.trim e.2.fromAgent)
    sender == Sql.lower (Sql.trim p.agent) ||
      (stageManagerAddresses.contains sender && isStageManager p.agent) ||
      (d.route == some "cse" && sender == "web-anthropic")

/-- Whether an endpoint other than the one `d` was delivered to is now subscribed for `p`. -/
def endpointChanged (p d : Row) : Bool :=
  (s.subscriptions.select fun _ curr =>
      curr.agent == p.agent && curr.state == "subscribed" &&
        (curr.threadScope == p.threadId || curr.threadScope == "*")).any fun e =>
    e.2.agentId.any fun agentId =>
      agentId != "" &&
        match (d.subscriptionId.bind s.subscriptions.get?).bind Subscription.agentId with
        | none => true
        | some prev => agentId != prev

/-- The first `NOT EXISTS`: the delivery `d` still debounces `p`. -/
def deliveredBlocks (p d : Row) : Bool :=
  sameMailbox d.agent p.agent && d.threadId == p.threadId && d.state == .delivered &&
    d.finishedAt.any (fun f => debounceBefore stamp p < f) &&
    !answeredSince s p d &&
    !(s.turns.get? d.turnId).any (fun t => t.readAt.isSome) &&
    !((s.turns.get? p.turnId).any (fun t => Sql.likeFrontOf t.subject "EAR |") ||
      endpointChanged s p d)

/-- The second `NOT EXISTS`: a claim of unknown outcome still debounces `p`. -/
def unknownBlocks (p u : Row) : Bool :=
  sameMailbox u.agent p.agent && u.threadId == p.threadId && u.state == .unknown &&
    u.claimedAt.any fun c => debounceBefore stamp p < c

/-- The third `NOT EXISTS`: the mailbox of `p` has a live claim in the thread. -/
def claimBlocks (p c : Row) : Bool :=
  sameMailbox c.agent p.agent && c.threadId == p.threadId && c.state == .claimed &&
    c.claimedAt.any fun time => ttlBefore < time

/-- The `WHERE` clause of the claim's selection. -/
def due (p : Row) : Bool :=
  p.state == .pending && retryReady stamp p &&
    (s.ledger.select fun _ d => deliveredBlocks s stamp p d).isEmpty &&
    (s.ledger.select fun _ u => unknownBlocks stamp p u).isEmpty &&
    (s.ledger.select fun _ c => claimBlocks ttlBefore p c).isEmpty

def dueRows : List (ℕ × Row) := s.ledger.select fun _ p => due s stamp ttlBefore p

/-- `(agent, thread_id)`. -/
abbrev Group := String × String

def Row.group (r : Row) : Group := (r.agent, r.threadId)

/-- The order of the integers that computes. -/
scoped instance intLinearOrder : LinearOrder ℤ := Int.instLinearOrder

@[inherit_doc intLinearOrder]
scoped instance intPreorder : Preorder ℤ := Int.instLinearOrder.toPreorder

/-- `MIN(COALESCE(finished_at, '')), MIN(id)` of the given rows; the least of no rows is last. -/
def claimOrder (rows : List (ℕ × Row)) : WithTop (WithBot ℤ) ×ₗ WithTop ℕ :=
  toLex ((rows.map fun e => (e.2.finishedAt : WithBot ℤ)).minimum, (rows.map Prod.fst).minimum)

/-- The due rows of a group. -/
def dueOf (g : Group) : List (ℕ × Row) := (dueRows s stamp ttlBefore).filter fun e => e.2.group = g

/-- `GROUP BY agent, thread_id`. -/
def dueGroups : List Group := ((dueRows s stamp ttlBefore).map fun e => e.2.group).dedup

/-- `ORDER BY MIN(COALESCE(finished_at, '')), MIN(id) LIMIT ?`, the first row of it. -/
def firstGroup (limit : ℤ) : Option Group :=
  if limit = 0 then none
  else (dueGroups s stamp ttlBefore).argmin fun g => claimOrder (dueOf s stamp ttlBefore g)

end

section

variable (R : Registry) (s : Store)

/-- `_orion_pending_coalesce_blocks`: an Orion batch is held until its oldest row has been pending for
the window, unless a delivery precedes it. -/
def orionPendingCoalesceBlocks (g : Group) (before : ℤ) : Bool :=
  R.isOrionChatWakeGroup g.1 g.2 &&
    match ((s.ledger.select fun _ r => r.group = g && r.state == .pending).map
        fun e => e.2.createdAt).min? with
    | none => false
    | some oldest =>
      decide (before < oldest) &&
        (s.ledger.select fun _ r =>
          Sql.lower (Sql.trim r.agent) == Sql.lower (Sql.trim g.1) && r.threadId == g.2 &&
            r.state == .delivered && r.finishedAt.any (· < oldest)).isEmpty

/-- Whether a claim of the group `g` takes up the row: the same agent, or the other stage managers when
the agent of `g` is one. -/
def joins (g : Group) (r : Row) : Bool :=
  r.threadId == g.2 && (r.agent == g.1 || (R.namesStageManager g.1 && isStageManager r.agent))

def groupPendingRows (stamp : ℤ) (g : Group) : List (ℕ × Row) :=
  (s.ledger.select fun _ r => joins R g r && r.state == .pending && retryReady stamp r).insertionSort
    fun a b => a.2.turnId ≤ b.2.turnId

end

end LlmGateway.WakeLedger
