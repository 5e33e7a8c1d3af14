import LlmGateway.Credit.Pricing

/-!
# The credit ledger

The `entries` table as the list of its rows in `id` order, with the watermark of the TTL sweep. The
queries are the source's: the sweep (`expireStaleReservations`), the spend since the balance snapshot
(`computeSpendSinceAsOf`) and the totals of a meter window (`computeWindowSnapshot`). The last two
first group the rows they select by request, as the source does with its dictionaries.

Timestamps are compared as instants. The source compares the ISO texts, whose order is the same.
-/

namespace LlmGateway.Credit

inductive EntryKind where
  | reserve
  | commit
  | release
  | latch
  deriving DecidableEq

/-- A row of `entries`. -/
structure Entry where
  kind : EntryKind
  requestId : Option String
  model : Option String
  usd : ℚ
  createdAt : ℤ
  windowStart : ℤ
  tag : Option String
  callerTag : Option String
  mcpClass : Bool
  deriving DecidableEq

/-- The ledger file: the rows and `meta.ttl_swept_before`. -/
structure Ledger where
  entries : List Entry
  ttlSweptBefore : Option ℤ

/-- `INSERT INTO entries`. -/
def Ledger.insert (ledger : Ledger) (row : Entry) : Ledger :=
  { ledger with entries := ledger.entries ++ [row] }

/-- The request a row is filed under: no request is the empty text. -/
def Entry.reqId (row : Entry) : Option String := row.requestId.filter fun id => id != ""

def ttlExpiredTag : String := "ttl_expired"

/-- `(row["tag"] or "") == "ttl_expired"`. -/
def Entry.ttlExpired (row : Entry) : Bool := row.tag = some ttlExpiredTag

/-- The rows of one kind that name the request `id`. -/
def rowsOfKind (kind : EntryKind) (entries : List Entry) (id : String) : List Entry :=
  entries.filter fun row => row.kind = kind && row.requestId = some id

/-! ## The TTL sweep -/

/-- Whether a `commit` or `release` row names the request of `row`. -/
def settled (entries : List Entry) (row : Entry) : Bool :=
  entries.any fun c =>
    c.requestId.isSome && c.requestId = row.requestId && (c.kind = .commit || c.kind = .release)

/-- `TTL_EXPIRE_CANDIDATES_SQL`. -/
def ttlExpireCandidates (entries : List Entry) (lower upper : ℤ) : List Entry :=
  entries.filter fun r =>
    r.kind = .reserve && lower ≤ r.createdAt && r.createdAt ≤ upper && !settled entries r

/-- `_TTL_SWEEP_EPOCH`: the start of 1970. -/
def ttlSweepEpoch : ℤ := (Calendar.YearMonth.january 1970).midnight 1

/-- `a or b` on optional texts. -/
def orText (a b : Option String) : Option String := if a.any (· != "") then a else b

/-- The commit that finalises an expired reservation. -/
def ttlCommit (ttl : ℤ) (row : Entry) : Entry where
  kind := .commit
  requestId := row.requestId
  model := row.model
  usd := row.usd
  createdAt := row.createdAt + ttl
  windowStart := row.windowStart
  tag := some ttlExpiredTag
  callerTag := orText row.callerTag row.tag
  mcpClass := row.mcpClass

/-- `expire_stale_reservations`: the ledger after the sweep. -/
def expireStaleReservations (ledger : Ledger) (now ttl : ℤ) : Ledger :=
  let expireBefore := now - ttl
  let lowerBound := ledger.ttlSweptBefore.getD ttlSweepEpoch
  let openRows := ttlExpireCandidates ledger.entries lowerBound expireBefore
  { entries := ledger.entries ++ openRows.map (ttlCommit ttl), ttlSweptBefore := some expireBefore }

/-! ## Grouping rows by request -/

/-- The dictionaries a query sorts its rows into. -/
structure RowGroups where
  reserveByReq : Dict String Entry
  commitsByReq : Dict String (List Entry)
  releasedReqIds : List String
  latchRows : List Entry
  unlinkedCommits : List Entry

namespace RowGroups

def empty : RowGroups := ⟨∅, ∅, [], [], []⟩

/-- One turn of the loop over the rows. -/
def add (g : RowGroups) (row : Entry) : RowGroups :=
  match row.kind, row.reqId with
  | .reserve, some id => { g with reserveByReq := g.reserveByReq.set id row }
  | .commit, some id =>
    { g with commitsByReq := g.commitsByReq.set id (g.commitsByReq.getD id [] ++ [row]) }
  | .commit, none => { g with unlinkedCommits := g.unlinkedCommits ++ [row] }
  | .release, some id => { g with releasedReqIds := g.releasedReqIds ++ [id] }
  | .latch, _ => { g with latchRows := g.latchRows ++ [row] }
  | .reserve, none => g
  | .release, none => g

end RowGroups

/-- The rows of a query, grouped. -/
def groupRows (rows : List Entry) : RowGroups := rows.foldl RowGroups.add .empty

def sumUsd (rows : List Entry) : ℚ := (rows.map Entry.usd).sum

/-! ## The spend since the balance snapshot -/

def requestTouchesAsOf (g : RowGroups) (asOf : ℤ) (id : String) : Bool :=
  (g.reserveByReq.get? id).any (fun r => asOf ≤ r.createdAt) ||
    (g.commitsByReq.getD id []).any fun c => asOf ≤ c.createdAt

def touchedReqIds (g : RowGroups) (asOf : ℤ) : List String :=
  (g.commitsByReq.items.map Prod.fst ++ g.reserveByReq.items.map Prod.fst).dedup.filter
    (requestTouchesAsOf g asOf)

/-- `OPEN_RESERVE_BEFORE_ASOF_SQL`. -/
def openReserveBeforeAsOf (entries : List Entry) (lower asOf : ℤ) : List Entry :=
  entries.filter fun r =>
    r.kind = .reserve && lower ≤ r.createdAt && r.createdAt < asOf && !settled entries r

def computeSpendSinceAsOf (entries : List Entry) (asOf ttl : ℤ) : ℚ :=
  let g := groupRows (entries.filter fun row => asOf ≤ row.createdAt)
  ((touchedReqIds g asOf).map fun id => sumUsd (rowsOfKind .commit entries id)).sum +
    sumUsd (g.unlinkedCommits.filter fun c => asOf ≤ c.createdAt) +
    (g.reserveByReq.items.map fun item =>
      if g.releasedReqIds.contains item.1 then 0
      else if g.commitsByReq.getD item.1 [] ≠ [] then 0
      else if asOf ≤ item.2.createdAt then item.2.usd
      else 0).sum +
    sumUsd (openReserveBeforeAsOf entries (asOf - ttl) asOf)

/-! ## The totals of a meter window -/

/-- Whether a row belongs to the window by its stamp or by its time. -/
def inWindow (window : ℤ × ℤ) (row : Entry) : Bool :=
  row.windowStart = window.1 || (window.1 ≤ row.createdAt && row.createdAt < window.2)

structure WindowSnapshot where
  committedUsd : ℚ
  openReservationsUsd : ℚ
  openReservationCount : ℕ
  openMcpCount : ℕ
  spendSinceAsOfUsd : ℚ
  latchActive : Bool
  latchReason : Option String
  overrunCount : ℕ

namespace RowGroups

variable (g : RowGroups) (window : ℤ × ℤ)

/-- `in_win` of a request's commits. -/
def commitsInWindow (id : String) (commits : List Entry) : Bool :=
  commits.any (inWindow window) || (g.reserveByReq.get? id).any fun r => r.windowStart = window.1

/-- Whether a reservation counts as open: neither released nor committed by the selected rows. -/
def isOpen (id : String) (r : Entry) : Bool :=
  !g.releasedReqIds.contains id && g.commitsByReq.getD id [] = [] && inWindow window r

/-- Whether a reservation is committed by the sweep alone and younger than `limit`. -/
def heldByTtl (now limit : ℤ) (id : String) (r : Entry) : Bool :=
  let commits := g.commitsByReq.getD id []
  !g.releasedReqIds.contains id && commits ≠ [] && commits.all Entry.ttlExpired &&
    now - r.createdAt < limit

def committedUsd : ℚ :=
  (g.commitsByReq.items.map fun item =>
    if g.commitsInWindow window item.1 item.2 then sumUsd item.2 else 0).sum +
    sumUsd g.unlinkedCommits

def overrunCount : ℕ :=
  g.commitsByReq.count fun id commits =>
    g.commitsInWindow window id commits &&
      (g.reserveByReq.get? id).any fun r => r.usd < sumUsd commits

def openReservationsUsd : ℚ :=
  (g.reserveByReq.items.map fun item => if g.isOpen window item.1 item.2 then item.2.usd else 0).sum

def openReservationCount : ℕ := g.reserveByReq.count (g.isOpen window)

def openMcpCount (now limit : ℤ) : ℕ :=
  g.reserveByReq.count fun id r =>
    r.mcpClass && (g.isOpen window id r || g.heldByTtl now limit id r)

/-- The latch rows of the window itself. -/
def latches : List Entry := g.latchRows.filter fun row => row.windowStart = window.1

end RowGroups

def windowRows (entries : List Entry) (window : ℤ × ℤ) : List Entry :=
  entries.filter (inWindow window)

/-- `compute_window_snapshot`; an MCP reservation that only the sweep has committed is held for four
lifetimes. -/
def computeWindowSnapshot (entries : List Entry) (window : ℤ × ℤ) (asOf : Option ℤ) (now ttl : ℤ) :
    WindowSnapshot :=
  let g := groupRows (windowRows entries window)
  { committedUsd := g.committedUsd window
    openReservationsUsd := g.openReservationsUsd window
    openReservationCount := g.openReservationCount window
    openMcpCount := g.openMcpCount window now (4 * max Calendar.minute ttl)
    spendSinceAsOfUsd := match asOf with
      | none => 0
      | some asOf => computeSpendSinceAsOf entries asOf ttl
    latchActive := (g.latches window) ≠ []
    latchReason := (g.latches window).getLast?.map fun row =>
      (orText row.tag none).getD "credit_balance_too_low"
    overrunCount := g.overrunCount window }

end LlmGateway.Credit
