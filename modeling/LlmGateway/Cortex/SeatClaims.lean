import LlmGateway.Foundations.Table
import Mathlib.Algebra.Order.Field.Rat
import Mathlib.Tactic.Ring

/-!
# Seat claims

The exclusive claims of seats on contended keys. A claim is held for `ttl_s` seconds from its last heartbeat,
and every transaction first ends the claims that are stale by its own clock. A transaction reads its clock
before it has the write lock, so transactions commit in another order than that of their readings.

Time is in seconds. A clock reading is a pair: what the text of `_now_iso()` reads as, and `now_ts`; both are
arguments, and so is the fresh `holder_id` of a new claim. Differences of readings are exact. A heartbeat
commits, and reads its row once more for the answer: `heartbeatSeat` is the transaction, `heartbeatAnswer` the
query behind it.
-/

namespace LlmGateway.Cortex

inductive SeatClaimStatus where
  | held
  | released
  | reclaimed
  deriving DecidableEq

/-- The values of `end_reason` that are stored. -/
inductive SeatClaimEndReason where
  | released
  | stale
  deriving DecidableEq

/-- A row of `seat_claims`. -/
structure SeatClaim where
  claimKey : String
  seat : String
  holderId : String
  status : SeatClaimStatus
  claimedAt : ℚ
  lastHeartbeatAt : Option ℚ
  ttlS : ℚ
  endedAt : Option ℚ
  endReason : Option SeatClaimEndReason
  metadata : Option String
  deriving DecidableEq

/-- The two readings at the start of a call. -/
structure SeatClock where
  nowIso : ℚ
  nowTs : ℚ

/-- What the store takes from its surroundings. -/
structure SeatConfig where
  /-- `normalize_bus_address`. -/
  normalize : String → String
  defaultTtlS : ℚ

namespace SeatClaim

/-- `last_heartbeat_at or claimed_at`. -/
def ref (r : SeatClaim) : ℚ := r.lastHeartbeatAt.getD r.claimedAt

def expiresInS (r : SeatClaim) (nowTs : ℚ) : ℚ := max 0 (r.ttlS - (nowTs - r.ref))

def isStale (r : SeatClaim) (nowTs : ℚ) : Bool := decide (r.ttlS ≤ nowTs - r.ref)

/-- The reading from which on a claim is stale. -/
def deadline (r : SeatClaim) : ℚ := r.ref + r.ttlS

theorem isStale_iff {r : SeatClaim} {nowTs : ℚ} : r.isStale nowTs = true ↔ r.deadline ≤ nowTs := by
  rw [isStale, decide_eq_true_iff, deadline, le_sub_iff_add_le']

theorem add_expiresInS (r : SeatClaim) (nowTs : ℚ) :
    nowTs + r.expiresInS nowTs = max nowTs r.deadline := by
  rw [expiresInS, ← max_add_add_left, add_zero, deadline]
  congr 1
  ring

end SeatClaim

/-- `_reclaim_stale_held`: every held row that is stale is ended, by its id. -/
def reclaimStaleHeld (t : Table SeatClaim) (now : SeatClock) : Table SeatClaim :=
  t.update (fun _ r => r.status == .held && r.isStale now.nowTs) fun r =>
    { r with status := .reclaimed, endedAt := some now.nowIso, endReason := some .stale }

/-- The arguments of `claim_seat`. -/
structure SeatClaimRequest where
  claimKey : String
  seat : String
  ttlS : Option ℚ
  metadata : Option String

/-- What `claim_seat` returns. -/
inductive SeatClaimResponse where
  | granted (holderId claimKey seat : String) (claimedAt ttlS : ℚ)
  | refused (seat holderId : String) (claimedAt : ℚ) (lastHeartbeatAt : Option ℚ) (ageS expiresInS : ℚ)

/-- The held row of a key. -/
def heldClaim (t : Table SeatClaim) (claimKey : String) : Option (ℕ × SeatClaim) :=
  (t.select fun _ r => r.claimKey == claimKey && r.status == .held).head?

def claimSeat (C : SeatConfig) (t : Table SeatClaim) (now : SeatClock) (body : SeatClaimRequest)
    (holderId : String) : Table SeatClaim × SeatClaimResponse :=
  let t := reclaimStaleHeld t now
  let seat := C.normalize body.seat
  match heldClaim t body.claimKey with
  | some (_, r) =>
    if r.seat = seat then (t, .granted r.holderId body.claimKey seat r.claimedAt r.ttlS)
    else (t, .refused r.seat r.holderId r.claimedAt r.lastHeartbeatAt (now.nowTs - r.claimedAt)
      (r.expiresInS now.nowTs))
  | none =>
    let ttlS := body.ttlS.getD C.defaultTtlS
    (t.insert ⟨body.claimKey, seat, holderId, .held, now.nowIso, none, ttlS, none, none, body.metadata⟩,
      .granted holderId body.claimKey seat now.nowIso ttlS)

/-- The held rows of a holder. -/
def isHeldBy (holderId : String) (r : SeatClaim) : Bool := r.holderId == holderId && r.status == .held

/-- The transaction of `heartbeat_seat`; whether it found the claim. -/
def heartbeatSeat (t : Table SeatClaim) (now : SeatClock) (holderId : String) : Table SeatClaim × Bool :=
  let t := reclaimStaleHeld t now
  if (t.select fun _ r => isHeldBy holderId r).isEmpty then (t, false)
  else (t.update (fun _ r => isHeldBy holderId r) fun r => { r with lastHeartbeatAt := some now.nowIso }, true)

/-- The row that `heartbeat_seat` reads for its answer, in whatever state it is by then. -/
def heartbeatAnswer (t : Table SeatClaim) (holderId : String) : Option (ℕ × SeatClaim) :=
  (t.select fun _ r => r.holderId == holderId).head?

def releaseSeat (t : Table SeatClaim) (now : SeatClock) (holderId : String) : Table SeatClaim × Bool :=
  let t := reclaimStaleHeld t now
  if (t.select fun _ r => isHeldBy holderId r).isEmpty then (t, false)
  else (t.update (fun _ r => isHeldBy holderId r) fun r =>
    { r with status := .released, endedAt := some now.nowIso, endReason := some .released }, true)

def listSeatClaims (C : SeatConfig) (t : Table SeatClaim) (now : SeatClock) (claimKey seat : Option String)
    (includeEnded : Bool) : Table SeatClaim × List (ℕ × SeatClaim) :=
  let t := reclaimStaleHeld t now
  (t, t.select fun _ r => (includeEnded || r.status == .held) && (claimKey.all fun key => r.claimKey == key) &&
    seat.all fun seat => r.seat == C.normalize seat)

end LlmGateway.Cortex
