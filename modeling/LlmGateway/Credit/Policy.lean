import LlmGateway.Credit.Ledger
import LlmGateway.Foundations.System

/-!
# The credit policy

The gate's operations on the shared ledger: `admitRequest` reserves the worst case of a request,
`commit`, `commitFull` and `release` finalise the reservation, `latch` closes the window and `status`
reads it. Each runs its body as one transaction (`runImmediate`), rolled back when the body raises or
when SQLite fails. A refusal is a result, not an error: the sweep made before it stays.

The workers of the service share the ledger file; each has its own `_overrun_multiplier_by_window`.
`credit cfg` is the system of all of them: a step is one call by one worker, with the clock reading,
the rate table and the answers of SQLite it meets. Nothing relates the readings of different calls;
results that need the clock to go forward say so.
-/

namespace LlmGateway.Credit

/-! ## Transactions -/

/-- What SQLite does with a transaction. -/
inductive Sqlite where
  | ok
  /-- opening the file, `BEGIN IMMEDIATE` or a statement of the body fails -/
  | queryFails
  /-- the body completes and `COMMIT` fails -/
  | commitFails
  deriving DecidableEq

inductive LedgerUnavailable where
  /-- the message of SQLite -/
  | sqlite
  /-- `no reservation found for request_id=…` -/
  | noReservation (requestId : String)
  /-- `cannot commit already-released request_id=…` -/
  | alreadyReleased (requestId : String)
  /-- `cannot release already-committed request_id=…` -/
  | alreadyCommitted (requestId : String)
  deriving DecidableEq

/-- `run_immediate`: the result and the ledger left behind. -/
def runImmediate {ε α : Type} (db : Sqlite) (unavailable : ε) (ledger : Ledger)
    (fn : Ledger → Except ε (α × Ledger)) : Except ε α × Ledger :=
  match db, fn ledger with
  | .queryFails, _ => (.error unavailable, ledger)
  | .ok, .ok (result, after) => (.ok result, after)
  | .commitFails, .ok _ => (.error unavailable, ledger)
  | _, .error e => (.error e, ledger)

/-- What a call meets: the clock, the pinned rates and SQLite. -/
structure Env where
  now : ℤ
  rates : String → Option ModelRateRow
  db : Sqlite

/-- `_overrun_multiplier_by_window`. -/
abbrev Overruns := Dict ℤ ℕ

/-! ## Caps -/

/-- `_compute_caps`: the cap, the hard-stop headroom and the MCP headroom. -/
def computeCaps (cfg : CreditConfig) (committedUsd openUsd spendSinceAsOfUsd : ℚ) :
    Option (ℚ × ℚ × ℚ) :=
  let windowTotal := committedUsd + openUsd
  match cfg.hardStopUsd, cfg.mcpConnectorStopUsd with
  | some hardStop, some mcpStop =>
    let balanceCap := match cfg.availableBalance.asOf with
      | some _ => windowTotal + (cfg.availableBalance.usd - spendSinceAsOfUsd)
      | none => min cfg.grantUsd cfg.availableBalance.usd
    let capUsd := max 0 (min hardStop balanceCap)
    let mcpCapUsd := max 0 (min capUsd mcpStop)
    some (capUsd, max 0 (capUsd - windowTotal), max 0 (mcpCapUsd - windowTotal))
  | _, _ => match cfg.availableBalance.asOf with
    | none => none
    | some _ =>
      let balanceCap := windowTotal + (cfg.availableBalance.usd - spendSinceAsOfUsd)
      let capUsd := max 0 balanceCap
      let headroom := max 0 (capUsd - windowTotal)
      some (capUsd, headroom, headroom)

def effectiveMcpAllowance (cfg : CreditConfig) (overruns : Overruns) (windowStart : ℤ)
    (dbOverrunCount : ℕ) : ℚ :=
  cfg.mcpConnectorAllowanceUsd * 2 ^ max (overruns.getD windowStart 0) dbOverrunCount

theorem effectiveMcpAllowance_pos (cfg : CreditConfig) (overruns : Overruns) (windowStart : ℤ)
    (dbOverrunCount : ℕ) : 0 < effectiveMcpAllowance cfg overruns windowStart dbOverrunCount := by
  have := cfg.allowance_pos
  unfold effectiveMcpAllowance
  positivity

/-- `dataclasses.replace` with the effective allowance. -/
def effectiveConfig (cfg : CreditConfig) (overruns : Overruns) (windowStart : ℤ)
    (dbOverrunCount : ℕ) : CreditConfig :=
  cfg.withAllowance (effectiveMcpAllowance cfg overruns windowStart dbOverrunCount)
    (effectiveMcpAllowance_pos cfg overruns windowStart dbOverrunCount)

/-! ## Admission -/

structure Admit where
  requestId : String
  model : String
  reservationUsd : ℚ
  headroomUsd : Option ℚ
  windowStart : ℤ
  resetAt : ℤ
  mcpClass : Bool
  reservation : Reservation

inductive RefuseCode where
  | gateUnavailable
  | reservationRefused
  | modelUnpriced
  | creditLatched
  | mcpSerialized
  | mcpCapExceeded
  | cycleBudgetExhausted
  deriving DecidableEq

def RefuseCode.text : RefuseCode → String
  | gateUnavailable => "anthropic_credit_gate_unavailable"
  | reservationRefused => "anthropic_reservation_refused"
  | modelUnpriced => "anthropic_model_unpriced"
  | creditLatched => "anthropic_credit_latched"
  | mcpSerialized => "anthropic_mcp_serialized"
  | mcpCapExceeded => "anthropic_mcp_cap_exceeded"
  | cycleBudgetExhausted => "anthropic_cycle_budget_exhausted"

def RefuseCode.httpStatus : RefuseCode → ℕ
  | gateUnavailable => 503
  | reservationRefused | modelUnpriced => 422
  | creditLatched | mcpSerialized | mcpCapExceeded | cycleBudgetExhausted => 429

/-- The `detail` of a refusal, with the values its text prints. -/
inductive Detail where
  | balanceAsOfInFuture
  /-- `request_id must be non-empty` -/
  | requestIdEmpty
  /-- `model … is not in metered_models` -/
  | notMetered (model : String)
  /-- `model … has no pinned rate row` -/
  | noPinnedRate (model : String)
  /-- `request_id … already has ledger rows` -/
  | duplicate (requestId : String)
  /-- `credit latch active until …: …` -/
  | latched (resetAt : ℤ) (reason : Option String)
  /-- `MCP-connector requests are serialized one at a time; … MCP reservation(s) open` -/
  | serialized (openMcpCount : ℕ)
  /-- `MCP reservation … USD exceeds headroom … USD (MCP cap … USD)` -/
  | mcpCap (reservationUsd mcpHeadroom mcpCap : ℚ)
  /-- `reservation … USD exceeds cycle headroom … USD (cap … USD)` -/
  | cycleBudget (reservationUsd hardHeadroom cap : ℚ)
  | reservation (refused : ReservationRefused)
  | unavailable

structure Refuse where
  code : RefuseCode
  reservationUsd : Option ℚ
  headroomUsd : Option ℚ
  detail : Detail

/-- The answer of `admit`. -/
inductive Decision where
  | admitted (a : Admit)
  | refused (r : Refuse)

/-- A refusal that names no amounts. -/
def refuse (code : RefuseCode) (detail : Detail) : Decision := .refused ⟨code, none, none, detail⟩

def normalizeModelId (rawModel : String) : String :=
  let text := Json.strip rawModel
  if text = "" then "" else if text.toList.contains '/' then text else "anthropic/" ++ text

/-- The caller tag `admit` stores. -/
def callerTag (tag : Option String) : Option String :=
  tag.bind fun tag =>
    let text := Json.strip tag
    if text ≠ "" ∧ text ≠ ttlExpiredTag then some text else none

/-- What `admit` is asked. -/
structure AdmitArgs where
  requestId : String
  model : String
  upstreamBody : List (String × Json)
  tag : Option String
  tokenCount : Option ℤ

/-- `cfg.mcp_connector_stop_usd or cap_usd`: a stop of zero is no stop. -/
def mcpStopOr (cfg : CreditConfig) (cap : ℚ) : ℚ :=
  match cfg.mcpConnectorStopUsd with
  | some stop => if stop = 0 then cap else stop
  | none => cap

/-- The budget checks of the transaction of `admit`: the headroom left after the reservation, or the
refusal. The caps are those of the window before the reservation. -/
def checkBudget (cfg : CreditConfig) (snap : WindowSnapshot) (reservation : Reservation)
    (resetAt : ℤ) : Except Refuse (Option ℚ) :=
  let caps := computeCaps cfg snap.committedUsd snap.openReservationsUsd snap.spendSinceAsOfUsd
  let windowTotal := snap.committedUsd + snap.openReservationsUsd
  if snap.latchActive then
    .error ⟨.creditLatched, some reservation.usd, some 0, .latched resetAt snap.latchReason⟩
  else match caps with
    | none => .ok none
    | some (cap, hardHeadroom, mcpHeadroom) =>
      if reservation.mcpClass && 0 < snap.openMcpCount then
        .error ⟨.mcpSerialized, some reservation.usd, some mcpHeadroom,
          .serialized snap.openMcpCount⟩
      else if reservation.mcpClass then
        let mcpCap := min cap (mcpStopOr cfg cap)
        if windowTotal + reservation.usd > mcpCap then
          .error ⟨.mcpCapExceeded, some reservation.usd, some mcpHeadroom,
            .mcpCap reservation.usd mcpHeadroom mcpCap⟩
        else .ok (some (mcpCap - (windowTotal + reservation.usd)))
      else if windowTotal + reservation.usd > cap then
        .error ⟨.cycleBudgetExhausted, some reservation.usd, some hardHeadroom,
          .cycleBudget reservation.usd hardHeadroom cap⟩
      else .ok (some (cap - (windowTotal + reservation.usd)))

/-- The row `admit` inserts. -/
def reserveRow (args : AdmitArgs) (model : String) (reservation : Reservation) (now windowStart : ℤ) :
    Entry where
  kind := .reserve
  requestId := some args.requestId
  model := some model
  usd := reservation.usd
  createdAt := now
  windowStart := windowStart
  tag := none
  callerTag := callerTag args.tag
  mcpClass := reservation.mcpClass

/-- What makes the transaction of `admit` raise. -/
inductive AdmitError where
  | reservation (refused : ReservationRefused)
  | unavailable

/-- The transaction of `admit`. -/
def admitTxn (cfg : CreditConfig) (overruns : Overruns) (now : ℤ) (args : AdmitArgs) (model : String)
    (rateRow : ModelRateRow) (ledger : Ledger) : Except AdmitError (Decision × Ledger) :=
  let window := meterWindow now cfg
  let swept := expireStaleReservations ledger now cfg.ttl
  let snap := computeWindowSnapshot swept.entries window cfg.availableBalance.asOf now cfg.ttl
  if swept.entries.any fun row => row.requestId = some args.requestId then
    .ok (refuse .reservationRefused (.duplicate args.requestId), swept)
  else
    match worstCaseUsd args.upstreamBody rateRow args.tokenCount
      (effectiveConfig cfg overruns window.1 snap.overrunCount) with
    | .error e => .error (.reservation e)
    | .ok reservation => match checkBudget cfg snap reservation window.2 with
      | .error r => .ok (.refused r, swept)
      | .ok headroom =>
        .ok (.admitted {
            requestId := args.requestId, model, reservationUsd := reservation.usd
            headroomUsd := headroom, windowStart := window.1, resetAt := window.2
            mcpClass := reservation.mcpClass, reservation },
          swept.insert (reserveRow args model reservation now window.1))

/-- The `except` clauses of `admit`. -/
def AdmitError.decision : AdmitError → Decision
  | reservation e => refuse .reservationRefused (.reservation e)
  | unavailable => refuse .gateUnavailable .unavailable

/-- `CreditPolicy.admit`. -/
def admitRequest (cfg : CreditConfig) (env : Env) (overruns : Overruns) (ledger : Ledger)
    (args : AdmitArgs) : Decision × Ledger :=
  if cfg.availableBalance.asOf.any fun asOf => env.now < asOf then
    (refuse .gateUnavailable .balanceAsOfInFuture, ledger)
  else if Json.strip args.requestId = "" then
    (refuse .reservationRefused .requestIdEmpty, ledger)
  else
    let model := normalizeModelId args.model
    if !cfg.meteredModels.contains model then
      (refuse .modelUnpriced (.notMetered args.model), ledger)
    else match env.rates model with
      | none => (refuse .modelUnpriced (.noPinnedRate model), ledger)
      | some rateRow =>
        match runImmediate env.db .unavailable ledger
          (admitTxn cfg overruns env.now args model rateRow) with
        | (.ok decision, after) => (decision, after)
        | (.error e, after) => (e.decision, after)

/-! ## Finalising a reservation -/

/-- `ORDER BY id DESC LIMIT 1` over the reservations of a request. -/
def reserveOf (entries : List Entry) (id : String) : Option Entry :=
  (rowsOfKind .reserve entries id).getLast?

/-- Whether there are commits and the sweep made all of them. -/
def onlyTtl (commitRows : List Entry) : Bool := commitRows ≠ [] && commitRows.all Entry.ttlExpired

/-- The row that finalises the reservation `r` of the request `id`. -/
def finalRow (kind : EntryKind) (id : String) (r : Entry) (usd : ℚ) (now : ℤ)
    (tag : Option String) : Entry where
  kind := kind
  requestId := some id
  model := r.model
  usd := usd
  createdAt := now
  windowStart := r.windowStart
  tag := tag
  callerTag := r.callerTag
  mcpClass := r.mcpClass

/-- The cost of the usage report at the pinned rate of the reserved model. -/
def reservedCost (cfg : CreditConfig) (rates : String → Option ModelRateRow) (usage : Json)
    (r : Entry) : UsageCost :=
  match rates (r.model.getD "None") with
  | none => { cost := none, missing := requiredUsageFields, unknownServerTool := false }
  | some rateRow => usageCostUsdForConfig usage rateRow cfg

/-- Whether the report leaves something out. -/
def UsageCost.isPartial (cost : UsageCost) : Bool :=
  !cost.missing.isEmpty || cost.cost.isNone || cost.unknownServerTool

/-- `target_total` of `commit`: the cost, and the reservation at least when the report is partial or
`floor` is set. -/
def targetTotal (cfg : CreditConfig) (rates : String → Option ModelRateRow) (usage : Json)
    (floor : Bool) (r : Entry) : ℚ :=
  let cost := reservedCost cfg rates usage r
  if cost.isPartial || floor then max (cost.cost.getD 0) r.usd else cost.cost.getD r.usd

/-- The transaction of `commit`: the committed total, and the window of an overrun. -/
def commitTxn (cfg : CreditConfig) (rates : String → Option ModelRateRow) (now : ℤ) (id : String)
    (usage : Json) (floor : Bool) (ledger : Ledger) :
    Except LedgerUnavailable ((ℚ × Option ℤ) × Ledger) :=
  if rowsOfKind .release ledger.entries id ≠ [] then .error (.alreadyReleased id)
  else match reserveOf ledger.entries id with
    | none => .error (.noReservation id)
    | some r =>
      let commitRows := rowsOfKind .commit ledger.entries id
      let priorTotal := sumUsd commitRows
      if commitRows ≠ [] && !onlyTtl commitRows && !floor then .ok ((priorTotal, none), ledger)
      else
        let target := targetTotal cfg rates usage floor r
        let insertUsd := target - priorTotal
        let mustFinalizeAfterTtl := onlyTtl commitRows && insertUsd ≤ 0
        let firstZeroCommit := commitRows = [] && insertUsd ≤ 0
        if insertUsd ≤ 0 && !(mustFinalizeAfterTtl || firstZeroCommit) then
          .ok ((priorTotal, none), ledger)
        else
          .ok ((target, if r.usd < target then some r.windowStart else none),
            ledger.insert (finalRow .commit id r (if insertUsd ≤ 0 then 0 else insertUsd) now r.tag))

/-- The overrun count after the transaction of `commit`: it is raised inside the transaction, before
`COMMIT`. -/
def countOverrun (db : Sqlite) (overruns : Overruns)
    (outcome : Except LedgerUnavailable ((ℚ × Option ℤ) × Ledger)) : Overruns :=
  match db, outcome with
  | .queryFails, _ => overruns
  | _, .ok ((_, some windowStart), _) =>
    overruns.set windowStart (overruns.getD windowStart 0 + 1)
  | _, _ => overruns

/-- `CreditPolicy.commit`: the result, the ledger and the overrun counts. -/
def commit (cfg : CreditConfig) (env : Env) (overruns : Overruns) (ledger : Ledger) (id : String)
    (usage : Json) (floor : Bool) : Except LedgerUnavailable ℚ × Ledger × Overruns :=
  let txn := commitTxn cfg env.rates env.now id usage floor
  let (result, after) := runImmediate env.db .sqlite ledger txn
  (result.map Prod.fst, after, countOverrun env.db overruns (txn ledger))

/-- The transaction of `commit_full`. -/
def commitFullTxn (now : ℤ) (id reason : String) (ledger : Ledger) :
    Except LedgerUnavailable (ℚ × Ledger) :=
  let commitRows := rowsOfKind .commit ledger.entries id
  match commitRows.getLast?, onlyTtl commitRows with
  | some last, false => .ok (last.usd, ledger)
  | _, _ => match reserveOf ledger.entries id with
    | none => .error (.noReservation id)
    | some r =>
      let tag := if reason ≠ "" then some reason else if commitRows = [] then r.tag else none
      let usd := if commitRows = [] then r.usd else 0
      .ok (usd, ledger.insert (finalRow .commit id r usd now tag))

def commitFull (env : Env) (ledger : Ledger) (id reason : String) :
    Except LedgerUnavailable ℚ × Ledger :=
  runImmediate env.db .sqlite ledger (commitFullTxn env.now id reason)

/-- The transaction of `release`. -/
def releaseTxn (now : ℤ) (id : String) (ledger : Ledger) :
    Except LedgerUnavailable (Unit × Ledger) :=
  if rowsOfKind .release ledger.entries id ≠ [] then .ok ((), ledger)
  else if rowsOfKind .commit ledger.entries id ≠ [] then .error (.alreadyCommitted id)
  else match reserveOf ledger.entries id with
    | none => .error (.noReservation id)
    | some r => .ok ((), ledger.insert (finalRow .release id r 0 now r.tag))

def release (env : Env) (ledger : Ledger) (id : String) : Except LedgerUnavailable Unit × Ledger :=
  runImmediate env.db .sqlite ledger (releaseTxn env.now id)

/-! ## Latch and status -/

/-- The row `latch` inserts. -/
def latchRow (cfg : CreditConfig) (now : ℤ) (reason : String) : Entry where
  kind := .latch
  requestId := none
  model := none
  usd := 0
  createdAt := now
  windowStart := (meterWindow now cfg).1
  tag := some (if reason ≠ "" then reason else "credit_balance_too_low")
  callerTag := none
  mcpClass := false

def latch (cfg : CreditConfig) (env : Env) (ledger : Ledger) (reason : String) :
    Except LedgerUnavailable Unit × Ledger :=
  runImmediate env.db .sqlite ledger fun ledger =>
    .ok ((), ledger.insert (latchRow cfg env.now reason))

/-- What `status` reports. -/
structure Status where
  windowStart : ℤ
  resetAt : ℤ
  snapshot : WindowSnapshot
  caps : Option (ℚ × ℚ × ℚ)
  mcpConnectorAllowanceUsd : ℚ
  entries : List Entry

/-- The transaction of `status`. -/
def statusTxn (cfg : CreditConfig) (overruns : Overruns) (now : ℤ) (ledger : Ledger) :
    Except LedgerUnavailable (Status × Ledger) :=
  let window := meterWindow now cfg
  let swept := expireStaleReservations ledger now cfg.ttl
  let snap := computeWindowSnapshot swept.entries window cfg.availableBalance.asOf now cfg.ttl
  .ok ({ windowStart := window.1, resetAt := window.2, snapshot := snap
         caps := computeCaps cfg snap.committedUsd snap.openReservationsUsd snap.spendSinceAsOfUsd
         mcpConnectorAllowanceUsd := effectiveMcpAllowance cfg overruns window.1 snap.overrunCount
         entries := swept.entries.reverse.take 20 }, swept)

def status (cfg : CreditConfig) (env : Env) (overruns : Overruns) (ledger : Ledger) :
    Except LedgerUnavailable Status × Ledger :=
  runImmediate env.db .sqlite ledger (statusTxn cfg overruns env.now)

/-! ## The system -/

/-- An operation of the policy. -/
inductive Op where
  | admitRequest (args : AdmitArgs)
  | commit (requestId : String) (usage : Json) (floor : Bool)
  | commitFull (requestId reason : String)
  | release (requestId : String)
  | latch (reason : String)
  | status

/-- One call of a worker. -/
structure Call where
  worker : ℕ
  env : Env
  op : Op

/-- The ledger and the memory of the workers. -/
structure State where
  ledger : Ledger
  overruns : ℕ → Overruns

/-- The ledger `anthropic-credit-ledger-init` creates, and workers just started. -/
def State.init : State := ⟨⟨[], none⟩, fun _ => ∅⟩

/-- One call. -/
def step (cfg : CreditConfig) (s : State) (c : Call) : State :=
  match c.op with
  | .admitRequest args =>
    { s with ledger := (admitRequest cfg c.env (s.overruns c.worker) s.ledger args).2 }
  | .commit id usage floor =>
    let (_, ledger, overruns) := commit cfg c.env (s.overruns c.worker) s.ledger id usage floor
    ⟨ledger, Function.update s.overruns c.worker overruns⟩
  | .commitFull id reason => { s with ledger := (commitFull c.env s.ledger id reason).2 }
  | .release id => { s with ledger := (release c.env s.ledger id).2 }
  | .latch reason => { s with ledger := (latch cfg c.env s.ledger reason).2 }
  | .status => { s with ledger := (status cfg c.env (s.overruns c.worker) s.ledger).2 }

/-- The workers on their ledger, in any order of calls. -/
def credit (cfg : CreditConfig) : System State Call where
  init s := s = .init
  step s c t := t = step cfg s c

/-- The state after a sequence of calls. -/
def stepAll (cfg : CreditConfig) (s : State) (calls : List Call) : State := calls.foldl (step cfg) s

theorem run_stepAll (cfg : CreditConfig) (s : State) (calls : List Call) :
    (credit cfg).Run s calls (stepAll cfg s calls) := by
  induction calls generalizing s with
  | nil => exact .nil s
  | cons c calls ih => exact .cons rfl (ih (step cfg s c))

theorem reachable_stepAll (cfg : CreditConfig) (calls : List Call) :
    (credit cfg).Reachable (stepAll cfg .init calls) :=
  (System.Reachable.init rfl).run (run_stepAll cfg .init calls)

/-! ## Sample calls -/

namespace Sample

/-- A rate row without tiers: 3 USD per million tokens in, 15 out. -/
def rateRow : ModelRateRow where
  inputRatePerM := 3
  outputRatePerM := 15
  cacheWriteRatePerM := none
  cacheReadRatePerM := none
  longPromptThresholdTokens := none
  longInputRatePerM := none
  longCacheWriteRatePerM := none
  longCacheReadRatePerM := none
  longOutputRatePerM := none
  input_nonneg := by norm_num
  output_nonneg := by norm_num
  optional_nonneg := by simp

/-- A rate row of a free model. -/
def freeRow : ModelRateRow :=
  { rateRow with inputRatePerM := 0, outputRatePerM := 0, input_nonneg := le_rfl
                 output_nonneg := le_rfl }

/-- A call of worker 0 that SQLite serves, `minutes` after the start of 2026. -/
def call (minutes : ℤ) (op : Op) : Call where
  worker := 0
  env := {
    now := (Calendar.YearMonth.january 2026).midnight 1 + minutes * Calendar.minute
    rates := fun model => some (if model = "anthropic/claude-haiku-5-5" then freeRow else rateRow)
    db := .ok }
  op := op

/-- A request for 1000 tokens at most, with 1000 counted input tokens. -/
def plain (id : String) : Op :=
  .admitRequest ⟨id, "claude-sonnet-5", [("max_tokens", .int 1000)], none, some 1000⟩

/-- The same request with a server of the MCP connector. -/
def mcp (id : String) : Op :=
  .admitRequest ⟨id, "claude-sonnet-5",
    [("max_tokens", .int 1000), ("mcp_servers", .arr [.str "server"])], none, some 1000⟩

/-- A complete usage report of the given counts. -/
def usage (input output : ℤ) : Json :=
  .obj [("input_tokens", .int input), ("cache_creation_input_tokens", .int 0),
    ("cache_read_input_tokens", .int 0), ("output_tokens", .int output)]

end Sample

end LlmGateway.Credit
