import LlmGateway.Foundations.Calendar
import LlmGateway.Foundations.Dict
import LlmGateway.Foundations.Json
import Mathlib

/-!
# The Anthropic credit configuration and its meter window

`CreditConfig` is the validated configuration of the credit gate: what `load_credit_config` checks
of it is carried by its fields, so that a configuration breaking one of the constraints cannot be
built. `loadCreditConfig` builds it from the raw payload, with the messages of
`CreditConfigInvalid`.

`meterWindow` is the billing window of an instant `t`. With the slacks `a` and `b`, the nominal
anchors `N` of consecutive months bracket `t - b`; the window runs from `a` before the first to `b`
after the second. `cycleWindow_spec` says exactly that, and every fact about windows is read off it.
-/

namespace LlmGateway.Credit

open Calendar

/-! ## The configuration -/

structure CycleConfig where
  anchorDay : ℕ
  earlySlackHours : ℕ
  lateSlackHours : ℕ
  anchorDay_pos : 1 ≤ anchorDay
  anchorDay_le : anchorDay ≤ 28

/-- The operator's balance snapshot; with `asOf` it is dated. -/
structure AvailableBalanceConfig where
  usd : ℚ
  asOf : Option ℤ
  usd_nonneg : 0 ≤ usd

structure CreditConfig where
  cycle : CycleConfig
  grantUsd : ℚ
  /-- `none` means no local dollar ceiling. -/
  hardStopUsd : Option ℚ
  mcpConnectorStopUsd : Option ℚ
  mcpConnectorAllowanceUsd : ℚ
  reservationTtlMinutes : ℕ
  countTokensMargin : ℚ
  fallbackOverheadTokens : ℕ
  fallbackTokensPerImage : ℕ
  availableBalance : AvailableBalanceConfig
  meteredModels : List String
  serverToolFeesUsd : Dict String ℚ
  stops : hardStopUsd.isSome = mcpConnectorStopUsd.isSome
  hardStop_lt : ∀ hard ∈ hardStopUsd, hard < grantUsd
  mcpStop_le : ∀ mcp ∈ mcpConnectorStopUsd, ∀ hard ∈ hardStopUsd, mcp ≤ hard
  allowance_pos : 0 < mcpConnectorAllowanceUsd
  ttlMinutes_pos : 1 ≤ reservationTtlMinutes
  overlap : 4 * reservationTtlMinutes ≤ (cycle.earlySlackHours + cycle.lateSlackHours) * 60
  fees_nonneg : ∀ key fee, serverToolFeesUsd.get? key = some fee → 0 ≤ fee
  margin_ge : 1 ≤ countTokensMargin

namespace CreditConfig

/-- `dataclasses.replace(cfg, mcp_connector_allowance_usd=allowance)`. -/
def withAllowance (cfg : CreditConfig) (allowance : ℚ) (h : 0 < allowance) : CreditConfig :=
  { cfg with mcpConnectorAllowanceUsd := allowance, allowance_pos := h }

/-- `timedelta(minutes=cfg.reservation_ttl_minutes)`. -/
def ttl (cfg : CreditConfig) : ℤ := cfg.reservationTtlMinutes * minute

theorem ttl_pos (cfg : CreditConfig) : 0 < cfg.ttl := by
  have := cfg.ttlMinutes_pos
  simp only [ttl, minute_eq]
  omega

end CreditConfig

/-! ## Loading -/

/-- The payload of the configuration file, its numbers parsed. -/
structure RawCreditConfig where
  anchorDay : Option ℤ
  earlySlackHours : Option ℤ
  lateSlackHours : Option ℤ
  cycleOwner : String
  grantUsd : Option ℚ
  hardStopUsd : Option ℚ
  mcpConnectorStopUsd : Option ℚ
  mcpConnectorAllowanceUsd : Option ℚ
  reservationTtlMinutes : Option ℤ
  serverToolFeesUsd : List (String × ℚ)
  failMode : String
  countTokensMargin : Option ℚ
  probeCapUsd : Option ℚ
  balanceUsd : Option ℚ
  balanceOwner : String
  asOf : Option ℤ
  fallbackOverheadTokens : Option ℤ
  fallbackTokensPerImage : Option ℤ
  meteredModels : List String

/-- A check of the loader, whose success is kept as a proof. -/
def require (p : Prop) [Decidable p] (msg : String) : Except String (PLift p) :=
  if h : p then .ok ⟨h⟩ else .error msg

def decimal (value : Option ℚ) (field : String) : Except String ℚ :=
  match value with
  | none => .error (field ++ " is required")
  | some v => .ok v

def intNonneg (value : Option ℤ) (field : String) : Except String ℕ :=
  match value with
  | none => .error (field ++ " is required")
  | some v => if v < 0 then .error (field ++ " must be >= 0") else .ok v.toNat

/-- Fees by server tool, none of them negative. -/
abbrev FeeTable := { fees : Dict String ℚ // ∀ key fee, fees.get? key = some fee → 0 ≤ fee }

/-- The fee table with the fee of one more key. -/
def addFee (fees : FeeTable) (item : String × ℚ) : Except String FeeTable := do
  let ⟨d, hd⟩ := fees
  let ⟨hfee⟩ ← require (0 ≤ item.2) ("server_tool_fees_usd." ++ item.1 ++ " must be >= 0")
  return ⟨d.set item.1 item.2, fun k v hv => by
    rw [Dict.get?_set] at hv
    split at hv
    · exact Option.some.inj hv ▸ hfee
    · exact hd k v hv⟩

def validateMeteredModels (raw : List String) : Except String (List String) :=
  if raw.isEmpty then .error "metered_models must be a non-empty list"
  else raw.mapM fun entry =>
    let modelId := Json.strip entry
    if Json.startsWith modelId "anthropic/" then .ok modelId
    else .error ("metered_models entry must be anthropic/* id, got " ++ Json.strRepr modelId)

def loadCreditConfig (raw : RawCreditConfig) : Except String CreditConfig := do
  let anchorDay ← match raw.anchorDay with
    | none => .error "cycle.anchor_day must be an integer 1–28"
    | some d => .ok d
  let ⟨hanchor⟩ ← require (1 ≤ anchorDay ∧ anchorDay ≤ 28) "cycle.anchor_day must be in 1–28"
  let early ← intNonneg raw.earlySlackHours "early_slack_hours"
  let late ← intNonneg raw.lateSlackHours "late_slack_hours"
  let _ ← require (Json.strip raw.cycleOwner ≠ "") "cycle.owner must be non-empty"
  let grant ← decimal raw.grantUsd "grant_usd"
  let ⟨hstops⟩ ← require (raw.hardStopUsd.isSome = raw.mcpConnectorStopUsd.isSome)
    "hard_stop_usd and mcp_connector_stop_usd must both be set or both omitted"
  let ⟨hhard⟩ ← require (∀ hard ∈ raw.hardStopUsd, hard < grant) "hard_stop_usd must be < grant_usd"
  let ⟨hmcp⟩ ← require (∀ mcp ∈ raw.mcpConnectorStopUsd, ∀ hard ∈ raw.hardStopUsd, mcp ≤ hard)
    "mcp_connector_stop_usd must be <= hard_stop_usd"
  let allowance ← decimal raw.mcpConnectorAllowanceUsd "mcp_connector_allowance_usd"
  let ⟨hallowance⟩ ← require (0 < allowance) "mcp_connector_allowance_usd must be > 0"
  let ttl ← intNonneg raw.reservationTtlMinutes "reservation_ttl_minutes"
  let ⟨httl⟩ ← require (1 ≤ ttl) "reservation_ttl_minutes must be >= 1"
  let ⟨hoverlap⟩ ← require (4 * ttl ≤ (early + late) * 60)
    ("(early_slack_hours + late_slack_hours) * 60 must be >= 4 * reservation_ttl_minutes (" ++
      toString (4 * ttl) ++ ")")
  let ⟨fees, hfees⟩ ← raw.serverToolFeesUsd.foldlM addFee ⟨∅, fun k v hv => by simp at hv⟩
  let _ ← require (Json.strip raw.failMode = "closed") "fail_mode must be \"closed\""
  let margin ← decimal raw.countTokensMargin "count_tokens_margin"
  let ⟨hmargin⟩ ← require (1 ≤ margin) "count_tokens_margin must be >= 1.0"
  let probeCap ← decimal raw.probeCapUsd "probe_cap_usd"
  let _ ← require (0 < probeCap) "probe_cap_usd must be > 0"
  let balance ← decimal raw.balanceUsd "available_balance.usd"
  let ⟨hbalance⟩ ← require (0 ≤ balance) "available_balance.usd must be >= 0"
  let _ ← require (Json.strip raw.balanceOwner ≠ "") "available_balance.owner must be non-empty"
  let overhead ← intNonneg raw.fallbackOverheadTokens "fallback_overhead_tokens"
  let perImage ← intNonneg raw.fallbackTokensPerImage "fallback_tokens_per_image"
  let models ← validateMeteredModels raw.meteredModels
  return {
    cycle := {
      anchorDay := anchorDay.toNat, earlySlackHours := early, lateSlackHours := late,
      anchorDay_pos := by omega, anchorDay_le := by omega }
    grantUsd := grant
    hardStopUsd := raw.hardStopUsd
    mcpConnectorStopUsd := raw.mcpConnectorStopUsd
    mcpConnectorAllowanceUsd := allowance
    reservationTtlMinutes := ttl
    countTokensMargin := margin
    fallbackOverheadTokens := overhead
    fallbackTokensPerImage := perImage
    availableBalance := { usd := balance, asOf := raw.asOf, usd_nonneg := hbalance }
    meteredModels := models
    serverToolFeesUsd := fees
    stops := hstops, hardStop_lt := hhard, mcpStop_le := hmcp, allowance_pos := hallowance
    ttlMinutes_pos := httl, overlap := hoverlap, fees_nonneg := hfees, margin_ge := hmargin }

/-- `config/anthropic_credit.yaml`: no stops, an undated balance. -/
def shippedConfig : CreditConfig where
  cycle := ⟨4, 14, 48, by decide, by decide⟩
  grantUsd := 200
  hardStopUsd := none
  mcpConnectorStopUsd := none
  mcpConnectorAllowanceUsd := 5
  reservationTtlMinutes := 15
  countTokensMargin := 11 / 10
  fallbackOverheadTokens := 2000
  fallbackTokensPerImage := 5000
  availableBalance := ⟨200, none, by norm_num⟩
  meteredModels := ["anthropic/claude-sonnet-5", "anthropic/claude-sonnet-5-5",
    "anthropic/claude-haiku-5-5", "anthropic/claude-opus-5-5", "anthropic/claude-fable-5-1"]
  serverToolFeesUsd := (∅ : Dict String ℚ).set "web_search_requests" (1 / 100)
  stops := rfl
  hardStop_lt := by simp
  mcpStop_le := by simp
  allowance_pos := by norm_num
  ttlMinutes_pos := by decide
  overlap := by decide
  fees_nonneg := by
    intro key fee h
    rw [Dict.get?_set, Dict.get?_empty] at h
    split at h
    · obtain rfl := Option.some.inj h
      norm_num
    · cases h
  margin_ge := by norm_num

/-! ## The meter window -/

/-- `_nominal_anchor`: 00:00 UTC on the anchor day of a month. -/
def nominalAnchor (ym : YearMonth) (anchorDay : ℕ) : ℤ := ym.midnight anchorDay

/-- `meter_window`: the start and the reset of the window of the instant `t`. -/
def meterWindow (t : ℤ) (cfg : CreditConfig) : ℤ × ℤ :=
  let early := cfg.cycle.earlySlackHours * hour
  let late := cfg.cycle.lateSlackHours * hour
  let tShifted := t - late
  let ym := YearMonth.ofInstant tShifted
  let cand := nominalAnchor ym cfg.cycle.anchorDay
  if cand ≤ tShifted then
    (cand - early, nominalAnchor ym.next cfg.cycle.anchorDay + late)
  else
    (nominalAnchor ym.prev cfg.cycle.anchorDay - early, cand + late)

/-- The same computation on any cycle, also on one whose slacks no configuration has: `meter_window`
reads nothing else. -/
def cycleWindow (t : ℤ) (cycle : CycleConfig) : ℤ × ℤ :=
  let early := cycle.earlySlackHours * hour
  let late := cycle.lateSlackHours * hour
  let tShifted := t - late
  let ym := YearMonth.ofInstant tShifted
  let cand := nominalAnchor ym cycle.anchorDay
  if cand ≤ tShifted then
    (cand - early, nominalAnchor ym.next cycle.anchorDay + late)
  else
    (nominalAnchor ym.prev cycle.anchorDay - early, cand + late)

theorem meterWindow_eq_cycleWindow (t : ℤ) (cfg : CreditConfig) :
    meterWindow t cfg = cycleWindow t cfg.cycle := rfl

theorem cycleWindow_spec (t : ℤ) (cycle : CycleConfig) :
    ∃ ym : YearMonth,
      cycleWindow t cycle =
        (nominalAnchor ym cycle.anchorDay - cycle.earlySlackHours * hour,
          nominalAnchor ym.next cycle.anchorDay + cycle.lateSlackHours * hour) ∧
        nominalAnchor ym cycle.anchorDay ≤ t - cycle.lateSlackHours * hour ∧
          t - cycle.lateSlackHours * hour < nominalAnchor ym.next cycle.anchorDay := by
  obtain ⟨ym, hym⟩ : ∃ ym, YearMonth.ofInstant (t - cycle.lateSlackHours * hour) = ym := ⟨_, rfl⟩
  have hge := YearMonth.midnight_ofInstant_le (t - cycle.lateSlackHours * hour)
  have hlt := YearMonth.lt_midnight_next_ofInstant (t - cycle.lateSlackHours * hour)
  rw [hym] at hge hlt
  simp only [cycleWindow, hym]
  split
  · refine ⟨ym, rfl, ‹_›, hlt.trans_le ?_⟩
    exact YearMonth.midnight_mono _ cycle.anchorDay_pos
  · rename_i h
    refine ⟨ym.prev, by rw [YearMonth.next_prev], ?_, ?_⟩
    · have := ym.prev.midnight_add_le_midnight_next cycle.anchorDay_le
      rw [YearMonth.next_prev, day_eq] at this
      simp only [nominalAnchor]
      omega
    · rw [YearMonth.next_prev]
      omega

theorem meterWindow_spec (t : ℤ) (cfg : CreditConfig) :
    ∃ ym : YearMonth,
      meterWindow t cfg =
        (nominalAnchor ym cfg.cycle.anchorDay - cfg.cycle.earlySlackHours * hour,
          nominalAnchor ym.next cfg.cycle.anchorDay + cfg.cycle.lateSlackHours * hour) ∧
        nominalAnchor ym cfg.cycle.anchorDay ≤ t - cfg.cycle.lateSlackHours * hour ∧
          t - cfg.cycle.lateSlackHours * hour < nominalAnchor ym.next cfg.cycle.anchorDay :=
  cycleWindow_spec t cfg.cycle

theorem meterWindow_fst_le (t : ℤ) (cfg : CreditConfig) :
    (meterWindow t cfg).1 + (cfg.cycle.earlySlackHours + cfg.cycle.lateSlackHours) * hour ≤ t := by
  obtain ⟨ym, hw, hle, -⟩ := meterWindow_spec t cfg
  simp only [hw, hour_eq] at hle ⊢
  omega

theorem lt_meterWindow_snd (t : ℤ) (cfg : CreditConfig) : t < (meterWindow t cfg).2 := by
  obtain ⟨ym, hw, -, hlt⟩ := meterWindow_spec t cfg
  simp only [hw, hour_eq] at hlt ⊢
  omega

/-- **The overlap of consecutive windows**: four reservation lifetimes before an instant still lie
in the window of the instant. -/
theorem meterWindow_overlap (t : ℤ) (cfg : CreditConfig) :
    (meterWindow t cfg).1 ≤ t - 4 * cfg.ttl := by
  have h := meterWindow_fst_le t cfg
  have ho := cfg.overlap
  simp only [CreditConfig.ttl, minute_eq, hour_eq] at h ⊢
  omega

end LlmGateway.Credit
