import LlmGateway.Credit.Config
import LlmGateway.Foundations.Fallible

/-!
# Pricing a request and a usage report

`worstCaseUsd` bounds what a request can cost before it is sent: the input bound comes from the
counted tokens or, without a count, from the bytes of the body; a request that runs tools on the
server (the MCP class) is reserved at the connector allowance at least. `usageCostUsd` prices what
the upstream reports afterwards.

Both read a rate row whose rates are not negative by its fields. What the ledger needs of them is
`worstCaseUsd_nonneg`: a reservation is not negative, and the MCP class is never free.
-/

namespace LlmGateway.Credit

/-- `ModelRateRow`: USD per million tokens. -/
structure ModelRateRow where
  inputRatePerM : ℚ
  outputRatePerM : ℚ
  cacheWriteRatePerM : Option ℚ
  cacheReadRatePerM : Option ℚ
  longPromptThresholdTokens : Option ℕ
  longInputRatePerM : Option ℚ
  longCacheWriteRatePerM : Option ℚ
  longCacheReadRatePerM : Option ℚ
  longOutputRatePerM : Option ℚ
  input_nonneg : 0 ≤ inputRatePerM
  output_nonneg : 0 ≤ outputRatePerM
  optional_nonneg : ∀ o ∈ [cacheWriteRatePerM, cacheReadRatePerM, longInputRatePerM,
    longCacheWriteRatePerM, longCacheReadRatePerM, longOutputRatePerM], ∀ r ∈ o, 0 ≤ r

/-! ## The shape of a request -/

mutual

def countMediaBlocks : Json → ℕ
  | .obj items =>
    (if (Json.get items "type").isStrIn ["image", "document", "image_url"] then 1 else 0) +
      countMediaBlocksItems items
  | .arr elems => countMediaBlocksElems elems
  | _ => 0

def countMediaBlocksElems : List Json → ℕ
  | [] => 0
  | j :: elems => countMediaBlocks j + countMediaBlocksElems elems

def countMediaBlocksItems : List (String × Json) → ℕ
  | [] => 0
  | (_, v) :: items => countMediaBlocks v + countMediaBlocksItems items

end

/-- `node.get(key) is not None`. -/
def present (items : List (String × Json)) (key : String) : Bool :=
  match Json.get items key with
  | .null => false
  | _ => true

mutual

/-- The walk of `_has_cache_control`. -/
def walkCacheControl : Json → Bool
  | .obj items => present items "cache_control" || walkCacheControlItems items
  | .arr elems => walkCacheControlElems elems
  | _ => false

def walkCacheControlElems : List Json → Bool
  | [] => false
  | j :: elems => walkCacheControl j || walkCacheControlElems elems

def walkCacheControlItems : List (String × Json) → Bool
  | [] => false
  | (_, v) :: items => walkCacheControl v || walkCacheControlItems items

end

def hasCacheControl (body : List (String × Json)) : Bool :=
  present body "cache_control" ||
    ["system", "messages", "tools"].any fun section_ => walkCacheControl (Json.get body section_)

def plainToolTypes : List String := ["custom", "function"]

def clientExecutedPrefixes : List String := ["bash_", "text_editor_", "memory_", "computer_"]

def serverExecutedPrefixes : List String :=
  ["web_search_", "web_fetch_", "code_execution_", "tool_search_"]

def toolTypeStr (tool : List (String × Json)) : String :=
  let type := Json.get tool "type"
  if type.truthy then Json.strip type.text else ""

/-- `_is_server_executed_tool_type`: an unknown type counts as executed on the server. -/
def isServerExecutedToolType (toolType : String) : Bool :=
  if toolType = "" || plainToolTypes.contains toolType then false
  else if clientExecutedPrefixes.any (Json.startsWith toolType) then false
  else if serverExecutedPrefixes.any (Json.startsWith toolType) then true
  else true

def isMcpConnectorClass (body : List (String × Json)) : Bool :=
  if (Json.get body "mcp_servers").truthy then true
  else match Json.get body "tools" with
    | .arr tools => tools.any fun tool => match tool with
      | .obj items => isServerExecutedToolType (toolTypeStr items)
      | _ => false
    | _ => false

/-- Whether a media block's `source` is not inline. -/
def nonInlineSource (block : List (String × Json)) : Bool :=
  (Json.get block "type").isStrIn ["image", "document"] &&
    match Json.get block "source" with
    | .obj source =>
      let type := Json.get source "type"
      let srcType := if type.truthy then Json.lower (Json.strip type.text) else ""
      srcType != "" && !(["base64", "text", "content"].contains srcType)
    | _ => false

mutual

/-- The walk of `_non_base64_media_in_body`. -/
def walkNonBase64Media : Json → Bool
  | .obj items => nonInlineSource items || walkNonBase64MediaItems items
  | .arr elems => walkNonBase64MediaElems elems
  | _ => false

def walkNonBase64MediaElems : List Json → Bool
  | [] => false
  | j :: elems => walkNonBase64Media j || walkNonBase64MediaElems elems

def walkNonBase64MediaItems : List (String × Json) → Bool
  | [] => false
  | (_, v) :: items => walkNonBase64Media v || walkNonBase64MediaItems items

end

def nonBase64MediaInBody (body : List (String × Json)) : Bool :=
  walkNonBase64Media (Json.get body "messages") || walkNonBase64Media (Json.get body "system")

/-! ## Reservations -/

inductive Basis where
  | countTokens
  | byteFallback
  | mcpMaxAllowanceStatic
  deriving DecidableEq

structure Reservation where
  usd : ℚ
  inputTokensBound : ℕ
  outputTokensBound : ℕ
  mcpClass : Bool
  basis : Basis
  deriving DecidableEq

/-- Why `ReservationRefused` was raised: its code is always `anthropic_reservation_refused`. -/
inductive ReservationRefused where
  /-- `speed='fast' is refused by the Anthropic credit gate` -/
  | speedFast
  /-- `max_tokens is required and must be a positive integer, got …` -/
  | maxTokens (got : Json)
  /-- `token_count must be a non-negative integer, got …` -/
  | tokenCount (got : ℤ)
  /-- `byte fallback cannot bound non-inline image or document sources` -/
  | nonInlineSources

def computeInputBound (body : List (String × Json)) (tokenCount : Option ℤ) (cfg : CreditConfig) :
    Except ReservationRefused (ℕ × Basis) :=
  match tokenCount with
  | some n =>
    if n < 0 then .error (.tokenCount n)
    else .ok (⌈(n : ℚ) * cfg.countTokensMargin⌉.toNat, .countTokens)
  | none =>
    if nonBase64MediaInBody body then .error .nonInlineSources
    else
      let utf8Bytes := (Json.obj body).dumps.utf8ByteSize
      let mediaBlocks :=
        countMediaBlocks (Json.get body "messages") + countMediaBlocks (Json.get body "system")
      .ok (utf8Bytes + cfg.fallbackOverheadTokens + cfg.fallbackTokensPerImage * mediaBlocks,
        .byteFallback)

/-- `quantize(Decimal("0.000001"), rounding=ROUND_CEILING)`. -/
def quantizeCeil (usd : ℚ) : ℚ := ⌈usd * 1000000⌉ / 1000000

/-- The integer `max_tokens` holds when it is acceptable. -/
def maxTokens? : Json → Option ℕ
  | .int n => if 0 < n then some n.toNat else none
  | _ => none

/-- `isinstance(speed, str) and speed.strip().lower() == "fast"`. -/
def isFast : Json → Bool
  | .str s => Json.lower (Json.strip s) = "fast"
  | _ => false

/-- `threshold is not None and tokens > threshold`. -/
def ModelRateRow.useLong (row : ModelRateRow) (tokens : ℕ) : Bool :=
  row.longPromptThresholdTokens.any fun threshold => decide (threshold < tokens)

def ModelRateRow.baseIn (row : ModelRateRow) (long : Bool) : ℚ :=
  if long then row.longInputRatePerM.getD row.inputRatePerM else row.inputRatePerM

def ModelRateRow.baseOut (row : ModelRateRow) (long : Bool) : ℚ :=
  if long then row.longOutputRatePerM.getD row.outputRatePerM else row.outputRatePerM

def inputMultiplier (body : List (String × Json)) : ℚ :=
  if isMcpConnectorClass body then 2 else if hasCacheControl body then 2 else 1

/-- The price of the bounds, rounded up to a micro-dollar. -/
def staticUsd (body : List (String × Json)) (rateRow : ModelRateRow)
    (inputBound outputBound : ℕ) : ℚ :=
  let long := rateRow.useLong inputBound
  let inRate := rateRow.baseIn long * inputMultiplier body
  let outRate := rateRow.baseOut long
  quantizeCeil ((inputBound * inRate + outputBound * outRate) / 1000000)

def worstCaseUsd (body : List (String × Json)) (rateRow : ModelRateRow) (tokenCount : Option ℤ)
    (cfg : CreditConfig) : Except ReservationRefused Reservation :=
  if isFast (Json.get body "speed") then .error .speedFast
  else match maxTokens? (Json.get body "max_tokens") with
    | none => .error (.maxTokens (Json.get body "max_tokens"))
    | some outputBound => do
      let (inputBound, inputBasis) ← computeInputBound body tokenCount cfg
      let static := staticUsd body rateRow inputBound outputBound
      if isMcpConnectorClass body then
        return { usd := max (quantizeCeil cfg.mcpConnectorAllowanceUsd) static
                 inputTokensBound := inputBound, outputTokensBound := outputBound
                 mcpClass := true, basis := .mcpMaxAllowanceStatic }
      else
        return { usd := static
                 inputTokensBound := inputBound, outputTokensBound := outputBound
                 mcpClass := false, basis := inputBasis }

section Nonneg

variable (row : ModelRateRow)

theorem le_quantizeCeil (usd : ℚ) : usd ≤ quantizeCeil usd := by
  rw [quantizeCeil, le_div_iff₀ (by norm_num)]
  exact Int.le_ceil _

theorem ModelRateRow.getD_nonneg {o : Option ℚ} {r : ℚ}
    (ho : o ∈ [row.cacheWriteRatePerM, row.cacheReadRatePerM, row.longInputRatePerM,
      row.longCacheWriteRatePerM, row.longCacheReadRatePerM, row.longOutputRatePerM])
    (hr : 0 ≤ r) : 0 ≤ o.getD r := by
  cases h : o with
  | none => exact hr
  | some v => exact row.optional_nonneg o ho v h

theorem ModelRateRow.baseIn_nonneg (long : Bool) : 0 ≤ row.baseIn long := by
  unfold baseIn
  split
  · exact row.getD_nonneg (by simp) row.input_nonneg
  · exact row.input_nonneg

theorem ModelRateRow.baseOut_nonneg (long : Bool) : 0 ≤ row.baseOut long := by
  unfold baseOut
  split
  · exact row.getD_nonneg (by simp) row.output_nonneg
  · exact row.output_nonneg

theorem inputMultiplier_pos (body : List (String × Json)) : 0 < inputMultiplier body := by
  unfold inputMultiplier
  split
  · norm_num
  · split <;> norm_num

theorem staticUsd_nonneg (body : List (String × Json)) (inputBound outputBound : ℕ) :
    0 ≤ staticUsd body row inputBound outputBound := by
  have hin := row.baseIn_nonneg (row.useLong inputBound)
  have hout := row.baseOut_nonneg (row.useLong inputBound)
  have hmul := (inputMultiplier_pos body).le
  exact (by positivity : (0 : ℚ) ≤ _).trans (le_quantizeCeil _)

theorem worstCaseUsd_nonneg {row : ModelRateRow} {body : List (String × Json)}
    {tokenCount : Option ℤ} {cfg : CreditConfig} {r : Reservation}
    (h : worstCaseUsd body row tokenCount cfg = .ok r) :
    0 ≤ r.usd ∧ (r.mcpClass = true → 0 < r.usd) := by
  unfold worstCaseUsd at h
  split at h
  · cases h
  split at h
  · cases h
  rename_i outputBound _
  obtain ⟨⟨inputBound, basis⟩, -, h⟩ := bind_eq_ok.1 h
  have hstatic := staticUsd_nonneg row body inputBound outputBound
  have hallowance := cfg.allowance_pos.trans_le (le_quantizeCeil cfg.mcpConnectorAllowanceUsd)
  simp only at h
  split at h
  · obtain rfl := Except.ok.inj h
    exact ⟨le_max_of_le_right hstatic, fun _ => lt_max_of_lt_left hallowance⟩
  · obtain rfl := Except.ok.inj h
    exact ⟨hstatic, by simp⟩

end Nonneg

/-! ## Usage -/

inductive UsageField where
  | inputTokens
  | cacheCreationInputTokens
  | cacheReadInputTokens
  | outputTokens
  deriving DecidableEq

/-- The key of a counter in a usage report. -/
def UsageField.key : UsageField → String
  | inputTokens => "input_tokens"
  | cacheCreationInputTokens => "cache_creation_input_tokens"
  | cacheReadInputTokens => "cache_read_input_tokens"
  | outputTokens => "output_tokens"

def requiredUsageFields : List UsageField :=
  [.inputTokens, .cacheCreationInputTokens, .cacheReadInputTokens, .outputTokens]

def extractNonnegInt (mapping : List (String × Json)) (key : String) : Option ℕ :=
  match Json.lookup key mapping with
  | some (.int n) => if n < 0 then none else some n.toNat
  | _ => none

/-- `_extract_nonneg_int` on a value that is a mapping, `none` on any other. -/
def extractFrom (value : Json) (key : String) : Option ℕ :=
  match value with
  | .obj items => extractNonnegInt items key
  | _ => none

/-- What `usage_cost_usd` returns: the cost, the missing counters and whether a server tool without
a fee was used. -/
structure UsageCost where
  cost : Option ℚ
  missing : List UsageField
  unknownServerTool : Bool

def ModelRateRow.cacheWrite (row : ModelRateRow) (long : Bool) : Option ℚ :=
  if long then row.longCacheWriteRatePerM.or row.cacheWriteRatePerM else row.cacheWriteRatePerM

def ModelRateRow.cacheRead (row : ModelRateRow) (long : Bool) : Option ℚ :=
  if long then row.longCacheReadRatePerM.or row.cacheReadRatePerM else row.cacheReadRatePerM

/-- The price of the cache creation tokens, in USD per million: by the breakdown of the report when
it is there and fits, else all of them at twice the input rate. -/
def cacheCreationCost (usage : List (String × Json)) (tokens : ℕ) (cw5m cw1h : ℚ) : ℚ :=
  if 0 < tokens then
    let breakdown := Json.get usage "cache_creation"
    match extractFrom breakdown "ephemeral_5m_input_tokens",
        extractFrom breakdown "ephemeral_1h_input_tokens" with
    | some e5m, some e1h =>
      if e5m + e1h ≤ tokens then
        let remainder := tokens - (e5m + e1h)
        e5m * cw5m + (e1h + remainder : ℕ) * cw1h
      else tokens * cw1h
    | _, _ => tokens * cw1h
  else 0

/-- One server tool of the report: its fee joins the total, or the report is marked. -/
def addServerTool (fees : Dict String ℚ) (acc : ℚ × Bool) (item : String × Json) : ℚ × Bool :=
  match item.2 with
  | .int count =>
    if count < 0 then (acc.1, true)
    else if count = 0 then acc
    else match fees.get? item.1 with
      | none => (acc.1, true)
      | some fee => (acc.1 + count * fee, acc.2)
  | _ => (acc.1, true)

/-- The fees of the server tools used and whether one of them has none. -/
def serverToolFees (usage : List (String × Json)) (fees : Dict String ℚ) : ℚ × Bool :=
  match Json.get usage "server_tool_use" with
  | .obj items => items.foldl (addServerTool fees) (0, false)
  | _ => (0, false)

/-- `usage_cost_usd` on a report that is a mapping. -/
def usageCostUsd (usage : List (String × Json)) (row : ModelRateRow) (fees : Dict String ℚ) :
    UsageCost :=
  let value field := extractNonnegInt usage (UsageField.key field)
  let missing := requiredUsageFields.filter fun field => (value field).isNone
  if missing.length = requiredUsageFields.length then
    { cost := none, missing, unknownServerTool := false }
  else
    let inputTokens := (value .inputTokens).getD 0
    let cacheCreationTokens := (value .cacheCreationInputTokens).getD 0
    let cacheReadTokens := (value .cacheReadInputTokens).getD 0
    let outputTokens := (value .outputTokens).getD 0
    let long := row.useLong (inputTokens + cacheCreationTokens + cacheReadTokens)
    let inRate := row.baseIn long
    let outRate := row.baseOut long
    let cw5mRate := (row.cacheWrite long).getD (5 / 4 * inRate)
    let cw1hRate := 2 * inRate
    let crRate := (row.cacheRead long).getD inRate
    let tokenCost := inputTokens * inRate +
      cacheCreationCost usage cacheCreationTokens cw5mRate cw1hRate +
      cacheReadTokens * crRate + outputTokens * outRate
    let tools := serverToolFees usage fees
    { cost := some (tokenCost / 1000000 + tools.1), missing, unknownServerTool := tools.2 }

/-- `usage_cost_usd_for_config`; a report that is not a mapping misses every counter. -/
def usageCostUsdForConfig (usage : Json) (row : ModelRateRow) (cfg : CreditConfig) : UsageCost :=
  match usage with
  | .obj items => usageCostUsd items row cfg.serverToolFeesUsd
  | _ => { cost := none, missing := requiredUsageFields, unknownServerTool := false }

end LlmGateway.Credit
