import LlmGateway.Credit.Pricing

/-!
# A reservation covers the cost

`worst_case_usd` bounds a request before it is sent and `usage_cost_usd` prices it afterwards, and each
chooses the tier of its rates by its own number of tokens. A bill within the bounds of the reservation is in
the tier of the reservation or in the one below it (`useLong_mono`), and a token of the prompt costs the
input rate of its tier, or at most twice that where the request caches (`cacheCreationCost_le`), which is
what `inputMultiplier` reserves for it. `usageCost_le_reservation` puts the two sides together.
-/

namespace LlmGateway.Credit

/-- The rates of the long tier are not below those of the base tier, and in each tier writing to the cache
costs at most twice the input rate, and reading from it at most the input rate. -/
structure ModelRateRow.Graduated (row : ModelRateRow) : Prop where
  input : ∀ r ∈ row.longInputRatePerM, row.inputRatePerM ≤ r
  output : ∀ r ∈ row.longOutputRatePerM, row.outputRatePerM ≤ r
  cacheWrite : ∀ long, ∀ r ∈ row.cacheWrite long, r ≤ 2 * row.baseIn long
  cacheRead : ∀ long, ∀ r ∈ row.cacheRead long, r ≤ row.baseIn long

/-- A counter of a report; a missing one is 0. -/
def usageTokens (usage : List (String × Json)) (field : UsageField) : ℕ :=
  (extractNonnegInt usage field.key).getD 0

/-- All tokens of the prompt. -/
def promptTokens (usage : List (String × Json)) : ℕ :=
  usageTokens usage .inputTokens + usageTokens usage .cacheCreationInputTokens + usageTokens usage .cacheReadInputTokens

/-- The report is within the bounds of the reservation: the tokens are, no server tool costs a fee, and
the cache is used only by a request that may use it. -/
structure Within (body usage : List (String × Json)) (fees : Dict String ℚ) (r : Reservation) : Prop where
  input : promptTokens usage ≤ r.inputTokensBound
  output : ∀ n ∈ maxTokens? (Json.get body "max_tokens"), usageTokens usage .outputTokens ≤ n
  fees : (serverToolFees usage fees).1 = 0
  cache : 0 < usageTokens usage .cacheCreationInputTokens + usageTokens usage .cacheReadInputTokens →
    isMcpConnectorClass body = true ∨ hasCacheControl body = true

section Tiers

variable {row : ModelRateRow}

theorem ModelRateRow.useLong_mono {m n : ℕ} (h : m ≤ n) (hm : row.useLong m = true) : row.useLong n = true := by
  rw [useLong, Option.any_eq_true] at hm ⊢
  obtain ⟨threshold, ht, hlt⟩ := hm
  exact ⟨threshold, ht, decide_eq_true ((of_decide_eq_true hlt).trans_le h)⟩

theorem ModelRateRow.tier_mono {rate : Bool → ℚ} (hrate : rate false ≤ rate true) {m n : ℕ} (h : m ≤ n) :
    rate (row.useLong m) ≤ rate (row.useLong n) := by
  cases hm : row.useLong m with
  | true => rw [useLong_mono h hm]
  | false =>
    cases row.useLong n with
    | true => exact hrate
    | false => exact le_rfl

theorem getD_le_of_forall {o : Option ℚ} {r : ℚ} (h : ∀ v ∈ o, r ≤ v) : r ≤ o.getD r := by
  cases o with
  | none => exact le_rfl
  | some v => exact h v rfl

theorem getD_le_of_forall_le {o : Option ℚ} {d r : ℚ} (h : ∀ v ∈ o, v ≤ r) (hd : d ≤ r) : o.getD d ≤ r := by
  cases o with
  | none => exact hd
  | some v => exact h v rfl

namespace ModelRateRow.Graduated

variable (h : row.Graduated)
include h

theorem baseIn_mono {m n : ℕ} (hmn : m ≤ n) : row.baseIn (row.useLong m) ≤ row.baseIn (row.useLong n) :=
  tier_mono (getD_le_of_forall h.input) hmn

theorem baseOut_mono {m n : ℕ} (hmn : m ≤ n) : row.baseOut (row.useLong m) ≤ row.baseOut (row.useLong n) :=
  tier_mono (getD_le_of_forall h.output) hmn

theorem cw5m_le (long : Bool) : (row.cacheWrite long).getD (5 / 4 * row.baseIn long) ≤ 2 * row.baseIn long :=
  getD_le_of_forall_le (h.cacheWrite long) (by linarith [row.baseIn_nonneg long])

theorem cacheRead_le (long : Bool) : (row.cacheRead long).getD (row.baseIn long) ≤ row.baseIn long :=
  getD_le_of_forall_le (h.cacheRead long) le_rfl

end ModelRateRow.Graduated

end Tiers

/-! ## The two sides -/

theorem cacheCreationCost_le (usage : List (String × Json)) (n : ℕ) {cw5m cw1h : ℚ} (h : cw5m ≤ cw1h)
    (h1h : 0 ≤ cw1h) : cacheCreationCost usage n cw5m cw1h ≤ n * cw1h := by
  have hall : (0 : ℚ) ≤ n * cw1h := mul_nonneg (Nat.cast_nonneg n) h1h
  rw [cacheCreationCost]
  split
  · dsimp only
    split
    · rename_i e5m e1h _ _
      split
      · rename_i hfit
        have hsplit : (n : ℚ) = e5m + (e1h + (n - (e5m + e1h)) : ℕ) := by
          rw [← Nat.cast_add]
          congr 1
          omega
        have h5m : (e5m : ℚ) * cw5m ≤ e5m * cw1h := mul_le_mul_of_nonneg_left h (Nat.cast_nonneg _)
        calc (e5m : ℚ) * cw5m + (e1h + (n - (e5m + e1h)) : ℕ) * cw1h
            ≤ e5m * cw1h + (e1h + (n - (e5m + e1h)) : ℕ) * cw1h := by linarith
          _ = n * cw1h := by rw [← add_mul, ← hsplit]
      · exact le_rfl
    · exact le_rfl
  · exact hall

theorem usageCostUsd_eq {usage : List (String × Json)} {row : ModelRateRow} {fees : Dict String ℚ} {cost : ℚ}
    (h : (usageCostUsd usage row fees).cost = some cost) (hfees : (serverToolFees usage fees).1 = 0) :
    cost = (usageTokens usage .inputTokens * row.baseIn (row.useLong (promptTokens usage)) +
      cacheCreationCost usage (usageTokens usage .cacheCreationInputTokens)
        ((row.cacheWrite (row.useLong (promptTokens usage))).getD
          (5 / 4 * row.baseIn (row.useLong (promptTokens usage))))
        (2 * row.baseIn (row.useLong (promptTokens usage))) +
      usageTokens usage .cacheReadInputTokens * (row.cacheRead (row.useLong (promptTokens usage))).getD
        (row.baseIn (row.useLong (promptTokens usage))) +
      usageTokens usage .outputTokens * row.baseOut (row.useLong (promptTokens usage))) / 1000000 := by
  unfold usageCostUsd at h
  dsimp only at h
  split at h
  · cases h
  · rw [← Option.some.inj h, hfees, add_zero]
    rfl

theorem le_of_worstCaseUsd {body : List (String × Json)} {row : ModelRateRow} {tokenCount : Option ℤ}
    {cfg : CreditConfig} {r : Reservation} (h : worstCaseUsd body row tokenCount cfg = .ok r) :
    ∃ n, maxTokens? (Json.get body "max_tokens") = some n ∧
      (r.inputTokensBound * (row.baseIn (row.useLong r.inputTokensBound) * inputMultiplier body) +
        n * row.baseOut (row.useLong r.inputTokensBound)) / 1000000 ≤ r.usd := by
  unfold worstCaseUsd at h
  split at h
  · cases h
  split at h
  · cases h
  rename_i n hn
  obtain ⟨⟨bound, basis⟩, -, h⟩ := bind_eq_ok.1 h
  refine ⟨n, hn, ?_⟩
  simp only at h
  split at h
  · obtain rfl := Except.ok.inj h
    exact (le_quantizeCeil _).trans (le_max_right _ _)
  · obtain rfl := Except.ok.inj h
    exact le_quantizeCeil _

theorem inputMultiplier_of_caches {body : List (String × Json)}
    (h : isMcpConnectorClass body = true ∨ hasCacheControl body = true) : inputMultiplier body = 2 := by
  rw [inputMultiplier]
  split_ifs with hmcp hcache
  · rfl
  · rfl
  · exact absurd h (not_or.2 ⟨hmcp, hcache⟩)

theorem one_le_inputMultiplier (body : List (String × Json)) : 1 ≤ inputMultiplier body := by
  rw [inputMultiplier]
  split_ifs <;> norm_num

/-- **The prompt costs at most what is reserved for it**: all its tokens at the input rate of its tier,
times the multiplier of the request. -/
theorem promptCost_le {body usage : List (String × Json)} {fees : Dict String ℚ} {r : Reservation}
    {inRate cw5m crRate : ℚ} (hw : Within body usage fees r) (hin : 0 ≤ inRate) (hcw : cw5m ≤ 2 * inRate)
    (hcr : crRate ≤ inRate) :
    usageTokens usage .inputTokens * inRate +
        cacheCreationCost usage (usageTokens usage .cacheCreationInputTokens) cw5m (2 * inRate) +
        usageTokens usage .cacheReadInputTokens * crRate ≤
      promptTokens usage * (inRate * inputMultiplier body) := by
  have hwrite := cacheCreationCost_le usage (usageTokens usage .cacheCreationInputTokens) hcw (by linarith)
  have hread : (usageTokens usage .cacheReadInputTokens : ℚ) * crRate ≤ usageTokens usage .cacheReadInputTokens * inRate :=
    mul_le_mul_of_nonneg_left hcr (Nat.cast_nonneg _)
  have hprompt : (promptTokens usage : ℚ) = usageTokens usage .inputTokens +
      usageTokens usage .cacheCreationInputTokens + usageTokens usage .cacheReadInputTokens := by
    rw [promptTokens, Nat.cast_add, Nat.cast_add]
  have hplain : 0 ≤ (usageTokens usage .inputTokens : ℚ) * inRate := mul_nonneg (Nat.cast_nonneg _) hin
  have hold : 0 ≤ (usageTokens usage .cacheReadInputTokens : ℚ) * inRate := mul_nonneg (Nat.cast_nonneg _) hin
  rcases Nat.eq_zero_or_pos (usageTokens usage .cacheCreationInputTokens + usageTokens usage .cacheReadInputTokens)
    with hnone | hsome
  · -- nothing is cached: every token is a plain one
    obtain ⟨hc, hr⟩ := Nat.add_eq_zero_iff.1 hnone
    have hmul : inRate ≤ inRate * inputMultiplier body :=
      le_mul_of_one_le_right hin (one_le_inputMultiplier body)
    rw [hc, Nat.cast_zero, zero_mul] at hwrite
    rw [hc, hr, Nat.cast_zero, add_zero, add_zero] at hprompt
    rw [hc, hr, Nat.cast_zero, zero_mul, add_zero, hprompt]
    have hcount : (0 : ℚ) ≤ usageTokens usage .inputTokens := Nat.cast_nonneg _
    linarith [mul_le_mul_of_nonneg_left hmul hcount]
  · rw [inputMultiplier_of_caches (hw.cache hsome), hprompt]
    linarith

/-- **A reservation covers the cost**: what a report within its bounds is billed is at most what was reserved,
in either tier and however its tokens are split. -/
theorem usageCost_le_reservation {body usage : List (String × Json)} {row : ModelRateRow}
    {tokenCount : Option ℤ} {cfg : CreditConfig} {r : Reservation} {fees : Dict String ℚ} {cost : ℚ}
    (hrow : row.Graduated) (hr : worstCaseUsd body row tokenCount cfg = .ok r)
    (hw : Within body usage fees r) (hcost : (usageCostUsd usage row fees).cost = some cost) :
    cost ≤ r.usd := by
  obtain ⟨n, hn, hreserved⟩ := le_of_worstCaseUsd hr
  refine le_trans ?_ hreserved
  rw [usageCostUsd_eq hcost hw.fees]
  refine div_le_div_of_nonneg_right (add_le_add ?_ ?_) (by norm_num)
  · have hprompt := promptCost_le hw (row.baseIn_nonneg _)
      (hrow.cw5m_le (row.useLong (promptTokens usage))) (hrow.cacheRead_le (row.useLong (promptTokens usage)))
    refine hprompt.trans (mul_le_mul (by exact_mod_cast hw.input) ?_ ?_ (Nat.cast_nonneg _))
    · exact mul_le_mul_of_nonneg_right (hrow.baseIn_mono hw.input) (inputMultiplier_pos body).le
    · exact mul_nonneg (row.baseIn_nonneg _) (inputMultiplier_pos body).le
  · exact mul_le_mul (by exact_mod_cast hw.output n hn) (hrow.baseOut_mono hw.input) (row.baseOut_nonneg _)
      (Nat.cast_nonneg _)

/-- Rates that double behind 500 tokens. -/
def doublingRow : ModelRateRow where
  inputRatePerM := 5
  outputRatePerM := 25
  cacheWriteRatePerM := some (25 / 4)
  cacheReadRatePerM := some (1 / 2)
  longPromptThresholdTokens := some 500
  longInputRatePerM := some 10
  longCacheWriteRatePerM := none
  longCacheReadRatePerM := some 1
  longOutputRatePerM := some 50
  input_nonneg := by norm_num
  output_nonneg := by norm_num
  optional_nonneg := by simp; norm_num

theorem graduated_doublingRow : doublingRow.Graduated where
  input := by
    intro r hr
    rw [← Option.some.inj hr]
    norm_num [doublingRow]
  output := by
    intro r hr
    rw [← Option.some.inj hr]
    norm_num [doublingRow]
  cacheWrite := by
    intro long r hr
    cases long <;> rw [← Option.some.inj hr] <;> norm_num [doublingRow, ModelRateRow.baseIn]
  cacheRead := by
    intro long r hr
    cases long <;> rw [← Option.some.inj hr] <;> norm_num [doublingRow, ModelRateRow.baseIn]

/-- A request that caches. -/
def cachingBody : List (String × Json) :=
  [("max_tokens", .int 100), ("cache_control", .obj [("type", .str "ephemeral")])]

/-- Its report: the bill is in the long tier, and most of the prompt comes from the cache. -/
def cachingUsage : List (String × Json) :=
  [("input_tokens", .int 100), ("cache_creation_input_tokens", .int 300),
    ("cache_creation", .obj [("ephemeral_5m_input_tokens", .int 200), ("ephemeral_1h_input_tokens", .int 60)]),
    ("cache_read_input_tokens", .int 600), ("output_tokens", .int 50)]

theorem usageCost_le_reservation_caching : ∃ r cost,
    worstCaseUsd cachingBody doublingRow (some 1000) shippedConfig = .ok r ∧
      (usageCostUsd cachingUsage doublingRow ∅).cost = some cost ∧ cost ≤ r.usd := by
  obtain ⟨r, hr⟩ := exists_ok_of_isOk
    (show (worstCaseUsd cachingBody doublingRow (some 1000) shippedConfig).isOk = true by with_unfolding_all decide)
  obtain ⟨cost, hcost⟩ := Option.isSome_iff_exists.1
    (show (usageCostUsd cachingUsage doublingRow ∅).cost.isSome = true by decide)
  have hbound : r.inputTokensBound = 1100 := by
    have h := congrArg (fun x => x.toOption.map Reservation.inputTokensBound) hr
    exact Option.some.inj (h.symm.trans (by with_unfolding_all decide))
  refine ⟨r, cost, hr, hcost, usageCost_le_reservation graduated_doublingRow hr ⟨?_, ?_, ?_, ?_⟩ hcost⟩
  · rw [hbound]
    decide
  · intro n hn
    rw [← Option.some.inj hn]
    decide
  · rfl
  · exact fun _ => .inr (by decide)

end LlmGateway.Credit
