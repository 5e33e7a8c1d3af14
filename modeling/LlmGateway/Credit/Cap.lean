import LlmGateway.Credit.Serialization

/-!
# The cap

The gate decides on the totals of the ledger before the reservation. `windowTotal_insert_reserve`
and `spend_insert_reserve` say what the totals are once the reservation is in: both grow by exactly
its amount, because the request was unknown before, the new row is stamped with the current window
and the snapshot is not in the future. So the checks bound the recomputed totals.

Two inputs escape them. A connector stop of zero is read as no stop at all (`mcpStopOr`), and a cap
that would be negative is clamped to zero, which a free request still passes. `capRespected_iff`
gives the exact condition under which an admission respects the stops and the balance.
-/

namespace LlmGateway.Credit

/-! ## The totals with one more reservation -/

theorem WellFormed.windowTotal_nonneg {ledger : Ledger} (h : WellFormed ledger) (window : ℤ × ℤ) :
    0 ≤ windowTotal ledger.entries window := by
  rw [windowTotal_eq _ _ (covers_requestsOf ledger.entries)]
  have hfile (id : String) : ∀ row ∈ (fileOf ledger.entries id).filter (inWindow window),
      0 ≤ row.usd :=
    fun row hrow => h.usd_nonneg row (List.mem_of_mem_filter (List.mem_of_mem_filter hrow))
  refine add_nonneg (Finset.sum_nonneg fun id _ => ?_) (sumUsd_nonneg fun row hrow => ?_)
  · exact add_nonneg (sumUsd_nonneg fun row hrow => hfile id row (List.mem_of_mem_filter hrow))
      (openUsd_nonneg (hfile id))
  · exact h.usd_nonneg row
      (List.mem_of_mem_filter (List.mem_of_mem_filter (List.mem_of_mem_filter hrow)))

section Insert

variable {entries : List Entry} {row : Entry} {id : String}

theorem unfiled_concat (hid : row.reqId = some id) :
    unfiled (entries ++ [row]) = unfiled entries := by
  simp [unfiled, hid]

theorem fileOf_concat_ne (hid : row.reqId = some id) {j : String} (hj : j ≠ id) :
    fileOf (entries ++ [row]) j = fileOf entries j := by
  simp [fileOf, hid, Ne.symm hj]

theorem fileOf_concat_fresh (hid : row.reqId = some id) (hfresh : fileOf entries id = []) :
    fileOf (entries ++ [row]) id = [row] := by
  rw [fileOf_append, hfresh]
  simp [fileOf, hid]

/-- **A fresh reservation of the window adds its amount to the total.** -/
theorem windowTotal_insert_reserve {window : ℤ × ℤ} (hk : row.kind = .reserve)
    (hid : row.reqId = some id) (hfresh : fileOf entries id = [])
    (hin : inWindow window row = true) :
    windowTotal (entries ++ [row]) window = row.usd + windowTotal entries window := by
  have hcov := covers_requestsOf (entries ++ [row])
  rw [windowTotal_eq _ _ hcov, windowTotal_eq entries window hcov.of_append_left, ← add_assoc]
  congr 1
  · have hmem := hcov row (List.mem_append_right _ (List.mem_singleton_self _)) id hid
    refine sum_eq_add_of_eq_off (k := id) hmem (fun j _ hj => ?_) ?_
    · rw [fileOf_concat_ne hid hj]
    · rw [fileOf_concat_fresh hid hfresh, hfresh]
      simp [windowShare, openUsd, ofKind, sumUsd, hin, hk]
  · rw [windowRows, unfiled_filter, unfiled_concat hid, windowRows, unfiled_filter]

/-- **A fresh reservation made since the snapshot adds its amount to the spend.** -/
theorem spend_insert_reserve {ledger : Ledger} (h : WellFormed ledger)
    (h' : WellFormed (ledger.insert row)) {asOf ttl : ℤ} (hk : row.kind = .reserve)
    (hid : row.reqId = some id) (hfresh : fileOf ledger.entries id = [])
    (hasOf : asOf ≤ row.createdAt) :
    computeSpendSinceAsOf (ledger.insert row).entries asOf ttl =
      row.usd + computeSpendSinceAsOf ledger.entries asOf ttl := by
  have hcov := covers_requestsOf (ledger.insert row).entries
  have hne := empty_notMem_requestsOf (ledger.insert row).entries
  have hunfiled : unfiledSpend (ledger.insert row).entries asOf ttl =
      unfiledSpend ledger.entries asOf ttl := by
    rw [unfiledSpend, unfiledSpend, h.unfiled_openReserveBeforeAsOf,
      h'.unfiled_openReserveBeforeAsOf, unfiled_filter, Ledger.insert, unfiled_concat hid,
      unfiled_filter]
  rw [computeSpendSinceAsOf_eq _ _ _ hcov hne, hunfiled,
    computeSpendSinceAsOf_eq ledger.entries _ _ hcov.of_append_left hne, ← add_assoc]
  congr 1
  have hmem := hcov row (List.mem_append_right _ (List.mem_singleton_self _)) id hid
  refine sum_eq_add_of_eq_off (k := id) hmem (fun j _ hj => ?_) ?_
  · rw [Ledger.insert, fileOf_concat_ne hid hj]
  · have hnot : ¬ row.createdAt < asOf := not_lt.2 hasOf
    rw [Ledger.insert, fileOf_concat_fresh hid hfresh, hfresh]
    simp [spendShare, openUsd, openBefore, ofKind, sumUsd, hasOf, hk, hnot]

end Insert

/-! ## Admissions -/

/-- The snapshot of the current window, as `admit` and `status` compute it. -/
def snapshotAt (cfg : CreditConfig) (ledger : Ledger) (now : ℤ) : WindowSnapshot :=
  computeWindowSnapshot ledger.entries (meterWindow now cfg) cfg.availableBalance.asOf now cfg.ttl

/-- The committed and open total of a snapshot. -/
def WindowSnapshot.total (snap : WindowSnapshot) : ℚ := snap.committedUsd + snap.openReservationsUsd

/-- The committed and open total of the current window and the spend since the snapshot, recomputed,
are within the stops that apply and the balance. -/
def CapRespected (cfg : CreditConfig) (ledger : Ledger) (now : ℤ) (mcpClass : Bool) : Prop :=
  let snap := snapshotAt cfg ledger now
  (∀ hard ∈ cfg.hardStopUsd, snap.total ≤ hard) ∧
    (mcpClass = true → ∀ stop ∈ cfg.mcpConnectorStopUsd, snap.total ≤ stop) ∧
      (cfg.availableBalance.asOf.isSome → snap.spendSinceAsOfUsd ≤ cfg.availableBalance.usd)

/-- The condition on the configuration and on the ledger before the decision: an MCP-class request
does not meet a connector stop of zero, the hard stop is not negative and, with a dated balance, the
spend on record has not passed the balance already. -/
def CapCondition (cfg : CreditConfig) (ledger : Ledger) (mcpClass : Bool) : Prop :=
  (mcpClass = true → cfg.mcpConnectorStopUsd ≠ some 0) ∧ (∀ hard ∈ cfg.hardStopUsd, 0 ≤ hard) ∧
    ∀ asOf ∈ cfg.availableBalance.asOf,
      computeSpendSinceAsOf ledger.entries asOf cfg.ttl ≤ cfg.availableBalance.usd

theorem computeCaps_le {cfg : CreditConfig} {committedUsd openUsd spendUsd x : ℚ}
    {caps : ℚ × ℚ × ℚ} (hcaps : computeCaps cfg committedUsd openUsd spendUsd = some caps)
    (htotal : 0 ≤ committedUsd + openUsd) (hhard : ∀ hard ∈ cfg.hardStopUsd, 0 ≤ hard)
    (hspend : cfg.availableBalance.asOf.isSome → spendUsd ≤ cfg.availableBalance.usd)
    (hx : x ≤ caps.1) :
    (∀ hard ∈ cfg.hardStopUsd, x ≤ hard) ∧ (cfg.availableBalance.asOf.isSome →
      x ≤ committedUsd + openUsd + (cfg.availableBalance.usd - spendUsd)) := by
  have hstops := cfg.stops
  have hgrant := cfg.hardStop_lt
  have hbalance := cfg.availableBalance.usd_nonneg
  unfold computeCaps at hcaps
  cases hh : cfg.hardStopUsd with
  | none =>
    cases hasOf : cfg.availableBalance.asOf with
    | none => simp [hh, hasOf] at hcaps
    | some asOf =>
      have hleft := hspend (by simp [hasOf])
      simp only [hh, hasOf, Option.some.injEq] at hcaps
      obtain rfl := hcaps
      rw [max_eq_right (by linarith)] at hx
      exact ⟨by simp, fun _ => hx⟩
  | some hard =>
    have hpos := hhard hard hh
    have hlt := hgrant hard hh
    obtain ⟨stop, hstop⟩ : ∃ stop, cfg.mcpConnectorStopUsd = some stop :=
      Option.isSome_iff_exists.1 (by rw [← hstops, hh]; rfl)
    cases hasOf : cfg.availableBalance.asOf with
    | none =>
      simp only [hh, hstop, hasOf, Option.some.injEq] at hcaps
      obtain rfl := hcaps
      rw [max_eq_right (le_min hpos (le_min (hpos.trans hlt.le) hbalance)), le_min_iff] at hx
      exact ⟨by simpa using hx.1, by simp⟩
    | some asOf =>
      have hleft := hspend (by simp [hasOf])
      simp only [hh, hstop, hasOf, Option.some.injEq] at hcaps
      obtain rfl := hcaps
      rw [max_eq_right (le_min hpos (by linarith)), le_min_iff] at hx
      exact ⟨by simpa using hx.1, fun _ => hx.2⟩

theorem Admits.totals {cfg : CreditConfig} {s : State} (hs : WellFormed s.ledger) {c : Call}
    {a : Admit} (h : Admits cfg s c a) :
    ∃ snap, checkBudget cfg snap a.reservation (meterWindow c.env.now cfg).2 = .ok a.headroomUsd ∧
      0 ≤ snap.total ∧ 0 ≤ a.reservation.usd ∧ (a.mcpClass = true → 0 < a.reservation.usd) ∧
      a.mcpClass = a.reservation.mcpClass ∧
      (snapshotAt cfg (step cfg s c).ledger c.env.now).total = a.reservation.usd + snap.total ∧
      ∀ asOf ∈ cfg.availableBalance.asOf,
        snap.spendSinceAsOfUsd = computeSpendSinceAsOf s.ledger.entries asOf cfg.ttl ∧
          (snapshotAt cfg (step cfg s c).ledger c.env.now).spendSinceAsOfUsd =
            a.reservation.usd + snap.spendSinceAsOfUsd := by
  obtain ⟨args, swept, snap, -, ha, hstep⟩ := h.reserve
  obtain ⟨rateRow, hprice⟩ := ha.priced
  obtain ⟨husd, hpos⟩ := worstCaseUsd_nonneg hprice
  obtain ⟨row, hrow⟩ : ∃ row, row = reserveRow args a.model a.reservation c.env.now
    (meterWindow c.env.now cfg).1 := ⟨_, rfl⟩
  have hid : row.reqId = some args.requestId := by
    rw [hrow]
    exact reserveRow_reqId ha.requestId_ne _ _ _ _
  have hk : row.kind = .reserve := by rw [hrow]; rfl
  have hrowUsd : row.usd = a.reservation.usd := by rw [hrow]; rfl
  have hin : inWindow (meterWindow c.env.now cfg) row = true := by simp [hrow, inWindow, reserveRow]
  have hfresh : fileOf swept.entries args.requestId = [] :=
    List.filter_eq_nil_iff.2 fun e he hreq =>
      ha.fresh e he (reqId_eq_some.1 (by simpa using hreq)).1
  have hswept : WellFormed swept := ha.swept_eq ▸ hs.sweep
  have hinsert : WellFormed (swept.insert row) := hrow ▸ hswept.change ha.change
  rw [← hrow] at hstep
  refine ⟨snap, ha.budget, ?_, husd, fun hmcp => hpos (ha.mcpClass_eq ▸ hmcp), ha.mcpClass_eq, ?_,
    ?_⟩
  · rw [ha.snap_eq]
    exact hswept.windowTotal_nonneg _
  · rw [hstep, ha.snap_eq, ← hrowUsd]
    exact windowTotal_insert_reserve hk hid hfresh hin
  · intro asOf hasOf
    have hle := ha.asOf_le asOf hasOf
    rw [Option.mem_def] at hasOf
    simp only [snapshotAt, hstep, ha.snap_eq, computeWindowSnapshot, hasOf]
    refine ⟨?_, ?_⟩
    · rw [ha.swept_eq]
      exact hs.spend_sweep cfg.ttl_pos asOf
    · rw [← hrowUsd]
      refine spend_insert_reserve hswept hinsert hk hid hfresh ?_
      rw [hrow]
      exact hle

/-- **The cap**: in every reachable state, an admission respects the stops and the balance exactly
when the condition holds. -/
theorem capRespected_iff {cfg : CreditConfig} {s : State} (hs : (credit cfg).Reachable s) {c : Call}
    {a : Admit} (h : Admits cfg s c a) :
    CapRespected cfg (step cfg s c).ledger c.env.now a.mcpClass ↔
      CapCondition cfg s.ledger a.mcpClass := by
  obtain ⟨snap, hbudget, htotal, husd, hpos, hclass, hafter, hspend⟩ :=
    h.totals (wellFormed_of_reachable hs)
  simp only [CapRespected, CapCondition, hafter]
  constructor
  · rintro ⟨hhard, hmcp, hbalance⟩
    refine ⟨fun hm hstop => ?_, fun hard hh => ?_, fun asOf hasOf => ?_⟩
    · have := hmcp hm 0 hstop
      have := hpos hm
      linarith
    · have := hhard hard hh
      linarith
    · obtain ⟨hbefore, hspent⟩ := hspend asOf hasOf
      have := hbalance (by rw [Option.mem_def.1 hasOf]; rfl)
      rw [hspent, hbefore] at this
      linarith
  · rintro ⟨hmcp, hhard, hbalance⟩
    by_cases hcap : cfg.hasCap = true
    · obtain ⟨caps, hcaps⟩ := exists_computeCaps hcap snap.committedUsd snap.openReservationsUsd
        snap.spendSinceAsOfUsd
      obtain ⟨hle, hclassLe⟩ := checkBudget_ok hcaps hbudget
      have hspent : cfg.availableBalance.asOf.isSome →
          snap.spendSinceAsOfUsd ≤ cfg.availableBalance.usd := by
        intro hsome
        obtain ⟨asOf, hasOf⟩ := Option.isSome_iff_exists.1 hsome
        rw [(hspend asOf hasOf).1]
        exact hbalance asOf hasOf
      obtain ⟨hstop, hleft⟩ := computeCaps_le hcaps htotal hhard hspent hle
      simp only [WindowSnapshot.total] at *
      refine ⟨fun hard hh => ?_, fun hm stop hs => ?_, fun hsome => ?_⟩
      · have := hstop hard hh
        linarith
      · have := (hclassLe (hclass ▸ hm)).2 stop hs fun h0 => hmcp hm (h0 ▸ hs)
        linarith
      · obtain ⟨asOf, hasOf⟩ := Option.isSome_iff_exists.1 hsome
        rw [(hspend asOf hasOf).2]
        have := hleft hsome
        linarith
    · -- without a cap there is nothing to respect
      obtain ⟨hnohard, hnostop, hnoasOf⟩ := CreditConfig.eq_none_of_not_hasCap hcap
      simp [hnohard, hnostop, hnoasOf]

/-- Under stops of 150 and 100 USD an MCP request is admitted and the cap respected. -/
theorem capRespected_capped :
    let c := Sample.call 0 (Sample.mcp "a")
    ∃ a, Admits cappedConfig .init c a ∧ a.mcpClass = true ∧
      CapRespected cappedConfig (step cappedConfig .init c).ledger c.env.now a.mcpClass := by
  intro c
  obtain ⟨a, ha, hmcp⟩ : ∃ a, Admits cappedConfig .init c a ∧ a.mcpClass = true :=
    exists_admits rfl (by with_unfolding_all decide)
  refine ⟨a, ha, hmcp, (capRespected_iff (.init rfl) ha).2 ⟨fun _ => ?_, ?_, ?_⟩⟩
  · decide
  · decide
  · decide

/-- A configuration that means to admit no MCP request: its connector stop is zero. -/
def zeroStopConfig : CreditConfig :=
  { cappedConfig with
    mcpConnectorStopUsd := some 0
    stops := rfl
    mcpStop_le := by
      intro mcp hm hard hh
      obtain rfl := Option.some.inj hm
      obtain rfl := Option.some.inj hh
      norm_num }

/-- Under a connector stop of zero the first MCP request is admitted, for 5 USD. -/
theorem zeroStop_not_respected :
    let c := Sample.call 0 (Sample.mcp "a")
    ∃ a, (credit zeroStopConfig).Reachable .init ∧ Admits zeroStopConfig .init c a ∧
      a.mcpClass = true ∧
      ¬ CapRespected zeroStopConfig (step zeroStopConfig .init c).ledger c.env.now a.mcpClass := by
  intro c
  obtain ⟨a, ha, hmcp⟩ : ∃ a, Admits zeroStopConfig .init c a ∧ a.mcpClass = true :=
    exists_admits rfl (by with_unfolding_all decide)
  refine ⟨a, .init rfl, ha, hmcp, fun h => ?_⟩
  exact absurd (h.2.1 hmcp 0 rfl) (by with_unfolding_all decide)

end LlmGateway.Credit
