import LlmGateway.Credit.Finality

/-!
# What commits return

`commit` and `commit_full` return an amount that they compute on the way, not the sum of the rows they
leave. `returned_eq_committedTotal_iff` says when the two agree, in every reachable state.

`commit` returns its target whenever it inserts a row. The total becomes the maximum of the target and
what was on record, so the two differ when the sweep alone has finalised the request, at the
reservation (`SweptAtReservation`), and the report turns out cheaper. `commit_full` returns the last
row's amount where `commit` would return the sum, and zero after the sweep.
-/

namespace LlmGateway.Credit

/-! ## Costs are not negative -/

section Nonneg

variable (row : ModelRateRow)

theorem ModelRateRow.cacheWrite_nonneg {long : Bool} {rate : ℚ}
    (h : row.cacheWrite long = some rate) : 0 ≤ rate := by
  have hall := row.optional_nonneg
  unfold cacheWrite at h
  split at h
  · rcases Option.or_eq_some_iff.1 h with h | ⟨-, h⟩
    · exact hall _ (by simp) rate h
    · exact hall _ (by simp) rate h
  · exact hall _ (by simp) rate h

theorem ModelRateRow.cacheRead_nonneg {long : Bool} {rate : ℚ}
    (h : row.cacheRead long = some rate) : 0 ≤ rate := by
  have hall := row.optional_nonneg
  unfold cacheRead at h
  split at h
  · rcases Option.or_eq_some_iff.1 h with h | ⟨-, h⟩
    · exact hall _ (by simp) rate h
    · exact hall _ (by simp) rate h
  · exact hall _ (by simp) rate h

theorem getD_nonneg {o : Option ℚ} {d : ℚ} (ho : ∀ v, o = some v → 0 ≤ v) (hd : 0 ≤ d) :
    0 ≤ o.getD d := by
  cases h : o with
  | none => exact hd
  | some v => exact ho v h

theorem cacheCreationCost_nonneg (usage : List (String × Json)) (tokens : ℕ) {cw5m cw1h : ℚ}
    (h₅ : 0 ≤ cw5m) (h₁ : 0 ≤ cw1h) : 0 ≤ cacheCreationCost usage tokens cw5m cw1h := by
  have hall : 0 ≤ (tokens : ℚ) * cw1h := by positivity
  unfold cacheCreationCost
  split
  · simp only
    split
    · split
      · positivity
      · exact hall
    · exact hall
  · exact le_rfl

theorem addServerTool_nonneg {fees : Dict String ℚ}
    (hfees : ∀ key fee, fees.get? key = some fee → 0 ≤ fee) {acc : ℚ × Bool} (hacc : 0 ≤ acc.1)
    (item : String × Json) : 0 ≤ (addServerTool fees acc item).1 := by
  unfold addServerTool
  split
  · rename_i count _
    split
    · exact hacc
    rename_i hcount
    split
    · exact hacc
    split
    · exact hacc
    · rename_i fee hfee
      have hfee := hfees _ fee hfee
      have hcount : (0 : ℚ) ≤ count := by exact_mod_cast not_lt.1 hcount
      positivity
  · exact hacc

theorem serverToolFees_nonneg (usage : List (String × Json)) {fees : Dict String ℚ}
    (hfees : ∀ key fee, fees.get? key = some fee → 0 ≤ fee) :
    0 ≤ (serverToolFees usage fees).1 := by
  unfold serverToolFees
  split
  · rename_i items _
    have hinit : 0 ≤ ((0 : ℚ), false).1 := le_rfl
    exact List.foldlRecOn (motive := fun acc => 0 ≤ acc.1) items (addServerTool fees) hinit
      fun acc hacc item _ => addServerTool_nonneg hfees hacc item
  · exact le_rfl

variable {cfg : CreditConfig} {usage : Json}

theorem usageCostUsdForConfig_nonneg {row : ModelRateRow}
    {cost : ℚ} (h : (usageCostUsdForConfig usage row cfg).cost = some cost) : 0 ≤ cost := by
  unfold usageCostUsdForConfig at h
  split at h
  · rename_i items
    unfold usageCostUsd at h
    simp only at h
    split at h
    · cases h
    · obtain rfl := Option.some.inj h
      have hin (long : Bool) := row.baseIn_nonneg long
      have hout (long : Bool) := row.baseOut_nonneg long
      have hread (long : Bool) : 0 ≤ (row.cacheRead long).getD (row.baseIn long) :=
        getD_nonneg (fun _ h => row.cacheRead_nonneg h) (hin long)
      have hwrite (long : Bool) : 0 ≤ (row.cacheWrite long).getD (5 / 4 * row.baseIn long) :=
        getD_nonneg (fun _ h => row.cacheWrite_nonneg h)
          (mul_nonneg (by norm_num) (hin long))
      have hcreate (tokens : ℕ) (long : Bool) := cacheCreationCost_nonneg items tokens (hwrite long)
        (mul_nonneg zero_le_two (hin long))
      have htools := serverToolFees_nonneg items cfg.fees_nonneg
      refine add_nonneg (div_nonneg ?_ (by norm_num)) htools
      refine add_nonneg (add_nonneg (add_nonneg ?_ (hcreate _ _)) ?_) ?_
      · exact mul_nonneg (Nat.cast_nonneg _) (hin _)
      · exact mul_nonneg (Nat.cast_nonneg _) (hread _)
      · exact mul_nonneg (Nat.cast_nonneg _) (hout _)
  · cases h

theorem reservedCost_nonneg {rates : String → Option ModelRateRow}
    {r : Entry} {cost : ℚ} (h : (reservedCost cfg rates usage r).cost = some cost) :
    0 ≤ cost := by
  unfold reservedCost at h
  split at h
  · cases h
  · exact usageCostUsdForConfig_nonneg h

theorem targetTotal_nonneg {rates : String → Option ModelRateRow} {floor : Bool} {r : Entry} (hr : 0 ≤ r.usd) :
    0 ≤ targetTotal cfg rates usage floor r := by
  unfold targetTotal
  simp only
  split
  · exact le_max_of_le_right hr
  · exact getD_nonneg (fun _ h => reservedCost_nonneg h) hr

end Nonneg

/-! ## What the sweep has committed -/

/-- Where the sweep alone has finalised a request, the total committed is the reservation. -/
def SweptAtReservation (ledger : Ledger) : Prop :=
  ∀ id, onlyTtl (rowsOfKind .commit ledger.entries id) = true →
    ∃ r, reserveOf ledger.entries id = some r ∧ committedTotal ledger id = r.usd

variable {ledger : Ledger} {id : String} {now : ℤ} {cfg : CreditConfig} {floor : Bool}
  {rates : String → Option ModelRateRow} {usage : Json}

theorem SweptAtReservation.insert (h : SweptAtReservation ledger) {row : Entry}
    (hreserve : row.kind = .reserve → ∀ id, row.requestId = some id →
      rowsOfKind .commit ledger.entries id = [])
    (hcommit : row.kind = .commit → ∀ id, row.requestId = some id → row.ttlExpired = true →
      ∃ r, reserveOf ledger.entries id = some r ∧ committedTotal ledger id + row.usd = r.usd) :
    SweptAtReservation (ledger.insert row) := by
  intro id honly
  by_cases hrow : row.kind = .commit ∧ row.requestId = some id
  · have httl : row.ttlExpired = true := by
      rw [rowsOfKind_insert, if_pos hrow, onlyTtl, Bool.and_eq_true] at honly
      exact List.all_eq_true.1 honly.2 row (by simp)
    obtain ⟨r, hr, htotal⟩ := hcommit hrow.1 id hrow.2 httl
    refine ⟨r, ?_, by rw [committedTotal_insert_commit ledger hrow.1 hrow.2, htotal]⟩
    rw [reserveOf, rowsOfKind_insert, if_neg (by simp [hrow.1])]
    exact hr
  · rw [rowsOfKind_insert, if_neg hrow] at honly
    obtain ⟨r, hr, htotal⟩ := h id honly
    refine ⟨r, ?_, by rw [committedTotal, rowsOfKind_insert, if_neg hrow]; exact htotal⟩
    rw [reserveOf, rowsOfKind_insert, if_neg]
    · exact hr
    · rintro ⟨hk, hid⟩
      simp [onlyTtl, hreserve hk id hid] at honly

theorem WellFormed.ne_empty_of_commit (h : WellFormed ledger)
    (hne : rowsOfKind .commit ledger.entries id ≠ []) : id ≠ "" := by
  obtain ⟨row, hrow⟩ := List.exists_mem_of_ne_nil _ hne
  obtain ⟨hmem, hsel⟩ := List.mem_filter.1 hrow
  simp only [Bool.and_eq_true, decide_eq_true_eq] at hsel
  obtain ⟨id', hid', -⟩ := h.final_reserved row hmem (.inl hsel.1)
  obtain ⟨hid', hne'⟩ := reqId_eq_some.1 hid'
  rw [Option.some.inj (hsel.2.symm.trans hid')]
  exact hne'

theorem SweptAtReservation.sweep (hwf : WellFormed ledger) (h : SweptAtReservation ledger) (now ttl : ℤ) :
    SweptAtReservation (expireStaleReservations ledger now ttl) := by
  intro id honly
  have hne : rowsOfKind .commit (expireStaleReservations ledger now ttl).entries id ≠ [] := by
    intro hnil
    simp [onlyTtl, hnil] at honly
  have hid := hwf.sweep.ne_empty_of_commit hne
  have hold := h id
  simp only [committedTotal, reserveOf, rowsOfKind_eq hid] at hold honly ⊢
  rcases hwf.fileOf_sweep id with hfile | ⟨r, hopen, hfile⟩
  · rw [hfile] at honly ⊢
    exact hold honly
  · obtain ⟨hres, hcom, -⟩ := hopen.ttlCommit ttl
    rw [hfile, hres, hcom]
    exact ⟨r, rfl, by simp [sumUsd]⟩

/-- **One `commit_full`** that succeeds: on a request with a final commit it returns the last commit
and nothing happens; otherwise it inserts what it returns, the reservation or, after the sweep,
zero. -/
theorem commitFullTxn_spec {reason : String} {after : Ledger} {out : ℚ}
    (h : commitFullTxn now id reason ledger = .ok (out, after)) :
    (FinallyCommitted ledger id ∧ after = ledger ∧
      ∃ last, (rowsOfKind .commit ledger.entries id).getLast? = some last ∧ out = last.usd) ∨
    ¬ FinallyCommitted ledger id ∧ ∃ r tag, reserveOf ledger.entries id = some r ∧
      out = (if rowsOfKind .commit ledger.entries id = [] then r.usd else 0) ∧
        after = ledger.insert (finalRow .commit id r out now tag) := by
  unfold commitFullTxn at h
  simp only at h
  split at h
  · rename_i last hlast httl
    cases h
    have hne : rowsOfKind .commit ledger.entries id ≠ [] := by
      intro hnil
      simp [hnil] at hlast
    exact .inl ⟨finallyCommitted_iff.2 ⟨hne, httl⟩, rfl, last, hlast, rfl⟩
  · rename_i hother
    right
    refine ⟨fun hfinal => ?_, ?_⟩
    · obtain ⟨hne, httl⟩ := finallyCommitted_iff.1 hfinal
      exact hother _ (List.getLast?_eq_some_getLast hne) httl
    · split at h
      · cases h
      rename_i r hr
      cases h
      exact ⟨r, _, hr, rfl, rfl⟩

/-- **Every call keeps the swept totals at the reservations.** -/
theorem SweptAtReservation.step {s : State} {c : Call} (hwf : WellFormed s.ledger) (h : SweptAtReservation s.ledger) :
    SweptAtReservation (step cfg s c).ledger := by
  unfold Credit.step
  cases c.op with
  | admitRequest args =>
    simp only
    rcases admitRequest_cases with ⟨r, hr⟩ | ⟨r, hr⟩ | ⟨a, swept, snap, ha, hr⟩
    · rw [hr]
      exact h
    · rw [hr]
      exact h.sweep hwf _ _
    · rw [hr]
      have hswept : SweptAtReservation swept := ha.swept_eq ▸ h.sweep hwf _ _
      refine hswept.insert (fun _ id hid => ?_) (by simp [reserveRow])
      obtain rfl := Option.some.inj hid
      refine List.filter_eq_nil_iff.2 fun row hrow hsel => ?_
      simp only [Bool.and_eq_true, decide_eq_true_eq] at hsel
      exact ha.fresh row hrow hsel.2
  | commit id usage floor =>
    refine runImmediate_snd h fun out after htxn => ?_
    obtain ⟨-, rfl | ⟨r, usd, hr, -, rfl⟩⟩ := commitTxn_cases htxn
    · exact h
    · obtain ⟨hmem, hk, -⟩ := hwf.reserveOf_spec hr
      refine h.insert (by simp [finalRow]) fun _ _ _ httl => ?_
      simp [Entry.ttlExpired, finalRow, hwf.reserve_tag r hmem hk] at httl
  | commitFull id reason =>
    refine runImmediate_snd h fun out after htxn => ?_
    obtain ⟨-, rfl, -⟩ | ⟨hnot, r, tag, hr, hout, rfl⟩ := commitFullTxn_spec htxn
    · exact h
    · refine h.insert (by simp [finalRow]) fun _ id' hid' _ => ?_
      obtain rfl := Option.some.inj hid'
      refine ⟨r, hr, ?_⟩
      simp only [finalRow, hout]
      split
      · rename_i hnil
        simp [committedTotal, hnil, sumUsd]
      · rename_i hne
        rw [finallyCommitted_iff, not_and, Bool.not_eq_false] at hnot
        obtain ⟨r', hr', htotal⟩ := h id (hnot hne)
        obtain rfl := Option.some.inj (hr.symm.trans hr')
        rw [htotal, add_zero]
  | release id =>
    refine runImmediate_snd h fun out after htxn => ?_
    obtain rfl | ⟨r, -, -, rfl⟩ := releaseTxn_cases htxn
    · exact h
    · exact h.insert (by simp [finalRow]) (by simp [finalRow])
  | latch reason =>
    refine runImmediate_snd h fun out after htxn => ?_
    cases htxn
    exact h.insert (by simp [latchRow]) (by simp [latchRow])
  | status =>
    simp only
    rcases status_cases cfg c.env (s.overruns c.worker) s.ledger with hr | hr
    · rw [hr]
      exact h
    · rw [hr]
      exact h.sweep hwf _ _

theorem sweptAtReservation_of_reachable {s : State} (h : (credit cfg).Reachable s) : SweptAtReservation s.ledger := by
  have hinv : WellFormed s.ledger ∧ SweptAtReservation s.ledger := by
    refine h.invariant (I := fun s => WellFormed s.ledger ∧ SweptAtReservation s.ledger) ?_ ?_
    · rintro s rfl
      exact ⟨.empty, fun id honly => by simp [onlyTtl, rowsOfKind, State.init] at honly⟩
    · rintro s c t ⟨hwf, hswept⟩ rfl
      exact ⟨hwf.step cfg c, hswept.step hwf⟩
  exact hinv.2

/-! ## The returned amount -/

/-- **What `commit` returns**: the total on record when it leaves a request with a final commit alone,
and its target otherwise. -/
theorem commitTxn_returned {after : Ledger} {out : ℚ × Option ℤ}
    (h : commitTxn cfg rates now id usage floor ledger = .ok (out, after)) :
    (FinallyCommitted ledger id ∧ after = ledger ∧ out.1 = committedTotal ledger id) ∨
      ∃ r, reserveOf ledger.entries id = some r ∧ out.1 = targetTotal cfg rates usage floor r ∧
        committedTotal after id = max (committedTotal ledger id) out.1 ∧
          (FinallyCommitted ledger id → committedTotal ledger id < out.1) := by
  obtain ⟨-, r, hr, ⟨hfinal, -, rfl, rfl⟩ | ⟨hopen, rfl, rfl⟩⟩ := commitTxn_outcome h
  · exact .inl ⟨hfinal, rfl, rfl⟩
  · exact .inr ⟨r, hr, rfl, committedTotal_insert_final ledger id r _ now, fun hfinal => (hopen hfinal).2⟩

/-- The request was finalised by the sweep alone, and the report, complete and without `floor`, costs
less than the reservation. -/
def CheaperThanSwept (cfg : CreditConfig) (rates : String → Option ModelRateRow) (ledger : Ledger)
    (id : String) (usage : Json) (floor : Bool) : Prop :=
  onlyTtl (rowsOfKind .commit ledger.entries id) = true ∧ floor = false ∧
    ∃ r cost, reserveOf ledger.entries id = some r ∧
      (reservedCost cfg rates usage r).isPartial = false ∧
        (reservedCost cfg rates usage r).cost = some cost ∧ cost < r.usd

/-- The total of the commits that `commit_full` does not return: all but the last one, and that one too
when the sweep made all of them. -/
def hiddenTotal (ledger : Ledger) (id : String) : ℚ :=
  let commitRows := rowsOfKind .commit ledger.entries id
  if onlyTtl commitRows then sumUsd commitRows else sumUsd commitRows.dropLast

theorem targetTotal_lt_iff {r : Entry} (hr : reserveOf ledger.entries id = some r)
    (honly : onlyTtl (rowsOfKind .commit ledger.entries id) = true) :
    targetTotal cfg rates usage floor r < r.usd ↔
      CheaperThanSwept cfg rates ledger id usage floor := by
  constructor
  · intro hlt
    unfold targetTotal at hlt
    simp only at hlt
    split at hlt
    · exact absurd hlt (not_lt.2 (le_max_right _ _))
    · rename_i hcomplete
      rw [Bool.not_eq_true, Bool.or_eq_false_iff] at hcomplete
      cases hcost : (reservedCost cfg rates usage r).cost with
      | none =>
        rw [hcost] at hlt
        exact absurd hlt (lt_irrefl _)
      | some cost =>
        rw [hcost] at hlt
        exact ⟨honly, hcomplete.2, r, cost, hr, hcomplete.1, hcost, hlt⟩
  · rintro ⟨-, rfl, r', cost, hr', hcomplete, hcost, hlt⟩
    obtain rfl := Option.some.inj (hr.symm.trans hr')
    simpa [targetTotal, hcomplete, hcost] using hlt

theorem commit_returns_iff {after : Ledger} {out : ℚ × Option ℤ}
    (hwf : WellFormed ledger) (hswept : SweptAtReservation ledger)
    (h : commitTxn cfg rates now id usage floor ledger = .ok (out, after)) :
    out.1 = committedTotal after id ↔ ¬ CheaperThanSwept cfg rates ledger id usage floor := by
  have hfree (hfinal : FinallyCommitted ledger id) :
      ¬ CheaperThanSwept cfg rates ledger id usage floor := by
    rintro ⟨honly, -⟩
    rw [(finallyCommitted_iff.1 hfinal).2] at honly
    cases honly
  rcases commitTxn_returned h with ⟨hfinal, rfl, hout⟩ | ⟨r, hr, hout, htotal, hlt⟩
  · exact iff_of_true hout (hfree hfinal)
  rw [htotal, eq_comm, max_eq_right_iff]
  by_cases hfinal : FinallyCommitted ledger id
  · exact iff_of_true (hlt hfinal).le (hfree hfinal)
  rw [finallyCommitted_iff, not_and, Bool.not_eq_false] at hfinal
  by_cases hnil : rowsOfKind .commit ledger.entries id = []
  · -- the first commit: nothing is on record, and no target is negative
    have husd := hwf.usd_nonneg r (hwf.reserveOf_spec hr).1
    refine iff_of_true ?_ fun hcheaper => ?_
    · rw [hout, committedTotal, hnil]
      exact targetTotal_nonneg husd
    · simp [CheaperThanSwept, hnil, onlyTtl] at hcheaper
  · have honly := hfinal hnil
    obtain ⟨r', hr', hreserved⟩ := hswept id honly
    obtain rfl := Option.some.inj (hr.symm.trans hr')
    rw [← targetTotal_lt_iff hr honly, not_lt, hreserved, hout]

theorem commitFull_returns_iff {reason : String} {after : Ledger} {out : ℚ}
    (h : commitFullTxn now id reason ledger = .ok (out, after)) :
    out = committedTotal after id ↔ hiddenTotal ledger id = 0 := by
  rcases commitFullTxn_spec h with ⟨hfinal, rfl, last, hlast, rfl⟩ | ⟨hnot, r, tag, hr, hout, rfl⟩
  · have hsplit := sumUsd_append (rowsOfKind .commit after.entries id).dropLast [last]
    rw [List.dropLast_append_getLast? last hlast] at hsplit
    rw [hiddenTotal, (finallyCommitted_iff.1 hfinal).2, committedTotal, hsplit]
    simp [sumUsd]
  · rw [committedTotal_insert_commit _ rfl rfl, eq_comm, hiddenTotal]
    simp only [finalRow, add_eq_right]
    by_cases hnil : rowsOfKind .commit ledger.entries id = []
    · simp [committedTotal, hnil, onlyTtl, sumUsd]
    · rw [finallyCommitted_iff, not_and, Bool.not_eq_false] at hnot
      rw [hnot hnil, committedTotal, if_pos rfl]

/-- The request and the amount of a `commit` or `commit_full` that returns. -/
def returned (cfg : CreditConfig) (s : State) (c : Call) : Option (String × ℚ) :=
  match c.op with
  | .commit id usage floor =>
    (commit cfg c.env (s.overruns c.worker) s.ledger id usage floor).1.toOption.map fun usd => (id, usd)
  | .commitFull id reason => (commitFull c.env s.ledger id reason).1.toOption.map fun usd => (id, usd)
  | _ => none

/-- The condition under which a call returns what the ledger will hold. -/
def ReturnsTotal (cfg : CreditConfig) (s : State) (c : Call) : Prop :=
  match c.op with
  | .commit id usage floor => ¬ CheaperThanSwept cfg c.env.rates s.ledger id usage floor
  | .commitFull id _ => hiddenTotal s.ledger id = 0
  | _ => True

/-- **Returned amounts.** In every reachable state, the amount a `commit` or `commit_full` returns is
the ledger's total for the request after the call exactly when the condition on the state before
holds. -/
theorem returned_eq_committedTotal_iff {cfg : CreditConfig} {s : State}
    (hs : (credit cfg).Reachable s) {c : Call} {id : String} {usd : ℚ}
    (h : returned cfg s c = some (id, usd)) :
    usd = committedTotal (step cfg s c).ledger id ↔ ReturnsTotal cfg s c := by
  have hwf := wellFormed_of_reachable hs
  unfold returned at h
  unfold step ReturnsTotal
  cases hop : c.op with
  | commit id' usage floor =>
    simp only [hop, commit] at h ⊢
    rcases runImmediate_cases c.env.db .sqlite s.ledger
      (commitTxn cfg c.env.rates c.env.now id' usage floor) with
      ⟨e, hr⟩ | ⟨-, out, after, htxn, hr⟩
    · rw [hr] at h
      cases h
    · rw [hr] at h ⊢
      cases h
      exact commit_returns_iff hwf (sweptAtReservation_of_reachable hs) htxn
  | commitFull id' reason =>
    simp only [hop, commitFull] at h ⊢
    rcases runImmediate_cases c.env.db .sqlite s.ledger (commitFullTxn c.env.now id' reason) with
      ⟨e, hr⟩ | ⟨-, out, after, htxn, hr⟩
    · rw [hr] at h
      cases h
    · rw [hr] at h ⊢
      cases h
      exact commitFull_returns_iff htxn
  | admitRequest | release | latch | status =>
    simp only [hop] at h
    cases h

/-- A first commit returns the total. -/
theorem returned_eq_committedTotal_iff_first :
    let s := stepAll shippedConfig .init [Sample.call 0 (Sample.plain "a")]
    let c := Sample.call 1 (.commit "a" (Sample.usage 900 100) false)
    returned shippedConfig s c = some ("a", 42 / 10000) ∧
      (42 / 10000 = committedTotal (step shippedConfig s c).ledger "a" ↔
        ReturnsTotal shippedConfig s c) := by
  intro s c
  have hret : returned shippedConfig s c = some ("a", 42 / 10000) := by with_unfolding_all decide
  exact ⟨hret, returned_eq_committedTotal_iff (reachable_stepAll _ _) hret⟩

/-- After the sweep has committed the reservation of 0.0183 USD, a `commit` of 0.0042 USD returns its
target; a `commit_full` after two commits of 0.0042 and 0.0141 USD returns the second. -/
theorem returned_differs :
    (let s := stepAll shippedConfig .init [Sample.call 0 (Sample.plain "a"), Sample.call 20 .status]
      let c := Sample.call 21 (.commit "a" (Sample.usage 900 100) false)
      (credit shippedConfig).Reachable s ∧ returned shippedConfig s c = some ("a", 42 / 10000) ∧
        committedTotal (step shippedConfig s c).ledger "a" = 183 / 10000) ∧
    (let s := step shippedConfig committedOnce
        (Sample.call 2 (.commit "a" (Sample.usage 900 100) true))
      let c := Sample.call 3 (.commitFull "a" "upstream_error")
      (credit shippedConfig).Reachable s ∧ returned shippedConfig s c = some ("a", 141 / 10000) ∧
        committedTotal (step shippedConfig s c).ledger "a" = 183 / 10000) := by
  refine ⟨⟨reachable_stepAll _ _, by with_unfolding_all decide, by with_unfolding_all decide⟩, ?_⟩
  refine ⟨(reachable_stepAll _ _).step rfl, by with_unfolding_all decide, by with_unfolding_all decide⟩

end LlmGateway.Credit
