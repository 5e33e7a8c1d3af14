import LlmGateway.Credit.Cap
import LlmGateway.Credit.Returns

/-!
# Overruns

A request overruns when its commits exceed its reservation. The connector allowance doubles with every
overrun of the window. A worker counts the overruns of its own commits in memory, the snapshot of the
window counts the requests on record (`overrunCount_eq`), and the allowance takes the larger count.

The worker counts inside the transaction, before `COMMIT`, and once for each commit that takes a
request over its reservation, also when an earlier one has done so already. `overruns_exact_iff` gives
the exact condition under which a failed commit leaves the memory alone and the doublings are the
number of requests over their reservation, along every sequence of calls.
-/

namespace LlmGateway.Credit

/-! ## Requests over their reservation -/

/-- Whether the rows of a request in the window hold its reservation and commits above it. -/
def overranIn (window : ℤ × ℤ) (file : List Entry) : Bool :=
  let rows := file.filter (inWindow window)
  (ofKind .reserve rows).getLast?.any fun r => r.usd < sumUsd (ofKind .commit rows)

/-- The requests whose commits in the window exceed their reservation. -/
def overran (entries : List Entry) (window : ℤ × ℤ) : Finset String :=
  (requestsOf entries).filter fun id => overranIn window (fileOf entries id)

variable {window : ℤ × ℤ} {id : String} {ledger : Ledger} {cfg : CreditConfig} {s : State} {c : Call}
  {floor : Bool} {usage : Json}

theorem overranIn_iff {file : List Entry} :
    overranIn window file = true ↔
      ∃ r, (ofKind .reserve (file.filter (inWindow window))).getLast? = some r ∧
        r.usd < sumUsd (ofKind .commit (file.filter (inWindow window))) := by
  simp [overranIn, Option.any_eq_true]

theorem mem_overran {entries : List Entry} :
    id ∈ overran entries window ↔ overranIn window (fileOf entries id) = true := by
  rw [overran, Finset.mem_filter, and_iff_right_iff_imp]
  intro h
  obtain ⟨r, hr, -⟩ := overranIn_iff.1 h
  have hmem := List.mem_of_mem_filter (List.mem_of_mem_filter (List.mem_of_getLast? hr))
  obtain ⟨hmem, hid⟩ := List.mem_filter.1 hmem
  exact covers_requestsOf entries r hmem id (by simpa using hid)

/-- **The snapshot counts the requests over their reservation.** -/
theorem WellFormed.overrunCount_eq (h : WellFormed ledger) (window : ℤ × ℤ) (asOf : Option ℤ) (now ttl : ℤ) :
    (computeWindowSnapshot ledger.entries window asOf now ttl).overrunCount =
      (overran ledger.entries window).card := by
  simp only [computeWindowSnapshot, RowGroups.overrunCount]
  refine Dict.count_eq_card _ _ fun id => ?_
  rw [mem_overran, overranIn_iff, groupRows_commitsByReq, groupRows_reserveByReq, windowRows,
    fileOf_filter]
  obtain ⟨rows, hrows⟩ : ∃ rows, (fileOf ledger.entries id).filter (inWindow window) = rows :=
    ⟨_, rfl⟩
  rw [hrows]
  constructor
  · rintro ⟨r, hr, hlt⟩
    have hne : ofKind .commit rows ≠ [] := by
      intro hnil
      have hmem := List.mem_of_mem_filter (List.mem_of_getLast? hr)
      rw [← hrows] at hmem
      have husd := h.usd_nonneg r (List.mem_of_mem_filter (List.mem_of_mem_filter hmem))
      simp only [hnil, sumUsd, List.map_nil, List.sum_nil] at hlt
      exact absurd hlt (not_lt.2 husd)
    obtain ⟨row, hrow⟩ := List.exists_mem_of_ne_nil _ hne
    have hin : inWindow window row = true := by
      have := List.mem_of_mem_filter hrow
      rw [← hrows] at this
      exact (List.mem_filter.1 this).2
    refine ⟨ofKind .commit rows, by simp [hne], ?_⟩
    simp only [RowGroups.commitsInWindow, Bool.and_eq_true, Bool.or_eq_true, List.any_eq_true,
      Option.any_eq_true, decide_eq_true_eq, groupRows_reserveByReq, fileOf_filter, hrows]
    exact ⟨.inl ⟨row, hrow, hin⟩, r, hr, hlt⟩
  · rintro ⟨commits, hcommits, hover⟩
    simp only [Bool.and_eq_true, Option.any_eq_true, decide_eq_true_eq] at hover
    obtain ⟨-, r, hr, hlt⟩ := hover
    split at hcommits
    · cases hcommits
    · obtain rfl := Option.some.inj hcommits
      exact ⟨r, hr, hlt⟩

/-! ## How the set moves -/

theorem overran_mono {ledger' : Ledger} (h' : WellFormed ledger')
    (hp : ledger.entries <+: ledger'.entries) (window : ℤ × ℤ) :
    overran ledger.entries window ⊆ overran ledger'.entries window := by
  intro id hid
  obtain ⟨rest, hrest⟩ := hp
  rw [mem_overran, overranIn_iff] at hid ⊢
  obtain ⟨r, hr, hlt⟩ := hid
  have hunique := h'.reserve_unique id
  rw [← hrest, fileOf_append] at hunique ⊢
  rw [List.filter_append, ofKind_append, ofKind_append, sumUsd_append]
  have hnonneg : 0 ≤ sumUsd (ofKind .commit ((fileOf rest id).filter (inWindow window))) := by
    refine sumUsd_nonneg fun row hrow => h'.usd_nonneg row ?_
    have hmem := List.mem_of_mem_filter (List.mem_of_mem_filter (List.mem_of_mem_filter hrow))
    rw [← hrest]
    exact List.mem_append_right _ hmem
  refine ⟨r, ?_, hlt.trans_le (le_add_of_nonneg_right hnonneg)⟩
  -- the request has its one reservation already, so the added rows hold none
  have hmem : r ∈ ofKind .reserve (fileOf ledger.entries id) := by
    obtain ⟨hin, hk⟩ := List.mem_filter.1 (List.mem_of_getLast? hr)
    exact List.mem_filter.2 ⟨List.mem_of_mem_filter hin, hk⟩
  have hpos := List.length_pos_of_mem hmem
  have hnil : ofKind .reserve (fileOf rest id) = [] := by
    rw [ofKind_append, List.length_append] at hunique
    exact List.eq_nil_of_length_eq_zero (by omega)
  have hnil' : ofKind .reserve ((fileOf rest id).filter (inWindow window)) = [] := by
    rw [ofKind_filter, hnil]
    rfl
  rw [hnil', List.append_nil]
  exact hr

theorem overran_insert_subset (ledger : Ledger) {row : Entry} (hid : row.reqId = some id) (window : ℤ × ℤ) :
    overran (ledger.insert row).entries window ⊆ insert id (overran ledger.entries window) := by
  intro j hj
  rw [Finset.mem_insert]
  by_cases hjid : j = id
  · exact .inl hjid
  · right
    rw [mem_overran, Ledger.insert, fileOf_append] at hj
    rw [mem_overran]
    simpa [fileOf, hid, Ne.symm hjid] using hj

theorem WellFormed.overran_sweep (h : WellFormed ledger) (now ttl : ℤ) (window : ℤ × ℤ) :
    overran (expireStaleReservations ledger now ttl).entries window =
      overran ledger.entries window := by
  refine Finset.Subset.antisymm (fun id hid => ?_)
    (overran_mono h.sweep (expireStaleReservations_entries ▸ List.prefix_append _ _) window)
  rw [mem_overran] at hid ⊢
  rcases @WellFormed.fileOf_sweep ledger now ttl h id with hfile | ⟨r, hopen, hfile⟩
  · rwa [hfile] at hid
  · -- the conversion commits exactly the reservation
    obtain ⟨r', hr', hlt⟩ := overranIn_iff.1 hid
    obtain ⟨hres, hcom, -⟩ := hopen.ttlCommit ttl
    rw [hfile] at hr' hlt
    rw [ofKind_filter, hres] at hr'
    rw [ofKind_filter, hcom] at hlt
    have hmem := List.mem_of_mem_filter (List.mem_of_getLast? hr')
    obtain rfl := List.mem_singleton.1 hmem
    have husd : 0 ≤ r'.usd := by
      have hin : r' ∈ ofKind .reserve (fileOf ledger.entries id) := by simp [hopen.reserve]
      exact h.usd_nonneg r' (mem_of_mem_ofKind_fileOf hin)
    have hle : sumUsd ([ttlCommit ttl r'].filter (inWindow window)) ≤ r'.usd := by
      by_cases hin : inWindow window (ttlCommit ttl r') = true
      · simp [hin, sumUsd]
      · simpa [hin, sumUsd] using husd
    exact absurd hlt (not_lt.2 hle)

/-! ## Stamps -/

/-- Commits carry the stamp of the reservation of their request. -/
def Stamped (ledger : Ledger) : Prop :=
  ∀ id r, reserveOf ledger.entries id = some r →
    ∀ row ∈ rowsOfKind .commit ledger.entries id, row.windowStart = r.windowStart

theorem Stamped.insert (h : Stamped ledger) {row : Entry}
    (hreserve : row.kind = .reserve → ∀ id, row.requestId = some id →
      rowsOfKind .commit ledger.entries id = [])
    (hcommit : row.kind = .commit → ∀ id, row.requestId = some id →
      ∀ r, reserveOf ledger.entries id = some r → row.windowStart = r.windowStart) :
    Stamped (ledger.insert row) := by
  intro id r hr e he
  rw [rowsOfKind_insert] at he
  by_cases hk : row.kind = .reserve ∧ row.requestId = some id
  · rw [if_neg (by simp [hk.1]), hreserve hk.1 id hk.2] at he
    cases he
  rw [reserveOf, rowsOfKind_insert, if_neg hk] at hr
  split at he
  · rename_i hc
    rcases List.mem_append.1 he with he | he
    · exact h id r hr e he
    · rw [List.mem_singleton.1 he]
      exact hcommit hc.1 id hc.2 r hr
  · exact h id r hr e he

theorem Stamped.sweep (hwf : WellFormed ledger) (h : Stamped ledger)
    (now ttl : ℤ) : Stamped (expireStaleReservations ledger now ttl) := by
  intro id r hr row hrow
  have hid := hwf.sweep.ne_empty_of_commit (List.ne_nil_of_mem hrow)
  have hold := h id
  simp only [reserveOf, rowsOfKind_eq hid] at hold hr hrow
  rcases @WellFormed.fileOf_sweep ledger now ttl hwf id with hfile | ⟨r', hopen, hfile⟩
  · rw [hfile] at hr hrow
    exact hold r hr row hrow
  · obtain ⟨hres, hcom, -⟩ := hopen.ttlCommit ttl
    rw [hfile, hres] at hr
    rw [hfile, hcom] at hrow
    obtain rfl := Option.some.inj hr
    rw [List.mem_singleton.1 hrow]
    rfl

theorem Stamped.change {l l' : Ledger} (hwf : WellFormed l) (h : Stamped l) (hc : Change cfg l l') : Stamped l' := by
  cases hc with
  | sweep => exact h.sweep hwf _ _
  | @reserve args model reservation now windowStart hswept hid hfresh husd =>
    refine h.insert (fun _ id hid => ?_) (by simp [reserveRow])
    obtain rfl := Option.some.inj hid
    refine List.filter_eq_nil_iff.2 fun row hrow hsel => ?_
    simp only [Bool.and_eq_true, decide_eq_true_eq] at hsel
    exact hfresh row hrow hsel.2
  | @commit id r usd now tag hr husd =>
    refine h.insert (by simp [finalRow]) fun _ id' hid' r' hr' => ?_
    obtain rfl := Option.some.inj hid'
    obtain rfl := Option.some.inj (hr.symm.trans hr')
    rfl
  | release => exact h.insert (by simp [finalRow]) (by simp [finalRow])
  | latch => exact h.insert (by simp [latchRow]) (by simp [latchRow])

theorem mem_overran_iff (hwf : WellFormed ledger) (h : Stamped ledger)
    {r : Entry} (hr : reserveOf ledger.entries id = some r) (hwindow : window.1 = r.windowStart) :
    id ∈ overran ledger.entries window ↔ r.usd < committedTotal ledger id := by
  have hid := (reqId_eq_some.1 (hwf.reserveOf_spec hr).2.2.1).2
  have hstamped := h id r hr
  have hunique := hwf.reserve_unique id
  simp only [reserveOf, committedTotal, rowsOfKind_eq hid] at hr hstamped ⊢
  rw [mem_overran, overranIn_iff, ofKind_filter, ofKind_filter]
  have hcommits : (ofKind .commit (fileOf ledger.entries id)).filter (inWindow window) =
      ofKind .commit (fileOf ledger.entries id) :=
    List.filter_eq_self.2 fun row hrow => by simp [inWindow, hwindow, hstamped row hrow]
  have hreserves : (ofKind .reserve (fileOf ledger.entries id)).filter (inWindow window) =
      ofKind .reserve (fileOf ledger.entries id) := by
    refine List.filter_eq_self.2 fun row hrow => ?_
    obtain ⟨x, hx⟩ := List.length_eq_one_iff.1
      (le_antisymm hunique (List.length_pos_of_mem (List.mem_of_getLast? hr)))
    rw [hx] at hr hrow
    obtain rfl := Option.some.inj hr
    rw [List.mem_singleton.1 hrow]
    simp [inWindow, hwindow]
  rw [hcommits, hreserves, hr]
  simp

/-! ## What a commit counts -/

/-- A commit whose report costs more than the reservation `r` of its request and more than what is on
record, and which is not ignored. -/
structure CommitOverruns (cfg : CreditConfig) (rates : String → Option ModelRateRow)
    (ledger : Ledger) (id : String) (usage : Json) (floor : Bool) (r : Entry) (cost : ℚ) :
    Prop where
  unreleased : rowsOfKind .release ledger.entries id = []
  reserve : reserveOf ledger.entries id = some r
  cost_eq : (reservedCost cfg rates usage r).cost = some cost
  reservation_lt : r.usd < cost
  total_lt : committedTotal ledger id < cost
  counted : ¬ FinallyCommitted ledger id ∨ floor = true

section Commit

variable {cfg : CreditConfig} {rates : String → Option ModelRateRow} {ledger : Ledger} {id : String}
  {usage : Json} {floor : Bool} {r : Entry}

theorem lt_targetTotal_iff (hr : 0 ≤ r.usd) {target : ℚ} :
    targetTotal cfg rates usage floor r = target ∧ r.usd < target ↔
      (reservedCost cfg rates usage r).cost = some target ∧ r.usd < target := by
  refine and_congr_left fun hlt => ?_
  unfold targetTotal
  simp only
  cases hcost : (reservedCost cfg rates usage r).cost with
  | none =>
    simp only [Option.getD_none, reduceCtorEq, iff_false]
    split
    · rw [max_eq_right hr]
      exact hlt.ne
    · exact hlt.ne
  | some cost =>
    simp only [Option.getD_some, Option.some.injEq]
    split
    · constructor
      · rintro rfl
        exact (max_eq_left (le_of_lt ((lt_max_iff.1 hlt).resolve_right (lt_irrefl _)))).symm
      · rintro rfl
        exact max_eq_left hlt.le
    · exact Iff.rfl

theorem CommitOverruns.txn {cost : ℚ} (h : CommitOverruns cfg rates ledger id usage floor r cost)
    (hr : 0 ≤ r.usd) (now : ℤ) :
    commitTxn cfg rates now id usage floor ledger =
      .ok ((cost, some r.windowStart),
        ledger.insert (finalRow .commit id r (cost - committedTotal ledger id) now r.tag)) := by
  have htarget : targetTotal cfg rates usage floor r = cost :=
    ((lt_targetTotal_iff hr).2 ⟨h.cost_eq, h.reservation_lt⟩).1
  have hpos : ¬ cost - sumUsd (rowsOfKind .commit ledger.entries id) ≤ 0 := by
    have := h.total_lt
    simp only [committedTotal] at this
    linarith
  have hopen : ¬ (rowsOfKind .commit ledger.entries id ≠ [] && !onlyTtl (rowsOfKind .commit
      ledger.entries id) && !floor) = true := by
    intro hdone
    simp only [Bool.and_eq_true, decide_eq_true_eq, Bool.not_eq_true'] at hdone
    rcases h.counted with hnot | hfloor
    · exact hnot (finallyCommitted_iff.2 hdone.1)
    · rw [hdone.2] at hfloor
      cases hfloor
  unfold commitTxn
  simp only [h.unreleased, h.reserve, htarget]
  rw [if_neg (by simp), if_neg hopen, if_neg (by simp [hpos]), if_pos h.reservation_lt,
    if_neg hpos]
  rfl

theorem commitOverruns_of_txn {now : ℤ} {usd : ℚ} {windowStart : ℤ} {after : Ledger}
    (hwf : WellFormed ledger) (hswept : SweptAtReservation ledger)
    (h : commitTxn cfg rates now id usage floor ledger = .ok ((usd, some windowStart), after)) :
    ∃ r cost, CommitOverruns cfg rates ledger id usage floor r cost := by
  obtain ⟨hrel, r, hr, ⟨-, -, hout, -⟩ | ⟨hopen, hout, -⟩⟩ := commitTxn_outcome h
  · cases hout
  have husd : 0 ≤ r.usd := hwf.usd_nonneg r (hwf.reserveOf_spec hr).1
  obtain ⟨-, hover⟩ := Prod.mk.inj hout
  split at hover
  · rename_i hlt
    obtain ⟨hcost, -⟩ := (lt_targetTotal_iff husd).1 ⟨rfl, hlt⟩
    refine ⟨r, _, hrel, hr, hcost, hlt, ?_, ?_⟩
    · by_cases hfinal : FinallyCommitted ledger id
      · exact (hopen hfinal).2
      by_cases hnil : rowsOfKind .commit ledger.entries id = []
      · rw [committedTotal, hnil]
        exact husd.trans_lt hlt
      · -- the sweep has committed the reservation, which is below the target
        have honly : onlyTtl (rowsOfKind .commit ledger.entries id) = true := by
          by_contra hother
          exact hfinal (finallyCommitted_iff.2 ⟨hnil, Bool.eq_false_iff.2 hother⟩)
        obtain ⟨r', hr', htotal⟩ := hswept id honly
        obtain rfl := Option.some.inj (hr.symm.trans hr')
        rwa [htotal]
    · by_cases hfinal : FinallyCommitted ledger id
      · exact .inr (hopen hfinal).1
      · exact .inl hfinal
  · cases hover

theorem CommitOverruns.unique {r' : Entry} {cost cost' : ℚ}
    (h : CommitOverruns cfg rates ledger id usage floor r cost)
    (h' : CommitOverruns cfg rates ledger id usage floor r' cost') : r' = r :=
  Option.some.inj (h'.reserve.symm.trans h.reserve)

end Commit

/-! ## The count along a run -/

/-- A commit that fails leaves the counts of the workers alone. -/
def RollsBack (cfg : CreditConfig) (s : State) (c : Call) : Prop :=
  ∀ id usage floor e, c.op = .commit id usage floor →
    (commit cfg c.env (s.overruns c.worker) s.ledger id usage floor).1 = .error e →
      (step cfg s c).overruns = s.overruns

/-- Every worker, at every instant, doubles the allowance once for each request over its reservation
in the window. -/
def DoublingsExact (cfg : CreditConfig) (s : State) : Prop :=
  ∀ worker now,
    effectiveMcpAllowance cfg (s.overruns worker) (meterWindow now cfg).1
        (snapshotAt cfg (expireStaleReservations s.ledger now cfg.ttl) now).overrunCount =
      cfg.mcpConnectorAllowanceUsd * 2 ^ (overran s.ledger.entries (meterWindow now cfg)).card

/-- No commit that overruns fails at `COMMIT`; and one that SQLite serves for a request already over
its reservation is made by a worker that has counted fewer overruns than there are. -/
def CountsOnce (cfg : CreditConfig) (s : State) (c : Call) : Prop :=
  ∀ id usage floor r cost, c.op = .commit id usage floor →
    CommitOverruns cfg c.env.rates s.ledger id usage floor r cost →
      c.env.db ≠ .commitFails ∧
        (c.env.db = .ok → r.usd < committedTotal s.ledger id →
          ∀ now, (meterWindow now cfg).1 = r.windowStart →
            (s.overruns c.worker).getD r.windowStart 0 <
              (overran s.ledger.entries (meterWindow now cfg)).card)

theorem doublingsExact_iff (hwf : WellFormed s.ledger) :
    DoublingsExact cfg s ↔ ∀ worker now,
      (s.overruns worker).getD (meterWindow now cfg).1 0 ≤
        (overran s.ledger.entries (meterWindow now cfg)).card := by
  refine forall₂_congr fun worker now => ?_
  rw [effectiveMcpAllowance, snapshotAt, hwf.sweep.overrunCount_eq, hwf.overran_sweep,
    mul_right_inj' cfg.allowance_pos.ne', pow_right_inj₀ two_pos (by norm_num), max_eq_right_iff]

/-- The invariant of the ledger that the counting rests on. -/
structure Counted (s : State) : Prop where
  wellFormed : WellFormed s.ledger
  swept : SweptAtReservation s.ledger
  stamped : Stamped s.ledger

theorem Counted.init : Counted .init where
  wellFormed := .empty
  swept := fun id honly => by simp [onlyTtl, rowsOfKind, State.init] at honly
  stamped := fun id r hr => by simp [reserveOf, rowsOfKind, State.init] at hr

theorem Counted.step (h : Counted s) (cfg : CreditConfig) (c : Call) :
    Counted (step cfg s c) where
  wellFormed := h.wellFormed.step cfg c
  swept := h.swept.step h.wellFormed
  stamped :=
    ((step_changes cfg s c).invariant (I := fun l => WellFormed l ∧ Stamped l)
      (fun _ _ hl hc => ⟨hl.1.change hc, hl.2.change hl.1 hc⟩) ⟨h.wellFormed, h.stamped⟩).2

theorem DoublingsExact.of_overruns_eq (h : Counted s)
    (hd : DoublingsExact cfg s) (hover : (Credit.step cfg s c).overruns = s.overruns) :
    DoublingsExact cfg (Credit.step cfg s c) := by
  rw [doublingsExact_iff (h.step cfg c).wellFormed, hover]
  intro worker now
  exact ((doublingsExact_iff h.wellFormed).1 hd worker now).trans (Finset.card_le_card
    (overran_mono (h.step cfg c).wellFormed (entries_le_step cfg s c) _))

theorem commit_step (cfg : CreditConfig) (hop : c.op = .commit id usage floor) :
    (step cfg s c).overruns = Function.update s.overruns c.worker
      (countOverrun c.env.db (s.overruns c.worker)
        (commitTxn cfg c.env.rates c.env.now id usage floor s.ledger)) := by
  simp only [step, hop, commit]

theorem overruns_eq_of_not_overruns (h : Counted s) (hop : c.op = .commit id usage floor)
    (hnot : ¬ ∃ r cost, CommitOverruns cfg c.env.rates s.ledger id usage floor r cost) :
    (step cfg s c).overruns = s.overruns := by
  rw [commit_step cfg hop]
  have hcount : countOverrun c.env.db (s.overruns c.worker)
      (commitTxn cfg c.env.rates c.env.now id usage floor s.ledger) = s.overruns c.worker := by
    unfold countOverrun
    split
    · rfl
    · rename_i htxn _
      exact absurd (commitOverruns_of_txn h.wellFormed h.swept htxn) hnot
    · rfl
  rw [hcount, Function.update_eq_self]

/-- **A commit that overruns and is served** keeps the doublings exact exactly when its request was not
over the reservation before, or its worker has counted fewer overruns than there are. -/
theorem CommitOverruns.doublings_iff (h : Counted s) (hd : DoublingsExact cfg s) {r : Entry}
    {cost : ℚ} (hop : c.op = .commit id usage floor)
    (ho : CommitOverruns cfg c.env.rates s.ledger id usage floor r cost) (hdb : c.env.db = .ok) :
    DoublingsExact cfg (step cfg s c) ↔ (r.usd < committedTotal s.ledger id →
      ∀ now, (meterWindow now cfg).1 = r.windowStart →
        (s.overruns c.worker).getD r.windowStart 0 <
          (overran s.ledger.entries (meterWindow now cfg)).card) := by
  have h' := h.step cfg c
  have hmono (now : ℤ) :=
    overran_mono h'.wellFormed (entries_le_step cfg s c) (meterWindow now cfg)
  obtain ⟨hmem, -, hid, -⟩ := h.wellFormed.reserveOf_spec ho.reserve
  have htxn := ho.txn (h.wellFormed.usd_nonneg r hmem) c.env.now
  have hledger : (step cfg s c).ledger = s.ledger.insert
      (finalRow .commit id r (cost - committedTotal s.ledger id) c.env.now r.tag) := by
    simp only [step, hop, commit, runImmediate, hdb, htxn]
  have hover : (step cfg s c).overruns = Function.update s.overruns c.worker
      ((s.overruns c.worker).set r.windowStart
        ((s.overruns c.worker).getD r.windowStart 0 + 1)) := by
    rw [commit_step cfg hop, htxn, hdb]
    rfl
  have hsub (now : ℤ) : overran (step cfg s c).ledger.entries (meterWindow now cfg) ⊆
      insert id (overran s.ledger.entries (meterWindow now cfg)) := by
    rw [hledger]
    exact overran_insert_subset s.ledger (finalRow_reqId hid) _
  have hafter (now : ℤ) (hnow : (meterWindow now cfg).1 = r.windowStart) :
      id ∈ overran (step cfg s c).ledger.entries (meterWindow now cfg) := by
    refine (mem_overran_iff (r := r) h'.wellFormed h'.stamped ?_ hnow).2 ?_
    · rw [hledger, reserveOf, rowsOfKind_insert, if_neg (by simp [finalRow])]
      exact ho.reserve
    · rw [hledger, committedTotal_insert_commit _ rfl rfl]
      simpa [finalRow] using ho.reservation_lt
  rw [doublingsExact_iff h.wellFormed] at hd
  rw [doublingsExact_iff h'.wellFormed, hover]
  constructor
  · intro hexact htotal now hnow
    have hle := hexact c.worker now
    rw [Function.update_self, hnow, Dict.getD_eq, Dict.get?_set_self, Option.getD_some] at hle
    -- the request is counted already, so the set does not grow
    have hbefore := (mem_overran_iff h.wellFormed h.stamped ho.reserve hnow).2 htotal
    have hcard := Finset.card_le_card (hsub now)
    rw [Finset.insert_eq_of_mem hbefore] at hcard
    omega
  · intro hcond worker now
    have hcard := Finset.card_le_card (hmono now)
    by_cases hw : worker = c.worker
    · subst hw
      rw [Function.update_self]
      by_cases hnow : (meterWindow now cfg).1 = r.windowStart
      · rw [hnow, Dict.getD_eq, Dict.get?_set_self, Option.getD_some]
        by_cases htotal : r.usd < committedTotal s.ledger id
        · have := hcond htotal now hnow
          omega
        · -- the request joins the set
          have hnot : id ∉ overran s.ledger.entries (meterWindow now cfg) :=
            mt (mem_overran_iff h.wellFormed h.stamped ho.reserve hnow).1 htotal
          have hlt := Finset.card_lt_card
            ((Finset.ssubset_iff_of_subset (hmono now)).2 ⟨id, hafter now hnow, hnot⟩)
          have := hd c.worker now
          rw [hnow] at this
          omega
      · rw [Dict.getD_eq, Dict.get?_set_ne _ hnow, ← Dict.getD_eq]
        exact (hd c.worker now).trans hcard
    · rw [Function.update_of_ne hw]
      exact (hd worker now).trans hcard

/-- **One call** leaves the counts alone when it fails, and the doublings exact, exactly when it meets
the condition. -/
theorem countsOnce_iff (h : Counted s) (hd : DoublingsExact cfg s) (c : Call) :
    RollsBack cfg s c ∧ DoublingsExact cfg (step cfg s c) ↔ CountsOnce cfg s c := by
  have hfree (hover : (step cfg s c).overruns = s.overruns) (hcond : CountsOnce cfg s c) :
      RollsBack cfg s c ∧ DoublingsExact cfg (step cfg s c) ↔ CountsOnce cfg s c :=
    iff_of_true ⟨fun _ _ _ _ _ _ => hover, hd.of_overruns_eq h hover⟩ hcond
  cases hop : c.op with
  | commit id usage floor =>
    by_cases hex : ∃ r cost, CommitOverruns cfg c.env.rates s.ledger id usage floor r cost
    · obtain ⟨r, cost, ho⟩ := hex
      have husd := h.wellFormed.usd_nonneg r (h.wellFormed.reserveOf_spec ho.reserve).1
      cases hdb : c.env.db with
      | ok =>
        have hroll : RollsBack cfg s c := by
          intro id' usage' floor' e hop' he
          obtain ⟨rfl, rfl, rfl⟩ : id' = id ∧ usage' = usage ∧ floor' = floor := by
            simpa using hop'.symm.trans hop
          simp only [commit, runImmediate, hdb, ho.txn husd] at he
          cases he
        rw [and_iff_right hroll, ho.doublings_iff h hd hop hdb]
        constructor
        · intro hcond id' usage' floor' r' cost' hop' ho'
          obtain ⟨rfl, rfl, rfl⟩ : id' = id ∧ usage' = usage ∧ floor' = floor := by
            simpa using hop'.symm.trans hop
          obtain rfl := ho.unique ho'
          exact ⟨by simp [hdb], fun _ => hcond⟩
        · intro hcond
          exact (hcond id usage floor r cost hop ho).2 hdb
      | queryFails =>
        refine hfree ?_ fun _ _ _ _ _ _ _ => ⟨by simp [hdb], by simp [hdb]⟩
        rw [commit_step cfg hop, hdb]
        exact Function.update_eq_self _ _
      | commitFails =>
        -- the count is raised although the transaction is rolled back
        refine iff_of_false ?_ fun hcond => (hcond id usage floor r cost hop ho).1 hdb
        rintro ⟨hroll, -⟩
        have hsame := hroll id usage floor .sqlite hop (by
          simp only [commit, runImmediate, hdb, ho.txn husd]
          rfl)
        have hcount := congrArg (fun ov => (ov c.worker).getD r.windowStart 0) hsame
        simp only [commit_step cfg hop, Function.update_self, ho.txn husd, hdb, countOverrun,
          Dict.getD_eq, Dict.get?_set_self, Option.getD_some] at hcount
        omega
    · refine hfree (overruns_eq_of_not_overruns h hop hex) ?_
      intro id' usage' floor' r cost hop' ho
      obtain ⟨rfl, rfl, rfl⟩ : id' = id ∧ usage' = usage ∧ floor' = floor := by
        simpa using hop'.symm.trans hop
      exact absurd ⟨r, cost, ho⟩ hex
  | admitRequest | commitFull | release | latch | status =>
    refine hfree (by simp only [step, hop]) fun _ _ _ _ _ hop' => ?_
    rw [hop] at hop'
    cases hop'

theorem doublingsExact_init (cfg : CreditConfig) : DoublingsExact cfg .init :=
  (doublingsExact_iff Counted.init.wellFormed).2 fun _ _ => Nat.zero_le _

/-- **Overruns are counted once.** Along every sequence of calls: each commit that fails leaves the
counts alone and after each call the doublings in force are the number of requests over their
reservation, exactly when every call meets the condition. -/
theorem overruns_exact_iff (cfg : CreditConfig) (calls : List Call) :
    System.EachStep (step cfg) (fun s c => RollsBack cfg s c ∧ DoublingsExact cfg (step cfg s c))
        .init calls ↔
      System.EachStep (step cfg) (CountsOnce cfg) .init calls :=
  System.eachStep_iff_eachStep (W := Counted) (fun _ c h => h.step cfg c)
    (fun _ c h hd => countsOnce_iff h hd c) .init (doublingsExact_init cfg) calls

/-- A request reserved at 0.0183 USD and committed, with `floor`, at 0.0327 and then at 0.0402 USD. -/
def overranTwice : State :=
  stepAll shippedConfig .init [Sample.call 0 (Sample.plain "a"),
    Sample.call 1 (.commit "a" (Sample.usage 900 2000) true),
    Sample.call 2 (.commit "a" (Sample.usage 900 2500) true)]

/-- A commit above the reservation whose `COMMIT` fails raises the count from 0 to 1; and the one request
over its reservation doubles the allowance twice. -/
theorem overruns_differ :
    (let s := stepAll shippedConfig .init [Sample.call 0 (Sample.plain "a")]
      let c := Sample.call 1 (.commit "a" (Sample.usage 900 2000) false)
      let failing := { c with env := { c.env with db := .commitFails } }
      (credit shippedConfig).Reachable s ∧ ¬ RollsBack shippedConfig s failing) ∧
    (credit shippedConfig).Reachable overranTwice ∧
      ¬ DoublingsExact shippedConfig overranTwice := by
  refine ⟨⟨reachable_stepAll _ _, fun hroll => ?_⟩, reachable_stepAll _ _, fun hexact => ?_⟩
  · have hsame := hroll "a" (Sample.usage 900 2000) false .sqlite rfl (by with_unfolding_all decide)
    have hcount := congrArg
      (fun ov => (ov 0).getD (meterWindow (Sample.call 0 .status).env.now shippedConfig).1 0) hsame
    revert hcount
    with_unfolding_all decide
  · have hallowance := hexact 0 (Sample.call 3 .status).env.now
    revert hallowance
    with_unfolding_all decide

end LlmGateway.Credit
