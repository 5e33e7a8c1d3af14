import LlmGateway.Credit.Sweep

/-!
# MCP requests are serialized

With a cap configured, an MCP-class request admitted at `t₀` keeps every other one out until it is
finalised or four reservation lifetimes are over. The gate sees it through the query of the current
window. Two things could hide it there, and neither does: after a window roll the reservation is
still selected by its time, since the windows overlap by four lifetimes
(`inWindow_of_lt_four_ttl`), and a commit made by the sweep does not count as final for as long
(`openMcpCount_pos`).
-/

namespace LlmGateway.Credit

/-- A request is finalised by a release, or by a commit that is not the sweep's. -/
def Finalised (entries : List Entry) (id : String) : Prop :=
  rowsOfKind .release entries id ≠ [] ∨ ∃ c ∈ rowsOfKind .commit entries id, c.ttlExpired = false

instance (entries : List Entry) (id : String) : Decidable (Finalised entries id) :=
  inferInstanceAs (Decidable (_ ∨ _))

/-- Whether the gate has a cap: the stops are set or the balance is dated. -/
def CreditConfig.hasCap (cfg : CreditConfig) : Bool :=
  cfg.hardStopUsd.isSome || cfg.availableBalance.asOf.isSome

variable {cfg : CreditConfig} {now : ℤ}

theorem CreditConfig.eq_none_of_not_hasCap (h : ¬ cfg.hasCap = true) :
    cfg.hardStopUsd = none ∧ cfg.mcpConnectorStopUsd = none ∧
      cfg.availableBalance.asOf = none := by
  have hstops := cfg.stops
  simp only [hasCap, Bool.or_eq_true, not_or, Bool.not_eq_true, Option.isSome_eq_false_iff,
    Option.isNone_iff_eq_none] at h
  obtain ⟨hhard, hasOf⟩ := h
  rw [hhard, Option.isSome_none, eq_comm, Option.isSome_eq_false_iff,
    Option.isNone_iff_eq_none] at hstops
  exact ⟨hhard, hstops, hasOf⟩

theorem exists_computeCaps (h : cfg.hasCap = true) (committedUsd openUsd spendUsd : ℚ) :
    ∃ caps, computeCaps cfg committedUsd openUsd spendUsd = some caps := by
  have hstops := cfg.stops
  unfold CreditConfig.hasCap at h
  unfold computeCaps
  cases hhard : cfg.hardStopUsd with
  | none =>
    rw [hhard] at h
    obtain ⟨asOf, hasOf⟩ := Option.isSome_iff_exists.1 (by simpa using h)
    simp only [hasOf]
    exact ⟨_, rfl⟩
  | some hard =>
    rw [hhard] at hstops
    obtain ⟨stop, hstop⟩ := Option.isSome_iff_exists.1 hstops.symm
    simp only [hstop]
    exact ⟨_, rfl⟩

theorem inWindow_of_lt_four_ttl {row : Entry} (hle : row.createdAt ≤ now) (hlt : now < row.createdAt + 4 * cfg.ttl) :
    inWindow (meterWindow now cfg) row = true := by
  have hstart := meterWindow_overlap now cfg
  have hreset := lt_meterWindow_snd now cfg
  have h₁ : (meterWindow now cfg).1 ≤ row.createdAt := by omega
  have h₂ : row.createdAt < (meterWindow now cfg).2 := by omega
  simp [inWindow, h₁, h₂]

theorem not_finalised_sweep {ledger : Ledger} {ttl : ℤ} {id : String} (h : ¬ Finalised ledger.entries id) :
    ¬ Finalised (expireStaleReservations ledger now ttl).entries id := by
  rw [Finalised, not_or, not_not] at h ⊢
  obtain ⟨hrel, hcommit⟩ := h
  push Not at hcommit
  rw [rowsOfKind_release_sweep]
  refine ⟨hrel, ?_⟩
  rintro ⟨c, hc, hfinal⟩
  rw [rowsOfKind_sweep, List.mem_append] at hc
  rcases hc with hc | hc
  · exact hcommit c hc hfinal
  · obtain ⟨r, -, rfl⟩ := List.mem_map.1 (List.mem_of_mem_filter hc)
    simp [ttlCommit, Entry.ttlExpired] at hfinal

/-- **The gate sees the reservation**: one of the MCP class that is not finalised and less than four
lifetimes old is counted as open in the current window. -/
theorem WellFormed.openMcpCount_pos {ledger : Ledger} (h : WellFormed ledger)
    {r : Entry} {id : String} {asOf : Option ℤ} (hr : r ∈ ledger.entries)
    (hk : r.kind = .reserve) (hid : r.reqId = some id) (hmcp : r.mcpClass = true)
    (hfinal : ¬ Finalised ledger.entries id) (hle : r.createdAt ≤ now)
    (hlt : now < r.createdAt + 4 * cfg.ttl) :
    0 < (computeWindowSnapshot ledger.entries (meterWindow now cfg) asOf now
      cfg.ttl).openMcpCount := by
  obtain ⟨rows, hrows⟩ : ∃ rows, windowRows ledger.entries (meterWindow now cfg) = rows := ⟨_, rfl⟩
  have hin := inWindow_of_lt_four_ttl hle hlt
  have hfile : fileOf rows id =
      (fileOf ledger.entries id).filter (inWindow (meterWindow now cfg)) := by
    rw [← hrows, windowRows, fileOf_filter]
  -- the selected rows hold the reservation of the request and no other
  have hreserve : (groupRows rows).reserveByReq.get? id = some r := by
    have hmem : r ∈ ofKind .reserve (fileOf rows id) := by
      rw [hfile]
      simp [ofKind, fileOf, hr, hk, hid, hin]
    have hlen : (ofKind .reserve (fileOf rows id)).length ≤ 1 := by
      rw [hfile, ofKind_filter]
      exact (List.length_filter_le _ _).trans (h.reserve_unique id)
    obtain ⟨x, hx⟩ := List.length_eq_one_iff.1 (le_antisymm hlen (List.length_pos_of_mem hmem))
    rw [groupRows_reserveByReq, hx]
    rw [hx, List.mem_singleton] at hmem
    rw [hmem]
    rfl
  have hne := (reqId_eq_some.1 hid).2
  rw [Finalised, not_or, not_not, rowsOfKind_eq hne, rowsOfKind_eq hne] at hfinal
  obtain ⟨hrel, hcommit⟩ := hfinal
  push Not at hcommit
  have hreleased : id ∉ (groupRows rows).releasedReqIds := by
    rw [mem_groupRows_releasedReqIds, hfile, ofKind_filter, hrel]
    simp
  have hall : (ofKind .commit (fileOf rows id)).all Entry.ttlExpired = true := by
    refine List.all_eq_true.2 fun c hc => ?_
    rw [hfile, ofKind_filter] at hc
    simpa using hcommit c (List.mem_of_mem_filter hc)
  have hage : now - r.createdAt < 4 * max Calendar.minute cfg.ttl := by
    have := le_max_right Calendar.minute cfg.ttl
    omega
  simp only [computeWindowSnapshot, hrows, RowGroups.openMcpCount]
  refine Dict.count_pos hreserve ?_
  by_cases hnil : ofKind .commit (fileOf rows id) = []
  · simp [RowGroups.isOpen, hmcp, hreleased, hnil, hin]
  · simp [RowGroups.heldByTtl, hmcp, hreleased, hnil, hall, hage]

/-- The call `c` admits a request in the state `s`, with the answer `a`. -/
def Admits (cfg : CreditConfig) (s : State) (c : Call) (a : Admit) : Prop :=
  ∃ args, c.op = .admitRequest args ∧
    (admitRequest cfg c.env (s.overruns c.worker) s.ledger args).1 = .admitted a

theorem Admits.reserve {s : State} {c : Call} {a : Admit} (h : Admits cfg s c a) :
    ∃ args swept snap, c.op = .admitRequest args ∧
      Admission cfg c.env (s.overruns c.worker) s.ledger args swept snap a ∧
        (step cfg s c).ledger = swept.insert (reserveRow args a.model a.reservation c.env.now
          (meterWindow c.env.now cfg).1) := by
  obtain ⟨args, hop, hdecision⟩ := h
  rcases admitRequest_cases with ⟨r, hr⟩ | ⟨r, hr⟩ | ⟨a', swept, snap, ha, hr⟩
  · rw [hr] at hdecision
    cases hdecision
  · rw [hr] at hdecision
    cases hdecision
  · rw [hr] at hdecision
    cases hdecision
    refine ⟨args, swept, snap, hop, ha, ?_⟩
    simp only [step, hop]
    rw [hr]

/-- **MCP requests are serialized.** In any sequence of calls whose clock readings do not decrease,
an MCP-class request admitted after another one finds that one finalised, or four lifetimes old. -/
theorem mcp_serialized {cfg : CreditConfig} (hcap : cfg.hasCap = true) {before between : List Call}
    {first second : Call} {s₁ s₂ : State} {a b : Admit}
    (hbefore : (credit cfg).Run .init before s₁) (ha : Admits cfg s₁ first a)
    (hamcp : a.mcpClass = true) (hbetween : (credit cfg).Run (step cfg s₁ first) between s₂)
    (hb : Admits cfg s₂ second b) (hbmcp : b.mcpClass = true)
    (hclock : (before ++ first :: between ++ [second]).Pairwise fun c d => c.env.now ≤ d.env.now) :
    Finalised s₂.ledger.entries a.requestId ∨ first.env.now + 4 * cfg.ttl ≤ second.env.now := by
  by_contra hnot
  push Not at hnot
  obtain ⟨hfinal, hlt⟩ := hnot
  have hreach : (credit cfg).Reachable s₂ :=
    (((System.Reachable.init rfl).run hbefore).step rfl).run hbetween
  obtain ⟨args, swept, snap, -, hadm, hstep⟩ := ha.reserve
  obtain ⟨args', swept', snap', -, hadm', -⟩ := hb.reserve
  have hle : first.env.now ≤ second.env.now := by
    rw [List.append_assoc, List.pairwise_append, List.cons_append, List.pairwise_cons] at hclock
    exact hclock.2.1.1 second (List.mem_append_right _ (List.mem_singleton_self _))
  -- the reservation of the first request is still in the table the second one reads
  obtain ⟨r, hr⟩ : ∃ r, r = reserveRow args a.model a.reservation first.env.now
      (meterWindow first.env.now cfg).1 := ⟨_, rfl⟩
  have hmem : r ∈ swept'.entries := by
    have hins : r ∈ (step cfg s₁ first).ledger.entries := by
      rw [hstep, hr]
      exact List.mem_append_right _ (List.mem_singleton_self _)
    rw [hadm'.swept_eq]
    exact List.mem_append_left _ ((entries_le_of_run hbetween).subset hins)
  have hid : r.reqId = some a.requestId := by
    rw [hr, hadm.requestId_eq]
    exact reserveRow_reqId hadm.requestId_ne _ _ _ _
  have hopen : 0 < snap'.openMcpCount := by
    rw [hadm'.snap_eq]
    have hwf : WellFormed swept' := hadm'.swept_eq ▸ (wellFormed_of_reachable hreach).sweep
    refine hwf.openMcpCount_pos hmem ?_ hid ?_ ?_ ?_ ?_
    · rw [hr]
      rfl
    · rw [hr]
      exact hadm.mcpClass_eq.symm.trans hamcp
    · rw [hadm'.swept_eq]
      exact not_finalised_sweep hfinal
    · rw [hr]
      exact hle
    · rw [hr]
      exact hlt
  obtain ⟨caps, hcaps⟩ := exists_computeCaps hcap snap'.committedUsd snap'.openReservationsUsd
    snap'.spendSinceAsOfUsd
  have hzero := ((checkBudget_ok hcaps hadm'.budget).2 (hadm'.mcpClass_eq ▸ hbmcp)).1
  omega

/-- The shipped configuration with stops. -/
def cappedConfig : CreditConfig :=
  { shippedConfig with
    hardStopUsd := some 150
    mcpConnectorStopUsd := some 100
    stops := rfl
    hardStop_lt := by
      intro hard h
      obtain rfl := Option.some.inj h
      norm_num [shippedConfig]
    mcpStop_le := by
      intro mcp hm hard hh
      obtain rfl := Option.some.inj hm
      obtain rfl := Option.some.inj hh
      norm_num }

/-- An admission of the MCP class, read off the answer. -/
def Decision.isMcpAdmit : Decision → Bool
  | admitted a => a.mcpClass
  | refused _ => false

theorem exists_admits {s : State} {c : Call} {args : AdmitArgs} (hop : c.op = .admitRequest args)
    (h : (admitRequest cfg c.env (s.overruns c.worker) s.ledger args).1.isMcpAdmit = true) :
    ∃ a, Admits cfg s c a ∧ a.mcpClass = true := by
  cases hd : (admitRequest cfg c.env (s.overruns c.worker) s.ledger args).1 with
  | admitted a => exact ⟨a, ⟨args, hop, hd⟩, by rwa [hd] at h⟩
  | refused r =>
    rw [hd] at h
    cases h

/-- A second MCP request is admitted twenty minutes after the first, which was committed in between
and after the sweep had converted it. -/
theorem mcp_serialized_committed :
    let first := Sample.call 0 (Sample.mcp "a")
    let between := [Sample.call 16 .status, Sample.call 18 (.commit "a" (Sample.usage 900 100) false)]
    let second := Sample.call 20 (Sample.mcp "b")
    let s₂ := stepAll cappedConfig (step cappedConfig .init first) between
    ∃ a b, Admits cappedConfig .init first a ∧ a.mcpClass = true ∧ Admits cappedConfig s₂ second b ∧
      b.mcpClass = true ∧ (Finalised s₂.ledger.entries a.requestId ∨
        first.env.now + 4 * cappedConfig.ttl ≤ second.env.now) := by
  intro first between second s₂
  obtain ⟨a, ha, hamcp⟩ : ∃ a, Admits cappedConfig .init first a ∧ a.mcpClass = true :=
    exists_admits rfl (by with_unfolding_all decide)
  obtain ⟨b, hb, hbmcp⟩ : ∃ b, Admits cappedConfig s₂ second b ∧ b.mcpClass = true :=
    exists_admits rfl (by with_unfolding_all decide)
  exact ⟨a, b, ha, hamcp, hb, hbmcp, mcp_serialized rfl (.nil _) ha hamcp
    (run_stepAll cappedConfig _ between) hb hbmcp (by decide)⟩

end LlmGateway.Credit
