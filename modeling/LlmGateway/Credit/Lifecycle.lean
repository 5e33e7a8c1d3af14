import LlmGateway.Credit.Policy
import LlmGateway.Credit.Shares

/-!
# The life of a reservation

Whatever a call does to the ledger is a sequence of elementary changes (`Change`): a sweep, the
insertion of a fresh reservation right after a sweep at the same clock reading, of a commit or a
release for a reserved request, or of a latch. `step_changes` says so of every call; it is the only
place where the transactions are taken apart for their effect on the table.

`WellFormed` is the invariant: amounts are not negative, a request is reserved once and its rows are
filed under it, and every open reservation is younger than the watermark, so that the sweep's lower
bound hides nothing from it. It holds in every reachable state (`wellFormed_of_reachable`).
-/

namespace LlmGateway.Credit

/-! ## Transactions and their results -/

theorem runImmediate_cases {ε α : Type} (db : Sqlite) (unavailable : ε) (ledger : Ledger)
    (fn : Ledger → Except ε (α × Ledger)) :
    (∃ e, runImmediate db unavailable ledger fn = (.error e, ledger)) ∨
      db = .ok ∧ ∃ result after, fn ledger = .ok (result, after) ∧
        runImmediate db unavailable ledger fn = (.ok result, after) := by
  unfold runImmediate
  cases hfn : fn ledger with
  | error e => cases db <;> exact .inl ⟨_, rfl⟩
  | ok p =>
    cases db with
    | ok => exact .inr ⟨rfl, p.1, p.2, rfl, rfl⟩
    | queryFails | commitFails => exact .inl ⟨_, rfl⟩

variable {after ledger : Ledger} {cfg : CreditConfig} {id : String} {now : ℤ} {s : State}

theorem runImmediate_snd {ε α : Type} {P : Ledger → Prop} {db : Sqlite} {unavailable : ε}
    {fn : Ledger → Except ε (α × Ledger)} (hkeep : P ledger)
    (hfn : ∀ result after, fn ledger = .ok (result, after) → P after) :
    P (runImmediate db unavailable ledger fn).2 := by
  rcases runImmediate_cases db unavailable ledger fn with ⟨e, h⟩ | ⟨-, result, after, htxn, h⟩
  · rw [h]
    exact hkeep
  · rw [h]
    exact hfn result after htxn

section Admit

variable {cfg : CreditConfig} {env : Env} {overruns : Overruns} {ledger : Ledger} {args : AdmitArgs}

/-- What an admission has established. -/
structure Admission (cfg : CreditConfig) (env : Env) (overruns : Overruns) (ledger : Ledger)
    (args : AdmitArgs) (swept : Ledger) (snap : WindowSnapshot) (a : Admit) : Prop where
  swept_eq : swept = expireStaleReservations ledger env.now cfg.ttl
  snap_eq : snap = computeWindowSnapshot swept.entries (meterWindow env.now cfg)
    cfg.availableBalance.asOf env.now cfg.ttl
  asOf_le : ∀ asOf ∈ cfg.availableBalance.asOf, asOf ≤ env.now
  requestId_ne : args.requestId ≠ ""
  fresh : ∀ row ∈ swept.entries, row.requestId ≠ some args.requestId
  priced : ∃ rateRow, worstCaseUsd args.upstreamBody rateRow args.tokenCount
    (effectiveConfig cfg overruns (meterWindow env.now cfg).1 snap.overrunCount) = .ok a.reservation
  budget : checkBudget cfg snap a.reservation (meterWindow env.now cfg).2 = .ok a.headroomUsd
  requestId_eq : a.requestId = args.requestId
  mcpClass_eq : a.mcpClass = a.reservation.mcpClass

theorem admitTxn_cases {model : String} {rateRow : ModelRateRow} {decision : Decision}
    {after : Ledger} (hasOf : ∀ asOf ∈ cfg.availableBalance.asOf, asOf ≤ env.now)
    (hid : args.requestId ≠ "")
    (h : admitTxn cfg overruns env.now args model rateRow ledger = .ok (decision, after)) :
    (∃ r, decision = .refused r ∧ after = expireStaleReservations ledger env.now cfg.ttl) ∨
      ∃ a swept snap, decision = .admitted a ∧
        Admission cfg env overruns ledger args swept snap a ∧
          after = swept.insert (reserveRow args a.model a.reservation env.now
            (meterWindow env.now cfg).1) := by
  unfold admitTxn at h
  simp only at h
  split at h
  · cases h
    exact .inl ⟨_, rfl, rfl⟩
  rename_i hfresh
  split at h
  · cases h
  rename_i reservation hprice
  split at h
  · cases h
    exact .inl ⟨_, rfl, rfl⟩
  rename_i headroom hbudget
  cases h
  refine .inr ⟨_, _, _, rfl, ⟨rfl, rfl, hasOf, hid, ?_, ⟨rateRow, hprice⟩, hbudget, rfl, rfl⟩, rfl⟩
  intro row hrow heq
  exact hfresh (List.any_eq_true.2 ⟨row, hrow, by simpa using heq⟩)

theorem admitRequest_cases :
    (∃ r, admitRequest cfg env overruns ledger args = (.refused r, ledger)) ∨
      (∃ r, admitRequest cfg env overruns ledger args =
        (.refused r, expireStaleReservations ledger env.now cfg.ttl)) ∨
      ∃ a swept snap, Admission cfg env overruns ledger args swept snap a ∧
        admitRequest cfg env overruns ledger args = (.admitted a,
          swept.insert (reserveRow args a.model a.reservation env.now
            (meterWindow env.now cfg).1)) := by
  unfold admitRequest
  split
  · exact .inl ⟨_, rfl⟩
  rename_i hasOf
  split
  · exact .inl ⟨_, rfl⟩
  rename_i hid
  simp only
  split
  · exact .inl ⟨_, rfl⟩
  split
  · exact .inl ⟨_, rfl⟩
  rename_i rateRow _
  have hasOf : ∀ asOf ∈ cfg.availableBalance.asOf, asOf ≤ env.now := by
    intro asOf h
    rw [Option.mem_def] at h
    simpa [h] using hasOf
  have hid : args.requestId ≠ "" := by
    intro h
    exact hid (by rw [h]; decide)
  rcases runImmediate_cases env.db .unavailable ledger
    (admitTxn cfg overruns env.now args (normalizeModelId args.model) rateRow) with
    ⟨e, he⟩ | ⟨-, decision, after, htxn, he⟩
  · rw [he]
    cases e
    · exact .inl ⟨_, rfl⟩
    · exact .inl ⟨_, rfl⟩
  · rw [he]
    rcases admitTxn_cases hasOf hid htxn with ⟨r, rfl, rfl⟩ | ⟨a, swept, snap, rfl, ha, rfl⟩
    · exact .inr (.inl ⟨r, rfl⟩)
    · exact .inr (.inr ⟨a, swept, snap, ha, rfl⟩)

theorem checkBudget_ok {snap : WindowSnapshot} {reservation : Reservation} {resetAt : ℤ}
    {headroom : Option ℚ} {caps : ℚ × ℚ × ℚ}
    (hcaps : computeCaps cfg snap.committedUsd snap.openReservationsUsd snap.spendSinceAsOfUsd =
      some caps)
    (h : checkBudget cfg snap reservation resetAt = .ok headroom) :
    snap.committedUsd + snap.openReservationsUsd + reservation.usd ≤ caps.1 ∧
      (reservation.mcpClass = true → snap.openMcpCount = 0 ∧
        ∀ stop ∈ cfg.mcpConnectorStopUsd, stop ≠ 0 →
          snap.committedUsd + snap.openReservationsUsd + reservation.usd ≤ stop) := by
  obtain ⟨cap, hardHeadroom, mcpHeadroom⟩ := caps
  unfold checkBudget at h
  simp only [hcaps] at h
  split at h
  · cases h
  split at h
  · cases h
  rename_i hserial
  split at h
  · rename_i hmcp
    split at h
    · cases h
    rename_i hle
    rw [not_lt, le_min_iff] at hle
    refine ⟨hle.1, fun _ => ⟨?_, fun stop hstop hne => ?_⟩⟩
    · simpa [hmcp] using hserial
    · rw [Option.mem_def] at hstop
      simpa [mcpStopOr, hstop, hne] using hle.2
  · rename_i hmcp
    split at h
    · cases h
    rename_i hle
    exact ⟨not_lt.1 hle, fun h => absurd h hmcp⟩

end Admit

theorem commitTxn_cases {rates : String → Option ModelRateRow} {usage : Json} {floor : Bool} {out : ℚ × Option ℤ}
    (h : commitTxn cfg rates now id usage floor ledger = .ok (out, after)) :
    rowsOfKind .release ledger.entries id = [] ∧
      (after = ledger ∨ ∃ r usd, reserveOf ledger.entries id = some r ∧ 0 ≤ usd ∧
        after = ledger.insert (finalRow .commit id r usd now r.tag)) := by
  unfold commitTxn at h
  split at h
  · cases h
  rename_i hrel
  refine ⟨not_not.1 hrel, ?_⟩
  split at h
  · cases h
  rename_i r hr
  simp only at h
  split at h
  · cases h
    exact .inl rfl
  split at h
  · cases h
    exact .inl rfl
  cases h
  refine .inr ⟨r, _, hr, ?_, rfl⟩
  split <;> linarith

theorem commitFullTxn_cases {reason : String} {out : ℚ} (h : commitFullTxn now id reason ledger = .ok (out, after)) :
    after = ledger ∨ ∃ r usd tag, reserveOf ledger.entries id = some r ∧ (usd = r.usd ∨ usd = 0) ∧
      after = ledger.insert (finalRow .commit id r usd now tag) := by
  unfold commitFullTxn at h
  simp only at h
  split at h
  · cases h
    exact .inl rfl
  split at h
  · cases h
  rename_i r hr
  cases h
  refine .inr ⟨r, _, _, hr, ?_, rfl⟩
  split
  · exact .inl rfl
  · exact .inr rfl

theorem releaseTxn_cases {out : Unit} (h : releaseTxn now id ledger = .ok (out, after)) :
    after = ledger ∨ ∃ r, reserveOf ledger.entries id = some r ∧
      rowsOfKind .commit ledger.entries id = [] ∧
        after = ledger.insert (finalRow .release id r 0 now r.tag) := by
  unfold releaseTxn at h
  split at h
  · cases h
    exact .inl rfl
  split at h
  · cases h
  rename_i hcommit
  split at h
  · cases h
  rename_i r hr
  cases h
  exact .inr ⟨r, hr, not_not.1 hcommit, rfl⟩

theorem status_cases (cfg : CreditConfig) (env : Env) (overruns : Overruns) (ledger : Ledger) :
    (status cfg env overruns ledger).2 = ledger ∨
      (status cfg env overruns ledger).2 = expireStaleReservations ledger env.now cfg.ttl := by
  unfold status
  rcases runImmediate_cases env.db .sqlite ledger (statusTxn cfg overruns env.now) with
    ⟨e, h⟩ | ⟨-, out, after, htxn, h⟩
  · rw [h]
    exact .inl rfl
  · rw [h]
    cases htxn
    exact .inr rfl

/-! ## Elementary changes -/

/-- One elementary change of the ledger. -/
inductive Change (cfg : CreditConfig) : Ledger → Ledger → Prop
  | sweep (ledger : Ledger) (now : ℤ) :
    Change cfg ledger (expireStaleReservations ledger now cfg.ttl)
  /-- a fresh reservation, right after a sweep at the same reading -/
  | reserve {ledger : Ledger} {args : AdmitArgs} {model : String} {reservation : Reservation}
    {now windowStart : ℤ} (hswept : ledger.ttlSweptBefore = some (now - cfg.ttl))
    (hid : args.requestId ≠ "")
    (hfresh : ∀ row ∈ ledger.entries, row.requestId ≠ some args.requestId)
    (husd : 0 ≤ reservation.usd) :
    Change cfg ledger (ledger.insert (reserveRow args model reservation now windowStart))
  | commit {ledger : Ledger} {id : String} {r : Entry} {usd : ℚ} {now : ℤ} {tag : Option String}
    (hr : reserveOf ledger.entries id = some r) (husd : 0 ≤ usd ∨ usd = r.usd) :
    Change cfg ledger (ledger.insert (finalRow .commit id r usd now tag))
  | release {ledger : Ledger} {id : String} {r : Entry} {now : ℤ}
    (hr : reserveOf ledger.entries id = some r)
    (hcommit : rowsOfKind .commit ledger.entries id = []) :
    Change cfg ledger (ledger.insert (finalRow .release id r 0 now r.tag))
  | latch (ledger : Ledger) (now : ℤ) (reason : String) :
    Change cfg ledger (ledger.insert (latchRow cfg now reason))

/-- Sequences of elementary changes. -/
abbrev Changes (cfg : CreditConfig) : Ledger → Ledger → Prop := Relation.ReflTransGen (Change cfg)

theorem Admission.change {env : Env} {overruns : Overruns}
    {swept : Ledger} {args : AdmitArgs} {snap : WindowSnapshot} {a : Admit}
    (ha : Admission cfg env overruns ledger args swept snap a) :
    Change cfg swept (swept.insert (reserveRow args a.model a.reservation env.now
      (meterWindow env.now cfg).1)) := by
  obtain ⟨rateRow, hprice⟩ := ha.priced
  have hswept : swept.ttlSweptBefore = some (env.now - cfg.ttl) := by
    rw [ha.swept_eq]
    rfl
  exact .reserve hswept ha.requestId_ne ha.fresh (worstCaseUsd_nonneg hprice).1

theorem admitRequest_changes (cfg : CreditConfig) (env : Env) (overruns : Overruns)
    (ledger : Ledger) (args : AdmitArgs) :
    Changes cfg ledger (admitRequest cfg env overruns ledger args).2 := by
  rcases admitRequest_cases with ⟨r, h⟩ | ⟨r, h⟩ | ⟨a, swept, snap, ha, h⟩
  · rw [h]
  · rw [h]
    exact .single (.sweep _ _)
  · rw [h]
    have hsweep : Change cfg ledger swept := ha.swept_eq ▸ .sweep ledger env.now
    exact .tail (.single hsweep) ha.change

/-- **Every call changes the ledger by elementary changes.** -/
theorem step_changes (cfg : CreditConfig) (s : State) (c : Call) :
    Changes cfg s.ledger (step cfg s c).ledger := by
  unfold step
  cases c.op with
  | admitRequest args => exact admitRequest_changes ..
  | commit id usage floor =>
    refine runImmediate_snd .refl fun out after htxn => ?_
    obtain ⟨-, rfl | ⟨r, usd, hr, husd, rfl⟩⟩ := commitTxn_cases htxn
    · exact .refl
    · exact .single (.commit hr (.inl husd))
  | commitFull id reason =>
    refine runImmediate_snd .refl fun out after htxn => ?_
    obtain rfl | ⟨r, usd, tag, hr, husd, rfl⟩ := commitFullTxn_cases htxn
    · exact .refl
    · refine .single (.commit hr ?_)
      rcases husd with rfl | rfl
      · exact .inr rfl
      · exact .inl le_rfl
  | release id =>
    refine runImmediate_snd .refl fun out after htxn => ?_
    obtain rfl | ⟨r, hr, hcommit, rfl⟩ := releaseTxn_cases htxn
    · exact .refl
    · exact .single (.release hr hcommit)
  | latch reason =>
    refine runImmediate_snd .refl fun out after htxn => ?_
    cases htxn
    exact .single (.latch _ _ _)
  | status =>
    rcases status_cases cfg c.env (s.overruns c.worker) s.ledger with h | h
    · rw [h]
    · rw [h]
      exact .single (.sweep _ _)

theorem Changes.invariant {I : Ledger → Prop}
    (hchange : ∀ l l', I l → Change cfg l l' → I l') {l l' : Ledger} (h : Changes cfg l l')
    (hl : I l) : I l' := by
  induction h with
  | refl => exact hl
  | tail _ hc ih => exact hchange _ _ ih hc

/-- An invariant of the ledger kept by elementary changes holds in every reachable state. -/
theorem invariant_of_reachable {I : Ledger → Prop} (hinit : I ⟨[], none⟩)
    (hchange : ∀ l l', I l → Change cfg l l' → I l') (h : (credit cfg).Reachable s) : I s.ledger := by
  refine h.invariant (I := fun s => I s.ledger) ?_ ?_
  · rintro s rfl
    exact hinit
  · rintro s c t hs rfl
    exact (step_changes cfg s c).invariant hchange hs

/-! ## The invariant -/

/-- The invariant of the ledger. -/
structure WellFormed (ledger : Ledger) : Prop where
  usd_nonneg : ∀ row ∈ ledger.entries, 0 ≤ row.usd
  reserve_filed : ∀ row ∈ ledger.entries, row.kind = .reserve → ∃ id, row.reqId = some id
  reserve_tag : ∀ row ∈ ledger.entries, row.kind = .reserve → row.tag = none
  reserve_unique : ∀ id, (ofKind .reserve (fileOf ledger.entries id)).length ≤ 1
  final_reserved : ∀ row ∈ ledger.entries, row.kind = .commit ∨ row.kind = .release →
    ∃ id, row.reqId = some id ∧ ofKind .reserve (fileOf ledger.entries id) ≠ []
  /-- an open reservation is younger than the watermark -/
  watermark : ∀ row ∈ ledger.entries, row.kind = .reserve → settled ledger.entries row = false →
    ∃ w, ledger.ttlSweptBefore = some w ∧ w < row.createdAt

theorem WellFormed.empty : WellFormed ⟨[], none⟩ where
  usd_nonneg := by simp
  reserve_filed := by simp
  reserve_tag := by simp
  reserve_unique := by simp [fileOf]
  final_reserved := by simp
  watermark := by simp

theorem settled_append (entries entries' : List Entry) (row : Entry) :
    settled (entries ++ entries') row = (settled entries row || settled entries' row) :=
  List.any_append

theorem ofKind_ne_nil_append {kind : EntryKind} {entries entries' : List Entry}
    (h : ofKind kind (fileOf entries id) ≠ []) :
    ofKind kind (fileOf (entries ++ entries') id) ≠ [] := by
  rw [fileOf_append, ofKind_append]
  exact List.append_ne_nil_of_left_ne_nil h _

theorem WellFormed.insert (h : WellFormed ledger) {row : Entry} (husd : 0 ≤ row.usd)
    (hreserve : row.kind = .reserve → row.tag = none ∧
      (∃ id, row.reqId = some id ∧ ofKind .reserve (fileOf ledger.entries id) = []) ∧
        ∃ w, ledger.ttlSweptBefore = some w ∧ w < row.createdAt)
    (hfinal : row.kind = .commit ∨ row.kind = .release →
      ∃ id, row.reqId = some id ∧ ofKind .reserve (fileOf ledger.entries id) ≠ []) :
    WellFormed (ledger.insert row) where
  usd_nonneg := by
    intro e he
    rcases List.mem_append.1 he with he | he
    · exact h.usd_nonneg e he
    · exact List.mem_singleton.1 he ▸ husd
  reserve_filed := by
    intro e he hk
    rcases List.mem_append.1 he with he | he
    · exact h.reserve_filed e he hk
    · obtain rfl := List.mem_singleton.1 he
      obtain ⟨-, ⟨id, hid, -⟩, -⟩ := hreserve hk
      exact ⟨id, hid⟩
  reserve_tag := by
    intro e he hk
    rcases List.mem_append.1 he with he | he
    · exact h.reserve_tag e he hk
    · obtain rfl := List.mem_singleton.1 he
      exact (hreserve hk).1
  reserve_unique := by
    intro id
    rw [Ledger.insert, ofKind_fileOf_concat]
    split
    · rename_i hrow
      obtain ⟨-, ⟨id', hid', hnil⟩, -⟩ := hreserve hrow.1
      obtain rfl : id' = id := Option.some.inj (hid'.symm.trans hrow.2)
      simp [hnil]
    · exact h.reserve_unique id
  final_reserved := by
    intro e he hk
    rcases List.mem_append.1 he with he | he
    · obtain ⟨id, hid, hne⟩ := h.final_reserved e he hk
      exact ⟨id, hid, ofKind_ne_nil_append hne⟩
    · obtain rfl := List.mem_singleton.1 he
      obtain ⟨id, hid, hne⟩ := hfinal hk
      exact ⟨id, hid, ofKind_ne_nil_append hne⟩
  watermark := by
    intro e he hk hs
    rcases List.mem_append.1 he with he | he
    · simp only [Ledger.insert, settled_append, Bool.or_eq_false_iff] at hs
      exact h.watermark e he hk hs.1
    · obtain rfl := List.mem_singleton.1 he
      exact (hreserve hk).2.2

/-! ## The sweep -/

section Sweep

variable {ledger : Ledger} {now ttl : ℤ} {row : Entry}

theorem mem_ttlExpireCandidates {entries : List Entry} {lower upper : ℤ} :
    row ∈ ttlExpireCandidates entries lower upper ↔ row ∈ entries ∧ row.kind = .reserve ∧
      lower ≤ row.createdAt ∧ row.createdAt ≤ upper ∧ settled entries row = false := by
  simp [ttlExpireCandidates, and_assoc]

/-- The rows the sweep converts. -/
def expired (ledger : Ledger) (now ttl : ℤ) : List Entry :=
  ttlExpireCandidates ledger.entries (ledger.ttlSweptBefore.getD ttlSweepEpoch) (now - ttl)

theorem expireStaleReservations_entries : (expireStaleReservations ledger now ttl).entries =
    ledger.entries ++ (expired ledger now ttl).map (ttlCommit ttl) := rfl

/-- **The watermark hides nothing**: the sweep converts every open reservation whose lifetime is
over. -/
theorem WellFormed.mem_expired (h : WellFormed ledger) :
    row ∈ expired ledger now ttl ↔ row ∈ ledger.entries ∧ row.kind = .reserve ∧
      settled ledger.entries row = false ∧ row.createdAt ≤ now - ttl := by
  rw [expired, mem_ttlExpireCandidates]
  constructor
  · rintro ⟨hrow, hk, -, hle, hs⟩
    exact ⟨hrow, hk, hs, hle⟩
  · rintro ⟨hrow, hk, hs, hle⟩
    obtain ⟨w, hw, hlt⟩ := h.watermark row hrow hk hs
    refine ⟨hrow, hk, ?_, hle, hs⟩
    rw [hw, Option.getD_some]
    exact hlt.le

theorem settled_map_ttlCommit {rows : List Entry} (hrow : row ∈ rows) {id : String}
    (hid : row.requestId = some id) : settled (rows.map (ttlCommit ttl)) row = true :=
  List.any_eq_true.2 ⟨ttlCommit ttl row, List.mem_map_of_mem hrow, by simp [ttlCommit, hid]⟩

theorem mem_of_mem_sweep (h : row ∈ (expireStaleReservations ledger now ttl).entries)
    (hk : row.kind = .reserve) : row ∈ ledger.entries := by
  rw [expireStaleReservations_entries, List.mem_append] at h
  rcases h with h | h
  · exact h
  · obtain ⟨r, -, rfl⟩ := List.mem_map.1 h
    cases hk

theorem ofKind_reserve_sweep (id : String) :
    ofKind .reserve (fileOf (expireStaleReservations ledger now ttl).entries id) =
      ofKind .reserve (fileOf ledger.entries id) := by
  rw [expireStaleReservations_entries, fileOf_append, ofKind_append, List.append_right_eq_self]
  refine List.filter_eq_nil_iff.2 fun row hrow => ?_
  obtain ⟨r, -, rfl⟩ := List.mem_map.1 (List.mem_of_mem_filter hrow)
  simp [ttlCommit]

theorem rowsOfKind_sweep (ledger : Ledger) (now ttl : ℤ) (kind : EntryKind) (id : String) :
    rowsOfKind kind (expireStaleReservations ledger now ttl).entries id =
      rowsOfKind kind ledger.entries id ++
        rowsOfKind kind ((expired ledger now ttl).map (ttlCommit ttl)) id := by
  rw [expireStaleReservations_entries, rowsOfKind_append]

theorem rowsOfKind_release_sweep (ledger : Ledger) (now ttl : ℤ) (id : String) :
    rowsOfKind .release (expireStaleReservations ledger now ttl).entries id =
      rowsOfKind .release ledger.entries id := by
  rw [rowsOfKind_sweep, List.append_right_eq_self]
  refine List.filter_eq_nil_iff.2 fun row hrow => ?_
  obtain ⟨r, -, rfl⟩ := List.mem_map.1 hrow
  simp [ttlCommit]

theorem WellFormed.lt_of_not_settled_sweep (h : WellFormed ledger)
    (hrow : row ∈ (expireStaleReservations ledger now ttl).entries) (hk : row.kind = .reserve)
    (hs : settled (expireStaleReservations ledger now ttl).entries row = false) :
    now - ttl < row.createdAt := by
  have hmem := mem_of_mem_sweep hrow hk
  rw [expireStaleReservations_entries, settled_append, Bool.or_eq_false_iff] at hs
  by_contra hle
  obtain ⟨id, hid⟩ := h.reserve_filed row hmem hk
  have hexp := h.mem_expired.2 ⟨hmem, hk, hs.1, not_lt.1 hle⟩
  rw [settled_map_ttlCommit hexp (reqId_eq_some.1 hid).1] at hs
  cases hs.2

theorem WellFormed.sweep (h : WellFormed ledger) :
    WellFormed (expireStaleReservations ledger now ttl) where
  usd_nonneg := by
    intro e he
    rcases List.mem_append.1 he with he | he
    · exact h.usd_nonneg e he
    · obtain ⟨r, hr, rfl⟩ := List.mem_map.1 he
      exact h.usd_nonneg r (mem_ttlExpireCandidates.1 hr).1
  reserve_filed := fun e he hk => h.reserve_filed e (mem_of_mem_sweep he hk) hk
  reserve_tag := fun e he hk => h.reserve_tag e (mem_of_mem_sweep he hk) hk
  reserve_unique := by
    intro id
    rw [ofKind_reserve_sweep]
    exact h.reserve_unique id
  final_reserved := by
    intro e he hk
    rcases List.mem_append.1 he with he | he
    · obtain ⟨id, hid, hne⟩ := h.final_reserved e he hk
      exact ⟨id, hid, by rwa [ofKind_reserve_sweep]⟩
    · obtain ⟨r, hr, rfl⟩ := List.mem_map.1 he
      obtain ⟨hmem, hrk, -⟩ := mem_ttlExpireCandidates.1 hr
      obtain ⟨id, hid⟩ := h.reserve_filed r hmem hrk
      refine ⟨id, hid, ?_⟩
      rw [ofKind_reserve_sweep]
      have hfile : r ∈ ofKind .reserve (fileOf ledger.entries id) := by
        simp [ofKind, fileOf, hmem, hrk, hid]
      exact List.ne_nil_of_mem hfile
  watermark := fun e he hk hs => ⟨_, rfl, h.lt_of_not_settled_sweep he hk hs⟩

end Sweep

theorem WellFormed.reserveOf_spec (h : WellFormed ledger) {r : Entry} (hr : reserveOf ledger.entries id = some r) :
    r ∈ ledger.entries ∧ r.kind = .reserve ∧ r.reqId = some id ∧
      ofKind .reserve (fileOf ledger.entries id) ≠ [] := by
  have hmem := List.mem_filter.1 (List.mem_of_getLast? hr)
  obtain ⟨hk, hreq⟩ : r.kind = .reserve ∧ r.requestId = some id := by simpa using hmem.2
  obtain ⟨id', hid'⟩ := h.reserve_filed r hmem.1 hk
  obtain rfl : id' = id := Option.some.inj ((reqId_eq_some.1 hid').1.symm.trans hreq)
  have hfile : r ∈ ofKind .reserve (fileOf ledger.entries id') := by
    simp [ofKind, fileOf, hmem.1, hk, hid']
  exact ⟨hmem.1, hk, hid', List.ne_nil_of_mem hfile⟩

theorem reserveRow_reqId {args : AdmitArgs} (h : args.requestId ≠ "") (model : String)
    (reservation : Reservation) (now windowStart : ℤ) :
    (reserveRow args model reservation now windowStart).reqId = some args.requestId :=
  reqId_eq_some.2 ⟨rfl, h⟩

theorem finalRow_reqId {kind : EntryKind} {r : Entry} {usd : ℚ} {tag : Option String} (hr : r.reqId = some id) :
    (finalRow kind id r usd now tag).reqId = some id :=
  reqId_eq_some.2 ⟨rfl, (reqId_eq_some.1 hr).2⟩

/-- **Every elementary change keeps the invariant.** -/
theorem WellFormed.change {l l' : Ledger} (h : WellFormed l) (hc : Change cfg l l') : WellFormed l' := by
  cases hc with
  | sweep => exact h.sweep
  | @reserve args model reservation now windowStart hswept hid hfresh husd =>
    have hreq := reserveRow_reqId hid model reservation now windowStart
    refine h.insert husd (fun _ => ⟨rfl, ⟨args.requestId, hreq, ?_⟩, _, hswept, ?_⟩)
      (by simp [reserveRow])
    · refine List.filter_eq_nil_iff.2 fun e he => ?_
      obtain ⟨he, hreq⟩ := List.mem_filter.1 he
      exact absurd (reqId_eq_some.1 (by simpa using hreq)).1 (hfresh e he)
    · have := cfg.ttl_pos
      simp only [reserveRow]
      omega
  | @commit id r usd now tag hr husd =>
    obtain ⟨hmem, -, hid, hne⟩ := h.reserveOf_spec hr
    refine h.insert ?_ (by simp [finalRow]) fun _ => ⟨id, finalRow_reqId hid, hne⟩
    rcases husd with husd | rfl
    · exact husd
    · exact h.usd_nonneg r hmem
  | @release id r now hr hcommit =>
    obtain ⟨-, -, hid, hne⟩ := h.reserveOf_spec hr
    exact h.insert le_rfl (by simp [finalRow]) fun _ => ⟨id, finalRow_reqId hid, hne⟩
  | latch => exact h.insert le_rfl (by simp [latchRow]) (by simp [latchRow])

/-- A call keeps the invariant. -/
theorem WellFormed.step (cfg : CreditConfig) (h : WellFormed s.ledger) (c : Call) :
    WellFormed (step cfg s c).ledger :=
  (step_changes cfg s c).invariant (fun _ _ h hc => h.change hc) h

/-- The ledger is well formed in every reachable state. -/
theorem wellFormed_of_reachable (h : (credit cfg).Reachable s) :
    WellFormed s.ledger :=
  invariant_of_reachable .empty (fun _ _ h hc => h.change hc) h

end LlmGateway.Credit
