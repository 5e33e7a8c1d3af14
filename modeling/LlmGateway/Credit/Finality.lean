import LlmGateway.Credit.Sweep

/-!
# Finalising a request

Four operations finalise a request, each with its own look at the rows before it writes. The release
refuses a committed request, `commit` a released one, and the sweep selects requests with neither.
`commitFull` does not look for a release: a released request that is then committed in full has both
rows (`released_then_committed`). In every run in which it is not asked to do that, no request has
both (`released_or_committed_eq_nil`).

`commit` writes the difference between its target and the total already committed, and never a
negative one. `commit_monotone` says what this makes of the totals: they never decrease, a commit on
a request without a final commit (or with `floor`) brings the total to the maximum of the two, and
once a commit has succeeded a further one without `floor` changes nothing.
-/

namespace LlmGateway.Credit

/-! ## Release and commit exclude each other -/

/-- No request has both a release and a commit. -/
def Exclusive (entries : List Entry) : Prop :=
  ∀ id, rowsOfKind .release entries id = [] ∨ rowsOfKind .commit entries id = []

variable {ledger : Ledger} {cfg : CreditConfig} {s : State} {id : String} {usage : Json}

theorem Exclusive.insert (h : Exclusive ledger.entries) {row : Entry}
    (hcommit : row.kind = .commit → ∀ id, row.requestId = some id →
      rowsOfKind .release ledger.entries id = [])
    (hrelease : row.kind = .release → ∀ id, row.requestId = some id →
      rowsOfKind .commit ledger.entries id = []) :
    Exclusive (ledger.insert row).entries := by
  intro id
  rw [rowsOfKind_insert, rowsOfKind_insert]
  by_cases hid : row.requestId = some id
  · cases hk : row.kind with
    | commit =>
      left
      simpa [hid] using hcommit hk id hid
    | release =>
      right
      simpa [hid] using hrelease hk id hid
    | reserve => simpa using h id
    | latch => simpa using h id
  · simpa [hid] using h id

theorem WellFormed.exclusive_sweep (hwf : WellFormed ledger) (h : Exclusive ledger.entries) (now ttl : ℤ) :
    Exclusive (expireStaleReservations ledger now ttl).entries := by
  intro id
  rw [rowsOfKind_release_sweep]
  by_cases hrel : rowsOfKind .release ledger.entries id = []
  · exact .inl hrel
  · right
    rw [rowsOfKind_sweep, (h id).resolve_left hrel, List.nil_append]
    -- the sweep selects no reservation of a released request
    refine List.filter_eq_nil_iff.2 fun row hrow hid => ?_
    obtain ⟨r, hr, rfl⟩ := List.mem_map.1 hrow
    obtain ⟨hmem, hk, hs, -⟩ := hwf.mem_expired.1 hr
    obtain ⟨j, hj⟩ := hwf.reserve_filed r hmem hk
    have hreq : r.requestId = some id := by
      simp only [Bool.and_eq_true, decide_eq_true_eq] at hid
      exact hid.2
    obtain rfl : j = id := Option.some.inj ((reqId_eq_some.1 hj).1.symm.trans hreq)
    rw [rowsOfKind_eq (reqId_eq_some.1 hj).2] at hrel
    rw [(settled_iff hj).2 (.inr hrel)] at hs
    cases hs

/-- A full commit does not meet a release: SQLite fails the transaction, or the request has none. -/
def FullCommitUnreleased (s : State) (c : Call) : Prop :=
  ∀ id reason, c.op = .commitFull id reason → c.env.db = .ok →
    rowsOfKind .release s.ledger.entries id = []

/-- A call that does not release a full commit keeps release and commit exclusive. -/
theorem exclusive_step {c : Call} (hwf : WellFormed s.ledger)
    (h : Exclusive s.ledger.entries) (hfull : FullCommitUnreleased s c) :
    Exclusive (step cfg s c).ledger.entries := by
  unfold step
  cases hop : c.op with
  | admitRequest args =>
    simp only
    rcases admitRequest_cases with ⟨r, hr⟩ | ⟨r, hr⟩ | ⟨a, swept, snap, ha, hr⟩
    · rw [hr]
      exact h
    · rw [hr]
      exact hwf.exclusive_sweep h _ _
    · rw [hr, ha.swept_eq]
      exact (hwf.exclusive_sweep h _ _).insert (by simp [reserveRow]) (by simp [reserveRow])
  | commit id usage floor =>
    refine runImmediate_snd (P := fun l => Exclusive l.entries) h fun out after htxn => ?_
    obtain ⟨hrel, rfl | ⟨r, usd, -, -, rfl⟩⟩ := commitTxn_cases htxn
    · exact h
    · refine h.insert (fun _ j hj => ?_) (by simp [finalRow])
      obtain rfl := Option.some.inj hj
      exact hrel
  | commitFull id reason =>
    simp only [commitFull]
    rcases runImmediate_cases c.env.db .sqlite s.ledger (commitFullTxn c.env.now id reason) with
      ⟨e, hr⟩ | ⟨hdb, out, after, htxn, hr⟩
    · rw [hr]
      exact h
    · rw [hr]
      obtain rfl | ⟨r, usd, tag, -, -, rfl⟩ := commitFullTxn_cases htxn
      · exact h
      · refine h.insert (fun _ j hj => ?_) (by simp [finalRow])
        obtain rfl := Option.some.inj hj
        exact hfull id reason hop hdb
  | release id =>
    refine runImmediate_snd (P := fun l => Exclusive l.entries) h fun out after htxn => ?_
    obtain rfl | ⟨r, -, hcommit, rfl⟩ := releaseTxn_cases htxn
    · exact h
    · refine h.insert (by simp [finalRow]) fun _ j hj => ?_
      obtain rfl := Option.some.inj hj
      exact hcommit
  | latch reason =>
    refine runImmediate_snd (P := fun l => Exclusive l.entries) h fun out after htxn => ?_
    cases htxn
    exact h.insert (by simp [latchRow]) (by simp [latchRow])
  | status =>
    simp only
    rcases status_cases cfg c.env (s.overruns c.worker) s.ledger with hr | hr
    · rw [hr]
      exact h
    · rw [hr]
      exact hwf.exclusive_sweep h _ _

/-- **Finality**: in every run whose full commits do not meet a release, no request has both a
release and a commit. -/
theorem released_or_committed_eq_nil {cfg : CreditConfig} {s : State}
    (h : ((credit cfg).restrict FullCommitUnreleased).Reachable s) (id : String) :
    rowsOfKind .release s.ledger.entries id = [] ∨ rowsOfKind .commit s.ledger.entries id = [] := by
  have hinv : WellFormed s.ledger ∧ Exclusive s.ledger.entries := by
    refine h.invariant (I := fun s => WellFormed s.ledger ∧ Exclusive s.ledger.entries) ?_ ?_
    · rintro s rfl
      exact ⟨.empty, fun id => .inl rfl⟩
    · rintro s c t ⟨hwf, hex⟩ ⟨hfull, rfl⟩
      exact ⟨hwf.step cfg c, exclusive_step hwf hex hfull⟩
  exact hinv.2 id

/-- Two requests, one released and the other committed in full. -/
theorem released_or_committed_eq_nil_two :
    let calls := [Sample.call 0 (Sample.plain "a"), Sample.call 1 (.release "a"),
      Sample.call 2 (Sample.plain "b"), Sample.call 3 (.commitFull "b" "upstream_error")]
    let s := stepAll shippedConfig .init calls
    rowsOfKind .release s.ledger.entries "a" ≠ [] ∧ rowsOfKind .commit s.ledger.entries "b" ≠ [] ∧
      ∀ id, rowsOfKind .release s.ledger.entries id = [] ∨
        rowsOfKind .commit s.ledger.entries id = [] := by
  intro calls s
  refine ⟨by with_unfolding_all decide, by with_unfolding_all decide, ?_⟩
  have hother (s : State) (minutes : ℤ) (op : Op) (hop : ∀ id reason, op ≠ .commitFull id reason) :
      FullCommitUnreleased s (Sample.call minutes op) :=
    fun id reason h _ => absurd h (hop id reason)
  have hreach : ((credit shippedConfig).restrict FullCommitUnreleased).Reachable s := by
    have h₀ : ((credit shippedConfig).restrict FullCommitUnreleased).Reachable .init := .init rfl
    have h₁ := h₀.step (a := Sample.call 0 (Sample.plain "a"))
      ⟨hother _ _ _ (by simp [Sample.plain]), rfl⟩
    have h₂ := h₁.step (a := Sample.call 1 (.release "a")) ⟨hother _ _ _ (by simp), rfl⟩
    have h₃ := h₂.step (a := Sample.call 2 (Sample.plain "b"))
      ⟨hother _ _ _ (by simp [Sample.plain]), rfl⟩
    refine h₃.step (a := Sample.call 3 (.commitFull "b" "upstream_error"))
      ⟨fun id reason h _ => ?_, rfl⟩
    cases h
    with_unfolding_all decide
  exact released_or_committed_eq_nil hreach

/-- A released request committed in full has both a release and a commit. -/
theorem released_then_committed :
    let s := stepAll shippedConfig .init [Sample.call 0 (Sample.plain "a"),
      Sample.call 1 (.release "a"), Sample.call 2 (.commitFull "a" "upstream_error")]
    (credit shippedConfig).Reachable s ∧ rowsOfKind .release s.ledger.entries "a" ≠ [] ∧
      rowsOfKind .commit s.ledger.entries "a" ≠ [] := by
  intro s
  exact ⟨reachable_stepAll _ _, by with_unfolding_all decide, by with_unfolding_all decide⟩

/-! ## Committed totals -/

/-- The ledger's total committed for a request. -/
def committedTotal (ledger : Ledger) (id : String) : ℚ :=
  sumUsd (rowsOfKind .commit ledger.entries id)

/-- A commit that is not the sweep's is on record. -/
def FinallyCommitted (ledger : Ledger) (id : String) : Prop :=
  ∃ c ∈ rowsOfKind .commit ledger.entries id, c.ttlExpired = false

theorem finallyCommitted_iff :
    FinallyCommitted ledger id ↔ rowsOfKind .commit ledger.entries id ≠ [] ∧
      onlyTtl (rowsOfKind .commit ledger.entries id) = false := by
  unfold FinallyCommitted onlyTtl
  constructor
  · rintro ⟨c, hc, hfinal⟩
    have hne := List.ne_nil_of_mem hc
    refine ⟨hne, ?_⟩
    simp only [hne, ne_eq, not_false_eq_true, decide_true, Bool.true_and, List.all_eq_false]
    exact ⟨c, hc, by simp [hfinal]⟩
  · rintro ⟨hne, hall⟩
    simpa [hne] using hall

theorem committedTotal_mono (hwf : WellFormed s.ledger) (c : Call)
    (id : String) : committedTotal s.ledger id ≤ committedTotal (step cfg s c).ledger id := by
  obtain ⟨rest, hrest⟩ := entries_le_step cfg s c
  have hnonneg : 0 ≤ sumUsd (rowsOfKind .commit rest id) := sumUsd_nonneg fun row hrow =>
    (hwf.step cfg c).usd_nonneg row
      (hrest ▸ List.mem_append_right _ (List.mem_of_mem_filter hrow))
  rw [committedTotal, committedTotal, ← hrest, rowsOfKind_append, sumUsd_append]
  exact le_add_of_nonneg_right hnonneg

theorem committedTotal_insert_commit (ledger : Ledger) {row : Entry}
    (hk : row.kind = .commit) (hid : row.requestId = some id) :
    committedTotal (ledger.insert row) id = committedTotal ledger id + row.usd := by
  rw [committedTotal, rowsOfKind_insert, if_pos ⟨hk, hid⟩, sumUsd_append, committedTotal]
  simp [sumUsd]

/-- **The outcomes of `commit`**: it leaves a request with a final commit alone, unless `floor` is set and the total
is below the target; otherwise it inserts a final commit that raises the total to the target. -/
theorem commitTxn_outcome {rates : String → Option ModelRateRow} {now : ℤ}
    {floor : Bool} {after : Ledger} {out : ℚ × Option ℤ}
    (h : commitTxn cfg rates now id usage floor ledger = .ok (out, after)) :
    rowsOfKind .release ledger.entries id = [] ∧ ∃ r, reserveOf ledger.entries id = some r ∧
      (FinallyCommitted ledger id ∧
          (floor = true → targetTotal cfg rates usage floor r ≤ committedTotal ledger id) ∧
          out = (committedTotal ledger id, none) ∧ after = ledger ∨
        (FinallyCommitted ledger id →
          floor = true ∧ committedTotal ledger id < targetTotal cfg rates usage floor r) ∧
          out = (targetTotal cfg rates usage floor r,
            if r.usd < targetTotal cfg rates usage floor r then some r.windowStart else none) ∧
          after = ledger.insert (finalRow .commit id r
            (max 0 (targetTotal cfg rates usage floor r - committedTotal ledger id)) now r.tag)) := by
  unfold commitTxn at h
  split at h
  · cases h
  rename_i hrel
  refine ⟨not_not.1 hrel, ?_⟩
  split at h
  · cases h
  rename_i r hr
  refine ⟨r, hr, ?_⟩
  simp only at h
  split at h
  · rename_i hdone
    cases h
    simp only [Bool.and_eq_true, decide_eq_true_eq, Bool.not_eq_true'] at hdone
    refine .inl ⟨finallyCommitted_iff.2 hdone.1, fun hfloor => ?_, rfl, rfl⟩
    rw [hdone.2] at hfloor
    cases hfloor
  rename_i hnot
  split at h
  · -- nothing to add: the commits on record cover the target, and one of them is final
    rename_i hle
    cases h
    simp only [Bool.and_eq_true, decide_eq_true_eq, Bool.not_eq_true', Bool.or_eq_false_iff,
      Bool.and_eq_false_imp, decide_eq_false_iff_not] at hle
    obtain ⟨hle, hmust, hfirst⟩ := hle
    have hfinal : FinallyCommitted ledger id := by
      refine finallyCommitted_iff.2 ⟨fun hnil => hfirst hnil hle, ?_⟩
      rw [← Bool.not_eq_true]
      exact fun httl => hmust httl hle
    exact .inl ⟨hfinal, fun _ => sub_nonpos.1 hle, rfl, rfl⟩
  · rename_i hinsert
    cases h
    refine .inr ⟨fun hfinal => ?_, rfl, ?_⟩
    · obtain ⟨hne, httl⟩ := finallyCommitted_iff.1 hfinal
      refine ⟨?_, ?_⟩
      · by_contra hfloor
        exact hnot (by simp [hne, httl, hfloor])
      · by_contra hle
        exact hinsert (by simpa [hne, httl, committedTotal] using hle)
    · congr 2
      split
      · rename_i hle
        exact (max_eq_left hle).symm
      · rename_i hlt
        exact (max_eq_right (not_le.1 hlt).le).symm

theorem committedTotal_insert_final (ledger : Ledger) (id : String) (r : Entry) (target : ℚ) (now : ℤ) :
    committedTotal (ledger.insert (finalRow .commit id r (max 0 (target - committedTotal ledger id)) now r.tag)) id =
      max (committedTotal ledger id) target := by
  rw [committedTotal_insert_commit _ rfl rfl]
  show committedTotal ledger id + max 0 (target - committedTotal ledger id) = _
  rw [← max_add_add_left, add_zero, add_sub_cancel]

/-- **One `commit`** that succeeds: on a request with a final commit and without `floor` nothing
happens; otherwise the total becomes the maximum of what it was and the target. Either way a final
commit is on record afterwards. -/
theorem commitTxn_spec {rates : String → Option ModelRateRow} {now : ℤ}
    {floor : Bool} {after : Ledger} {out : ℚ × Option ℤ} (hwf : WellFormed ledger)
    (h : commitTxn cfg rates now id usage floor ledger = .ok (out, after)) :
    FinallyCommitted after id ∧
      (FinallyCommitted ledger id → floor = false → after = ledger) ∧
      ∃ r, reserveOf ledger.entries id = some r ∧
        (¬ FinallyCommitted ledger id ∨ floor = true → committedTotal after id =
          max (committedTotal ledger id) (targetTotal cfg rates usage floor r)) := by
  obtain ⟨-, r, hr, ⟨hfinal, hcovered, -, rfl⟩ | ⟨hopen, -, rfl⟩⟩ := commitTxn_outcome h
  · refine ⟨hfinal, fun _ _ => rfl, r, hr, ?_⟩
    rintro (hnot | hfloor)
    · exact absurd hfinal hnot
    · exact (max_eq_left (hcovered hfloor)).symm
  · refine ⟨?_, fun hfinal hfloor => ?_, r, hr, fun _ => committedTotal_insert_final ledger id r _ now⟩
    · have htag : r.tag = none := by
        obtain ⟨hmem, hk, -⟩ := hwf.reserveOf_spec hr
        exact hwf.reserve_tag r hmem hk
      unfold FinallyCommitted
      rw [rowsOfKind_insert, if_pos ⟨rfl, rfl⟩]
      exact ⟨_, List.mem_append_right _ (List.mem_singleton_self _), by
        simp [Entry.ttlExpired, finalRow, htag]⟩
    · rw [(hopen hfinal).1] at hfloor
      cases hfloor

theorem FinallyCommitted.mono {ledger' : Ledger}
    (h : FinallyCommitted ledger id) (hp : ledger.entries <+: ledger'.entries) :
    FinallyCommitted ledger' id := by
  obtain ⟨c, hc, hfinal⟩ := h
  obtain ⟨rest, hrest⟩ := hp
  refine ⟨c, ?_, hfinal⟩
  rw [← hrest, rowsOfKind_append]
  exact List.mem_append_left _ hc

theorem FinallyCommitted.commit_eq {c : Call} (hwf : WellFormed s.ledger) (h : FinallyCommitted s.ledger id)
    (hop : c.op = .commit id usage false) : (step cfg s c).ledger = s.ledger := by
  simp only [step, hop, commit]
  refine runImmediate_snd (P := fun l => l = s.ledger) rfl fun out after htxn => ?_
  exact (commitTxn_spec hwf htxn).2.1 h rfl

/-- **Commits are monotone and idempotent.** In every reachable state: no commit on record is
negative; no call decreases the total committed for a request; a `commit` that succeeds brings the
total to the maximum of what it was and its target, except that without `floor` it leaves a request
with a final commit alone; and after a `commit` has succeeded, whatever calls follow, a `commit`
without `floor` on the same request leaves the ledger alone. -/
theorem commit_monotone {cfg : CreditConfig} {s : State} (hs : (credit cfg).Reachable s) :
    (∀ row ∈ s.ledger.entries, row.kind = .commit → 0 ≤ row.usd) ∧
    (∀ c id, committedTotal s.ledger id ≤ committedTotal (step cfg s c).ledger id) ∧
    ∀ c id usage floor total, c.op = .commit id usage floor →
      (commit cfg c.env (s.overruns c.worker) s.ledger id usage floor).1 = .ok total →
        (FinallyCommitted s.ledger id → floor = false → (step cfg s c).ledger = s.ledger) ∧
        (∃ r, reserveOf s.ledger.entries id = some r ∧
          (¬ FinallyCommitted s.ledger id ∨ floor = true →
            committedTotal (step cfg s c).ledger id =
              max (committedTotal s.ledger id) (targetTotal cfg c.env.rates usage floor r))) ∧
        ∀ calls t, (credit cfg).Run (step cfg s c) calls t →
          ∀ c' usage', c'.op = .commit id usage' false → (step cfg t c').ledger = t.ledger := by
  have hwf := wellFormed_of_reachable hs
  refine ⟨fun row hrow _ => hwf.usd_nonneg row hrow, fun c id => committedTotal_mono hwf c id, ?_⟩
  intro c id usage floor total hop hok
  obtain ⟨out, after, htxn, hafter⟩ : ∃ out after,
      commitTxn cfg c.env.rates c.env.now id usage floor s.ledger = .ok (out, after) ∧
        (step cfg s c).ledger = after := by
    simp only [step, hop]
    rcases runImmediate_cases c.env.db .sqlite s.ledger
      (commitTxn cfg c.env.rates c.env.now id usage floor) with ⟨e, h⟩ | ⟨-, out, after, htxn, h⟩
    · simp only [commit, h] at hok
      cases hok
    · exact ⟨out, after, htxn, by simp only [commit, h]⟩
  obtain ⟨hfinal, hkeep, r, hr, htotal⟩ := commitTxn_spec hwf htxn
  rw [hafter]
  refine ⟨hkeep, ⟨r, hr, htotal⟩, fun calls t hrun c' usage' hop' => ?_⟩
  have hreach : (credit cfg).Reachable t := (hs.step (a := c) rfl).run hrun
  exact (hfinal.mono (hafter ▸ entries_le_of_run hrun)).commit_eq (wellFormed_of_reachable hreach)
    hop'

/-- A request reserved at 0.0183 USD and committed at 0.0042 USD. -/
def committedOnce : State :=
  stepAll shippedConfig .init [Sample.call 0 (Sample.plain "a"),
    Sample.call 1 (.commit "a" (Sample.usage 900 100) false)]

/-- A further commit with `floor` raises the total to the reservation. -/
theorem commit_monotone_floor :
    let c := Sample.call 2 (.commit "a" (Sample.usage 900 200) true)
    committedTotal (step shippedConfig committedOnce c).ledger "a" = 183 / 10000 ∧
      ∃ r, reserveOf committedOnce.ledger.entries "a" = some r ∧
        committedTotal (step shippedConfig committedOnce c).ledger "a" =
          max (committedTotal committedOnce.ledger "a")
            (targetTotal shippedConfig c.env.rates (Sample.usage 900 200) true r) := by
  intro c
  have hok : (commit shippedConfig c.env (committedOnce.overruns c.worker) committedOnce.ledger "a"
      (Sample.usage 900 200) true).1 = .ok (183 / 10000) := by with_unfolding_all decide
  have hreach : (credit shippedConfig).Reachable committedOnce := reachable_stepAll _ _
  obtain ⟨-, ⟨r, hr, htotal⟩, -⟩ :=
    (commit_monotone hreach).2.2 c "a" (Sample.usage 900 200) true _ rfl hok
  exact ⟨by with_unfolding_all decide, r, hr, htotal (.inr rfl)⟩

/-- A further commit without `floor` does not raise the total, though its target is 0.0177 USD. -/
theorem second_commit_ignored :
    let c := Sample.call 2 (.commit "a" (Sample.usage 900 1000) false)
    (credit shippedConfig).Reachable committedOnce ∧
      (commit shippedConfig c.env (committedOnce.overruns c.worker) committedOnce.ledger "a"
        (Sample.usage 900 1000) false).1 = .ok (42 / 10000) ∧
      ∃ r, reserveOf committedOnce.ledger.entries "a" = some r ∧
        targetTotal shippedConfig c.env.rates (Sample.usage 900 1000) false r = 177 / 10000 ∧
          committedTotal (step shippedConfig committedOnce c).ledger "a" ≠
            max (committedTotal committedOnce.ledger "a")
              (targetTotal shippedConfig c.env.rates (Sample.usage 900 1000) false r) := by
  intro c
  refine ⟨reachable_stepAll _ _, by with_unfolding_all decide, ?_⟩
  obtain ⟨r, hr⟩ : ∃ r, reserveOf committedOnce.ledger.entries "a" = some r :=
    Option.isSome_iff_exists.1 (by with_unfolding_all decide)
  have htarget : (reserveOf committedOnce.ledger.entries "a").map
      (targetTotal shippedConfig c.env.rates (Sample.usage 900 1000) false) =
        some (177 / 10000) := by
    with_unfolding_all decide
  rw [hr, Option.map_some, Option.some.injEq] at htarget
  refine ⟨r, hr, htarget, ?_⟩
  rw [htarget]
  with_unfolding_all decide

end LlmGateway.Credit
