import LlmGateway.Credit.Lifecycle

/-!
# The TTL sweep loses and duplicates nothing

The sweep moves the amount of an expired reservation from the open side of the totals to the
committed side, under another timestamp. On the file of a request this is one more row
(`fileOf_sweep`), and the share of the request in a window does not shrink (`windowShare_ttlCommit`)
while its share in the spend stays the same (`spendShare_ttlCommit`): the commit is dated one
lifetime after the reservation, and the spend counts reservations from one lifetime before the
snapshot on.

`conversions` collects the rows that the sweeps of a run convert. A converted request is settled
from then on and the sweep selects unsettled reservations only, so no request occurs twice
(`nodup_conversions`). None of this needs the clock to go forward.
-/

namespace LlmGateway.Credit

/-! ## The file of a request under a sweep -/

theorem ofKind_filter (kind : EntryKind) (p : Entry → Bool) (rows : List Entry) :
    ofKind kind (rows.filter p) = (ofKind kind rows).filter p := List.filter_comm ..

theorem fileOf_map_ttlCommit (ttl : ℤ) (rows : List Entry) (id : String) :
    fileOf (rows.map (ttlCommit ttl)) id = (fileOf rows id).map (ttlCommit ttl) := by
  simp only [fileOf, List.filter_map]
  rfl

/-- The file of an open reservation. -/
structure OpenFile (file : List Entry) (r : Entry) : Prop where
  reserve : ofKind .reserve file = [r]
  commit : ofKind .commit file = []
  release : ofKind .release file = []

section File

variable {ledger : Ledger} {now ttl : ℤ} {r : Entry} {id : String}

theorem WellFormed.openFile (h : WellFormed ledger) (hr : r ∈ ledger.entries)
    (hk : r.kind = .reserve) (hs : settled ledger.entries r = false) (hid : r.reqId = some id) :
    OpenFile (fileOf ledger.entries id) r := by
  have hmem : r ∈ ofKind .reserve (fileOf ledger.entries id) := by
    simp [ofKind, fileOf, hr, hk, hid]
  have hnot : ¬ (ofKind .commit (fileOf ledger.entries id) ≠ [] ∨
      ofKind .release (fileOf ledger.entries id) ≠ []) := by
    rw [← settled_iff hid, hs]
    simp
  push Not at hnot
  refine ⟨?_, hnot.1, hnot.2⟩
  obtain ⟨x, hx⟩ := List.length_eq_one_iff.1 (le_antisymm (h.reserve_unique id)
    (List.length_pos_of_mem hmem))
  rw [hx] at hmem ⊢
  rw [List.mem_singleton.1 hmem]

theorem WellFormed.fileOf_expired (h : WellFormed ledger) (now ttl : ℤ) (id : String) :
    fileOf (expired ledger now ttl) id = [] ∨
      ∃ r, fileOf (expired ledger now ttl) id = [r] ∧ OpenFile (fileOf ledger.entries id) r := by
  by_cases hnil : fileOf (expired ledger now ttl) id = []
  · exact .inl hnil
  obtain ⟨r, hr⟩ := List.exists_mem_of_ne_nil _ hnil
  obtain ⟨hexp, hid⟩ := List.mem_filter.1 hr
  have hid : r.reqId = some id := by simpa using hid
  obtain ⟨hmem, hk, hs, -⟩ := h.mem_expired.1 hexp
  have hfile := h.openFile hmem hk hs hid
  have hsub : (fileOf (expired ledger now ttl) id).Sublist
      (ofKind .reserve (fileOf ledger.entries id)) := by
    rw [expired, ttlExpireCandidates, fileOf_filter, ofKind]
    refine List.monotone_filter_right _ fun row hrow => ?_
    simp only [Bool.and_eq_true, decide_eq_true_eq] at hrow ⊢
    exact hrow.1.1.1
  rw [hfile.reserve, List.sublist_singleton] at hsub
  rcases hsub with hsub | hsub
  · exact absurd hsub hnil
  · exact .inr ⟨r, hsub, hfile⟩

/-- **The sweep on one request**: nothing happens, or the commit of its open reservation is
added. -/
theorem WellFormed.fileOf_sweep (h : WellFormed ledger) (id : String) :
    fileOf (expireStaleReservations ledger now ttl).entries id = fileOf ledger.entries id ∨
      ∃ r, OpenFile (fileOf ledger.entries id) r ∧
        fileOf (expireStaleReservations ledger now ttl).entries id =
          fileOf ledger.entries id ++ [ttlCommit ttl r] := by
  rw [expireStaleReservations_entries, fileOf_append, fileOf_map_ttlCommit]
  rcases h.fileOf_expired now ttl id with hnil | ⟨r, hr, hfile⟩
  · rw [hnil]
    exact .inl (List.append_nil _)
  · rw [hr]
    exact .inr ⟨r, hfile, rfl⟩

end File

/-! ## Shares under a conversion -/

@[simp] theorem ttlCommit_usd (ttl : ℤ) (r : Entry) : (ttlCommit ttl r).usd = r.usd := rfl

@[simp] theorem ttlCommit_createdAt (ttl : ℤ) (r : Entry) :
    (ttlCommit ttl r).createdAt = r.createdAt + ttl := rfl

section Share

variable {file : List Entry} {r : Entry} {ttl : ℤ}

theorem OpenFile.ttlCommit (h : OpenFile file r) (ttl : ℤ) :
    ofKind .reserve (file ++ [ttlCommit ttl r]) = [r] ∧
      ofKind .commit (file ++ [ttlCommit ttl r]) = [ttlCommit ttl r] ∧
        ofKind .release (file ++ [ttlCommit ttl r]) = [] := by
  refine ⟨?_, ?_, ?_⟩
  · rw [ofKind_append, h.reserve]
    rfl
  · rw [ofKind_append, h.commit]
    rfl
  · rw [ofKind_append, h.release]
    rfl

theorem OpenFile.windowShare_le (h : OpenFile file r) (husd : 0 ≤ r.usd) (window : ℤ × ℤ) :
    windowShare window file ≤ windowShare window (file ++ [Credit.ttlCommit ttl r]) := by
  obtain ⟨hres, hcom, hrel⟩ := h.ttlCommit ttl
  simp only [windowShare, openUsd, ofKind_filter, h.reserve, h.commit, h.release, hres, hcom, hrel]
  by_cases hc : inWindow window (Credit.ttlCommit ttl r) = true
  · by_cases hr : inWindow window r = true
    · simp [hc, hr, sumUsd]
    · simp [hc, hr, sumUsd, husd]
  · simp [hc]

theorem OpenFile.spendShare_eq (h : OpenFile file r) (httl : 0 < ttl) (asOf : ℤ) :
    spendShare asOf ttl (file ++ [Credit.ttlCommit ttl r]) = spendShare asOf ttl file := by
  obtain ⟨hres, hcom, hrel⟩ := h.ttlCommit ttl
  simp only [spendShare, openUsd, openBefore, ofKind_filter, h.reserve, h.commit, h.release, hres,
    hcom, hrel]
  by_cases hafter : asOf ≤ r.createdAt
  · have hc : asOf ≤ r.createdAt + ttl := by omega
    have hnot : ¬ r.createdAt < asOf := by omega
    simp [hafter, hc, hnot, sumUsd]
  · by_cases hc : asOf ≤ r.createdAt + ttl
    · have hlt : r.createdAt < asOf := by omega
      simp [hafter, hc, hlt, sumUsd]
    · simp [hafter, hc, sumUsd]

end Share

/-! ## Totals under a sweep -/

/-- The requests of a table. -/
def requestsOf (rows : List Entry) : Finset String := (rows.filterMap Entry.reqId).toFinset

theorem covers_requestsOf (rows : List Entry) : Covers (requestsOf rows) rows := by
  intro row hrow id hid
  exact List.mem_toFinset.2 (List.mem_filterMap.2 ⟨row, hrow, hid⟩)

theorem empty_notMem_requestsOf (rows : List Entry) : "" ∉ requestsOf rows := by
  intro h
  obtain ⟨row, -, hid⟩ := List.mem_filterMap.1 (List.mem_toFinset.1 h)
  exact (reqId_eq_some.1 hid).2 rfl

theorem Covers.of_append_left {S : Finset String} {rows rows' : List Entry}
    (h : Covers S (rows ++ rows')) : Covers S rows :=
  fun row hrow => h row (List.mem_append_left _ hrow)

section Totals

variable {ledger : Ledger} {now ttl : ℤ}

theorem WellFormed.unfiled_sweep (h : WellFormed ledger) :
    unfiled (expireStaleReservations ledger now ttl).entries = unfiled ledger.entries := by
  unfold unfiled
  rw [expireStaleReservations_entries, List.filter_append, List.append_right_eq_self]
  refine List.filter_eq_nil_iff.2 fun row hrow => ?_
  obtain ⟨r, hr, rfl⟩ := List.mem_map.1 hrow
  obtain ⟨hmem, hk, -⟩ := mem_ttlExpireCandidates.1 hr
  obtain ⟨id, hid⟩ := h.reserve_filed r hmem hk
  have hid' : (ttlCommit ttl r).reqId = some id := hid
  simp [hid']

theorem WellFormed.unfiled_openReserveBeforeAsOf (h : WellFormed ledger) (lower asOf : ℤ) :
    unfiled (openReserveBeforeAsOf ledger.entries lower asOf) = [] := by
  refine List.filter_eq_nil_iff.2 fun row hrow => ?_
  obtain ⟨hmem, hrow⟩ := List.mem_filter.1 hrow
  have hk : row.kind = .reserve := by
    simp only [Bool.and_eq_true, decide_eq_true_eq] at hrow
    exact hrow.1.1.1
  obtain ⟨id, hid⟩ := h.reserve_filed row hmem hk
  simp [hid]

/-- **A sweep does not shrink the total of any window.** -/
theorem WellFormed.windowTotal_sweep (h : WellFormed ledger) (window : ℤ × ℤ) :
    windowTotal ledger.entries window ≤
      windowTotal (expireStaleReservations ledger now ttl).entries window := by
  have hcov := covers_requestsOf (expireStaleReservations ledger now ttl).entries
  rw [windowTotal_eq _ _ hcov, windowTotal_eq ledger.entries window hcov.of_append_left]
  have hunfiled : unfiled (windowRows (expireStaleReservations ledger now ttl).entries window) =
      unfiled (windowRows ledger.entries window) := by
    rw [windowRows, unfiled_filter, h.unfiled_sweep, windowRows, unfiled_filter]
  rw [hunfiled]
  refine add_le_add_left (Finset.sum_le_sum fun id _ => ?_) _
  rcases h.fileOf_sweep id with hfile | ⟨r, hopen, hfile⟩
  · rw [hfile]
  · rw [hfile]
    have hr : r ∈ ofKind .reserve (fileOf ledger.entries id) := by simp [hopen.reserve]
    exact hopen.windowShare_le (h.usd_nonneg r (mem_of_mem_ofKind_fileOf hr)) window

/-- **A sweep does not change the spend since the snapshot.** -/
theorem WellFormed.spend_sweep (h : WellFormed ledger) (httl : 0 < ttl) (asOf : ℤ) :
    computeSpendSinceAsOf (expireStaleReservations ledger now ttl).entries asOf ttl =
      computeSpendSinceAsOf ledger.entries asOf ttl := by
  have hcov := covers_requestsOf (expireStaleReservations ledger now ttl).entries
  have hne := empty_notMem_requestsOf (expireStaleReservations ledger now ttl).entries
  rw [computeSpendSinceAsOf_eq _ _ _ hcov hne,
    computeSpendSinceAsOf_eq ledger.entries _ _ hcov.of_append_left hne]
  have hunfiled : unfiledSpend (expireStaleReservations ledger now ttl).entries asOf ttl =
      unfiledSpend ledger.entries asOf ttl := by
    rw [unfiledSpend, unfiledSpend, h.unfiled_openReserveBeforeAsOf,
      h.sweep.unfiled_openReserveBeforeAsOf, unfiled_filter, h.unfiled_sweep, unfiled_filter]
  rw [hunfiled]
  congr 1
  refine Finset.sum_congr rfl fun id _ => ?_
  rcases h.fileOf_sweep id with hfile | ⟨r, hopen, hfile⟩
  · rw [hfile]
  · rw [hfile]
    exact hopen.spendShare_eq httl asOf

/-- **An expired reservation is converted**: after the sweep its request has one commit, the one the
sweep made of it. -/
theorem WellFormed.commits_sweep (h : WellFormed ledger) {r : Entry} (hr : r ∈ ledger.entries)
    (hk : r.kind = .reserve) (hs : settled ledger.entries r = false)
    (hexp : r.createdAt ≤ now - ttl) :
    ∃ id, r.requestId = some id ∧
      rowsOfKind .commit (expireStaleReservations ledger now ttl).entries id =
        [ttlCommit ttl r] := by
  obtain ⟨id, hid⟩ := h.reserve_filed r hr hk
  refine ⟨id, (reqId_eq_some.1 hid).1, ?_⟩
  have hopen := h.openFile hr hk hs hid
  have hmem : r ∈ fileOf (expired ledger now ttl) id :=
    List.mem_filter.2 ⟨h.mem_expired.2 ⟨hr, hk, hs, hexp⟩, by simpa using hid⟩
  rw [rowsOfKind_eq (reqId_eq_some.1 hid).2, expireStaleReservations_entries, fileOf_append,
    fileOf_map_ttlCommit]
  rcases h.fileOf_expired now ttl id with hnil | ⟨x, hx, hopen'⟩
  · rw [hnil] at hmem
    cases hmem
  · rw [hx] at hmem ⊢
    obtain rfl := List.mem_singleton.1 hmem
    exact (hopen.ttlCommit ttl).2.1

end Totals

/-! ## Conversions along a run -/

/-- Whether the operation sweeps before it does anything else. -/
def Op.sweeps : Op → Bool
  | admitRequest _ | status => true
  | _ => false

/-- The rows the sweep of a call converts: the commits it adds to the table. -/
def conversionsOf (cfg : CreditConfig) (s : State) (c : Call) : List Entry :=
  if c.op.sweeps then
    ofKind .commit ((step cfg s c).ledger.entries.drop s.ledger.entries.length)
  else []

/-- The rows the sweeps of a sequence of calls convert, in order. -/
def conversions (cfg : CreditConfig) : State → List Call → List Entry
  | _, [] => []
  | s, c :: calls => conversionsOf cfg s c ++ conversions cfg (step cfg s c) calls

theorem Change.entries_le {cfg : CreditConfig} {l l' : Ledger} (h : Change cfg l l') :
    l.entries <+: l'.entries := by
  cases h <;> exact List.prefix_append _ _

theorem entries_le_step (cfg : CreditConfig) (s : State) (c : Call) :
    s.ledger.entries <+: (step cfg s c).ledger.entries :=
  (step_changes cfg s c).invariant (I := fun l => s.ledger.entries <+: l.entries)
    (fun _ _ h hc => h.trans hc.entries_le) List.prefix_rfl

/-- Rows are never removed, whatever calls are made. -/
theorem entries_le_of_run {cfg : CreditConfig} {s t : State} {calls : List Call}
    (h : (credit cfg).Run s calls t) : s.ledger.entries <+: t.ledger.entries := by
  refine h.rel (R := fun s t => s.ledger.entries <+: t.ledger.entries) ?_ ?_ ?_
  · exact fun _ => List.prefix_rfl
  · exact fun _ _ _ h h' => h.trans h'
  · rintro s c t rfl
    exact entries_le_step cfg s c

theorem settled_congr {entries : List Entry} {row row' : Entry}
    (h : row.requestId = row'.requestId) : settled entries row = settled entries row' := by
  simp only [settled, h]

theorem settled_mono {entries entries' : List Entry} (h : entries <+: entries') {row : Entry}
    (hs : settled entries' row = false) : settled entries row = false := by
  obtain ⟨rest, rfl⟩ := h
  rw [settled_append, Bool.or_eq_false_iff] at hs
  exact hs.1

theorem ofKind_commit_map_ttlCommit (ttl : ℤ) (rows : List Entry) :
    ofKind .commit (rows.map (ttlCommit ttl)) = rows.map (ttlCommit ttl) := by
  refine List.filter_eq_self.2 fun row hrow => ?_
  obtain ⟨r, -, rfl⟩ := List.mem_map.1 hrow
  rfl

theorem conversionsOf_cases (cfg : CreditConfig) (s : State) (c : Call) :
    conversionsOf cfg s c = [] ∨
      conversionsOf cfg s c = (expired s.ledger c.env.now cfg.ttl).map (ttlCommit cfg.ttl) ∧
        (expireStaleReservations s.ledger c.env.now cfg.ttl).entries <+:
          (step cfg s c).ledger.entries := by
  have hswept : ofKind .commit ((expireStaleReservations s.ledger c.env.now cfg.ttl).entries.drop
      s.ledger.entries.length) = (expired s.ledger c.env.now cfg.ttl).map (ttlCommit cfg.ttl) := by
    rw [expireStaleReservations_entries, List.drop_left, ofKind_commit_map_ttlCommit]
  unfold conversionsOf
  cases hop : c.op with
  | admitRequest args =>
    simp only [step, hop, Op.sweeps, if_true]
    rcases admitRequest_cases with ⟨r, h⟩ | ⟨r, h⟩ | ⟨a, swept, snap, ha, h⟩
    · rw [h]
      simp
    · rw [h]
      exact .inr ⟨hswept, List.prefix_rfl⟩
    · rw [h, ha.swept_eq]
      refine .inr ⟨?_, List.prefix_append _ _⟩
      -- the row inserted after the sweep is a reservation
      rw [Ledger.insert, List.drop_append_of_le_length, ofKind_append, hswept]
      · exact List.append_nil _
      · rw [expireStaleReservations_entries, List.length_append]
        exact Nat.le_add_right _ _
  | status =>
    simp only [step, hop, Op.sweeps, if_true]
    rcases status_cases cfg c.env (s.overruns c.worker) s.ledger with h | h
    · rw [h]
      simp
    · rw [h]
      exact .inr ⟨hswept, List.prefix_rfl⟩
  | _ => exact .inl rfl

theorem WellFormed.nodup_expired {ledger : Ledger} (h : WellFormed ledger) (now ttl : ℤ) :
    ((expired ledger now ttl).map Entry.requestId).Nodup := by
  rw [List.nodup_iff_count_le_one]
  intro o
  by_cases ho : o ∈ (expired ledger now ttl).map Entry.requestId
  · obtain ⟨r, hr, rfl⟩ := List.mem_map.1 ho
    obtain ⟨hmem, hk, -⟩ := h.mem_expired.1 hr
    obtain ⟨id, hid⟩ := h.reserve_filed r hmem hk
    have hcount : List.count r.requestId ((expired ledger now ttl).map Entry.requestId) =
        (fileOf (expired ledger now ttl) id).length := by
      rw [List.count_eq_countP, List.countP_map, List.countP_eq_length_filter, fileOf]
      congr 1
      refine List.filter_congr fun row _ => Bool.eq_iff_iff.2 ?_
      simp [(reqId_eq_some.1 hid).1, reqId_eq_some, (reqId_eq_some.1 hid).2]
    rw [hcount]
    rcases h.fileOf_expired now ttl id with hnil | ⟨x, hx, -⟩
    · simp [hnil]
    · simp [hx]
  · rw [List.count_eq_zero_of_not_mem ho]
    exact Nat.zero_le 1

theorem nodup_conversions {cfg : CreditConfig} {s t : State} {calls : List Call}
    (hrun : (credit cfg).Run s calls t) (hs : WellFormed s.ledger) :
    ((conversions cfg s calls).map Entry.requestId).Nodup ∧
      ∀ row ∈ conversions cfg s calls, settled s.ledger.entries row = false := by
  induction hrun with
  | nil => exact ⟨List.nodup_nil, by simp [conversions]⟩
  | @cons s _ t c calls hstep hrun ih =>
    subst hstep
    obtain ⟨ihnodup, ihopen⟩ := ih (hs.step cfg c)
    have hlater : ∀ row ∈ conversions cfg (step cfg s c) calls,
        settled s.ledger.entries row = false :=
      fun row hrow => settled_mono (entries_le_step cfg s c) (ihopen row hrow)
    rw [conversions]
    rcases conversionsOf_cases cfg s c with hnil | ⟨hconv, hprefix⟩
    · rw [hnil]
      exact ⟨ihnodup, hlater⟩
    · rw [hconv]
      have hopen : ∀ row ∈ (expired s.ledger c.env.now cfg.ttl).map (ttlCommit cfg.ttl),
          settled s.ledger.entries row = false := by
        intro row hrow
        obtain ⟨r, hr, rfl⟩ := List.mem_map.1 hrow
        exact (hs.mem_expired.1 hr).2.2.1
      refine ⟨?_, ?_⟩
      · rw [List.map_append, List.nodup_append, List.map_map]
        refine ⟨hs.nodup_expired _ _, ihnodup, ?_⟩
        -- a request converted now is settled afterwards, one converted later is not
        rintro o ho o' ho' rfl
        obtain ⟨r, hr, rfl⟩ := List.mem_map.1 ho
        obtain ⟨row, hrow, hreq⟩ := List.mem_map.1 ho'
        obtain ⟨hmem, hk, -⟩ := hs.mem_expired.1 hr
        obtain ⟨id, hid⟩ := hs.reserve_filed r hmem hk
        have hsettled := settled_mono hprefix (ihopen row hrow)
        rw [settled_congr (show row.requestId = r.requestId from hreq),
          expireStaleReservations_entries, settled_append,
          settled_map_ttlCommit hr (reqId_eq_some.1 hid).1, Bool.or_true] at hsettled
        cases hsettled
      · intro row hrow
        rcases List.mem_append.1 hrow with hrow | hrow
        · exact hopen row hrow
        · exact hlater row hrow

/-- **The sweep loses and duplicates nothing.** After any sequence of calls, a sweep leaves no open
reservation whose lifetime is over, and gives every such reservation its one commit; no sweep of the
sequence converts a request twice; the sweep shrinks neither the total of a window nor the spend
since the snapshot. The clock readings of the calls are arbitrary. -/
theorem sweep_sound {cfg : CreditConfig} {calls : List Call} {s : State}
    (hrun : (credit cfg).Run .init calls s) (now : ℤ) :
    let swept := expireStaleReservations s.ledger now cfg.ttl
    (∀ r ∈ swept.entries, r.kind = .reserve → settled swept.entries r = false →
        now - cfg.ttl < r.createdAt) ∧
      (∀ r ∈ s.ledger.entries, r.kind = .reserve → settled s.ledger.entries r = false →
        r.createdAt ≤ now - cfg.ttl →
          ∃ id, r.requestId = some id ∧ rowsOfKind .commit swept.entries id = [ttlCommit cfg.ttl r]) ∧
      ((conversions cfg .init calls).map Entry.requestId).Nodup ∧
      (∀ window, windowTotal s.ledger.entries window ≤ windowTotal swept.entries window) ∧
      ∀ asOf, computeSpendSinceAsOf s.ledger.entries asOf cfg.ttl ≤
        computeSpendSinceAsOf swept.entries asOf cfg.ttl := by
  have h := wellFormed_of_reachable ((System.Reachable.init rfl).run hrun)
  refine ⟨?_, ?_, (nodup_conversions hrun .empty).1, h.windowTotal_sweep, fun asOf => ?_⟩
  · exact fun r hr hk hs => h.lt_of_not_settled_sweep hr hk hs
  · exact fun r hr hk hs hexp => h.commits_sweep hr hk hs hexp
  · exact (h.spend_sweep cfg.ttl_pos asOf).ge

/-- Two reservations, five minutes apart; a sweep after sixteen minutes converts the first. -/
theorem sweep_sound_sixteen :
    let s := stepAll shippedConfig .init
      [Sample.call 0 (Sample.plain "a"), Sample.call 5 (Sample.plain "b")]
    let now := (Sample.call 16 .status).env.now
    let swept := expireStaleReservations s.ledger now shippedConfig.ttl
    (expired s.ledger now shippedConfig.ttl).map Entry.requestId = [some "a"] ∧
      (∀ r ∈ swept.entries, r.kind = .reserve → settled swept.entries r = false →
        now - shippedConfig.ttl < r.createdAt) ∧
      ∀ window, windowTotal s.ledger.entries window ≤ windowTotal swept.entries window := by
  intro s now swept
  have h := sweep_sound (run_stepAll shippedConfig .init
    [Sample.call 0 (Sample.plain "a"), Sample.call 5 (Sample.plain "b")]) now
  exact ⟨by decide, h.1, h.2.2.2.1⟩

end LlmGateway.Credit
