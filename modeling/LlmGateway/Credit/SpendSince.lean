import LlmGateway.Credit.Sweep

/-!
# What the spend since the balance snapshot counts

`compute_spend_since_as_of` adds up, from the rows since `as_of`, the commits of the requests they name and
the reservations they leave open, and from the rows before it the reservations that are still open and in
their lifetime. `referenceSpend` is what these sums are for, written over the whole table. The two differ in
two kinds of reservations since `as_of` (`computeSpendSinceAsOf_add`): the query looks for what settles a
reservation among the rows since `as_of` only, so that one settled by an older row counts as open, and it
passes over one that names no request.
-/

namespace LlmGateway.Credit

/-! ## The reference -/

/-- A reservation or a commit of the request is not older than `asOf`. -/
def touched (entries : List Entry) (asOf : ℤ) (id : String) : Bool :=
  entries.any fun row =>
    row.reqId = some id && (row.kind = .reserve || row.kind = .commit) && asOf ≤ row.createdAt

/-- The commits of the requests touched since `asOf`. -/
def touchedCommits (entries : List Entry) (asOf : ℤ) : List Entry :=
  entries.filter fun c => c.kind = .commit && c.reqId.any (touched entries asOf)

/-- The open reservations that were made since `asOf` or in the lifetime before it. -/
def openReserves (entries : List Entry) (asOf ttl : ℤ) : List Entry :=
  entries.filter fun r => r.kind = .reserve && !settled entries r && asOf - max 0 ttl ≤ r.createdAt

/-- The commits since `asOf` that belong to no request. -/
def unlinkedCommits (entries : List Entry) (asOf : ℤ) : List Entry :=
  entries.filter fun c => c.kind = .commit && c.reqId = none && asOf ≤ c.createdAt

/-- The spend since `asOf`: every request by its commits or, while it is open, by its reservation. -/
def referenceSpend (entries : List Entry) (asOf ttl : ℤ) : ℚ :=
  sumUsd (touchedCommits entries asOf) + sumUsd (openReserves entries asOf ttl) +
    sumUsd (unlinkedCommits entries asOf)

/-- The index on the reservations: a request has one at most. -/
def UniqueReserves (entries : List Entry) : Prop :=
  ∀ id, (rowsOfKind .reserve entries id).length ≤ 1

/-! ## What the query counts -/

/-- The rows the query selects. -/
def rowsSince (entries : List Entry) (asOf : ℤ) : List Entry := entries.filter fun row => asOf ≤ row.createdAt

/-- The query counts the reservation of the request as open. -/
def reserveCounted (entries : List Entry) (asOf ttl : ℤ) (id : String) : Prop :=
  (∃ r, (groupRows (rowsSince entries asOf)).reserveByReq.get? id = some r ∧
    (groupRows (rowsSince entries asOf)).releasedReqIds.contains id = false ∧
    (groupRows (rowsSince entries asOf)).commitsByReq.getD id [] = []) ∨
  ∃ r ∈ openReserveBeforeAsOf entries (asOf - ttl) asOf, r.requestId = some id

/-- The query counts the commits of the request. -/
def commitsCounted (entries : List Entry) (asOf : ℤ) (id : String) : Prop :=
  id ∈ touchedReqIds (groupRows (rowsSince entries asOf)) asOf ∧ rowsOfKind .commit entries id ≠ []

/-- Every request is counted exactly once. -/
structure CountsOnceSince (entries : List Entry) (asOf ttl : ℤ) : Prop where
  spend : computeSpendSinceAsOf entries asOf ttl = referenceSpend entries asOf ttl
  once : ∀ id, ¬ (reserveCounted entries asOf ttl id ∧ commitsCounted entries asOf id)

/-- The reservations since `asOf` that only older rows settle. -/
def settledBefore (entries : List Entry) (asOf : ℤ) : List Entry :=
  entries.filter fun r => r.kind = .reserve && asOf ≤ r.createdAt && r.reqId.isSome &&
    settled entries r && !settled (rowsSince entries asOf) r

/-- The open reservations since `asOf` that name no request. -/
def namelessReserves (entries : List Entry) (asOf : ℤ) : List Entry :=
  entries.filter fun r => r.kind = .reserve && asOf ≤ r.createdAt && r.reqId = none && !settled entries r

/-! ## Request by request -/

section Requests

variable {entries : List Entry} {asOf ttl : ℤ} {id : String} {S : Finset String}

theorem sumUsd_filter_eq (hS : Covers S entries) (p : Entry → Bool) :
    sumUsd (entries.filter p) =
      ∑ id ∈ S, sumUsd ((fileOf entries id).filter p) + sumUsd ((unfiled entries).filter p) := by
  rw [sumUsd, sum_map_eq_sum_fibers Entry.reqId Entry.usd (entries.filter p) (hS.filter p), add_comm]
  simp only [← fileOf_filter, ← unfiled_filter]
  rfl

theorem reqId_of_mem_fileOf {row : Entry} (h : row ∈ fileOf entries id) : row.reqId = some id :=
  of_decide_eq_true (List.mem_filter.1 h).2

theorem fileOf_rowsSince : fileOf (rowsSince entries asOf) id = rowsSince (fileOf entries id) asOf :=
  fileOf_filter _ _ _

theorem touched_iff : touched entries asOf id = true ↔
    ofKind .reserve (rowsSince (fileOf entries id) asOf) ≠ [] ∨
      ofKind .commit (rowsSince (fileOf entries id) asOf) ≠ [] := by
  simp only [touched, List.any_eq_true, ofKind, rowsSince, fileOf, List.filter_filter, ne_eq,
    List.filter_eq_nil_iff, Bool.and_eq_true, Bool.or_eq_true, decide_eq_true_eq, not_forall, not_not]
  constructor
  · rintro ⟨row, hrow, ⟨hid, hk | hk⟩, ht⟩
    · exact .inl ⟨row, hrow, hk, ht, hid⟩
    · exact .inr ⟨row, hrow, hk, ht, hid⟩
  · rintro (⟨row, hrow, hk, ht, hid⟩ | ⟨row, hrow, hk, ht, hid⟩)
    · exact ⟨row, hrow, ⟨hid, .inl hk⟩, ht⟩
    · exact ⟨row, hrow, ⟨hid, .inr hk⟩, ht⟩

theorem settled_of_mem_fileOf {row : Entry} (h : row ∈ fileOf entries id) :
    settled entries row = true ↔
      ¬ (ofKind .commit (fileOf entries id) = [] ∧ ofKind .release (fileOf entries id) = []) := by
  rw [settled_iff (reqId_of_mem_fileOf h), not_and_or]

theorem settled_rowsSince {row : Entry} (h : row ∈ fileOf entries id) :
    settled (rowsSince entries asOf) row = true ↔
      ¬ (ofKind .commit (rowsSince (fileOf entries id) asOf) = [] ∧
        ofKind .release (rowsSince (fileOf entries id) asOf) = []) := by
  rw [settled_iff (reqId_of_mem_fileOf h), fileOf_rowsSince, not_and_or]

theorem ofKind_rowsSince (kind : EntryKind) (rows : List Entry) :
    ofKind kind (rowsSince rows asOf) = (ofKind kind rows).filter fun r => asOf ≤ r.createdAt :=
  List.filter_comm ..

theorem fileOf_touchedCommits :
    (fileOf entries id).filter (fun c => c.kind = .commit && c.reqId.any (touched entries asOf)) =
      if touched entries asOf id = true then ofKind .commit (fileOf entries id) else [] := by
  split
  · rename_i h
    refine List.filter_congr fun row hrow => ?_
    simp [reqId_of_mem_fileOf hrow, h]
  · rename_i h
    refine List.filter_eq_nil_iff.2 fun row hrow => ?_
    simp [reqId_of_mem_fileOf hrow, h]

theorem fileOf_openReserves :
    (fileOf entries id).filter
        (fun r => r.kind = .reserve && !settled entries r && asOf - max 0 ttl ≤ r.createdAt) =
      if ofKind .commit (fileOf entries id) = [] ∧ ofKind .release (fileOf entries id) = [] then
        (ofKind .reserve (fileOf entries id)).filter fun r => asOf - max 0 ttl ≤ r.createdAt
      else [] := by
  split
  · rename_i h
    rw [ofKind, List.filter_filter]
    refine List.filter_congr fun row hrow => ?_
    have hopen : settled entries row = false := by
      rw [← Bool.not_eq_true, settled_of_mem_fileOf hrow, not_not]
      exact h
    rw [hopen, Bool.not_false, Bool.and_true, Bool.and_comm]
  · rename_i h
    refine List.filter_eq_nil_iff.2 fun row hrow => ?_
    simp [(settled_of_mem_fileOf hrow).2 h]

theorem fileOf_settledBefore :
    fileOf (settledBefore entries asOf) id =
      if (ofKind .commit (rowsSince (fileOf entries id) asOf) = [] ∧
          ofKind .release (rowsSince (fileOf entries id) asOf) = []) ∧
        ¬ (ofKind .commit (fileOf entries id) = [] ∧ ofKind .release (fileOf entries id) = []) then
        ofKind .reserve (rowsSince (fileOf entries id) asOf)
      else [] := by
  rw [settledBefore, fileOf_filter]
  split
  · rename_i h
    rw [ofKind_rowsSince, ofKind, List.filter_filter]
    refine List.filter_congr fun row hrow => ?_
    have hsettled := (settled_of_mem_fileOf hrow).2 h.2
    have hopen : settled (rowsSince entries asOf) row = false := by
      rw [← Bool.not_eq_true, settled_rowsSince hrow, not_not]
      exact h.1
    simp [reqId_of_mem_fileOf hrow, hsettled, hopen, Bool.and_comm]
  · rename_i h
    refine List.filter_eq_nil_iff.2 fun row hrow => ?_
    have hrow' := not_and_or.1 h
    rw [← settled_rowsSince hrow, ← settled_of_mem_fileOf hrow] at hrow'
    simp
    tauto

theorem openUsd_eq {rows : List Entry} (h : (ofKind .reserve rows).length ≤ 1) :
    openUsd rows = if ofKind .commit rows = [] ∧ ofKind .release rows = [] then
      sumUsd (ofKind .reserve rows) else 0 := by
  rw [openUsd]
  refine if_congr Iff.rfl ?_ rfl
  rcases hrows : ofKind .reserve rows with _ | ⟨r, _ | ⟨r', rest⟩⟩
  · rfl
  · simp [sumUsd]
  · simp [hrows] at h

theorem sumUsd_filter_or {p q : Entry → Bool} (h : ∀ row, p row = true → q row = false) (rows : List Entry) :
    sumUsd (rows.filter fun row => p row || q row) = sumUsd (rows.filter p) + sumUsd (rows.filter q) := by
  induction rows with
  | nil => simp [sumUsd]
  | cons row rows ih =>
    simp only [sumUsd, List.filter_cons] at ih ⊢
    cases hp : p row with
    | true => simp [h row hp, ih, add_assoc]
    | false => cases q row <;> simp [ih, add_left_comm]

theorem sumUsd_lifetime (rows : List Entry) :
    sumUsd (rows.filter fun r => asOf - max 0 ttl ≤ r.createdAt) =
      sumUsd (rows.filter fun r => asOf ≤ r.createdAt) +
        sumUsd (rows.filter fun r => asOf - ttl ≤ r.createdAt && r.createdAt < asOf) := by
  rw [← sumUsd_filter_or]
  · refine congrArg sumUsd (List.filter_congr fun r _ => ?_)
    rw [Bool.eq_iff_iff]
    simp only [Bool.or_eq_true, Bool.and_eq_true, decide_eq_true_eq]
    omega
  · intro r hr
    have hle := of_decide_eq_true hr
    simp [not_lt.2 hle]

/-- **What the query counts of a request** is what the reference counts of it, and its reservation besides when
only older rows settle it. -/
theorem spendShare_eq (hunique : (ofKind .reserve (fileOf entries id)).length ≤ 1) :
    spendShare asOf ttl (fileOf entries id) =
      sumUsd ((fileOf entries id).filter fun c => c.kind = .commit && c.reqId.any (touched entries asOf)) +
      sumUsd ((fileOf entries id).filter
        fun r => r.kind = .reserve && !settled entries r && asOf - max 0 ttl ≤ r.createdAt) +
      sumUsd (fileOf (settledBefore entries asOf) id) := by
  have hsince : (ofKind .reserve (rowsSince (fileOf entries id) asOf)).length ≤ 1 := by
    rw [ofKind_rowsSince]
    exact (List.length_filter_le _ _).trans hunique
  have hcommits : (if ofKind .reserve (rowsSince (fileOf entries id) asOf) ≠ [] ∨
        ofKind .commit (rowsSince (fileOf entries id) asOf) ≠ [] then sumUsd (ofKind .commit (fileOf entries id))
      else 0) = sumUsd (if touched entries asOf id = true then ofKind .commit (fileOf entries id) else []) := by
    rw [apply_ite sumUsd]
    exact if_congr touched_iff.symm rfl rfl
  have hshare : spendShare asOf ttl (fileOf entries id) =
      (if ofKind .reserve (rowsSince (fileOf entries id) asOf) ≠ [] ∨
        ofKind .commit (rowsSince (fileOf entries id) asOf) ≠ [] then sumUsd (ofKind .commit (fileOf entries id))
      else 0) + openUsd (rowsSince (fileOf entries id) asOf) +
        sumUsd (openBefore asOf ttl (fileOf entries id)) := rfl
  rw [hshare, hcommits, openUsd_eq hsince, fileOf_touchedCommits, fileOf_openReserves, fileOf_settledBefore,
    openBefore, add_assoc, add_assoc]
  congr 1
  by_cases hopen : ofKind .commit (fileOf entries id) = [] ∧ ofKind .release (fileOf entries id) = []
  · -- an open request is open among the rows since `asOf`
    have hopenSince : ofKind .commit (rowsSince (fileOf entries id) asOf) = [] ∧
        ofKind .release (rowsSince (fileOf entries id) asOf) = [] := by
      rw [ofKind_rowsSince, ofKind_rowsSince, hopen.1, hopen.2]
      exact ⟨rfl, rfl⟩
    rw [if_pos hopen, if_pos hopen, if_pos hopenSince, if_neg fun h => h.2 hopen, sumUsd_lifetime,
      ofKind_rowsSince]
    simp [sumUsd]
  · rw [if_neg hopen, if_neg hopen, apply_ite sumUsd]
    simp [hopen, sumUsd]

theorem unfiledSpend_add :
    unfiledSpend entries asOf ttl + sumUsd (namelessReserves entries asOf) =
      sumUsd ((unfiled entries).filter
        fun r => r.kind = .reserve && !settled entries r && asOf - max 0 ttl ≤ r.createdAt) +
      sumUsd (unlinkedCommits entries asOf) := by
  have hcommits : ofKind .commit (unfiled (rowsSince entries asOf)) = unlinkedCommits entries asOf := by
    simp only [ofKind, unfiled, rowsSince, unlinkedCommits, List.filter_filter]
    refine List.filter_congr fun row _ => ?_
    rw [Bool.and_assoc]
  have hbefore : unfiled (openReserveBeforeAsOf entries (asOf - ttl) asOf) =
      ((unfiled entries).filter fun r => r.kind = .reserve && !settled entries r).filter
        fun r => asOf - ttl ≤ r.createdAt && r.createdAt < asOf := by
    simp only [unfiled, openReserveBeforeAsOf, List.filter_filter]
    refine List.filter_congr fun row _ => ?_
    cases decide (row.kind = .reserve) <;> cases settled entries row <;> simp [Bool.and_comm]
  have hsince : namelessReserves entries asOf =
      ((unfiled entries).filter fun r => r.kind = .reserve && !settled entries r).filter
        fun r => asOf ≤ r.createdAt := by
    simp only [unfiled, namelessReserves, List.filter_filter]
    refine List.filter_congr fun row _ => ?_
    cases decide (row.kind = .reserve) <;> cases settled entries row <;> simp
  have hall : (unfiled entries).filter
        (fun r => r.kind = .reserve && !settled entries r && asOf - max 0 ttl ≤ r.createdAt) =
      ((unfiled entries).filter fun r => r.kind = .reserve && !settled entries r).filter
        fun r => asOf - max 0 ttl ≤ r.createdAt := by
    rw [List.filter_filter]
    exact List.filter_congr fun row _ => Bool.and_comm _ _
  rw [unfiledSpend]
  change sumUsd (ofKind .commit (unfiled (rowsSince entries asOf))) + _ + _ = _
  rw [hcommits, hbefore, hsince, hall, sumUsd_lifetime]
  ring

/-! ## The whole table -/

/-- **The query and the reference** differ by the reservations since `asOf` that only older rows settle, and by
the open ones that name no request. -/
theorem computeSpendSinceAsOf_add (hunique : UniqueReserves entries) :
    computeSpendSinceAsOf entries asOf ttl + sumUsd (namelessReserves entries asOf) =
      referenceSpend entries asOf ttl + sumUsd (settledBefore entries asOf) := by
  have hS := covers_requestsOf entries
  have hfile : ∀ id ∈ requestsOf entries, (ofKind .reserve (fileOf entries id)).length ≤ 1 := by
    intro id hid
    rw [← rowsOfKind_eq fun h => empty_notMem_requestsOf entries (h ▸ hid)]
    exact hunique id
  have hnoCommits : (unfiled entries).filter
      (fun c => c.kind = .commit && c.reqId.any (touched entries asOf)) = [] := by
    refine List.filter_eq_nil_iff.2 fun row hrow => ?_
    have hnone : row.reqId = none := of_decide_eq_true (List.mem_filter.1 hrow).2
    simp [hnone]
  have hnoReserves : unfiled (settledBefore entries asOf) = [] := by
    refine List.filter_eq_nil_iff.2 fun row hrow => ?_
    have hmem := (List.mem_filter.1 hrow).2
    simp only [Bool.and_eq_true] at hmem
    simpa using Option.isSome_iff_ne_none.1 hmem.1.1.2
  have hcommits : sumUsd (touchedCommits entries asOf) = ∑ id ∈ requestsOf entries, sumUsd ((fileOf entries id).filter
      fun c => c.kind = .commit && c.reqId.any (touched entries asOf)) := by
    rw [touchedCommits, sumUsd_filter_eq hS, hnoCommits, sumUsd, List.map_nil, List.sum_nil, add_zero]
  have hbefore : sumUsd (settledBefore entries asOf) =
      ∑ id ∈ requestsOf entries, sumUsd (fileOf (settledBefore entries asOf) id) := by
    conv_lhs => rw [settledBefore, sumUsd_filter_eq hS]
    simp only [← fileOf_filter, ← unfiled_filter]
    change _ + sumUsd (unfiled (settledBefore entries asOf)) = _
    rw [hnoReserves, sumUsd, List.map_nil, List.sum_nil, add_zero]
    rfl
  rw [computeSpendSinceAsOf_eq entries asOf ttl hS (empty_notMem_requestsOf entries),
    Finset.sum_congr rfl fun id hid => spendShare_eq (hfile id hid), Finset.sum_add_distrib,
    Finset.sum_add_distrib, add_assoc, unfiledSpend_add, ← hcommits, ← hbefore, referenceSpend, openReserves,
    sumUsd_filter_eq hS]
  ring

theorem countedTwice_iff :
    reserveCounted entries asOf ttl id ∧ commitsCounted entries asOf id ↔
      ∃ r ∈ settledBefore entries asOf, r.reqId = some id ∧ rowsOfKind .commit entries id ≠ [] := by
  have hsince : ∀ row ∈ rowsSince entries asOf, asOf ≤ row.createdAt := fun row hrow =>
    of_decide_eq_true (List.mem_filter.1 hrow).2
  have hreleased : (groupRows (rowsSince entries asOf)).releasedReqIds.contains id = false ↔
      ofKind .release (fileOf (rowsSince entries asOf) id) = [] := by
    rw [← Bool.not_eq_true, List.contains_iff_mem, mem_groupRows_releasedReqIds, not_not]
  simp only [reserveCounted, commitsCounted, mem_touchedReqIds asOf hsince, groupRows_reserveByReq, hreleased,
    groupRows_commitsByReq_getD, fileOf_rowsSince]
  constructor
  · rintro ⟨⟨r, hr, hrelease, hcommit⟩ | ⟨r, hr, hid⟩, -, hne⟩
    · have hmem := List.mem_of_getLast? hr
      have hrow : r ∈ fileOf entries id := List.mem_of_mem_filter (List.mem_of_mem_filter hmem)
      have hid := reqId_of_mem_fileOf hrow
      rw [rowsOfKind_eq (reqId_eq_some.1 hid).2] at hne
      have hfile : r ∈ fileOf (settledBefore entries asOf) id := by
        rw [fileOf_settledBefore, if_pos ⟨⟨hcommit, hrelease⟩, fun h => hne h.1⟩]
        exact hmem
      exact ⟨r, List.mem_of_mem_filter hfile, hid, by rwa [rowsOfKind_eq (reqId_eq_some.1 hid).2]⟩
    · -- an open reservation has no commits
      obtain ⟨c, hc⟩ := List.exists_mem_of_ne_nil _ hne
      obtain ⟨hmem, hc⟩ := List.mem_filter.1 hc
      have hopen := (List.mem_filter.1 hr).2
      simp only [Bool.and_eq_true, decide_eq_true_eq, Bool.not_eq_true'] at hopen hc
      have hsettled : settled entries r = true :=
        List.any_eq_true.2 ⟨c, hmem, by simp [hc.1, hc.2, hid]⟩
      rw [hopen.2] at hsettled
      cases hsettled
  · rintro ⟨r, hr, hid, hne⟩
    have hfile : r ∈ fileOf (settledBefore entries asOf) id :=
      List.mem_filter.2 ⟨hr, decide_eq_true hid⟩
    rw [fileOf_settledBefore] at hfile
    split at hfile
    · rename_i h
      obtain ⟨last, hlast⟩ := Option.isSome_iff_exists.1 (List.getLast?_isSome.2 (List.ne_nil_of_mem hfile))
      exact ⟨.inl ⟨last, hlast, h.1.2, h.1.1⟩, .inl (List.ne_nil_of_mem hfile), hne⟩
    · cases hfile

end Requests

/-- **Every request is counted exactly once** if and only if the reservations since `asOf` that only older rows
settle amount to as much as the open ones that name no request, and none of the former has a commit. -/
theorem countsOnceSince_iff {entries : List Entry} {asOf ttl : ℤ} (hunique : UniqueReserves entries) :
    CountsOnceSince entries asOf ttl ↔
      sumUsd (settledBefore entries asOf) = sumUsd (namelessReserves entries asOf) ∧
        ∀ r ∈ settledBefore entries asOf, ∀ id, r.reqId = some id → rowsOfKind .commit entries id = [] := by
  have hadd : computeSpendSinceAsOf entries asOf ttl + sumUsd (namelessReserves entries asOf) =
      referenceSpend entries asOf ttl + sumUsd (settledBefore entries asOf) := computeSpendSinceAsOf_add hunique
  constructor
  · rintro ⟨hspend, honce⟩
    refine ⟨?_, fun r hr id hid => ?_⟩
    · rw [hspend] at hadd
      exact (add_left_cancel hadd).symm
    · by_contra hne
      exact honce id (countedTwice_iff.2 ⟨r, hr, hid, hne⟩)
  · rintro ⟨hsum, hnone⟩
    refine ⟨?_, fun id h => ?_⟩
    · rw [hsum] at hadd
      exact add_right_cancel hadd
    · obtain ⟨r, hr, hid, hne⟩ := countedTwice_iff.1 h
      exact hne (hnone r hr id hid)

theorem uniqueReserves_of_length {entries : List Entry} (h : (ofKind .reserve entries).length ≤ 1) :
    UniqueReserves entries := by
  intro id
  have hfilter : rowsOfKind .reserve entries id =
      (ofKind .reserve entries).filter fun row => row.requestId = some id := by
    rw [rowsOfKind, ofKind, List.filter_filter]
    exact List.filter_congr fun row _ => Bool.and_comm _ _
  rw [hfilter]
  exact (List.length_filter_le _ _).trans h

/-- A row of one dollar. -/
def dollarRow (kind : EntryKind) (createdAt : ℤ) : Entry where
  kind := kind
  requestId := some "r"
  model := none
  usd := 1
  createdAt := createdAt
  windowStart := 0
  tag := none
  callerTag := none
  mcpClass := false

/-- A reservation before the snapshot at 7 and its commit after it. -/
theorem countsOnceSince_straddle :
    CountsOnceSince [dollarRow .reserve 1, dollarRow .commit 8] 7 15 :=
  (countsOnceSince_iff (uniqueReserves_of_length (by decide))).2 ⟨by decide, by decide⟩

/-- A commit whose clock is behind that of its reservation, with the snapshot between them: the request counts
for its commit and for its reservation. -/
theorem counted_twice :
    UniqueReserves [dollarRow .reserve 8, dollarRow .commit 6] ∧
      computeSpendSinceAsOf [dollarRow .reserve 8, dollarRow .commit 6] 7 15 = 2 ∧
      referenceSpend [dollarRow .reserve 8, dollarRow .commit 6] 7 15 = 1 ∧
      ¬ CountsOnceSince [dollarRow .reserve 8, dollarRow .commit 6] 7 15 := by
  have hspend : computeSpendSinceAsOf [dollarRow .reserve 8, dollarRow .commit 6] 7 15 = 2 := by
    with_unfolding_all decide
  have hreference : referenceSpend [dollarRow .reserve 8, dollarRow .commit 6] 7 15 = 1 := by
    with_unfolding_all decide
  refine ⟨uniqueReserves_of_length (by decide), hspend, hreference, fun h => ?_⟩
  have hspend' := h.spend
  rw [hspend, hreference] at hspend'
  exact absurd hspend' (by norm_num)

end LlmGateway.Credit
