import LlmGateway.Credit.Ledger
import LlmGateway.Foundations.Sums

/-!
# The totals, request by request

The queries group the rows they select by request and add up dictionaries. Here each total is
written as a sum over requests, every request contributing a function of its own rows alone, its
*file*: `windowShare` to the committed and open total of a window (`windowTotal_eq`) and
`spendShare` to the spend since the balance snapshot (`computeSpendSinceAsOf_eq`). Rows filed under
no request are left apart.

The equations hold for every table. A transaction touches the files of few requests, so what it does
to a total is read off those files.
-/

namespace LlmGateway.Credit

/-! ## The groups of a query -/

def ofKind (kind : EntryKind) (rows : List Entry) : List Entry :=
  rows.filter fun row => row.kind = kind

/-- The rows of the request `id`, in order. -/
def fileOf (rows : List Entry) (id : String) : List Entry :=
  rows.filter fun row => row.reqId = some id

/-- The rows filed under no request. -/
def unfiled (rows : List Entry) : List Entry := rows.filter fun row => row.reqId = none

theorem fileOf_filter (p : Entry → Bool) (rows : List Entry) (id : String) :
    fileOf (rows.filter p) id = (fileOf rows id).filter p := List.filter_comm ..

theorem unfiled_filter (p : Entry → Bool) (rows : List Entry) :
    unfiled (rows.filter p) = (unfiled rows).filter p := List.filter_comm ..

theorem groupRows_concat (rows : List Entry) (row : Entry) :
    groupRows (rows ++ [row]) = (groupRows rows).add row := List.foldl_concat ..

@[simp] theorem ofKind_nil (kind : EntryKind) : ofKind kind [] = [] := rfl

theorem ofKind_append (kind : EntryKind) (rows rows' : List Entry) :
    ofKind kind (rows ++ rows') = ofKind kind rows ++ ofKind kind rows' := List.filter_append ..

theorem fileOf_append (rows rows' : List Entry) (id : String) :
    fileOf (rows ++ rows') id = fileOf rows id ++ fileOf rows' id := List.filter_append ..

theorem ofKind_fileOf_concat (kind : EntryKind) (rows : List Entry) (row : Entry) (id : String) :
    ofKind kind (fileOf (rows ++ [row]) id) =
      if row.kind = kind ∧ row.reqId = some id then ofKind kind (fileOf rows id) ++ [row]
      else ofKind kind (fileOf rows id) := by
  rw [fileOf_append, ofKind_append]
  by_cases hid : row.reqId = some id
  · by_cases hk : row.kind = kind <;> simp [fileOf, ofKind, hid, hk]
  · simp [fileOf, hid]

theorem groupRows_reserveByReq (rows : List Entry) (id : String) :
    (groupRows rows).reserveByReq.get? id = (ofKind .reserve (fileOf rows id)).getLast? := by
  induction rows using List.reverseRecOn with
  | nil => rfl
  | append_singleton rows row ih =>
    rw [groupRows_concat, ofKind_fileOf_concat]
    cases hk : row.kind <;> cases hid : row.reqId <;> simp [RowGroups.add, hk, hid, ih]
    rename_i j
    rw [Dict.get?_set, ih]
    by_cases h : id = j
    · simp [h]
    · simp [h, Ne.symm h]

theorem groupRows_commitsByReq (rows : List Entry) (id : String) :
    (groupRows rows).commitsByReq.get? id =
      if ofKind .commit (fileOf rows id) = [] then none
      else some (ofKind .commit (fileOf rows id)) := by
  induction rows using List.reverseRecOn with
  | nil => rfl
  | append_singleton rows row ih =>
    rw [groupRows_concat, ofKind_fileOf_concat]
    cases hk : row.kind <;> cases hid : row.reqId <;> simp [RowGroups.add, hk, hid, ih]
    rename_i j
    rw [Dict.get?_set, Dict.getD_eq, ih]
    by_cases h : id = j
    · subst h
      by_cases hnil : ofKind .commit (fileOf rows id) = []
      · simp [ih, hnil]
      · simp [ih, hnil]
    · simp [h, Ne.symm h]

@[simp] theorem groupRows_commitsByReq_getD (rows : List Entry) (id : String) :
    (groupRows rows).commitsByReq.getD id [] = ofKind .commit (fileOf rows id) := by
  rw [Dict.getD_eq, groupRows_commitsByReq]
  by_cases h : ofKind .commit (fileOf rows id) = []
  · simp [h]
  · simp [h]

theorem mem_groupRows_releasedReqIds (rows : List Entry) (id : String) :
    id ∈ (groupRows rows).releasedReqIds ↔ ofKind .release (fileOf rows id) ≠ [] := by
  induction rows using List.reverseRecOn with
  | nil => simp [groupRows, RowGroups.empty, fileOf]
  | append_singleton rows row ih =>
    rw [groupRows_concat, ofKind_fileOf_concat]
    cases hk : row.kind <;> cases hid : row.reqId <;> simp [RowGroups.add, hk, hid, ih]
    rename_i j
    by_cases h : id = j
    · simp [h]
    · simp [h, Ne.symm h]

theorem groupRows_unlinkedCommits (rows : List Entry) :
    (groupRows rows).unlinkedCommits = ofKind .commit (unfiled rows) := by
  induction rows using List.reverseRecOn with
  | nil => rfl
  | append_singleton rows row ih =>
    rw [groupRows_concat, unfiled, List.filter_append, ofKind_append]
    cases hk : row.kind <;> cases hid : row.reqId <;>
      simp [RowGroups.add, hk, hid, ih, ofKind, unfiled]

/-- A set of requests that holds every request of the table. -/
def Covers (S : Finset String) (rows : List Entry) : Prop :=
  ∀ row ∈ rows, ∀ id, row.reqId = some id → id ∈ S

/-! ## The total of a window -/

/-- What an open reservation among the rows of a request counts for. -/
def openUsd (rows : List Entry) : ℚ :=
  if ofKind .commit rows = [] ∧ ofKind .release rows = [] then
    (ofKind .reserve rows).getLast?.elim 0 Entry.usd
  else 0

theorem sumUsd_append (rows rows' : List Entry) :
    sumUsd (rows ++ rows') = sumUsd rows + sumUsd rows' := by
  rw [sumUsd, List.map_append, List.sum_append, sumUsd, sumUsd]

variable {rows : List Entry} {S : Finset String} {id : String} {row : Entry}

theorem sumUsd_nonneg (h : ∀ row ∈ rows, 0 ≤ row.usd) : 0 ≤ sumUsd rows := by
  refine List.sum_nonneg fun x hx => ?_
  obtain ⟨row, hrow, rfl⟩ := List.mem_map.1 hx
  exact h row hrow

theorem openUsd_nonneg (h : ∀ row ∈ rows, 0 ≤ row.usd) : 0 ≤ openUsd rows := by
  unfold openUsd
  split
  · cases hlast : (ofKind .reserve rows).getLast? with
    | none => exact le_rfl
    | some r => exact h r (List.mem_of_mem_filter (List.mem_of_getLast? hlast))
  · exact le_rfl

/-- What a request contributes to the total of a window. -/
def windowShare (window : ℤ × ℤ) (file : List Entry) : ℚ :=
  let rows := file.filter (inWindow window)
  sumUsd (ofKind .commit rows) + openUsd rows

/-- The committed and open total of a window. -/
def windowTotal (entries : List Entry) (window : ℤ × ℤ) : ℚ :=
  let g := groupRows (windowRows entries window)
  g.committedUsd window + g.openReservationsUsd window

theorem mem_of_ofKind_fileOf_ne_nil {kind : EntryKind}
    (hS : Covers S rows) (h : ofKind kind (fileOf rows id) ≠ []) : id ∈ S := by
  obtain ⟨row, hrow⟩ := List.exists_mem_of_ne_nil _ h
  have hrow := List.mem_of_mem_filter hrow
  exact hS row (List.mem_of_mem_filter hrow) id (by simpa using (List.mem_filter.1 hrow).2)

/-! The keys of the groups of a query are requests of the table. -/

theorem mem_of_reserveByReq {r : Entry}
    (hS : Covers S rows) (h : (groupRows rows).reserveByReq.get? id = some r) : id ∈ S := by
  rw [groupRows_reserveByReq] at h
  exact mem_of_ofKind_fileOf_ne_nil hS (List.ne_nil_of_mem (List.mem_of_getLast? h))

theorem mem_of_commitsByReq {commits : List Entry} (hS : Covers S rows)
    (h : (groupRows rows).commitsByReq.get? id = some commits) : id ∈ S := by
  rw [groupRows_commitsByReq] at h
  split at h
  · cases h
  · exact mem_of_ofKind_fileOf_ne_nil hS ‹_›

theorem Covers.filter (h : Covers S rows) (p : Entry → Bool) : Covers S (rows.filter p) :=
  fun row hrow => h row (List.mem_of_mem_filter hrow)

theorem mem_inWindow {entries : List Entry} {window : ℤ × ℤ}
    (h : row ∈ windowRows entries window) : inWindow window row = true :=
  (List.mem_filter.1 h).2

theorem mem_of_mem_ofKind_fileOf {kind : EntryKind} (h : row ∈ ofKind kind (fileOf rows id)) : row ∈ rows :=
  List.mem_of_mem_filter (List.mem_of_mem_filter h)

section Window

variable (entries : List Entry) (window : ℤ × ℤ) {S : Finset String}

theorem committedUsd_eq (hS : Covers S entries) :
    (groupRows (windowRows entries window)).committedUsd window =
      ∑ id ∈ S, sumUsd (ofKind .commit (fileOf (windowRows entries window) id)) +
        sumUsd (ofKind .commit (unfiled (windowRows entries window))) := by
  obtain ⟨rows, hrows⟩ : ∃ rows, windowRows entries window = rows := ⟨_, rfl⟩
  have hcov : Covers S rows := hrows ▸ hS.filter _
  rw [hrows, RowGroups.committedUsd, groupRows_unlinkedCommits]
  congr 1
  rw [Dict.sum_items (S := S) _ fun id commits =>
    if (groupRows rows).commitsInWindow window id commits then sumUsd commits else 0]
  · refine Finset.sum_congr rfl fun id _ => ?_
    rw [groupRows_commitsByReq]
    split
    · rename_i h
      simp [h, sumUsd]
    · rename_i h
      rw [Option.elim_some, if_pos]
      -- the rows were selected by the window, so the commits are in it
      obtain ⟨row, hrow⟩ := List.exists_mem_of_ne_nil _ h
      have hin : inWindow window row = true :=
        mem_inWindow (hrows ▸ mem_of_mem_ofKind_fileOf hrow)
      simp only [RowGroups.commitsInWindow, Bool.or_eq_true, List.any_eq_true]
      exact .inl ⟨row, hrow, hin⟩
  · exact fun id commits h => mem_of_commitsByReq hcov h

theorem openReservationsUsd_eq (hS : Covers S entries) :
    (groupRows (windowRows entries window)).openReservationsUsd window =
      ∑ id ∈ S, openUsd (fileOf (windowRows entries window) id) := by
  obtain ⟨rows, hrows⟩ : ∃ rows, windowRows entries window = rows := ⟨_, rfl⟩
  have hcov : Covers S rows := hrows ▸ hS.filter _
  rw [hrows, RowGroups.openReservationsUsd]
  rw [Dict.sum_items (S := S) _ fun id r =>
    if (groupRows rows).isOpen window id r then r.usd else 0]
  · refine Finset.sum_congr rfl fun id _ => ?_
    rw [groupRows_reserveByReq, openUsd]
    cases hlast : (ofKind .reserve (fileOf rows id)).getLast? with
    | none => simp
    | some r =>
      have hin : inWindow window r = true :=
        mem_inWindow (hrows ▸ mem_of_mem_ofKind_fileOf (List.mem_of_getLast? hlast))
      have hrel := mem_groupRows_releasedReqIds rows id
      simp only [Option.elim_some, RowGroups.isOpen, groupRows_commitsByReq_getD, hin,
        Bool.and_true]
      by_cases h : ofKind .release (fileOf rows id) = []
      · simp [h, hrel]
      · simp [h, hrel]
  · exact fun id r h => mem_of_reserveByReq hcov h

/-- **The total of a window, request by request.** -/
theorem windowTotal_eq (hS : Covers S entries) :
    windowTotal entries window =
      ∑ id ∈ S, windowShare window (fileOf entries id) +
        sumUsd (ofKind .commit (unfiled (windowRows entries window))) := by
  rw [windowTotal, committedUsd_eq entries window hS, openReservationsUsd_eq entries window hS]
  simp only [windowShare, Finset.sum_add_distrib, windowRows, fileOf_filter]
  ring

end Window

/-! ## The spend since the balance snapshot -/

/-- The reservations of a request that are open and were made in the lifetime before `asOf`. -/
def openBefore (asOf ttl : ℤ) (file : List Entry) : List Entry :=
  if ofKind .commit file = [] ∧ ofKind .release file = [] then
    (ofKind .reserve file).filter fun r => asOf - ttl ≤ r.createdAt && r.createdAt < asOf
  else []

/-- What a request contributes to the spend since `asOf`. -/
def spendShare (asOf ttl : ℤ) (file : List Entry) : ℚ :=
  let rows := file.filter fun row => asOf ≤ row.createdAt
  (if ofKind .reserve rows ≠ [] ∨ ofKind .commit rows ≠ [] then sumUsd (ofKind .commit file)
    else 0) + openUsd rows + sumUsd (openBefore asOf ttl file)

/-- What rows filed under no request contribute to the spend. -/
def unfiledSpend (entries : List Entry) (asOf ttl : ℤ) : ℚ :=
  sumUsd (ofKind .commit (unfiled (entries.filter fun row => asOf ≤ row.createdAt))) +
    sumUsd (unfiled (openReserveBeforeAsOf entries (asOf - ttl) asOf))

theorem reqId_eq_some :
    row.reqId = some id ↔ row.requestId = some id ∧ id ≠ "" := by
  simp [Entry.reqId, Option.filter_eq_some_iff]

theorem rowsOfKind_eq (hid : id ≠ "") (kind : EntryKind) (entries : List Entry) :
    rowsOfKind kind entries id = ofKind kind (fileOf entries id) := by
  rw [rowsOfKind, ofKind, fileOf, List.filter_filter]
  refine List.filter_congr fun row _ => ?_
  simp [reqId_eq_some, hid]

theorem rowsOfKind_append (kind : EntryKind) (entries entries' : List Entry) (id : String) :
    rowsOfKind kind (entries ++ entries') id =
      rowsOfKind kind entries id ++ rowsOfKind kind entries' id := List.filter_append ..

theorem rowsOfKind_insert (kind : EntryKind) (ledger : Ledger) (row : Entry) (id : String) :
    rowsOfKind kind (ledger.insert row).entries id =
      if row.kind = kind ∧ row.requestId = some id then rowsOfKind kind ledger.entries id ++ [row]
      else rowsOfKind kind ledger.entries id := by
  rw [Ledger.insert, rowsOfKind_append]
  split
  · rename_i h
    simp [rowsOfKind, h]
  · rename_i h
    simp [rowsOfKind, h]

theorem settled_iff {entries : List Entry} (h : row.reqId = some id) :
    settled entries row = true ↔
      ofKind .commit (fileOf entries id) ≠ [] ∨ ofKind .release (fileOf entries id) ≠ [] := by
  obtain ⟨hreq, hne⟩ := reqId_eq_some.1 h
  have hex (kind : EntryKind) : ofKind kind (fileOf entries id) ≠ [] ↔
      ∃ c ∈ entries, c.requestId = some id ∧ c.kind = kind := by
    rw [← rowsOfKind_eq hne, rowsOfKind, ne_eq, List.filter_eq_nil_iff]
    push Not
    simp [and_comm]
  rw [hex, hex, settled, List.any_eq_true]
  constructor
  · rintro ⟨c, hc, h⟩
    simp only [hreq, Bool.and_eq_true, Bool.or_eq_true, decide_eq_true_eq] at h
    obtain ⟨⟨-, hid⟩, hk | hk⟩ := h
    · exact .inl ⟨c, hc, hid, hk⟩
    · exact .inr ⟨c, hc, hid, hk⟩
  · rintro (⟨c, hc, hid, hk⟩ | ⟨c, hc, hid, hk⟩)
    · exact ⟨c, hc, by simp [hid, hk, hreq]⟩
    · exact ⟨c, hc, by simp [hid, hk, hreq]⟩

section Spend

variable (entries : List Entry) (asOf ttl : ℤ) {S : Finset String}

theorem fileOf_openReserveBeforeAsOf (id : String) :
    fileOf (openReserveBeforeAsOf entries (asOf - ttl) asOf) id =
      openBefore asOf ttl (fileOf entries id) := by
  rw [openReserveBeforeAsOf, fileOf_filter, openBefore]
  by_cases h : ofKind .commit (fileOf entries id) = [] ∧ ofKind .release (fileOf entries id) = []
  · rw [if_pos h, ofKind, List.filter_filter]
    refine List.filter_congr fun row hrow => ?_
    have hsettled : settled entries row = false := by
      rw [← Bool.not_eq_true, settled_iff (by simpa using (List.mem_filter.1 hrow).2), h.1, h.2]
      simp
    rw [hsettled]
    by_cases hk : row.kind = .reserve
    · simp [hk]
    · simp [hk]
  · rw [if_neg h, List.filter_eq_nil_iff]
    intro row hrow
    have hsettled : settled entries row = true := by
      rw [settled_iff (by simpa using (List.mem_filter.1 hrow).2)]
      tauto
    simp [hsettled]

variable {rows : List Entry}

theorem mem_touchedReqIds (hrows : ∀ row ∈ rows, asOf ≤ row.createdAt) (id : String) :
    id ∈ touchedReqIds (groupRows rows) asOf ↔
      ofKind .reserve (fileOf rows id) ≠ [] ∨ ofKind .commit (fileOf rows id) ≠ [] := by
  have hkey {ν : Type} (d : Dict String ν) :
      id ∈ d.items.map Prod.fst ↔ ∃ v, d.get? id = some v := by
    simp [List.mem_map, ← Dict.mem_items_iff]
  have hlast {l : List Entry} : (∃ v, l.getLast? = some v) ↔ l ≠ [] := by
    rw [← Option.ne_none_iff_exists', ne_eq, List.getLast?_eq_none_iff]
  rw [touchedReqIds, List.mem_filter, List.mem_dedup, List.mem_append, hkey, hkey,
    groupRows_reserveByReq, groupRows_commitsByReq, hlast]
  constructor
  · rintro ⟨h | h, -⟩
    · right
      intro hnil
      simp [hnil] at h
    · exact .inl h
  · intro h
    refine ⟨?_, ?_⟩
    · rcases h with h | h
      · exact .inr h
      · exact .inl ⟨_, if_neg h⟩
    · rw [requestTouchesAsOf, Bool.or_eq_true, groupRows_reserveByReq, groupRows_commitsByReq_getD]
      rcases h with h | h
      · obtain ⟨r, hr⟩ := hlast.2 h
        have := hrows r (mem_of_mem_ofKind_fileOf (List.mem_of_getLast? hr))
        simp [hr, this]
      · obtain ⟨c, hc⟩ := List.exists_mem_of_ne_nil _ h
        have := hrows c (mem_of_mem_ofKind_fileOf hc)
        exact .inr (List.any_eq_true.2 ⟨c, hc, by simpa using this⟩)

theorem sum_touched_eq (hrows : ∀ row ∈ rows, asOf ≤ row.createdAt) (hS : Covers S rows) (hne : "" ∉ S) :
    ((touchedReqIds (groupRows rows) asOf).map fun id =>
        sumUsd (rowsOfKind .commit entries id)).sum =
      ∑ id ∈ S, if ofKind .reserve (fileOf rows id) ≠ [] ∨ ofKind .commit (fileOf rows id) ≠ [] then
        sumUsd (ofKind .commit (fileOf entries id)) else 0 := by
  have hsub : (touchedReqIds (groupRows rows) asOf).toFinset ⊆ S := by
    intro id hid
    rw [List.mem_toFinset, mem_touchedReqIds asOf hrows] at hid
    rcases hid with h | h
    · exact mem_of_ofKind_fileOf_ne_nil hS h
    · exact mem_of_ofKind_fileOf_ne_nil hS h
  have hnodup : (touchedReqIds (groupRows rows) asOf).Nodup := (List.nodup_dedup _).filter _
  rw [← List.sum_toFinset _ hnodup, ← Finset.sum_subset hsub]
  · refine Finset.sum_congr rfl fun id hid => ?_
    rw [if_pos ((mem_touchedReqIds asOf hrows id).1 (List.mem_toFinset.1 hid)),
      rowsOfKind_eq fun h => hne (h ▸ hsub hid)]
  · intro id _ hid
    rw [List.mem_toFinset, mem_touchedReqIds asOf hrows] at hid
    exact if_neg hid

theorem sum_openReserves_eq (hrows : ∀ row ∈ rows, asOf ≤ row.createdAt) (hS : Covers S rows) :
    ((groupRows rows).reserveByReq.items.map fun item =>
      if (groupRows rows).releasedReqIds.contains item.1 then 0
      else if (groupRows rows).commitsByReq.getD item.1 [] ≠ [] then 0
      else if asOf ≤ item.2.createdAt then item.2.usd
      else 0).sum = ∑ id ∈ S, openUsd (fileOf rows id) := by
  rw [Dict.sum_items (S := S) _ fun id (r : Entry) =>
    if (groupRows rows).releasedReqIds.contains id then 0
    else if (groupRows rows).commitsByReq.getD id [] ≠ [] then 0
    else if asOf ≤ r.createdAt then r.usd else 0]
  · refine Finset.sum_congr rfl fun id _ => ?_
    rw [groupRows_reserveByReq, openUsd]
    cases hlast : (ofKind .reserve (fileOf rows id)).getLast? with
    | none => simp
    | some r =>
      have hr := hrows r (mem_of_mem_ofKind_fileOf (List.mem_of_getLast? hlast))
      have hrel := mem_groupRows_releasedReqIds rows id
      simp only [Option.elim_some, groupRows_commitsByReq_getD, hr, if_true, List.contains_iff_mem]
      by_cases h : ofKind .release (fileOf rows id) = []
      · by_cases hc : ofKind .commit (fileOf rows id) = [] <;> simp [h, hrel, hc]
      · simp [h, hrel]
  · exact fun id r h => mem_of_reserveByReq hS h

/-- **The spend since `asOf`, request by request.** -/
theorem computeSpendSinceAsOf_eq (hS : Covers S entries) (hne : "" ∉ S) :
    computeSpendSinceAsOf entries asOf ttl =
      ∑ id ∈ S, spendShare asOf ttl (fileOf entries id) + unfiledSpend entries asOf ttl := by
  obtain ⟨rows, hrows⟩ : ∃ rows, (entries.filter fun row => asOf ≤ row.createdAt) = rows := ⟨_, rfl⟩
  have hge : ∀ row ∈ rows, asOf ≤ row.createdAt := by
    intro row hrow
    rw [← hrows] at hrow
    simpa using (List.mem_filter.1 hrow).2
  have hcov : Covers S rows := hrows ▸ hS.filter _
  have hunlinked : (groupRows rows).unlinkedCommits.filter (fun c => asOf ≤ c.createdAt) =
      ofKind .commit (unfiled rows) := by
    rw [groupRows_unlinkedCommits, List.filter_eq_self]
    intro row hrow
    simpa using hge row (List.mem_of_mem_filter (List.mem_of_mem_filter hrow))
  have hbefore : sumUsd (openReserveBeforeAsOf entries (asOf - ttl) asOf) =
      sumUsd (unfiled (openReserveBeforeAsOf entries (asOf - ttl) asOf)) +
        ∑ id ∈ S, sumUsd (openBefore asOf ttl (fileOf entries id)) := by
    simp only [← fileOf_openReserveBeforeAsOf]
    exact sum_map_eq_sum_fibers Entry.reqId Entry.usd _ (hS.filter _)
  have hfile (id : String) :
      fileOf rows id = (fileOf entries id).filter fun row => asOf ≤ row.createdAt := by
    rw [← hrows, fileOf_filter]
  rw [computeSpendSinceAsOf, hrows, sum_touched_eq entries asOf hge hcov hne, hunlinked,
    sum_openReserves_eq asOf hge hcov, hbefore, unfiledSpend, hrows]
  simp only [spendShare, Finset.sum_add_distrib, hfile]
  ring

end Spend

end LlmGateway.Credit
