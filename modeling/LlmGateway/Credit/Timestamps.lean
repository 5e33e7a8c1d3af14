import LlmGateway.Credit.SpendSince
import LlmGateway.Foundations.Timestamps

/-!
# The times of the ledger as texts

`entries` keeps its times as the texts `isoformat` gives, and the queries compare these texts; they are ASCII, so
that SQLite compares them by their characters, as Python does. A `StoredEntry`
is a row with the datetimes whose texts its columns hold. The queries of this module are the source's, over
texts; each selects the rows that its counterpart over instants selects (`SelectsByTime`).
-/

namespace LlmGateway.Credit

open Calendar

/-- A row of `entries` as the table keeps it. -/
structure StoredEntry where
  row : Entry
  created : Datetime
  window : Datetime
  createdAt_eq : row.createdAt = created.instant
  windowStart_eq : row.windowStart = window.instant

namespace StoredEntry

variable (r : StoredEntry)

/-- The column `created_at`. -/
def createdAt : List Char := r.created.isoformat

/-- The column `window_start`. -/
def windowStart : List Char := r.window.isoformat

end StoredEntry

/-! ## The queries -/

section Queries

variable (table : List StoredEntry)

/-- The rows of the table. -/
def rowsOf : List Entry := table.map StoredEntry.row

def spendSinceAsOfSql (asOf : List Char) : List StoredEntry := table.filter fun r => asOf ≤ r.createdAt

def openReserveBeforeAsOfSql (lower asOf : List Char) : List StoredEntry :=
  table.filter fun r =>
    r.row.kind = .reserve && lower ≤ r.createdAt && r.createdAt < asOf && !settled (rowsOf table) r.row

def ttlExpireCandidatesSql (lower upper : List Char) : List StoredEntry :=
  table.filter fun r =>
    r.row.kind = .reserve && lower ≤ r.createdAt && r.createdAt ≤ upper && !settled (rowsOf table) r.row

/-- The rows `compute_window_snapshot` selects. -/
def windowRowsSql (winStart reset : List Char) : List StoredEntry :=
  table.filter fun r => r.windowStart = winStart || (winStart ≤ r.createdAt && r.createdAt < reset)

/-- `_TTL_SWEEP_EPOCH`. -/
def ttlSweepEpochText : List Char := "1970-01-01T00:00:00+00:00".toList

/-- `lower_bound` of the sweep. -/
def sweepLowerBound (watermark : Option (List Char)) : List Char := watermark.getD ttlSweepEpochText

end Queries

/-! ## Texts and instants -/

theorem isoformat_le_iff (x y : Datetime) : x.isoformat ≤ y.isoformat ↔ x.instant ≤ y.instant := by
  rw [← not_lt, ← not_lt, Datetime.isoformat_lt_iff]

theorem isoformat_inj (x y : Datetime) : x.isoformat = y.isoformat ↔ x.instant = y.instant := by
  rw [le_antisymm_iff, le_antisymm_iff, isoformat_le_iff, isoformat_le_iff]

section Selects

variable {table : List StoredEntry}

theorem map_row_filter {p : StoredEntry → Bool} {q : Entry → Bool} (h : ∀ r, p r = q r.row) :
    rowsOf (table.filter p) = (rowsOf table).filter q := by
  rw [rowsOf, rowsOf, List.filter_map]
  exact congrArg _ (List.filter_congr fun r _ => h r)

theorem createdAt_le_iff (r : StoredEntry) (x : Datetime) :
    r.createdAt ≤ x.isoformat ↔ r.row.createdAt ≤ x.instant := by
  rw [StoredEntry.createdAt, isoformat_le_iff, r.createdAt_eq]

theorem le_createdAt_iff (x : Datetime) (r : StoredEntry) :
    x.isoformat ≤ r.createdAt ↔ x.instant ≤ r.row.createdAt := by
  rw [StoredEntry.createdAt, isoformat_le_iff, r.createdAt_eq]

theorem createdAt_lt_iff (r : StoredEntry) (x : Datetime) :
    r.createdAt < x.isoformat ↔ r.row.createdAt < x.instant := by
  rw [StoredEntry.createdAt, Datetime.isoformat_lt_iff, r.createdAt_eq]

theorem windowStart_eq_iff (r : StoredEntry) (x : Datetime) :
    r.windowStart = x.isoformat ↔ r.row.windowStart = x.instant := by
  rw [StoredEntry.windowStart, isoformat_inj, r.windowStart_eq]

variable (table : List StoredEntry) (x y : Datetime)

theorem rowsOf_spendSinceAsOfSql :
    rowsOf (spendSinceAsOfSql table x.isoformat) = rowsSince (rowsOf table) x.instant :=
  map_row_filter fun r => by simp only [le_createdAt_iff]

theorem rowsOf_openReserveBeforeAsOfSql :
    rowsOf (openReserveBeforeAsOfSql table x.isoformat y.isoformat) =
      openReserveBeforeAsOf (rowsOf table) x.instant y.instant :=
  map_row_filter fun r => by simp only [le_createdAt_iff, createdAt_lt_iff]

theorem rowsOf_ttlExpireCandidatesSql :
    rowsOf (ttlExpireCandidatesSql table x.isoformat y.isoformat) =
      ttlExpireCandidates (rowsOf table) x.instant y.instant :=
  map_row_filter fun r => by simp only [le_createdAt_iff, createdAt_le_iff]

theorem rowsOf_windowRowsSql :
    rowsOf (windowRowsSql table x.isoformat y.isoformat) =
      windowRows (rowsOf table) (x.instant, y.instant) :=
  map_row_filter fun r => by
    simp only [windowStart_eq_iff, le_createdAt_iff, createdAt_lt_iff, inWindow]

/-- The start of 1970. -/
def epoch : Datetime where
  toYearMonth := YearMonth.january 1970
  day := 1
  hour := 0
  minute := 0
  second := 0
  microsecond := 0
  year_mem := by decide
  day_mem := by decide
  hour_lt := by decide
  minute_lt := by decide
  second_lt := by decide
  microsecond_lt := by decide

theorem isoformat_epoch : epoch.isoformat = ttlSweepEpochText := by decide +kernel

theorem instant_epoch : epoch.instant = ttlSweepEpoch := by decide

theorem sweepLowerBound_map (watermark : Option Datetime) :
    sweepLowerBound (watermark.map Datetime.isoformat) = (watermark.getD epoch).isoformat := by
  cases watermark with
  | none => exact isoformat_epoch.symm
  | some x => rfl

theorem instant_getD_epoch (watermark : Option Datetime) :
    (watermark.getD epoch).instant = (watermark.map Datetime.instant).getD ttlSweepEpoch := by
  cases watermark with
  | none => exact instant_epoch
  | some x => rfl

end Selects

/-- Every range comparison on the texts selects the rows of the time range. -/
structure SelectsByTime (table : List StoredEntry) (x y : Datetime) : Prop where
  since : rowsOf (spendSinceAsOfSql table x.isoformat) = rowsSince (rowsOf table) x.instant
  openBefore : rowsOf (openReserveBeforeAsOfSql table x.isoformat y.isoformat) =
    openReserveBeforeAsOf (rowsOf table) x.instant y.instant
  expired : rowsOf (ttlExpireCandidatesSql table x.isoformat y.isoformat) =
    ttlExpireCandidates (rowsOf table) x.instant y.instant
  window : rowsOf (windowRowsSql table x.isoformat y.isoformat) =
    windowRows (rowsOf table) (x.instant, y.instant)
  /-- The sweep, whose lower bound is the watermark or the epoch. -/
  swept : ∀ watermark : Option Datetime,
    rowsOf (ttlExpireCandidatesSql table (sweepLowerBound (watermark.map Datetime.isoformat))
        y.isoformat) =
      ttlExpireCandidates (rowsOf table) ((watermark.map Datetime.instant).getD ttlSweepEpoch) y.instant

theorem selectsByTime (table : List StoredEntry) (x y : Datetime) : SelectsByTime table x y where
  since := rowsOf_spendSinceAsOfSql table x
  openBefore := rowsOf_openReserveBeforeAsOfSql table x y
  expired := rowsOf_ttlExpireCandidatesSql table x y
  window := rowsOf_windowRowsSql table x y
  swept watermark := by
    rw [sweepLowerBound_map, rowsOf_ttlExpireCandidatesSql, instant_getD_epoch]

/-- **Stored times are ordered as texts the way they are in time**, and the queries select by time. -/
theorem timestamp_order (x y : Datetime) :
    (x.isoformat < y.isoformat ↔ x.instant < y.instant) ∧
      ∀ table : List StoredEntry, SelectsByTime table x y :=
  ⟨x.isoformat_lt_iff y, fun table => selectsByTime table x y⟩

end LlmGateway.Credit
