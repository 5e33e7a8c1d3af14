import LlmGateway.Foundations.Dict
import LlmGateway.Foundations.JsonText

/-!
# The rows of the projection

A row of the projection is a record whose fields have a name, a declared type and, but for a few, a default. `Row` is a
row with one cell for each field of its type; `Row.Typed` says that every cell has the declared type, and `Row.Same`
that two rows are equal as Python has it, where the order in a mapping does not count. A projection is a row of health,
sequences of rows, and the arcs under their ids.
-/

namespace LlmGateway.DispatchMonitor

open Json (lookup)

/-! ## Declared types -/

inductive Scalar where
  | str
  | int
  | bool
  deriving DecidableEq

/-- The declared types of the fields. -/
inductive FieldType where
  | scalar (s : Scalar)
  | optional (s : Scalar)
  | texts
  | counts
  deriving DecidableEq

/-- A value of a field: one that JSON has, or a tuple of such. -/
inductive Cell where
  | data (j : Json)
  | tuple (elems : List Json)

namespace Scalar

/-- The spelling of a type. -/
def spelled : Scalar → String
  | str => "str"
  | int => "int"
  | bool => "bool"

def Holds : Scalar → Json → Prop
  | str, .str _ => True
  | int, .int _ => True
  | bool, .bool _ => True
  | _, _ => False

end Scalar

namespace FieldType

/-- `str(f.type)`. -/
def spelled : FieldType → String
  | scalar s => s.spelled
  | optional s => s.spelled ++ " | None"
  | texts => "tuple[str, ...]"
  | counts => "Mapping[str, int]"

/-- The cell has the declared type. A mapping has distinct keys. -/
def Holds : FieldType → Cell → Prop
  | scalar s, .data j => s.Holds j
  | optional s, .data j => j = .null ∨ s.Holds j
  | texts, .tuple elems => ∀ j ∈ elems, Scalar.str.Holds j
  | counts, .data (.obj items) => (items.map Prod.fst).Nodup ∧ ∀ e ∈ items, Scalar.int.Holds e.2
  | _, _ => False

end FieldType

structure Field where
  name : String
  type : FieldType
  default : Option Cell

namespace Field

/-- A field without a default. -/
def required (name : String) (type : FieldType) : Field := ⟨name, type, none⟩

/-- A field that is `None` when nothing is given. -/
def nullable (name : String) (s : Scalar) : Field := ⟨name, .optional s, some (.data .null)⟩

def defaulted (name : String) (type : FieldType) (cell : Cell) : Field := ⟨name, type, some cell⟩

end Field

/-- The fields of a dataclass. -/
structure RowType where
  fields : List Field
  nodup : (fields.map Field.name).Nodup

namespace RowType

def names (rt : RowType) : List String := rt.fields.map Field.name

theorem eq_of_name (rt : RowType) {f g : Field} (hf : f ∈ rt.fields) (hg : g ∈ rt.fields) (h : f.name = g.name) :
    f = g :=
  List.inj_on_of_nodup_map rt.nodup hf hg h

end RowType

/-! ## Rows -/

/-- A row: a cell for each field. -/
inductive Row : List Field → Type where
  | nil : Row []
  | cons {f : Field} {fields : List Field} (cell : Cell) (row : Row fields) : Row (f :: fields)

/-- Equality of two cells; a mapping is equal to one that has the same value under each key. -/
def Cell.Same (c c' : Cell) : Prop :=
  c = c' ∨ ∃ items items', c = .data (.obj items) ∧ c' = .data (.obj items') ∧ ∀ k, lookup k items = lookup k items'

namespace Row

/-- The cells with the names of their fields. -/
def items : {fields : List Field} → Row fields → List (String × Cell)
  | _, nil => []
  | f :: _, cons cell row => (f.name, cell) :: row.items

/-- Every cell has its declared type. -/
def Typed : {fields : List Field} → Row fields → Prop
  | _, nil => True
  | f :: _, cons cell row => f.type.Holds cell ∧ row.Typed

/-- `row == row'`. -/
def Same : {fields : List Field} → Row fields → Row fields → Prop
  | _, nil, nil => True
  | _ :: _, cons cell row, cons cell' row' => cell.Same cell' ∧ row.Same row'

theorem map_fst_items {fields : List Field} (row : Row fields) : row.items.map Prod.fst = fields.map Field.name := by
  induction row with
  | nil => rfl
  | cons cell row ih => rw [items, List.map_cons, List.map_cons, ih]

theorem Typed.holds {fields : List Field} {row : Row fields} (h : row.Typed) {e : String × Cell} (he : e ∈ row.items) :
    ∃ f ∈ fields, f.name = e.1 ∧ f.type.Holds e.2 := by
  induction row with
  | nil => cases he
  | @cons f fields cell row ih =>
    obtain ⟨hcell, hrow⟩ : f.type.Holds cell ∧ row.Typed := h
    rw [items, List.mem_cons] at he
    obtain rfl | he := he
    · exact ⟨f, List.mem_cons_self, rfl, hcell⟩
    · obtain ⟨g, hg, hname, hholds⟩ := ih hrow he
      exact ⟨g, List.mem_cons_of_mem f hg, hname, hholds⟩

end Row

namespace Cell

theorem Same.symm {c c' : Cell} (h : c.Same c') : c'.Same c := by
  obtain rfl | ⟨items, items', rfl, rfl, heq⟩ := h
  · exact .inl rfl
  · exact .inr ⟨items', items, rfl, rfl, fun k => (heq k).symm⟩

theorem Same.trans {a b c : Cell} (hab : a.Same b) (hbc : b.Same c) : a.Same c := by
  obtain rfl | ⟨items, items', rfl, rfl, heq⟩ := hab
  · exact hbc
  · obtain rfl | ⟨items₁, items₂, heq₁, rfl, heq₂⟩ := hbc
    · exact .inr ⟨items, items', rfl, rfl, heq⟩
    · cases heq₁
      exact .inr ⟨items, items₂, rfl, rfl, fun k => (heq k).trans (heq₂ k)⟩

end Cell

namespace Row

theorem Same.symm {fields : List Field} {row row' : Row fields} (h : row.Same row') : row'.Same row := by
  induction row with
  | nil =>
    cases row'
    trivial
  | cons cell row ih =>
    cases row' with
    | cons cell' row' => exact ⟨Cell.Same.symm h.1, ih h.2⟩

theorem Same.trans {fields : List Field} {r₁ r₂ r₃ : Row fields} (h : r₁.Same r₂) (h' : r₂.Same r₃) : r₁.Same r₃ := by
  induction r₁ with
  | nil =>
    cases r₂
    exact h'
  | cons cell row ih =>
    cases r₂ with
    | cons cell₂ row₂ =>
      cases r₃ with
      | cons cell₃ row₃ => exact ⟨Cell.Same.trans h.1 h'.1, ih h.2 h'.2⟩

end Row

/-! ## The projection -/

def healthProjection : RowType where
  fields :=
    [.nullable "tick_last_scan_ms" .int, .nullable "tick_last_scan_age_ms" .int,
      .defaulted "tick_roots_scanned" (.scalar .int) (.data (.int 0)),
      .defaulted "tick_admitted_last_scan" (.scalar .int) (.data (.int 0)),
      .defaulted "tick_admitted_total" (.scalar .int) (.data (.int 0)), .nullable "tick_last_error_ms" .int,
      .nullable "tick_last_error_message" .str, .defaulted "skipped_by_reason" .counts (.data (.obj [])),
      .nullable "lease_holder" .str, .nullable "lease_thread_id" .str, .nullable "lease_model" .str,
      .nullable "lease_heartbeat_age_ms" .int, .nullable "lease_expires_ms" .int,
      .defaulted "queue_depth" (.scalar .int) (.data (.int 0)), .nullable "wip_capacity" .int,
      .defaulted "wip_in_use" (.scalar .int) (.data (.int 0)),
      .defaulted "events_dropped_ingest" (.scalar .int) (.data (.int 0)),
      .defaulted "events_dropped_subscribe" (.scalar .int) (.data (.int 0)),
      .defaulted "records_folded" (.scalar .int) (.data (.int 0)),
      .defaulted "unhandled_signals" .counts (.data (.obj [])), .nullable "seq_high_water" .int,
      .defaulted "cold_start_seeded" (.scalar .bool) (.data (.bool false)),
      .defaulted "fold_status" (.scalar .str) (.data (.str "live")),
      .defaulted "charter_loop_state" (.scalar .str) (.data (.str "unknown")),
      .nullable "charter_last_reload_ms" .int,
      .defaulted "charter_reload_module_count" (.scalar .int) (.data (.int 0)), .nullable "charter_hold" .bool,
      .nullable "charter_hold_reason" .str, .defaulted "degraded" .texts (.tuple [])]
  nodup := by decide +kernel

def charterRootRow : RowType where
  fields :=
    [.required "root_id" (.scalar .str), .defaulted "state" (.scalar .str) (.data (.str "unknown")),
      .nullable "project" .str, .nullable "worker_thread" .str, .nullable "window_index" .int,
      .nullable "admission_mode" .str, .nullable "packet_path" .str, .nullable "arc_g_step" .str,
      .nullable "arc_g_step_label" .str, .nullable "pickup_gid" .str, .nullable "objective" .str,
      .nullable "bus_slug" .str, .nullable "bus_summary" .str, .nullable "last_signal_ms" .int,
      .nullable "last_signal" .str, .nullable "admitted_at_ms" .int, .nullable "in_flight_age_ms" .int,
      .nullable "skip_reason" .str, .defaulted "skip_streak" (.scalar .int) (.data (.int 0)),
      .nullable "checkpoint_turn" .int, .nullable "waiting_open_since_ms" .int,
      .defaulted "closed" (.scalar .bool) (.data (.bool false)),
      .defaulted "unenrolled" (.scalar .bool) (.data (.bool false))]
  nodup := by decide +kernel

def sdkDispatchRow : RowType where
  fields :=
    [.required "dispatch_id" (.scalar .str), .defaulted "state" (.scalar .str) (.data (.str "unknown")),
      .nullable "root_id" .str, .nullable "thread_id" .str, .nullable "seat" .str, .nullable "role" .str,
      .nullable "model" .str, .nullable "contract" .str, .nullable "started_ms" .int,
      .nullable "last_progress_ms" .int, .nullable "terminal_ms" .int, .nullable "duration_ms" .int,
      .nullable "elapsed_ms" .int, .nullable "idle_age_ms" .int, .nullable "prompt_tokens" .int,
      .nullable "completion_tokens" .int, .nullable "cached_tokens" .int, .nullable "stall_stage" .str,
      .nullable "failure_reason" .str, .defaulted "emitters_seen" .texts (.tuple []),
      .defaulted "divergent_fields" .texts (.tuple []), .nullable "terminal_emitter" .str,
      .defaulted "provenance" (.scalar .str) (.data (.str "signal")), .nullable "queue_position" .int,
      .nullable "closeout_uri" .str, .defaulted "delivery_failed" (.scalar .bool) (.data (.bool false)),
      .defaulted "implement_gate_bypass" (.scalar .bool) (.data (.bool false)),
      .defaulted "lease_released_without_terminal" (.scalar .bool) (.data (.bool false)),
      .nullable "last_tool_name" .str, .nullable "last_tool_status" .str, .nullable "tool_call_count" .int,
      .nullable "parent_execution_id" .str, .defaulted "review_child" (.scalar .bool) (.data (.bool false)),
      .nullable "admitted_via" .str, .nullable "asked_by" .str, .nullable "purpose" .str, .nullable "story_id" .str,
      .nullable "topic" .str, .nullable "nest_under" .str, .nullable "resume_of" .str, .nullable "caller_from" .str,
      .nullable "caller_via" .str, .nullable "checkout_lane" .str, .nullable "checkout_branch" .str,
      .nullable "fast" .bool, .nullable "packet_kind" .str, .nullable "sdk_mode" .str]
  nodup := by decide +kernel

def cdpLegRow : RowType where
  fields :=
    [.required "request_id" (.scalar .str), .nullable "execution_id" .str, .nullable "satellite_execution_id" .str,
      .nullable "thread_id" .str, .nullable "model" .str, .nullable "caller_agent" .str, .nullable "topic" .str,
      .nullable "chat_url" .str, .defaulted "state" (.scalar .str) (.data (.str "unknown")),
      .nullable "admitted_at_ms" .int, .nullable "terminal_ms" .int, .nullable "elapsed_ms" .int,
      .defaulted "max_wall_s" (.scalar .int) (.data (.int 1800)), .nullable "archive_uri" .str,
      .nullable "content_proof_uri" .str, .nullable "stall_stage" .str, .nullable "failure_reason" .str,
      .defaulted "proof_present" (.scalar .bool) (.data (.bool false)), .nullable "root_id" .str,
      .defaulted "provenance" (.scalar .str) (.data (.str "signal")), .nullable "dispatch_link_terminal" .bool,
      .nullable "registration_id" .str]
  nodup := by decide +kernel

def pathSimArcRow : RowType where
  fields :=
    [.required "arc_id" (.scalar .str), .nullable "root_id" .str, .nullable "g_step" .str,
      .nullable "g_step_label" .str, .nullable "project" .str, .nullable "checkpoint_uri" .str,
      .nullable "updated_ms" .int]
  nodup := by decide +kernel

def attentionItem : RowType where
  fields :=
    [.required "key" (.scalar .str), .required "kind" (.scalar .str), .required "severity" (.scalar .str),
      .required "subject" (.scalar .str), .required "title" (.scalar .str),
      .defaulted "detail" (.scalar .str) (.data (.str "")), .nullable "since_ms" .int, .nullable "age_ms" .int,
      .nullable "target_uri" .str]
  nodup := by decide +kernel

def relationEdge : RowType where
  fields :=
    [.required "kind" (.scalar .str), .required "from_id" (.scalar .str), .required "to_id" (.scalar .str),
      .required "evidence_signal" (.scalar .str)]
  nodup := by decide +kernel

/-- The rows of the sequences, under the names of their fields. -/
def tupleFieldTypes : List (String × RowType) :=
  [("roots", charterRootRow), ("sdk", sdkDispatchRow), ("cdp", cdpLegRow), ("attention", attentionItem),
    ("relations", relationEdge)]

/-- The types of all rows. -/
def rowTypes : List RowType := healthProjection :: pathSimArcRow :: tupleFieldTypes.map Prod.snd

theorem holds_default : ∀ rt ∈ rowTypes, ∀ f ∈ rt.fields, ∀ c ∈ f.default, f.type.Holds c := by
  simp [rowTypes, tupleFieldTypes, healthProjection, charterRootRow, sdkDispatchRow, cdpLegRow, pathSimArcRow,
    attentionItem, relationEdge, Field.required, Field.nullable, Field.defaulted, FieldType.Holds, Scalar.Holds]

/-- The row of the defaults. -/
def Row.defaults : (fields : List Field) → Row fields
  | [] => nil
  | f :: fields => cons (f.default.getD (.data .null)) (defaults fields)

theorem Row.typed_defaults {fields : List Field} (h : ∀ f ∈ fields, ∃ c, f.default = some c ∧ f.type.Holds c) :
    (Row.defaults fields).Typed := by
  induction fields with
  | nil => trivial
  | cons f fields ih =>
    rw [List.forall_mem_cons] at h
    obtain ⟨⟨c, hc, hholds⟩, hfields⟩ := h
    refine ⟨?_, ih hfields⟩
    rw [hc]
    exact hholds

/-- `SCHEMA_VERSION`. -/
def SCHEMA_VERSION : ℤ := 1

structure SupervisorProjection where
  schemaVersion : ℤ
  generatedAtMs : ℤ
  fingerprint : String
  health : Row healthProjection.fields
  roots : List (Row charterRootRow.fields)
  sdk : List (Row sdkDispatchRow.fields)
  cdp : List (Row cdpLegRow.fields)
  attention : List (Row attentionItem.fields)
  relations : List (Row relationEdge.fields)
  arcs : Dict String (Row pathSimArcRow.fields)
  changedHints : List Json

namespace SupervisorProjection

/-- `SupervisorProjection()`. -/
def new : SupervisorProjection where
  schemaVersion := SCHEMA_VERSION
  generatedAtMs := 0
  fingerprint := ""
  health := Row.defaults healthProjection.fields
  roots := []
  sdk := []
  cdp := []
  attention := []
  relations := []
  arcs := ∅
  changedHints := []

/-- Every cell of every row has its declared type, and the hints are texts. -/
structure Typed (p : SupervisorProjection) : Prop where
  health : p.health.Typed
  roots : ∀ row ∈ p.roots, row.Typed
  sdk : ∀ row ∈ p.sdk, row.Typed
  cdp : ∀ row ∈ p.cdp, row.Typed
  attention : ∀ row ∈ p.attention, row.Typed
  relations : ∀ row ∈ p.relations, row.Typed
  arcs : ∀ e ∈ p.arcs.items, e.2.Typed
  changedHints : ∀ j ∈ p.changedHints, Scalar.str.Holds j

theorem typed_new : new.Typed where
  health := by
    refine Row.typed_defaults fun f hf => ?_
    have hsome : ∀ f ∈ healthProjection.fields, ∃ c, f.default = some c := by
      simp [healthProjection, Field.nullable, Field.defaulted]
    obtain ⟨c, hc⟩ := hsome f hf
    exact ⟨c, hc, holds_default healthProjection List.mem_cons_self f hf c hc⟩
  roots := List.forall_mem_nil _
  sdk := List.forall_mem_nil _
  cdp := List.forall_mem_nil _
  attention := List.forall_mem_nil _
  relations := List.forall_mem_nil _
  arcs := List.forall_mem_nil _
  changedHints := List.forall_mem_nil _

/-- `p == q`. -/
structure Same (p q : SupervisorProjection) : Prop where
  schemaVersion : p.schemaVersion = q.schemaVersion
  generatedAtMs : p.generatedAtMs = q.generatedAtMs
  fingerprint : p.fingerprint = q.fingerprint
  health : p.health.Same q.health
  roots : List.Forall₂ Row.Same p.roots q.roots
  sdk : List.Forall₂ Row.Same p.sdk q.sdk
  cdp : List.Forall₂ Row.Same p.cdp q.cdp
  attention : List.Forall₂ Row.Same p.attention q.attention
  relations : List.Forall₂ Row.Same p.relations q.relations
  arcs : ∀ k, Option.Rel Row.Same (p.arcs.get? k) (q.arcs.get? k)
  changedHints : p.changedHints = q.changedHints

end SupervisorProjection

end LlmGateway.DispatchMonitor
