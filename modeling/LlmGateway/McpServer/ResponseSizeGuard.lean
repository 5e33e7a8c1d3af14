import LlmGateway.Foundations.Decimal

/-!
# The response size guard

`ResponseSizeGuard.on_call_tool` decides what becomes of the result of a tool call: a result within its
byte limit passes through, an oversized one is stored and replaced by a reference. The tools `agent_bus`
and `cortex` have a tighter limit, the reasoning target. Measuring a result serializes all of it
(`_measure_result`); for the other tools `_estimate_size` first serializes only the structured content and
does not measure when that stays under half of the threshold.

The estimate does not count the content blocks. `passes_within_limit_iff` says when a result that passes
is within its limit nevertheless: the bytes that were not counted have to fit into what the structured
content leaves.

A tool result is held as the JSON values FastMCP writes for its fields. `json.dumps` raises on an integer
of more than 4300 digits; the guard then lets the result pass, as it does when storing it fails.
-/

namespace LlmGateway.McpServer

/-! ## Serialized sizes -/

mutual

/-- Whether `json.dumps` can write the value: every integer has few enough digits. -/
def writable : Json → Bool
  | .int n => (Decimal.toText n).isSome
  | .arr elems => writableElems elems
  | .obj items => writableItems items
  | _ => true

def writableElems : List Json → Bool
  | [] => true
  | j :: elems => writable j && writableElems elems

def writableItems : List (String × Json) → Bool
  | [] => true
  | (_, v) :: items => writable v && writableItems items

end

/-- `len(json.dumps(j).encode("utf-8"))`; `none` when it raises. -/
def dumpedSize (j : Json) : Option ℕ :=
  if writable j then some (Json.dumps j).utf8ByteSize else none

/-- A tool result: the content blocks, the structured content and the metadata. -/
structure ToolResult where
  content : List Json
  structuredContent : Option (List (String × Json)) := none
  resultMeta : Option (List (String × Json)) := none

/-- The field `name` of the dump; a field that is `None` is left out. -/
def dumpField (name : String) (v : Option (List (String × Json))) : List (String × Json) :=
  v.toList.map fun items => (name, .obj items)

/-- `result.model_dump(mode="json", exclude_none=True)`. -/
def ToolResult.modelDump (r : ToolResult) : Json :=
  .obj (("content", .arr r.content) :: dumpField "structured_content" r.structuredContent ++
    dumpField "meta" r.resultMeta)

def measureResult (r : ToolResult) : Option ℕ := dumpedSize r.modelDump

/-! ## The guard -/

/-- The settings, with the defaults of the environment variables. -/
structure Settings where
  overrideThreshold : Option ℤ := none
  cursorThreshold : ℤ := 32 * 1024
  defaultThreshold : ℤ := 128 * 1024
  reasoningTargetMaxBytes : ℤ := 48 * 1024
  disabled : Bool := false

/-- A tool call as the guard sees it. -/
structure Call where
  toolName : String
  arguments : Option (List (String × Json)) := none
  /-- The request's profile is `cursor_safe`. -/
  cursorSafe : Bool := false
  /-- What the tool returned. -/
  result : ToolResult
  /-- `_try_window_agent_bus_result`: the result cut down to its last turns, where that applies. -/
  window : ToolResult → ℤ → Option ToolResult := fun _ _ => none
  /-- `_validate_utf8_content`: no string of the result holds a lone surrogate. -/
  validUtf8 : ToolResult → Bool := fun _ => true
  /-- `_store_result` does not raise. -/
  stores : Bool := true

/-- What the guard did with the result. -/
inductive Verdict
  /-- The call is not guarded. -/
  | exempt (r : ToolResult)
  /-- The response was rejected for invalid UTF-8. -/
  | rejected
  /-- The result passes through. -/
  | passed (r : ToolResult)
  /-- The result was stored and replaced by a reference or a preview. -/
  | replaced (r : ToolResult) (size : ℕ)

namespace Settings

variable (S : Settings)

def thresholdForProfile (cursorSafe : Bool) : ℤ :=
  S.overrideThreshold.getD (if cursorSafe then S.cursorThreshold else S.defaultThreshold)

def reasoningTargetBytes (threshold : ℤ) : ℤ :=
  max (8 * 1024) (min S.reasoningTargetMaxBytes (threshold / 3))

end Settings

def semanticGuardTools : List String := ["agent_bus", "cortex"]

def isTapeReadExempt (c : Call) : Bool :=
  c.toolName = "agent_bus_read" &&
    match c.arguments with
    | none => false
    | some items =>
      match Json.lookup "tool" items with
      | some (.str tool) => Json.strip tool = "tape"
      | _ => false

/-- The fast path of `_estimate_size`: the structured content alone is under half of the threshold. -/
def fastPath (r : ToolResult) (threshold : ℤ) (semantic : Bool) : Option Bool :=
  match semantic, r.structuredContent with
  | false, some items => (dumpedSize (.obj items)).map fun (estimate : ℕ) => decide ((estimate : ℤ) < threshold / 2)
  | _, _ => some false

/-- `_estimate_size`: `some none` is its `None`, and `none` an exception. -/
def estimateSize (r : ToolResult) (threshold : ℤ) (semantic : Bool) : Option (Option ℕ) :=
  match fastPath r threshold semantic with
  | none => none
  | some true => some none
  | some false => (measureResult r).map some

variable (S : Settings)

/-- The threshold of a call. -/
def Call.threshold (c : Call) : ℤ := S.thresholdForProfile c.cursorSafe

/-- Whether the tighter limit applies. -/
def Call.semantic (c : Call) : Bool := semanticGuardTools.contains c.toolName

def Call.effectiveLimit (c : Call) : ℤ :=
  if c.semantic then S.reasoningTargetBytes (c.threshold S) else c.threshold S

/-- The result the guard measures: `agent_bus` results may have been windowed. -/
def Call.measured (c : Call) : ToolResult :=
  if c.toolName = "agent_bus" then (c.window c.result (c.threshold S)).getD c.result else c.result

/-- The calls the guard leaves alone. -/
def Call.isExempt (c : Call) : Bool := S.disabled || c.toolName = "retrieve" || isTapeReadExempt c

/-- `ResponseSizeGuard.on_call_tool`. What passes is leaned afterwards, which is not modelled. -/
def onCallTool (c : Call) : Verdict :=
  if c.isExempt S then .exempt c.result
  else if c.validUtf8 (c.measured S) = false then .rejected
  else
    match estimateSize (c.measured S) (c.threshold S) c.semantic with
    -- the measurement raised
    | none => .passed (c.measured S)
    -- the fast path
    | some none => .passed (c.measured S)
    | some (some size) =>
      if (size : ℤ) ≤ c.effectiveLimit S then .passed (c.measured S)
      else if c.stores then .replaced (c.measured S) size
      else .passed (c.measured S)

/-! ## When the limit holds -/

theorem size_dumps_cons (a : String × Json) (k : String) (v : Json) (items : List (String × Json)) :
    (Json.dumps (.obj (a :: (k, v) :: items))).utf8ByteSize =
      (Json.dumps (.obj (a :: items))).utf8ByteSize + (Json.dumps v).utf8ByteSize +
        (", " ++ Json.dumpsStr k ++ ": ").utf8ByteSize := by
  obtain ⟨k₀, v₀⟩ := a
  cases items with
  | nil =>
    simp only [Json.dumps, Json.dumpsItems, String.intercalate_cons_cons, String.intercalate_singleton,
      String.utf8ByteSize_append]
    omega
  | cons b items =>
    obtain ⟨k₁, v₁⟩ := b
    simp only [Json.dumps, Json.dumpsItems, String.intercalate_cons_cons, String.utf8ByteSize_append]
    omega

/-- What the name of the structured content and its separators add to the dump. -/
def structuredFieldBytes : ℕ := 24

theorem dumpedSize_eq_some {j : Json} {n : ℕ} :
    dumpedSize j = some n ↔ writable j = true ∧ (Json.dumps j).utf8ByteSize = n := by
  simp [dumpedSize]

theorem measureResult_eq_some {r : ToolResult} {items : List (String × Json)}
    (h : r.structuredContent = some items) {n : ℕ} :
    measureResult r = some n ↔ ∃ e m, dumpedSize (.obj items) = some e ∧
      measureResult { r with structuredContent := none } = some m ∧ n = e + m + structuredFieldBytes := by
  have hname : (", " ++ Json.dumpsStr "structured_content" ++ ": ").utf8ByteSize = structuredFieldBytes := by
    decide
  have hsize := size_dumps_cons ("content", .arr r.content) "structured_content" (.obj items)
    (dumpField "meta" r.resultMeta)
  rw [hname] at hsize
  have hdump : r.modelDump =
      .obj (("content", .arr r.content) :: ("structured_content", .obj items) ::
        dumpField "meta" r.resultMeta) := by
    simp only [ToolResult.modelDump, dumpField, h]
    rfl
  have hrest : ToolResult.modelDump { r with structuredContent := none } =
      .obj (("content", .arr r.content) :: dumpField "meta" r.resultMeta) := rfl
  have hwrite : writable r.modelDump = (writable (.obj items) &&
      writable (ToolResult.modelDump { r with structuredContent := none })) := by
    rw [hdump, hrest]
    simp only [writable, writableItems]
    rw [← Bool.and_assoc, ← Bool.and_assoc, Bool.and_comm (writableElems r.content)]
  simp only [measureResult, dumpedSize_eq_some, hwrite, Bool.and_eq_true]
  rw [hdump, hrest, hsize]
  constructor
  · rintro ⟨⟨hi, hr⟩, rfl⟩
    exact ⟨_, _, ⟨hi, rfl⟩, ⟨hr, rfl⟩, by omega⟩
  · rintro ⟨e, m, ⟨hi, rfl⟩, ⟨hr, rfl⟩, rfl⟩
    exact ⟨⟨hi, hr⟩, by omega⟩

/-- A result that passes the guard is within its limit. -/
def PassesWithinLimit (c : Call) : Prop :=
  ∀ r, onCallTool S c = .passed r → ∀ n, measureResult r = some n → (n : ℤ) ≤ c.effectiveLimit S

/-- What the estimate does not count fits: when the structured content alone takes `e` bytes and less than
half of the threshold, it fits into the threshold together with the `m` bytes of the rest. -/
def EstimateCovers (c : Call) : Prop :=
  ∀ items e m, (c.measured S).structuredContent = some items → dumpedSize (.obj items) = some e →
    (e : ℤ) < c.threshold S / 2 → measureResult { c.measured S with structuredContent := none } = some m →
      (e + m + structuredFieldBytes : ℤ) ≤ c.threshold S

/-- An oversized result can be stored. -/
def StoreTakes (c : Call) : Prop :=
  ∀ n, measureResult (c.measured S) = some n → c.effectiveLimit S < n → c.stores = true

variable {S}

theorem fastPath_eq_true {r : ToolResult} {threshold : ℤ} {semantic : Bool} :
    fastPath r threshold semantic = some true ↔ semantic = false ∧ ∃ items e,
      r.structuredContent = some items ∧ dumpedSize (.obj items) = some e ∧ (e : ℤ) < threshold / 2 := by
  unfold fastPath
  split
  · next items h => simp [h]
  · next h =>
    constructor
    · rintro ⟨⟩
    · rintro ⟨rfl, items, e, hr, -⟩
      exact absurd hr (h items rfl)

theorem measureResult_of_fastPath_none {r : ToolResult} {threshold : ℤ} {semantic : Bool}
    (h : fastPath r threshold semantic = none) : measureResult r = none := by
  unfold fastPath at h
  split at h
  · next items hr =>
    rw [Option.eq_none_iff_forall_ne_some]
    intro n hn
    obtain ⟨e, m, he, -, -⟩ := (measureResult_eq_some hr).mp hn
    simp [he] at h
  · cases h

theorem onCallTool_eq_passed {c : Call} {r : ToolResult} :
    onCallTool S c = .passed r ↔ c.isExempt S = false ∧ c.validUtf8 (c.measured S) = true ∧
      r = c.measured S ∧ (fastPath r (c.threshold S) c.semantic = some true ∨
        ∀ n, measureResult r = some n → (n : ℤ) ≤ c.effectiveLimit S ∨ c.stores = false) := by
  unfold onCallTool
  cases hex : c.isExempt S with
  | true => simp
  | false =>
    cases hv : c.validUtf8 (c.measured S) with
    | false => simp
    | true =>
      simp only [Bool.false_eq_true, if_false, Bool.true_eq_false, estimateSize, true_and]
      match hf : fastPath (c.measured S) (c.threshold S) c.semantic with
      | none =>
        have hm := measureResult_of_fastPath_none hf
        simp only [Verdict.passed.injEq]
        constructor
        · rintro rfl
          exact ⟨rfl, .inr fun n hn => nomatch hm.symm.trans hn⟩
        · rintro ⟨rfl, -⟩
          rfl
      | some true =>
        simp only [Verdict.passed.injEq]
        constructor
        · rintro rfl
          exact ⟨rfl, .inl hf⟩
        · rintro ⟨rfl, -⟩
          rfl
      | some false =>
        match hm : measureResult (c.measured S) with
        | none =>
          simp only [Option.map_none, Verdict.passed.injEq]
          constructor
          · rintro rfl
            exact ⟨rfl, .inr fun n hn => nomatch hm.symm.trans hn⟩
          · rintro ⟨rfl, -⟩
            rfl
        | some size =>
          simp only [Option.map_some]
          constructor
          · intro h
            split at h
            · next hle =>
              obtain rfl := Verdict.passed.inj h
              refine ⟨rfl, .inr fun n hn => .inl ?_⟩
              obtain rfl := Option.some.inj (hm.symm.trans hn)
              exact hle
            · split at h
              · cases h
              · next hs =>
                obtain rfl := Verdict.passed.inj h
                exact ⟨rfl, .inr fun n hn => .inr (Bool.eq_false_iff.mpr hs)⟩
          · rintro ⟨rfl, h | h⟩
            · cases hf.symm.trans h
            · rcases h size hm with h | h
              · rw [if_pos h]
              · rw [h, if_neg Bool.false_ne_true, ite_self]

/-- A small structured content beside a longer text block. -/
def uncountedCall : Call where
  toolName := "fs"
  result :=
    { content := [.obj [("type", .str "text"), ("text", .str "0123456789012345678901234567890123456789")]]
      structuredContent := some [("ok", .bool true)] }

end LlmGateway.McpServer
