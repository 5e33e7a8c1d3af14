import LlmGateway.DispatchMonitor.Dtos
import LlmGateway.EventStore.Ingest

/-!
# The codec of the projection

A projection is written as canonical JSON, and rebuilt from it field by field: a list becomes a tuple where the
declared type names one, and a key that names no field is dropped. What is written is read back as the same projection
(`decodeFrame_encodeSnapshot`), equal texts are of equal projections (`same_of_encodeSnapshot`), and unknown keys in
the rows change nothing (`fromWire_of_widens`).
-/

namespace LlmGateway.DispatchMonitor

open Json (lookup sortKeys sortKeysElems sortKeysItems)

/-! ## Writing -/

/-- `_encode` of a cell. The keys of a mapping are texts, so that only a tuple changes. -/
def Cell.encode : Cell → Json
  | data j => j
  | tuple elems => .arr elems

/-- `_encode` of a row. -/
def Row.encode {fields : List Field} (row : Row fields) : Json := .obj (row.items.map fun e => (e.1, e.2.encode))

/-- `_encode` of a sequence of rows. -/
def encodeRows {fields : List Field} (rows : List (Row fields)) : Json := .arr (rows.map Row.encode)

/-- The items of `to_wire(projection)`. -/
def wireItems (p : SupervisorProjection) : List (String × Json) :=
  [("schema_version", .int p.schemaVersion), ("generated_at_ms", .int p.generatedAtMs),
    ("fingerprint", .str p.fingerprint), ("health", p.health.encode), ("roots", encodeRows p.roots),
    ("sdk", encodeRows p.sdk), ("cdp", encodeRows p.cdp), ("attention", encodeRows p.attention),
    ("relations", encodeRows p.relations), ("arcs", .obj (p.arcs.items.map fun e => (e.1, e.2.encode))),
    ("changed_hints", .arr p.changedHints)]

def toWire (p : SupervisorProjection) : Json := .obj (wireItems p)

/-- `encode_snapshot`; `none` is the `ValueError` of an integer that has too many digits. -/
def encodeSnapshot (p : SupervisorProjection) : Option (List Char) :=
  Json.canonical (.obj [("kind", .str "snapshot"), ("projection", toWire p)])

/-! ## Reading -/

/-- The exceptions of the decoder. -/
inductive Refusal where
  | valueError
  | typeError
  | attributeError
  | overflowError
  deriving DecidableEq

/-- `int(j)`. -/
def int (j : Json) : Except Refusal ℤ :=
  match EventStore.intOf j with
  | .ok n => .ok n
  | .error .overflowError => .error .overflowError
  | .error .typeError => .error .typeError
  | .error _ => .error .valueError

/-- `j.items()`. -/
def itemsOf : Json → Except Refusal (List (String × Json))
  | .obj items => .ok items
  | _ => .error .attributeError

/-- `tuple(j)`. -/
def elements : Json → Except Refusal (List Json)
  | .arr elems => .ok elems
  | .str s => .ok (s.toList.map fun c => .str (String.ofList [c]))
  | .obj items => .ok (items.map fun e => .str e.1)
  | _ => .error .typeError

/-- `data.get(key, {}) or {}`. -/
def mappingAt (data : List (String × Json)) (key : String) : Json :=
  if (Json.get data key).truthy then Json.get data key else .obj []

/-- `data.get(key, ()) or ()`, gone through. -/
def elementsAt (data : List (String × Json)) (key : String) : Except Refusal (List Json) :=
  if (Json.get data key).truthy then elements (Json.get data key) else .ok []

def tupleFields (rt : RowType) : List String :=
  (rt.fields.filter fun f => decide ("tuple".toList <:+: f.type.spelled.toList)).map Field.name

/-- A list as a tuple. -/
def asTuple : Json → Cell
  | .arr elems => .tuple elems
  | j => .data j

/-- The arguments that `_row` makes of the items of a row. -/
def kwargs (rt : RowType) (items : List (String × Json)) : List (String × Cell) :=
  (items.filter fun e => rt.names.contains e.1).map fun e =>
    (e.1, if (tupleFields rt).contains e.1 then asTuple e.2 else .data e.2)

/-- `row_type(**kwargs)`: a field without an argument has its default. -/
def build : (fields : List Field) → List (String × Cell) → Except Refusal (Row fields)
  | [], _ => .ok .nil
  | f :: fields, kwargs =>
    match (Dict.lookup f.name kwargs).or f.default with
    | none => .error .typeError
    | some cell => (build fields kwargs).map (Row.cons cell)

def row (rt : RowType) (data : Json) : Except Refusal (Row rt.fields) := do
  let items ← itemsOf data
  build rt.fields (kwargs rt items)

/-- The rows of the sequence under a key. -/
def rowsAt (rt : RowType) (data : List (String × Json)) (key : String) : Except Refusal (List (Row rt.fields)) := do
  let elems ← elementsAt data key
  elems.mapM (row rt)

/-- The rows of the mapping under a key. -/
def rowDictAt (rt : RowType) (data : List (String × Json)) (key : String) :
    Except Refusal (Dict String (Row rt.fields)) := do
  let items ← itemsOf (mappingAt data key)
  items.foldlM (fun d e => (row rt e.2).map (d.set e.1)) ∅

/-- What `from_wire` makes of the data once the version is read. -/
def rebuild (version : ℤ) (data : List (String × Json)) : Except Refusal SupervisorProjection := do
  let generatedAtMs ← int ((lookup "generated_at_ms" data).getD (.int 0))
  let fingerprint := ((lookup "fingerprint" data).getD (.str "")).text
  let changedHints ← elementsAt data "changed_hints"
  let health ← row healthProjection (mappingAt data "health")
  let roots ← rowsAt charterRootRow data "roots"
  let sdk ← rowsAt sdkDispatchRow data "sdk"
  let cdp ← rowsAt cdpLegRow data "cdp"
  let attention ← rowsAt attentionItem data "attention"
  let relations ← rowsAt relationEdge data "relations"
  let arcs ← rowDictAt pathSimArcRow data "arcs"
  return ⟨version, generatedAtMs, fingerprint, health, roots, sdk, cdp, attention, relations, arcs, changedHints⟩

def fromWire : Json → Except Refusal SupervisorProjection
  | .obj data => do
    let version ← int ((lookup "schema_version" data).getD (.int SCHEMA_VERSION))
    if SCHEMA_VERSION < version then .error .valueError
    else rebuild version data
  | _ => .error .attributeError

/-- A frame that is read. -/
inductive Frame where
  | snapshot (p : SupervisorProjection)
  | raw (kind : String) (data : Json)

def decodeFrame (float : List Char → String) (text : List Char) : Except Refusal Frame :=
  match Json.loads float text with
  | none => .error .valueError
  | some (.obj data) =>
    let kind := ((lookup "kind" data).getD (.str "")).text
    if kind = "snapshot" then (fromWire ((lookup "projection" data).getD (.obj []))).map .snapshot
    else .ok (.raw kind (.obj data))
  | some _ => .error .attributeError

/-! ## The projection with its mappings in order -/

/-- The cell with the keys of its mapping in order. -/
def Cell.sorted : Cell → Cell
  | data j => data (sortKeys j)
  | tuple elems => tuple (sortKeysElems elems)

def Row.sorted : {fields : List Field} → Row fields → Row fields
  | _, nil => nil
  | _ :: _, cons cell row => cons cell.sorted row.sorted

/-- The dictionary with its keys in order. -/
def sortDict {ν : Type} (d : Dict String ν) : Dict String ν :=
  ⟨d.items.insertionSort fun a b => a.1 ≤ b.1,
    ((d.items.perm_insertionSort fun a b => a.1 ≤ b.1).map Prod.fst).nodup_iff.2 d.nodup⟩

/-- The projection with the keys of its mappings in order. -/
def SupervisorProjection.sorted (p : SupervisorProjection) : SupervisorProjection where
  schemaVersion := p.schemaVersion
  generatedAtMs := p.generatedAtMs
  fingerprint := p.fingerprint
  health := p.health.sorted
  roots := p.roots.map Row.sorted
  sdk := p.sdk.map Row.sorted
  cdp := p.cdp.map Row.sorted
  attention := p.attention.map Row.sorted
  relations := p.relations.map Row.sorted
  arcs := (sortDict p.arcs).mapVal fun _ row => row.sorted
  changedHints := p.changedHints

variable {fields : List Field} {j : Json} {p : SupervisorProjection} {k : String}
  {data data' : List (String × Json)} {text : List Char}

theorem Row.items_sorted (row : Row fields) :
    row.sorted.items = row.items.map fun e => (e.1, e.2.sorted) := by
  induction row with
  | nil => rfl
  | cons cell row ih => rw [sorted, items, items, ih, List.map_cons]

theorem get?_sortDict {ν : Type} (d : Dict String ν) (k : String) : (sortDict d).get? k = d.get? k := by
  apply Option.ext
  intro v
  rw [← Dict.mem_items_iff, ← Dict.mem_items_iff, sortDict, List.mem_insertionSort]

theorem Scalar.Holds.sortKeys {s : Scalar} (h : s.Holds j) : sortKeys j = j := by
  cases s <;> cases j <;> first | rfl | exact h.elim

theorem sortKeysElems_texts {elems : List Json} (h : ∀ j ∈ elems, Scalar.str.Holds j) :
    sortKeysElems elems = elems := by
  rw [Json.sortKeysElems_eq]
  exact (List.map_congr_left fun j hj => (h j hj).sortKeys).trans (List.map_id elems)

theorem Cell.same_sorted {t : FieldType} {c : Cell} (h : t.Holds c) : c.Same c.sorted := by
  cases t with
  | scalar s =>
    cases c with
    | data j => exact .inl (congrArg Cell.data (Scalar.Holds.sortKeys h).symm)
    | tuple elems => exact h.elim
  | optional s =>
    cases c with
    | data j =>
      obtain rfl | hj : j = .null ∨ s.Holds j := h
      · exact .inl rfl
      · exact .inl (congrArg Cell.data hj.sortKeys.symm)
    | tuple elems => exact h.elim
  | texts =>
    cases c with
    | data j => exact h.elim
    | tuple elems => exact .inl (congrArg Cell.tuple (sortKeysElems_texts h).symm)
  | counts =>
    cases c with
    | tuple elems => exact h.elim
    | data j =>
      cases j with
      | obj items =>
        obtain ⟨hnodup, hints⟩ : (items.map Prod.fst).Nodup ∧ ∀ e ∈ items, Scalar.int.Holds e.2 := h
        have hitems : sortKeysItems items = items := by
          rw [Json.sortKeysItems_eq]
          exact (List.map_congr_left fun e he => congrArg (Prod.mk e.1) (hints e he).sortKeys).trans (List.map_id items)
        refine .inr ⟨items, _, rfl, rfl, fun k => ?_⟩
        rw [hitems]
        exact Json.lookup_perm (items.perm_insertionSort _).symm hnodup k
      | _ => exact h.elim

theorem Row.same_sorted {row : Row fields} (h : row.Typed) : row.Same row.sorted := by
  induction row with
  | nil => trivial
  | cons cell row ih => exact ⟨Cell.same_sorted h.1, ih h.2⟩

theorem same_map_sorted {rows : List (Row fields)} (h : ∀ row ∈ rows, row.Typed) :
    List.Forall₂ Row.Same rows (rows.map Row.sorted) := by
  rw [List.forall₂_map_right_iff, List.forall₂_same]
  exact fun row hrow => Row.same_sorted (h row hrow)

theorem SupervisorProjection.same_sorted (h : p.Typed) : p.Same p.sorted where
  schemaVersion := rfl
  generatedAtMs := rfl
  fingerprint := rfl
  health := Row.same_sorted h.health
  roots := same_map_sorted h.roots
  sdk := same_map_sorted h.sdk
  cdp := same_map_sorted h.cdp
  attention := same_map_sorted h.attention
  relations := same_map_sorted h.relations
  arcs k := by
    change Option.Rel Row.Same _ (((sortDict p.arcs).mapVal fun _ row => row.sorted).get? k)
    rw [Dict.get?_mapVal, get?_sortDict]
    cases hk : p.arcs.get? k with
    | none => exact .none
    | some row => exact .some (Row.same_sorted (h.arcs (k, row) (Dict.mem_items_iff.2 hk)))
  changedHints := rfl

/-! ## What is read back -/

theorem isInfix_spelled (t : FieldType) : "tuple".toList <:+: t.spelled.toList ↔ t = .texts := by
  cases t with
  | scalar s => cases s <;> decide
  | optional s => cases s <;> decide
  | texts => decide
  | counts => decide

theorem mem_tupleFields (rt : RowType) {f : Field} (hf : f ∈ rt.fields) :
    (tupleFields rt).contains f.name = true ↔ f.type = .texts := by
  simp only [tupleFields, List.contains_iff_mem, List.mem_map, List.mem_filter, decide_eq_true_eq, isInfix_spelled]
  constructor
  · rintro ⟨g, ⟨hg, htype⟩, hname⟩
    rwa [← rt.eq_of_name hg hf hname]
  · exact fun htype => ⟨f, ⟨hf, htype⟩, rfl⟩

theorem lookup_kwargs (rt : RowType) (hk : k ∈ rt.names) (items : List (String × Json)) :
    Dict.lookup k (kwargs rt items) =
      (lookup k items).map fun j => if (tupleFields rt).contains k then asTuple j else .data j := by
  induction items with
  | nil => rfl
  | cons e items ih =>
    have hcons : kwargs rt (e :: items) = if rt.names.contains e.1 then
        (e.1, if (tupleFields rt).contains e.1 then asTuple e.2 else .data e.2) :: kwargs rt items
        else kwargs rt items := by
      rw [kwargs, List.filter_cons]
      split <;> rfl
    rw [hcons, lookup]
    by_cases he : e.1 = k
    · rw [if_pos (by rw [he]; exact List.contains_iff_mem.2 hk), Dict.lookup, if_pos he, if_pos he, he, Option.map_some]
    · rw [if_neg he, ← ih]
      split
      · rw [Dict.lookup, if_neg he]
      · rfl

theorem build_items (row : Row fields) {kwargs : List (String × Cell)}
    (h : ∀ e ∈ row.items, Dict.lookup e.1 kwargs = some e.2) : build fields kwargs = .ok row := by
  induction row with
  | nil => rfl
  | cons cell row ih =>
    rw [Row.items, List.forall_mem_cons] at h
    rw [build, h.1, ih h.2]
    rfl

/-- **A row is read back**, with its mappings in order. -/
theorem row_sortKeys_encode (rt : RowType) {r : Row rt.fields} (h : r.Typed) :
    row rt (sortKeys r.encode) = .ok r.sorted := by
  have hnodup : ((r.items.map fun e => (e.1, e.2.encode)).map Prod.fst).Nodup := by
    rw [List.map_map]
    exact (congrArg List.Nodup r.map_fst_items).mpr rt.nodup
  refine build_items r.sorted fun e he => ?_
  rw [Row.items_sorted] at he
  obtain ⟨⟨k, c⟩, hmem, rfl⟩ := List.mem_map.1 he
  obtain ⟨f, hf, rfl, hholds⟩ := h.holds hmem
  have hlookup := Json.lookup_of_mem hnodup (List.mem_map_of_mem hmem)
  rw [lookup_kwargs rt (List.mem_map_of_mem hf), Json.lookup_sortKeysItems hnodup, hlookup, Option.map_some,
    Option.map_some, Option.some.injEq]
  have htuple := mem_tupleFields rt hf
  cases c with
  | tuple elems =>
    have htype : f.type = .texts := by
      cases ht : f.type with
      | texts => rfl
      | _ =>
        rw [ht] at hholds
        exact hholds.elim
    rw [if_pos (htuple.2 htype)]
    rfl
  | data j =>
    have htype : f.type ≠ .texts := by
      intro ht
      rw [ht] at hholds
      exact hholds
    rw [if_neg fun hc => htype (htuple.1 hc)]
    rfl

/-! ## What is written is read -/

theorem readable_of_scalar {s : Scalar} (h : s.Holds j) (hw : j.writable = true) : j.Readable := by
  cases j with
  | int n => exact hw
  | null => trivial
  | bool b => trivial
  | str t => trivial
  | _ => cases s <;> exact h.elim

theorem Cell.readable {t : FieldType} {c : Cell} (h : t.Holds c) (hw : c.encode.writable = true) :
    c.encode.Readable := by
  cases t with
  | scalar s =>
    cases c with
    | data j => exact readable_of_scalar (s := s) h hw
    | tuple elems => exact h.elim
  | optional s =>
    cases c with
    | data j =>
      obtain rfl | hj : j = .null ∨ s.Holds j := h
      · trivial
      · exact readable_of_scalar hj hw
    | tuple elems => exact h.elim
  | texts =>
    cases c with
    | data j => exact h.elim
    | tuple elems =>
      exact Json.readableElems_iff.2 fun j hj =>
        readable_of_scalar (h j hj) (Json.writableElems_iff.1 hw j hj)
  | counts =>
    cases c with
    | tuple elems => exact h.elim
    | data j =>
      cases j with
      | obj items =>
        exact ⟨h.1, Json.readableItems_iff.2 fun e he =>
          readable_of_scalar (h.2 e he) (Json.writableItems_iff.1 hw e he)⟩
      | _ => exact h.elim

theorem Row.readable (rt : RowType) {row : Row rt.fields} (h : row.Typed) (hw : row.encode.writable = true) :
    row.encode.Readable := by
  refine ⟨?_, Json.readableItems_iff.2 fun e he => ?_⟩
  · rw [List.map_map]
    exact (congrArg List.Nodup row.map_fst_items).mpr rt.nodup
  · have hcell := Json.writableItems_iff.1 hw e he
    obtain ⟨d, hd, rfl⟩ := List.mem_map.1 he
    obtain ⟨f, -, -, hholds⟩ := h.holds hd
    exact Cell.readable hholds hcell

theorem readable_encodeRows (rt : RowType) {rows : List (Row rt.fields)} (h : ∀ row ∈ rows, row.Typed)
    (hw : (encodeRows rows).writable = true) : (encodeRows rows).Readable := by
  refine Json.readableElems_iff.2 fun j hj => ?_
  have hrow := Json.writableElems_iff.1 hw j hj
  obtain ⟨row, hmem, rfl⟩ := List.mem_map.1 hj
  exact Row.readable rt (h row hmem) hrow

theorem nodup_wireItems (p : SupervisorProjection) : ((wireItems p).map Prod.fst).Nodup := by
  simp [wireItems]

theorem readable_toWire (h : p.Typed) (hw : (toWire p).writable = true) : (toWire p).Readable := by
  refine ⟨nodup_wireItems p, Json.readableItems_iff.2 ?_⟩
  have hitems : ∀ e ∈ wireItems p, e.2.writable = true := Json.writableItems_iff.1 hw
  simp only [wireItems, List.forall_mem_cons, List.not_mem_nil, false_imp_iff, implies_true, and_true] at hitems ⊢
  obtain ⟨hversion, hgenerated, -, hhealth, hroots, hsdk, hcdp, hattention, hrelations, harcs, hhints⟩ := hitems
  refine ⟨hversion, hgenerated, trivial, Row.readable _ h.health hhealth, readable_encodeRows _ h.roots hroots,
    readable_encodeRows _ h.sdk hsdk, readable_encodeRows _ h.cdp hcdp, readable_encodeRows _ h.attention hattention,
    readable_encodeRows _ h.relations hrelations, ⟨?_, Json.readableItems_iff.2 fun e he => ?_⟩,
    Json.readableElems_iff.2 fun j hj => readable_of_scalar (h.changedHints j hj) (Json.writableElems_iff.1 hhints j hj)⟩
  · rw [List.map_map]
    exact p.arcs.nodup
  · have hrow := Json.writableItems_iff.1 harcs e he
    obtain ⟨d, hd, rfl⟩ := List.mem_map.1 he
    exact Row.readable _ (h.arcs d hd) hrow

/-- The items of a projection as they are read. -/
def readItems (p : SupervisorProjection) : List (String × Json) :=
  (sortKeysItems (wireItems p)).insertionSort fun a b => a.1 ≤ b.1

theorem lookup_readItems (h : lookup k (wireItems p) = some j) :
    lookup k (readItems p) = some (sortKeys j) := by
  rw [readItems, Json.lookup_sortKeysItems (nodup_wireItems p), h, Option.map_some]

theorem get_readItems (h : lookup k (wireItems p) = some j) :
    Json.get (readItems p) k = sortKeys j := by
  rw [Json.get, lookup_readItems h, Option.getD_some]

theorem mappingAt_of_get {items : List (String × Json)} (h : Json.get data k = .obj items) :
    mappingAt data k = .obj items := by
  rw [mappingAt, h]
  cases items <;> rfl

theorem elementsAt_of_get {elems : List Json} (h : Json.get data k = .arr elems) : elementsAt data k = .ok elems := by
  rw [elementsAt, h]
  cases elems <;> rfl

theorem rowsAt_readItems (rt : RowType) {rows : List (Row rt.fields)}
    (hk : lookup k (wireItems p) = some (encodeRows rows)) (h : ∀ row ∈ rows, row.Typed) :
    rowsAt rt (readItems p) k = .ok (rows.map Row.sorted) := by
  have hget : Json.get (readItems p) k = .arr ((rows.map Row.encode).map sortKeys) := by
    rw [get_readItems hk, encodeRows, sortKeys, Json.sortKeysElems_eq]
  have hrows : ((rows.map Row.encode).map sortKeys).mapM (row rt) = .ok (rows.map Row.sorted) := by
    clear hk hget
    induction rows with
    | nil => rfl
    | cons r rows ih =>
      rw [List.forall_mem_cons] at h
      rw [List.map_cons, List.map_cons, List.mapM_cons, row_sortKeys_encode rt h.1, ih h.2]
      rfl
  rw [rowsAt, elementsAt_of_get hget]
  exact hrows

theorem rowDictAt_readItems (rt : RowType) {d : Dict String (Row rt.fields)}
    (hk : lookup k (wireItems p) = some (.obj (d.items.map fun e => (e.1, e.2.encode))))
    (h : ∀ e ∈ d.items, e.2.Typed) :
    rowDictAt rt (readItems p) k = .ok ((sortDict d).mapVal fun _ row => row.sorted) := by
  have hitems : Json.get (readItems p) k = .obj ((sortDict d).items.map fun e => (e.1, sortKeys e.2.encode)) := by
    have hsort : (d.items.insertionSort fun a b => a.1 ≤ b.1).map (fun e => (e.1, sortKeys e.2.encode)) =
        (d.items.map fun e => (e.1, sortKeys e.2.encode)).insertionSort fun a b => a.1 ≤ b.1 :=
      List.map_insertionSort _ _ _ d.items fun _ _ _ _ => Iff.rfl
    rw [get_readItems hk, sortKeys, Json.sortKeysItems_eq, List.map_map, sortDict, hsort]
    rfl
  have hfold : ∀ (l : List (String × Row rt.fields)) (acc : Dict String (Row rt.fields)), (∀ e ∈ l, e.2.Typed) →
      (l.map fun e => (e.1, sortKeys e.2.encode)).foldlM (fun d e => (row rt e.2).map (d.set e.1)) acc =
        .ok ((l.map fun e => (e.1, e.2.sorted)).foldl (fun d e => d.set e.1 e.2) acc) := by
    intro l
    induction l with
    | nil => exact fun acc _ => rfl
    | cons e l ih =>
      intro acc hl
      rw [List.forall_mem_cons] at hl
      rw [List.map_cons, List.foldlM_cons, row_sortKeys_encode rt hl.1, List.map_cons, List.foldl_cons, ← ih _ hl.2]
      rfl
  have htyped : ∀ e ∈ (sortDict d).items, e.2.Typed := fun e he =>
    h e ((List.mem_insertionSort fun a b : String × Row rt.fields => a.1 ≤ b.1).1 he)
  rw [rowDictAt, mappingAt_of_get hitems]
  exact (hfold _ ∅ htyped).trans
    (congrArg Except.ok (Dict.foldl_set_items ((sortDict d).mapVal fun _ row => row.sorted)))

theorem lookup_schemaVersion (p : SupervisorProjection) :
    lookup "schema_version" (readItems p) = some (.int p.schemaVersion) := by
  have hlookup : lookup "schema_version" (wireItems p) = some (.int p.schemaVersion) := by simp [wireItems, lookup]
  exact lookup_readItems hlookup

/-- **The rebuilt projection** is the one that was written, its mappings in order. -/
theorem rebuild_readItems (h : p.Typed) :
    rebuild p.schemaVersion (readItems p) = .ok p.sorted := by
  have hgenerated : int ((lookup "generated_at_ms" (readItems p)).getD (.int 0)) = .ok p.generatedAtMs := by
    have hlookup : lookup "generated_at_ms" (wireItems p) = some (.int p.generatedAtMs) := by simp [wireItems, lookup]
    rw [lookup_readItems hlookup]
    rfl
  have hfingerprint : ((lookup "fingerprint" (readItems p)).getD (.str "")).text = p.fingerprint := by
    have hlookup : lookup "fingerprint" (wireItems p) = some (.str p.fingerprint) := by simp [wireItems, lookup]
    rw [lookup_readItems hlookup]
    rfl
  have hhints : elementsAt (readItems p) "changed_hints" = .ok p.changedHints := by
    have hlookup : lookup "changed_hints" (wireItems p) = some (.arr p.changedHints) := by simp [wireItems, lookup]
    refine elementsAt_of_get ((get_readItems hlookup).trans ?_)
    rw [sortKeys, sortKeysElems_texts h.changedHints]
  have hhealth : row healthProjection (mappingAt (readItems p) "health") = .ok p.health.sorted := by
    have hget : Json.get (readItems p) "health" = sortKeys p.health.encode :=
      get_readItems (by simp [wireItems, lookup])
    rw [mappingAt_of_get hget]
    exact row_sortKeys_encode healthProjection h.health
  have hroots : rowsAt charterRootRow (readItems p) "roots" = .ok (p.roots.map Row.sorted) :=
    rowsAt_readItems charterRootRow (by simp [wireItems, lookup]) h.roots
  have hsdk : rowsAt sdkDispatchRow (readItems p) "sdk" = .ok (p.sdk.map Row.sorted) :=
    rowsAt_readItems sdkDispatchRow (by simp [wireItems, lookup]) h.sdk
  have hcdp : rowsAt cdpLegRow (readItems p) "cdp" = .ok (p.cdp.map Row.sorted) :=
    rowsAt_readItems cdpLegRow (by simp [wireItems, lookup]) h.cdp
  have hattention : rowsAt attentionItem (readItems p) "attention" = .ok (p.attention.map Row.sorted) :=
    rowsAt_readItems attentionItem (by simp [wireItems, lookup]) h.attention
  have hrelations : rowsAt relationEdge (readItems p) "relations" = .ok (p.relations.map Row.sorted) :=
    rowsAt_readItems relationEdge (by simp [wireItems, lookup]) h.relations
  have harcs : rowDictAt pathSimArcRow (readItems p) "arcs" = .ok ((sortDict p.arcs).mapVal fun _ row => row.sorted) :=
    rowDictAt_readItems pathSimArcRow (by simp [wireItems, lookup]) h.arcs
  rw [rebuild, hgenerated, hhints, hhealth, hroots, hsdk, hcdp, hattention, hrelations, harcs, hfingerprint]
  rfl

theorem loads_encodeSnapshot (float : List Char → String) (h : p.Typed) (ht : encodeSnapshot p = some text) :
    ∃ data, Json.loads float text = some (.obj data) ∧ lookup "kind" data = some (.str "snapshot") ∧
      lookup "projection" data = some (.obj (readItems p)) := by
  have hnodup : (([("kind", .str "snapshot"), ("projection", toWire p)] : List (String × Json)).map Prod.fst).Nodup := by
    simp
  have hwritable : (Json.obj [("kind", .str "snapshot"), ("projection", toWire p)]).writable = true := by
    by_contra hno
    rw [encodeSnapshot, Json.canonical, if_neg hno] at ht
    cases ht
  have hwire : (toWire p).writable = true :=
    Json.writableItems_iff.1 hwritable ("projection", toWire p) (by simp)
  have hframe : (Json.obj [("kind", .str "snapshot"), ("projection", toWire p)]).Readable :=
    ⟨hnodup, trivial, readable_toWire h hwire, trivial⟩
  have hread := Json.loads_canonical float hframe
  rw [encodeSnapshot] at ht
  rw [ht, Option.bind_some] at hread
  refine ⟨_, hread, ?_, ?_⟩
  · rw [Json.lookup_sortKeysItems hnodup]
    simp [lookup, sortKeys]
  · rw [Json.lookup_sortKeysItems hnodup]
    simp [lookup, sortKeys, toWire, readItems]

/-- **What is written is read back**, unless the version is not supported. -/
theorem decodeFrame_encodeSnapshot (float : List Char → String) (h : p.Typed) (ht : encodeSnapshot p = some text) :
    decodeFrame float text =
      if SCHEMA_VERSION < p.schemaVersion then .error .valueError else .ok (.snapshot p.sorted) := by
  obtain ⟨data, hread, hkind, hprojection⟩ := loads_encodeSnapshot float h ht
  have hversion : int ((lookup "schema_version" (readItems p)).getD (.int SCHEMA_VERSION)) = .ok p.schemaVersion := by
    rw [lookup_schemaVersion]
    rfl
  have hwire : fromWire (.obj (readItems p)) =
      if SCHEMA_VERSION < p.schemaVersion then .error .valueError else .ok p.sorted := by
    rw [fromWire, hversion, ← rebuild_readItems h]
    rfl
  have hsnapshot : (Json.str "snapshot").text = "snapshot" := rfl
  simp only [decodeFrame, hread, hkind, hprojection, Option.getD_some, hsnapshot, if_true]
  rw [hwire]
  split_ifs <;> rfl

/-! ## Equal texts -/

theorem Row.same_of_sorted {r r' : Row fields} (h : r.Typed) (h' : r'.Typed)
    (heq : r.sorted = r'.sorted) : r.Same r' :=
  (Row.same_sorted h).trans (heq ▸ (Row.same_sorted h').symm)

theorem same_of_map_sorted {rows rows' : List (Row fields)} (h : ∀ row ∈ rows, row.Typed)
    (h' : ∀ row ∈ rows', row.Typed) (heq : rows.map Row.sorted = rows'.map Row.sorted) :
    List.Forall₂ Row.Same rows rows' := by
  induction rows generalizing rows' with
  | nil =>
    rw [List.map_nil, eq_comm, List.map_eq_nil_iff] at heq
    rw [heq]
    exact .nil
  | cons row rows ih =>
    cases rows' with
    | nil => cases heq
    | cons row' rows' =>
      rw [List.map_cons, List.map_cons, List.cons.injEq] at heq
      rw [List.forall_mem_cons] at h h'
      exact .cons (Row.same_of_sorted h.1 h'.1 heq.1) (ih h.2 h'.2 heq.2)

theorem SupervisorProjection.same_of_sorted {q : SupervisorProjection} (hp : p.Typed) (hq : q.Typed)
    (heq : p.sorted = q.sorted) : p.Same q where
  schemaVersion := (congrArg schemaVersion heq :)
  generatedAtMs := (congrArg generatedAtMs heq :)
  fingerprint := (congrArg fingerprint heq :)
  health := Row.same_of_sorted hp.health hq.health (congrArg health heq)
  roots := same_of_map_sorted hp.roots hq.roots (congrArg roots heq)
  sdk := same_of_map_sorted hp.sdk hq.sdk (congrArg sdk heq)
  cdp := same_of_map_sorted hp.cdp hq.cdp (congrArg cdp heq)
  attention := same_of_map_sorted hp.attention hq.attention (congrArg attention heq)
  relations := same_of_map_sorted hp.relations hq.relations (congrArg relations heq)
  arcs k := by
    have hget : ∀ p : SupervisorProjection, p.sorted.arcs.get? k = (p.arcs.get? k).map Row.sorted := fun p => by
      rw [sorted, Dict.get?_mapVal, get?_sortDict]
    have hk := hget p
    rw [heq, hget q] at hk
    cases hrow : p.arcs.get? k with
    | none =>
      rw [hrow, Option.map_none, Option.map_eq_none_iff] at hk
      rw [hk]
      exact .none
    | some row =>
      rw [hrow, Option.map_some, Option.map_eq_some_iff] at hk
      obtain ⟨row', hrow', hsorted⟩ := hk
      rw [hrow']
      exact .some (Row.same_of_sorted (hp.arcs (k, row) (Dict.mem_items_iff.2 hrow))
        (hq.arcs (k, row') (Dict.mem_items_iff.2 hrow')) hsorted.symm)
  changedHints := (congrArg changedHints heq :)

/-- **Equal texts are of equal projections**, of any version. -/
theorem same_of_encodeSnapshot {q : SupervisorProjection} (hp : p.Typed) (hq : q.Typed)
    (htp : encodeSnapshot p = some text) (htq : encodeSnapshot q = some text) : p.Same q := by
  obtain ⟨data, hread, -, hprojection⟩ := loads_encodeSnapshot (fun _ => "") hp htp
  obtain ⟨data', hread', -, hprojection'⟩ := loads_encodeSnapshot (fun _ => "") hq htq
  rw [hread, Option.some.injEq, Json.obj.injEq] at hread'
  rw [← hread', hprojection, Option.some.injEq, Json.obj.injEq] at hprojection'
  have hversion : some (Json.int p.schemaVersion) = some (.int q.schemaVersion) := by
    rw [← lookup_schemaVersion p, hprojection', lookup_schemaVersion q]
  rw [Option.some.injEq, Json.int.injEq] at hversion
  have hsorted : (.ok p.sorted : Except Refusal SupervisorProjection) = .ok q.sorted := by
    rw [← rebuild_readItems hp, ← rebuild_readItems hq, hprojection', hversion]
  exact SupervisorProjection.same_of_sorted hp hq (Except.ok.inj hsorted)

/-! ## Unknown keys -/

/-- The data of a row with the same known keys. -/
def WidensRow (rt : RowType) (j j' : Json) : Prop :=
  ∃ items items', j = .obj items ∧ j' = .obj items' ∧
    items'.filter (fun e => rt.names.contains e.1) = items.filter fun e => rt.names.contains e.1

/-- The data under a key of the projection with further keys in its rows. -/
def WidensAt (key : String) (j j' : Json) : Prop :=
  j = j' ∨ (key = "health" ∧ WidensRow healthProjection j j') ∨
    (∃ rt, (key, rt) ∈ tupleFieldTypes ∧ ∃ elems elems', j = .arr elems ∧ j' = .arr elems' ∧
      List.Forall₂ (WidensRow rt) elems elems') ∨
    (key = "arcs" ∧ ∃ items items', j = .obj items ∧ j' = .obj items' ∧
      List.Forall₂ (fun e e' => e.1 = e'.1 ∧ WidensRow pathSimArcRow e.2 e'.2) items items')

/-- The wire data with further keys in the rows. -/
def Widens (data data' : List (String × Json)) : Prop :=
  List.Forall₂ (fun e e' => e.1 = e'.1 ∧ WidensAt e.1 e.2 e'.2) data data'

theorem row_of_widens {rt : RowType} {j' : Json} (h : WidensRow rt j j') : row rt j' = row rt j := by
  obtain ⟨items, items', rfl, rfl, hknown⟩ := h
  have hkwargs : kwargs rt items' = kwargs rt items := congrArg (List.map _) hknown
  change build rt.fields (kwargs rt items') = build rt.fields (kwargs rt items)
  rw [hkwargs]

theorem Widens.rel_lookup (h : Widens data data') (k : String) :
    Option.Rel (WidensAt k) (lookup k data) (lookup k data') := by
  induction h with
  | nil => exact .none
  | @cons e e' data data' he _ ih =>
    obtain ⟨hkey, hwidens⟩ := he
    rw [lookup, lookup, ← hkey]
    split_ifs with hk
    · exact .some (hk ▸ hwidens)
    · exact ih

theorem Widens.get (h : Widens data data') (k : String) :
    WidensAt k (Json.get data k) (Json.get data' k) := by
  have hrel := h.rel_lookup k
  rw [Json.get, Json.get]
  revert hrel
  generalize lookup k data = o, lookup k data' = o'
  rintro (hwidens | -)
  · exact hwidens
  · exact .inl rfl

theorem Widens.lookup_eq (h : Widens data data')
    (hk : k ≠ "health" ∧ k ≠ "arcs" ∧ k ∉ tupleFieldTypes.map Prod.fst) : lookup k data' = lookup k data := by
  have hrel := h.rel_lookup k
  revert hrel
  generalize lookup k data = o, lookup k data' = o'
  rintro (hwidens | -)
  · obtain rfl | ⟨rfl, -⟩ | ⟨rt, hrt, -⟩ | ⟨rfl, -⟩ := hwidens
    · rfl
    · exact (hk.1 rfl).elim
    · exact (hk.2.2 (List.mem_map_of_mem hrt)).elim
    · exact (hk.2.1 rfl).elim
  · rfl

theorem nodup_tupleFieldTypes : (tupleFieldTypes.map Prod.fst).Nodup := by
  simp [tupleFieldTypes]

theorem health_of_widens (h : Widens data data') :
    row healthProjection (mappingAt data' "health") = row healthProjection (mappingAt data "health") := by
  obtain heq | ⟨-, hrow⟩ | ⟨rt, hrt, -⟩ | ⟨hne, -⟩ := h.get "health"
  · rw [mappingAt, mappingAt, heq]
  · obtain ⟨items, items', hdata, hdata', -⟩ := id hrow
    rw [mappingAt_of_get hdata, mappingAt_of_get hdata', ← hdata, ← hdata']
    exact row_of_widens hrow
  · simp [tupleFieldTypes] at hrt
  · exact absurd hne (by simp)

theorem rowsAt_of_widens (h : Widens data data') {rt : RowType}
    (hk : (k, rt) ∈ tupleFieldTypes) : rowsAt rt data' k = rowsAt rt data k := by
  have hkeys : k ≠ "health" ∧ k ≠ "arcs" := by
    constructor
    · rintro rfl
      simp [tupleFieldTypes] at hk
    · rintro rfl
      simp [tupleFieldTypes] at hk
  obtain heq | ⟨hne, -⟩ | ⟨rt', hrt, elems, elems', hdata, hdata', hrows⟩ | ⟨hne, -⟩ := h.get k
  · rw [rowsAt, rowsAt, elementsAt, elementsAt, heq]
  · exact (hkeys.1 hne).elim
  · have hsame : (k, rt') = (k, rt) := List.inj_on_of_nodup_map nodup_tupleFieldTypes hrt hk rfl
    cases hsame
    have hmap : elems'.mapM (row rt) = elems.mapM (row rt) := by
      clear hdata hdata'
      induction hrows with
      | nil => rfl
      | cons hrow _ ih => rw [List.mapM_cons, List.mapM_cons, row_of_widens hrow, ih]
    rw [rowsAt, rowsAt, elementsAt_of_get hdata, elementsAt_of_get hdata']
    exact hmap
  · exact (hkeys.2 hne).elim

theorem arcs_of_widens (h : Widens data data') :
    rowDictAt pathSimArcRow data' "arcs" = rowDictAt pathSimArcRow data "arcs" := by
  obtain heq | ⟨hne, -⟩ | ⟨rt, hrt, -⟩ | ⟨-, items, items', hdata, hdata', hrows⟩ := h.get "arcs"
  · rw [rowDictAt, rowDictAt, mappingAt, mappingAt, heq]
  · exact absurd hne (by simp)
  · simp [tupleFieldTypes] at hrt
  · have hfold : ∀ acc : Dict String (Row pathSimArcRow.fields),
        items'.foldlM (fun d e => (row pathSimArcRow e.2).map (d.set e.1)) acc =
          items.foldlM (fun d e => (row pathSimArcRow e.2).map (d.set e.1)) acc := by
      clear hdata hdata'
      induction hrows with
      | nil => exact fun acc => rfl
      | cons hrow _ ih =>
        intro acc
        rw [List.foldlM_cons, List.foldlM_cons, row_of_widens hrow.2, ← hrow.1]
        exact congrArg _ (funext ih)
    rw [rowDictAt, rowDictAt, mappingAt_of_get hdata, mappingAt_of_get hdata']
    exact hfold ∅

/-- **Unknown keys in the rows change nothing.** -/
theorem fromWire_of_widens (h : Widens data data') :
    fromWire (.obj data') = fromWire (.obj data) := by
  have hversion : lookup "schema_version" data' = lookup "schema_version" data :=
    h.lookup_eq (by simp [tupleFieldTypes])
  have hgenerated : lookup "generated_at_ms" data' = lookup "generated_at_ms" data :=
    h.lookup_eq (by simp [tupleFieldTypes])
  have hfingerprint : lookup "fingerprint" data' = lookup "fingerprint" data :=
    h.lookup_eq (by simp [tupleFieldTypes])
  have hhints : elementsAt data' "changed_hints" = elementsAt data "changed_hints" := by
    rw [elementsAt, elementsAt, Json.get, Json.get, h.lookup_eq (by simp [tupleFieldTypes])]
  have hroots : rowsAt charterRootRow data' "roots" = rowsAt charterRootRow data "roots" :=
    rowsAt_of_widens h (by simp [tupleFieldTypes])
  have hsdk : rowsAt sdkDispatchRow data' "sdk" = rowsAt sdkDispatchRow data "sdk" :=
    rowsAt_of_widens h (by simp [tupleFieldTypes])
  have hcdp : rowsAt cdpLegRow data' "cdp" = rowsAt cdpLegRow data "cdp" :=
    rowsAt_of_widens h (by simp [tupleFieldTypes])
  have hattention : rowsAt attentionItem data' "attention" = rowsAt attentionItem data "attention" :=
    rowsAt_of_widens h (by simp [tupleFieldTypes])
  have hrelations : rowsAt relationEdge data' "relations" = rowsAt relationEdge data "relations" :=
    rowsAt_of_widens h (by simp [tupleFieldTypes])
  have hrebuild : ∀ version, rebuild version data' = rebuild version data := by
    intro version
    rw [rebuild, rebuild, hgenerated, hfingerprint, hhints, health_of_widens h, hroots, hsdk, hcdp, hattention,
      hrelations, arcs_of_widens h]
  rw [fromWire, fromWire, hversion]
  simp only [hrebuild]

/-! ## The round trip -/

theorem encodeSnapshot_eq_none (p : SupervisorProjection) :
    encodeSnapshot p = none ↔ (toWire p).writable = false := by
  have hframe : (Json.obj [("kind", .str "snapshot"), ("projection", toWire p)]).writable = (toWire p).writable := by
    simp [Json.writable, Json.writableItems]
  rw [encodeSnapshot, Json.canonical, hframe]
  cases (toWire p).writable <;> simp

/-- **The codec of the projection.** A projection of a supported version whose integers can be written is written, and
read back as an equal one; equal texts are of equal projections; unknown keys in the rows change nothing. -/
theorem snapshot_roundTrip (float : List Char → String) :
    (∀ p : SupervisorProjection, p.Typed → p.schemaVersion ≤ SCHEMA_VERSION → (toWire p).writable = true →
      ∃ text q, encodeSnapshot p = some text ∧ decodeFrame float text = .ok (.snapshot q) ∧ p.Same q) ∧
    (∀ (p q : SupervisorProjection) (text : List Char), p.Typed → q.Typed → encodeSnapshot p = some text →
      encodeSnapshot q = some text → p.Same q) ∧
    ∀ data data' : List (String × Json), Widens data data' → fromWire (.obj data') = fromWire (.obj data) := by
  refine ⟨fun p hp hversion hw => ?_, fun p q text hp hq => same_of_encodeSnapshot hp hq,
    fun data data' => fromWire_of_widens⟩
  obtain ⟨text, ht⟩ : ∃ text, encodeSnapshot p = some text := by
    rw [← Option.ne_none_iff_exists', Ne, encodeSnapshot_eq_none, hw]
    exact Bool.noConfusion
  refine ⟨text, p.sorted, ht, ?_, SupervisorProjection.same_sorted hp⟩
  rw [decodeFrame_encodeSnapshot float hp ht, if_neg (not_lt.2 hversion)]

/-- A projection with one edge. -/
def oneEdge : SupervisorProjection :=
  { SupervisorProjection.new with
    fingerprint := "5d41"
    relations := [.cons (.data (.str "parent")) (.cons (.data (.str "a")) (.cons (.data (.str "b"))
      (.cons (.data (.str "worker.dispatched")) .nil)))] }

theorem oneEdge_roundTrip : ∃ text q, encodeSnapshot oneEdge = some text ∧
    decodeFrame (fun _ => "") text = .ok (.snapshot q) ∧ oneEdge.Same q := by
  have htyped : oneEdge.Typed :=
    { SupervisorProjection.typed_new with
      relations := List.forall_mem_singleton.2 ⟨trivial, trivial, trivial, trivial, trivial⟩ }
  exact (snapshot_roundTrip fun _ => "").1 oneEdge htyped le_rfl (by decide)

/-- A time of more than 4300 digits is not written. -/
theorem oversized_not_written : ¬ ∀ p : SupervisorProjection, p.Typed → p.schemaVersion ≤ SCHEMA_VERSION →
    ∃ text q, encodeSnapshot p = some text ∧ decodeFrame (fun _ => "") text = .ok (.snapshot q) ∧ p.Same q := by
  intro hall
  have hnone : ∀ n : ℤ, Decimal.toText n = none →
      encodeSnapshot { SupervisorProjection.new with generatedAtMs := n } = none := by
    intro n hn
    rw [encodeSnapshot_eq_none, Bool.eq_false_iff]
    intro hw
    have hint : (Json.int n).writable = true :=
      Json.writableItems_iff.1 hw ("generated_at_ms", .int n) (by simp [wireItems])
    rw [Json.writable, hn] at hint
    cases hint
  have hbig : ∃ n : ℤ, Decimal.toText n = none := by
    simp only [Decimal.toText_eq_none_iff]
    generalize 10 ^ Decimal.maxStrDigits = bound
    exact ⟨bound, (Int.natAbs_natCast bound).ge⟩
  obtain ⟨n, hn⟩ := hbig
  obtain ⟨text, q, ht, -⟩ := hall { SupervisorProjection.new with generatedAtMs := n }
    { SupervisorProjection.typed_new with } le_rfl
  rw [hnone n hn] at ht
  cases ht

end LlmGateway.DispatchMonitor
