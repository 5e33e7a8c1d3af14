import LlmGateway.Foundations.System
import Mathlib.Algebra.Order.Ring.Int
import Mathlib.Data.Finset.Image
import Mathlib.Data.Finset.SDiff
import Mathlib.Data.List.Nodup
import Mathlib.Data.List.Sort
import Mathlib.Data.String.Basic

/-!
# Telemetry by polling

A master without a WebSocket polls `/telemetry`. The remote answers with the changes since its last
delta (`get_delta`), or with a snapshot when the master asks for one, which it does on the first poll and
after every failure. `Poll` is one round: the state that the remote reads, the critical events that came
in before, and whether the request or the response is lost. The master sends its next request after the
remote has answered the last.

`get_delta` keeps what it has sent in an accumulator until the master polls again at the same sequence
number, and the master drops a delta whose number is not above the last that it recorded. That happens only
to a delta with no change in it, but a snapshot records a number too: the master need not have taken the delta
of that number (`dropped_iff`).

A snapshot is not recorded as the base of the next delta. Where it caught a field between a change and
its delta, the field can come back to the old base with no delta to tell of it (`stale_number`); every other
field is the remote's after each answered poll, as long as the ids before and after a change name different
models (`synced_run`).

A remote behind which an edge runs reads what the edge has sent last. The edge's events are queued
there, and the lists that grow with them are shared with the previous state of the tracker (`Ingest`).
-/

namespace LlmGateway.Federation.TelemetrySync

/-! ## The remote -/

/-- The tracked fields that hold lists of models. -/
inductive ModelField
  | loadedModels
  | busyModels
  | availableModels
  deriving DecidableEq

/-- The tracked fields that hold numbers. -/
inductive NumberField
  | activeRequests
  | vramFreeMb
  | ramFreeMb
  deriving DecidableEq

/-- `[str(m) for m in models]` of a set; `ι` are the ids as `str` spells them. -/
structure Models (ι : Type*) where
  ids : List ι
  nodup : ids.Nodup

/-- `_get_current_gateway_state`. -/
structure Snapshot (ι : Type*) where
  models : ModelField → Models ι
  numbers : NumberField → ℤ

/-- What a delta says of a list of models. -/
inductive ListDelta (ι : Type*)
  | full (ids : List ι)
  | diff (added removed : List ι)

/-- The `changes` of a delta. -/
structure Delta (ι : Type*) where
  models : ModelField → Option (ListDelta ι)
  numbers : NumberField → Option ℤ

variable {ι ε : Type*}

namespace Delta

def empty : Delta ι := ⟨fun _ => none, fun _ => none⟩

def isEmpty (d : Delta ι) : Bool :=
  (d.models .loadedModels).isNone && (d.models .busyModels).isNone && (d.models .availableModels).isNone &&
    (d.numbers .activeRequests).isNone && (d.numbers .vramFreeMb).isNone && (d.numbers .ramFreeMb).isNone

/-- `d.update(e)`. -/
def update (d e : Delta ι) : Delta ι where
  models f := (e.models f).or (d.models f)
  numbers f := (e.numbers f).or (d.numbers f)

theorem isEmpty_iff {d : Delta ι} : d.isEmpty ↔ d = empty := by
  obtain ⟨m, n⟩ := d
  simp only [isEmpty, Bool.and_eq_true, Option.isNone_iff_eq_none, empty, mk.injEq]
  constructor
  · rintro ⟨⟨⟨⟨⟨h1, h2⟩, h3⟩, h4⟩, h5⟩, h6⟩
    exact ⟨funext fun f => by cases f <;> assumption, funext fun f => by cases f <;> assumption⟩
  · rintro ⟨rfl, rfl⟩
    simp

end Delta

variable [LinearOrder ι]

/-- `sorted(set(xs) - set(ys))`. -/
def sortedDiff (xs ys : List ι) : List ι := (xs.dedup.filter fun x => x ∉ ys).mergeSort

def computeListDelta (prevList currList : List ι) : ListDelta ι :=
  let added := sortedDiff currList prevList
  let removed := sortedDiff prevList currList
  let deltaSize := added.length + removed.length
  let fullSize := currList.length
  if 0 < deltaSize ∧ (fullSize = 0 ∨ 2 * deltaSize < fullSize) then .diff added removed else .full currList

/-- `_compute_delta`. Before the first delta there is no previous state. -/
def computeDelta (prev : Option (Snapshot ι)) (curr : Snapshot ι) : Delta ι where
  models f :=
    let prevValue := prev.map fun p => (p.models f).ids
    if prevValue = some (curr.models f).ids then none
    else some (computeListDelta (prevValue.getD []) (curr.models f).ids)
  numbers f := if prev.map (fun p => p.numbers f) = some (curr.numbers f) then none else some (curr.numbers f)

/-- The types of critical events that `ingest_edge_telemetry` queues. -/
inductive CriticalType
  | modelLoaded
  | modelUnloaded
  | modelBusy
  | modelIdle
  | modelLoadFailed

/-- A critical event. The id of the model may be missing or empty. -/
structure CriticalEvent (ι : Type*) where
  event : CriticalType
  modelId : Option ι

/-- `TelemetryStateTracker`; `ε` are the critical events. -/
structure Tracker (ι ε : Type*) where
  previousState : Option (Snapshot ι)
  sequenceNumber : ℕ
  criticalEvents : List ε
  accumulatedDelta : Delta ι
  lastPollSeq : ℕ

inductive Response (ι ε : Type*)
  | noContent
  | delta (changes : Delta ι) (sequenceNumber : ℕ) (criticalEvents : List ε)
  | snapshot (state : Snapshot ι) (sequenceNumber : ℕ)

/-- `get_delta`, with the response that `_build_delta_response` makes of it. -/
def getDelta (t : Tracker ι ε) (curr : Snapshot ι) : Tracker ι ε × Response ι ε :=
  -- the master polls again at the same sequence number: it has got the last delta
  let acc := if t.lastPollSeq = t.sequenceNumber then .empty else t.accumulatedDelta
  let t := { t with accumulatedDelta := acc, lastPollSeq := t.sequenceNumber }
  let current := computeDelta t.previousState curr
  let t :=
    if current.isEmpty then t
    else { t with
      sequenceNumber := t.sequenceNumber + 1
      accumulatedDelta := t.accumulatedDelta.update current
      previousState := some curr }
  if t.accumulatedDelta.isEmpty && t.criticalEvents.isEmpty then (t, .noContent)
  else ({ t with criticalEvents := [] }, .delta t.accumulatedDelta t.sequenceNumber t.criticalEvents)

/-- `get_telemetry`. -/
def serve (t : Tracker ι ε) (curr : Snapshot ι) (full : Bool) : Tracker ι ε × Response ι ε :=
  if full then (t, .snapshot curr t.sequenceNumber) else getDelta t curr

/-! ## The master -/

/-- What `FederatedGateway` holds of the tracked fields. -/
structure Gateway (μ : Type) where
  models : ModelField → Finset μ
  numbers : NumberField → ℤ
  lastSequenceNumber : ℤ

/-- What becomes of a poll: the request is lost, the response is lost, or neither. -/
inductive Outcome
  | unsent
  | lost
  | answered
  deriving DecidableEq

structure Poll (ι ε : Type*) where
  state : Snapshot ι
  events : List ε
  outcome : Outcome

structure State (ι ε : Type*) (μ : Type) where
  tracker : Tracker ι ε
  gateway : Gateway μ
  needsFullSync : Bool

/-- The tracker with the critical events that came in. -/
def Tracker.queue (t : Tracker ι ε) (events : List ε) : Tracker ι ε :=
  { t with criticalEvents := t.criticalEvents ++ events }

section

variable {μ : Type} [DecidableEq μ] (parse : ι → μ)

def parseModelIds (ids : List ι) : Finset μ := (ids.map parse).toFinset

def applyModelListDelta (current : Finset μ) : ListDelta ι → Finset μ
  | .diff added removed => (current ∪ parseModelIds parse added) \ parseModelIds parse removed
  | .full ids => parseModelIds parse ids

def isOutOfOrder (g : Gateway μ) (sequenceNumber : ℤ) : Bool :=
  sequenceNumber ≠ -1 && sequenceNumber ≤ g.lastSequenceNumber

def applyDelta (g : Gateway μ) (delta : Delta ι) (sequenceNumber : ℤ) : Gateway μ :=
  if isOutOfOrder g sequenceNumber then g
  else if delta.isEmpty then { g with lastSequenceNumber := sequenceNumber }
  else {
    models := fun f => (delta.models f).elim (g.models f) (applyModelListDelta parse (g.models f))
    numbers := fun f => (delta.numbers f).getD (g.numbers f)
    lastSequenceNumber := sequenceNumber }

def applySnapshot (s : Snapshot ι) (sequenceNumber : ℤ) : Gateway μ where
  models f := parseModelIds parse (s.models f).ids
  numbers := s.numbers
  lastSequenceNumber := sequenceNumber

/-- What the poller does with a response. An answer without content is a heartbeat. -/
def receive (g : Gateway μ) : Response ι ε → Gateway μ
  | .noContent => applyDelta parse g .empty (-1)
  | .delta changes sequenceNumber _ => applyDelta parse g changes sequenceNumber
  | .snapshot s sequenceNumber => applySnapshot parse s sequenceNumber

/-- One round of the poll loop. A failure asks for a snapshot in the next round. -/
def poll (s : State ι ε μ) (p : Poll ι ε) : State ι ε μ :=
  let t := s.tracker.queue p.events
  match p.outcome with
  | .unsent => { s with tracker := t, needsFullSync := true }
  | .lost => { s with tracker := (serve t p.state s.needsFullSync).1, needsFullSync := true }
  | .answered =>
    { tracker := (serve t p.state s.needsFullSync).1
      gateway := receive parse s.gateway (serve t p.state s.needsFullSync).2
      needsFullSync := false }

/-- A remote and a master that have just started. -/
def initial : State ι ε μ where
  tracker := ⟨none, 0, [], .empty, 0⟩
  gateway := ⟨fun _ => ∅, fun _ => 0, 0⟩
  needsFullSync := true

def polls : System (State ι ε μ) (Poll ι ε) := .ofFn (fun s => s = initial) fun s p => some (poll parse s p)

/-! ## The fields, one at a time -/

/-- A tracked field. -/
inductive Field
  | models (f : ModelField)
  | number (f : NumberField)

namespace Field

/-- What the master holds of the field. -/
def Value (μ : Type) : Field → Type
  | models _ => Finset μ
  | number _ => ℤ

def ofSnapshot (s : Snapshot ι) : (k : Field) → k.Value μ
  | models f => parseModelIds parse (s.models f).ids
  | number f => s.numbers f

def ofGateway (g : Gateway μ) : (k : Field) → k.Value μ
  | models f => g.models f
  | number f => g.numbers f

/-- What a delta does to the field. -/
def change? (d : Delta ι) : (k : Field) → Option (k.Value μ → k.Value μ)
  | models f => (d.models f).map fun l v => applyModelListDelta parse v l
  | number f => (d.numbers f).map fun n _ => n

end Field

end

/-! ### Differences of lists -/

section

variable {μ : Type} [DecidableEq μ] {parse : ι → μ} {xs ys : List ι}

theorem mem_sortedDiff {x : ι} : x ∈ sortedDiff xs ys ↔ x ∈ xs ∧ x ∉ ys := by
  simp [sortedDiff]

omit [LinearOrder ι] in
theorem mem_parseModelIds {m : μ} : m ∈ parseModelIds parse xs ↔ ∃ x ∈ xs, parse x = m := by
  simp [parseModelIds]

theorem parseModelIds_sortedDiff (hparse : ∀ x ∈ xs, ∀ y ∈ ys, parse x = parse y → x = y) :
    parseModelIds parse (sortedDiff xs ys) = parseModelIds parse xs \ parseModelIds parse ys := by
  ext m
  simp only [mem_parseModelIds, mem_sortedDiff, Finset.mem_sdiff]
  constructor
  · rintro ⟨x, ⟨hx, hy⟩, rfl⟩
    refine ⟨⟨x, hx, rfl⟩, ?_⟩
    rintro ⟨y, hmem, heq⟩
    exact hy (hparse x hx y hmem heq.symm ▸ hmem)
  · rintro ⟨⟨x, hx, rfl⟩, hno⟩
    exact ⟨x, ⟨hx, fun hy => hno ⟨x, hy, rfl⟩⟩, rfl⟩

theorem applyModelListDelta_compute (hparse : ∀ x ∈ xs, ∀ y ∈ ys, parse x = parse y → x = y) {v : Finset μ}
    (hv : v = parseModelIds parse xs ∨ v = parseModelIds parse ys) :
    applyModelListDelta parse v (computeListDelta xs ys) = parseModelIds parse ys := by
  unfold computeListDelta
  simp only
  split
  · rw [applyModelListDelta, parseModelIds_sortedDiff hparse,
      parseModelIds_sortedDiff fun y hy x hx heq => (hparse x hx y hy heq.symm).symm]
    ext m
    rcases hv with rfl | rfl <;> simp only [Finset.mem_sdiff, Finset.mem_union] <;> tauto
  · rfl

theorem computeListDelta_nil (h : ys.Nodup) : computeListDelta [] ys = .full ys := by
  have hlen : (sortedDiff ys []).length = ys.length := by simp [sortedDiff, h.dedup]
  have hnil : (sortedDiff [] ys).length = 0 := by simp [sortedDiff]
  unfold computeListDelta
  simp only [hlen, hnil]
  rw [if_neg]
  omega

/-! ### What a delta says of a field -/

variable {k : Field} {d e : Delta ι} {q curr : Snapshot ι} {t t' : Tracker ι ε} {g : Gateway μ}

omit [LinearOrder ι] in
theorem change?_empty : k.change? parse (.empty : Delta ι) = none := by
  cases k <;> rfl

omit [LinearOrder ι] in
theorem change?_update : k.change? parse (d.update e) = (k.change? parse e).or (k.change? parse d) := by
  cases k with
  | models f =>
    simp only [Field.change?, Delta.update]
    cases e.models f <;> rfl
  | number f =>
    simp only [Field.change?, Delta.update]
    cases e.numbers f <;> rfl

theorem ofSnapshot_of_change?_none (h : k.change? parse (computeDelta (some q) curr) = none) :
    k.ofSnapshot parse q = k.ofSnapshot parse curr := by
  cases k with
  | models f =>
    by_cases heq : some (q.models f).ids = some (curr.models f).ids
    · exact congrArg (parseModelIds parse) (Option.some.inj heq)
    · change Option.map _ (if some (q.models f).ids = some (curr.models f).ids then none else some _) = none at h
      rw [if_neg heq] at h
      cases h
  | number f =>
    by_cases heq : some (q.numbers f) = some (curr.numbers f)
    · exact Option.some.inj heq
    · change Option.map _ (if some (q.numbers f) = some (curr.numbers f) then none else some _) = none at h
      rw [if_neg heq] at h
      cases h

/-- No id of the previous list names the model of another id that is listed now. -/
def Distinct (parse : ι → μ) (prev : Option (Snapshot ι)) (curr : Snapshot ι) : Field → Prop
  | .models f => ∀ q, prev = some q → ∀ x ∈ (q.models f).ids, ∀ y ∈ (curr.models f).ids, parse x = parse y → x = y
  | .number _ => True

theorem ofSnapshot_of_change?_some (hparse : Distinct parse (some q) curr k) {φ : k.Value μ → k.Value μ}
    (h : k.change? parse (computeDelta (some q) curr) = some φ) {v : k.Value μ}
    (hv : v = k.ofSnapshot parse q ∨ v = k.ofSnapshot parse curr) : φ v = k.ofSnapshot parse curr := by
  cases k with
  | models f =>
    change Option.map (fun l v => applyModelListDelta parse v l) (if some (q.models f).ids = some (curr.models f).ids
      then none else some (computeListDelta (q.models f).ids (curr.models f).ids)) = some φ at h
    split at h
    · cases h
    · obtain rfl := Option.some.inj h
      exact applyModelListDelta_compute (hparse q rfl) hv
  | number f =>
    change Option.map (fun n _ => n) (if some (q.numbers f) = some (curr.numbers f)
      then none else some (curr.numbers f)) = some φ at h
    split at h
    · cases h
    · obtain rfl := Option.some.inj h
      rfl

theorem change?_first : k.change? parse (computeDelta none curr) = some fun _ => k.ofSnapshot parse curr := by
  cases k with
  | models f =>
    simp only [Field.change?, computeDelta, Option.map_none, Option.getD_none, reduceCtorEq, if_false,
      computeListDelta_nil (curr.models f).nodup]
    rfl
  | number f => rfl

omit [LinearOrder ι] in
theorem ofGateway_applySnapshot (n : ℤ) :
    k.ofGateway (applySnapshot parse curr n) = k.ofSnapshot parse curr := by
  cases k <;> rfl

omit [LinearOrder ι] in
theorem ofGateway_applyDelta (n : ℤ) : k.ofGateway (applyDelta parse g d n) =
    if isOutOfOrder g n = true then k.ofGateway g
    else (k.change? parse d).elim (k.ofGateway g) fun φ => φ (k.ofGateway g) := by
  unfold applyDelta
  split
  · rfl
  · split
    · rename_i hempty
      rw [Delta.isEmpty_iff.1 hempty, change?_empty]
      cases k <;> rfl
    · cases k with
      | models f =>
        simp only [Field.ofGateway, Field.change?]
        cases d.models f <;> rfl
      | number f =>
        simp only [Field.ofGateway, Field.change?]
        cases d.numbers f <;> rfl

omit [LinearOrder ι] in
theorem lastSequenceNumber_applyDelta (n : ℤ) : (applyDelta parse g d n).lastSequenceNumber =
    if isOutOfOrder g n = true then g.lastSequenceNumber else n := by
  unfold applyDelta
  split
  · rfl
  · split <;> rfl

/-! ### What a poll does to the tracker -/

/-- What `get_delta` does. -/
inductive Answer (t : Tracker ι ε) (curr : Snapshot ι) : Tracker ι ε → Response ι ε → Prop
  | unchanged {acc : Delta ι} {t' : Tracker ι ε} {r : Response ι ε} (hacc : acc = .empty ∨ acc = t.accumulatedDelta)
    (hsame : computeDelta t.previousState curr = .empty) (hprev : t'.previousState = t.previousState)
    (hseq : t'.sequenceNumber = t.sequenceNumber) (hacc' : t'.accumulatedDelta = acc)
    (hr : r = .noContent ∧ t'.criticalEvents = t.criticalEvents ∨
      r = .delta acc t.sequenceNumber t.criticalEvents ∧ t'.criticalEvents = []) : Answer t curr t' r
  | changed {acc : Delta ι} {t' : Tracker ι ε} (hacc : acc = .empty ∨ acc = t.accumulatedDelta)
    (hne : computeDelta t.previousState curr ≠ .empty) (hprev : t'.previousState = some curr)
    (hseq : t'.sequenceNumber = t.sequenceNumber + 1)
    (hacc' : t'.accumulatedDelta = acc.update (computeDelta t.previousState curr)) (hevents : t'.criticalEvents = []) :
    Answer t curr t' (.delta (acc.update (computeDelta t.previousState curr)) (t.sequenceNumber + 1) t.criticalEvents)

omit [LinearOrder ι] in
theorem update_ne_empty (h : e ≠ .empty) : d.update e ≠ .empty := by
  intro hempty
  obtain ⟨m, n⟩ := e
  simp only [Delta.update, Delta.empty, Delta.mk.injEq] at hempty
  apply h
  simp only [Delta.empty, Delta.mk.injEq]
  refine ⟨funext fun f => ?_, funext fun f => ?_⟩
  · exact (Option.or_eq_none_iff.1 (congrFun hempty.1 f)).1
  · exact (Option.or_eq_none_iff.1 (congrFun hempty.2 f)).1

theorem answer_getDelta (t : Tracker ι ε) (curr : Snapshot ι) : Answer t curr (getDelta t curr).1 (getDelta t curr).2 := by
  have hacc : (if t.lastPollSeq = t.sequenceNumber then Delta.empty else t.accumulatedDelta) = .empty ∨
      (if t.lastPollSeq = t.sequenceNumber then Delta.empty else t.accumulatedDelta) = t.accumulatedDelta := by
    split
    · exact .inl rfl
    · exact .inr rfl
  unfold getDelta
  simp only
  generalize (if t.lastPollSeq = t.sequenceNumber then Delta.empty else t.accumulatedDelta) = acc at hacc ⊢
  by_cases hempty : (computeDelta t.previousState curr).isEmpty = true
  · simp only [hempty, if_true]
    split
    · exact .unchanged hacc (Delta.isEmpty_iff.1 hempty) rfl rfl rfl (.inl ⟨rfl, rfl⟩)
    · exact .unchanged hacc (Delta.isEmpty_iff.1 hempty) rfl rfl rfl (.inr ⟨rfl, rfl⟩)
  · have hne : computeDelta t.previousState curr ≠ .empty := fun h => hempty (Delta.isEmpty_iff.2 h)
    have hupdate : (acc.update (computeDelta t.previousState curr)).isEmpty = false := by
      rw [← Bool.not_eq_true, Delta.isEmpty_iff]
      exact update_ne_empty hne
    simp only [hempty, if_false, Bool.false_eq_true, hupdate, Bool.false_and]
    exact .changed hacc hne rfl rfl rfl rfl

/-! ## What the accumulator holds -/

/-- What the accumulator says of the field is true of the state that the tracker knows. -/
structure TrackerInv (parse : ι → μ) (k : Field) (t : Tracker ι ε) : Prop where
  first : t.previousState = none → t.accumulatedDelta = .empty
  known : ∀ q, t.previousState = some q → ∀ φ, k.change? parse t.accumulatedDelta = some φ →
    φ (k.ofSnapshot parse q) = k.ofSnapshot parse q

theorem computeDelta_none_ne_empty (parse : ι → μ) (k : Field) : computeDelta none curr ≠ .empty := by
  intro hempty
  have h : k.change? parse (computeDelta none curr) = _ := change?_first
  rw [hempty, change?_empty] at h
  cases h

omit [LinearOrder ι] in
theorem TrackerInv.of_acc (h : TrackerInv parse k t) {acc : Delta ι} (hacc : acc = .empty ∨ acc = t.accumulatedDelta)
    (hprev : t.previousState = some q) {φ : k.Value μ → k.Value μ} (hφ : k.change? parse acc = some φ) :
    φ (k.ofSnapshot parse q) = k.ofSnapshot parse q := by
  rcases hacc with rfl | rfl
  · rw [change?_empty] at hφ
    cases hφ
  · exact h.known q hprev φ hφ

theorem TrackerInv.of_update (hparse : Distinct parse t.previousState curr k) (h : TrackerInv parse k t) {acc : Delta ι}
    (hacc : acc = .empty ∨ acc = t.accumulatedDelta) (v : k.Value μ)
    (hv : v = k.ofSnapshot parse curr ∨ ∀ q, t.previousState = some q → v = k.ofSnapshot parse q) :
    ((k.change? parse (acc.update (computeDelta t.previousState curr))).elim v fun φ => φ v) =
      k.ofSnapshot parse curr := by
  rw [change?_update]
  cases hprev : t.previousState with
  | none => simp [change?_first]
  | some q =>
    have hv' : v = k.ofSnapshot parse q ∨ v = k.ofSnapshot parse curr := hv.symm.imp_left fun h => h q hprev
    cases hcd : k.change? parse (computeDelta (some q) curr) with
    | some φ => exact ofSnapshot_of_change?_some (hprev ▸ hparse) hcd hv'
    | none =>
      have heq := ofSnapshot_of_change?_none hcd
      obtain rfl : v = k.ofSnapshot parse q := hv'.elim id fun h => h.trans heq.symm
      rw [Option.none_or]
      cases hφ : k.change? parse acc with
      | none => exact heq
      | some φ => exact (h.of_acc hacc hprev hφ).trans heq

variable {r : Response ι ε}

/-- An answer of the tracker keeps its invariant. -/
theorem TrackerInv.answer (hparse : Distinct parse t.previousState curr k) (h : TrackerInv parse k t)
    (ha : Answer t curr t' r) : TrackerInv parse k t' := by
  cases ha with
  | unchanged hacc hsame hprev _ hacc' _ =>
    refine ⟨fun hnone => ?_, fun q hq φ hφ => ?_⟩
    · rw [← hprev, hnone] at hsame
      exact absurd hsame (computeDelta_none_ne_empty parse k)
    · rw [hacc'] at hφ
      exact h.of_acc hacc (hprev ▸ hq) hφ
  | changed hacc _ hprev _ hacc' _ =>
    refine ⟨fun hnone => by simp [hprev] at hnone, fun q hq φ hφ => ?_⟩
    obtain rfl : curr = q := Option.some.inj (hprev.symm.trans hq)
    have h' := h.of_update hparse hacc (k.ofSnapshot parse curr) (.inl rfl)
    rw [hacc'] at hφ
    rwa [hφ] at h'

theorem sequenceNumber_le (ha : Answer t curr t' r) : t.sequenceNumber ≤ t'.sequenceNumber := by
  cases ha with
  | unchanged _ _ _ hseq _ _ => exact hseq.ge
  | changed _ _ _ hseq _ _ => omega

omit [LinearOrder ι] in
theorem trackerInv_queue (h : TrackerInv parse k t) (events : List ε) : TrackerInv parse k (t.queue events) :=
  ⟨h.first, h.known⟩

/-! ## Agreement -/

omit [LinearOrder ι] [DecidableEq μ] in
theorem isOutOfOrder_heartbeat : isOutOfOrder g (-1) = false := by
  simp [isOutOfOrder]

omit [LinearOrder ι] [DecidableEq μ] in
theorem isOutOfOrder_natCast (n : ℕ) : isOutOfOrder g n = true ↔ (n : ℤ) ≤ g.lastSequenceNumber := by
  simp only [isOutOfOrder, Bool.and_eq_true, decide_eq_true_eq]
  omega

theorem lastSequenceNumber_receive (hseq : g.lastSequenceNumber ≤ t.sequenceNumber)
    (ha : Answer t curr t' r) : (receive parse g r).lastSequenceNumber ≤ t'.sequenceNumber := by
  cases ha with
  | unchanged _ _ _ hseq' _ hr =>
    rw [hseq']
    rcases hr with ⟨rfl, -⟩ | ⟨rfl, -⟩
    · rw [receive, lastSequenceNumber_applyDelta, isOutOfOrder_heartbeat, if_neg Bool.false_ne_true]
      omega
    · rw [receive, lastSequenceNumber_applyDelta]
      split
      · exact hseq
      · exact le_rfl
  | changed _ _ _ hseq' _ _ =>
    rw [hseq', receive, lastSequenceNumber_applyDelta]
    split
    · push_cast
      omega
    · exact le_rfl

theorem ofGateway_receive (hparse : Distinct parse t.previousState curr k) (h : TrackerInv parse k t)
    (hseq : g.lastSequenceNumber ≤ t.sequenceNumber)
    (hagree : ∀ q, t.previousState = some q → k.ofGateway g = k.ofSnapshot parse q) (ha : Answer t curr t' r) :
    k.ofGateway (receive parse g r) = k.ofSnapshot parse curr := by
  cases ha with
  | unchanged hacc hsame hprev _ _ hr =>
    cases hq : t.previousState with
    | none =>
      rw [hq] at hsame
      exact absurd hsame (computeDelta_none_ne_empty parse k)
    | some q =>
      have heq : k.ofSnapshot parse q = k.ofSnapshot parse curr :=
        ofSnapshot_of_change?_none (by rw [← hq, hsame, change?_empty])
      rw [← heq, ← hagree q hq]
      rcases hr with ⟨rfl, -⟩ | ⟨rfl, -⟩
      · rw [receive, ofGateway_applyDelta, change?_empty]
        split <;> rfl
      · rw [receive, ofGateway_applyDelta]
        split
        · rfl
        · cases hφ : k.change? parse _ with
          | none => rfl
          | some φ =>
            rw [hagree q hq]
            exact h.of_acc hacc hq hφ
  | changed hacc _ _ _ _ _ =>
    have hnew : ¬ isOutOfOrder g (t.sequenceNumber + 1 : ℕ) = true := by
      rw [isOutOfOrder_natCast]
      push_cast
      omega
    rw [receive, ofGateway_applyDelta, if_neg hnew]
    exact h.of_update hparse hacc (k.ofGateway g) (.inr hagree)

variable {s s' : State ι ε μ} {p : Poll ι ε}

/-- The master never records a number that is ahead of the tracker's. -/
theorem lastSequenceNumber_poll (hseq : s.gateway.lastSequenceNumber ≤ s.tracker.sequenceNumber) (p : Poll ι ε) :
    (poll parse s p).gateway.lastSequenceNumber ≤ (poll parse s p).tracker.sequenceNumber := by
  have hseq : s.gateway.lastSequenceNumber ≤ (s.tracker.queue p.events).sequenceNumber := hseq
  have ha := answer_getDelta (s.tracker.queue p.events) p.state
  unfold TelemetrySync.poll serve
  generalize s.tracker.queue p.events = t at hseq ha ⊢
  cases p.outcome with
  | unsent => exact hseq
  | lost =>
    cases s.needsFullSync with
    | true => exact hseq
    | false => exact hseq.trans (Int.ofNat_le.2 (sequenceNumber_le ha))
  | answered =>
    cases s.needsFullSync with
    | true => exact le_rfl
    | false => exact lastSequenceNumber_receive hseq ha

theorem lastSequenceNumber_le (h : (polls parse).Reachable s) :
    s.gateway.lastSequenceNumber ≤ s.tracker.sequenceNumber := by
  refine h.invariant (I := fun s => s.gateway.lastSequenceNumber ≤ s.tracker.sequenceNumber)
    (fun s hs => ?_) fun s p s' hi hs => ?_
  · obtain rfl : s = initial := hs
    exact le_rfl
  · obtain rfl : TelemetrySync.poll parse s p = s' := Option.some.inj hs
    exact lastSequenceNumber_poll hi p

/-- **What is dropped.** In every reachable state, the master takes the delta of a poll for an old one exactly if nothing
has changed at the remote since the tracker last made a delta, and the number that the master recorded last, with a delta,
a snapshot or a heartbeat, is the tracker's. -/
theorem dropped_iff (h : (polls parse).Reachable s) {d : Delta ι} {n : ℕ} {events : List ε}
    (hr : (getDelta (s.tracker.queue p.events) p.state).2 = .delta d n events) :
    isOutOfOrder s.gateway n = true ↔
      computeDelta s.tracker.previousState p.state = .empty ∧
        s.gateway.lastSequenceNumber = s.tracker.sequenceNumber := by
  have hseq := lastSequenceNumber_le h
  have ha := answer_getDelta (s.tracker.queue p.events) p.state
  rw [isOutOfOrder_natCast]
  generalize hr' : (getDelta (s.tracker.queue p.events) p.state).2 = r at ha hr
  cases ha with
  | unchanged _ hsame _ _ _ hr'' =>
    rcases hr'' with ⟨rfl, -⟩ | ⟨rfl, -⟩
    · cases hr
    · cases hr
      exact ⟨fun hle => ⟨hsame, le_antisymm hseq hle⟩, fun h => h.2.ge⟩
  | changed _ hne _ _ _ _ =>
    cases hr
    refine ⟨fun hle => ?_, fun h => absurd h.1 hne⟩
    have hle : ((s.tracker.sequenceNumber + 1 : ℕ) : ℤ) ≤ s.gateway.lastSequenceNumber := hle
    push_cast at hle
    omega

/-- A round at a remote with model `n` and the number `n` everywhere. Two events have come to it. -/
def round (n : ℕ) (outcome : Outcome) : Poll ℕ (CriticalEvent ℕ) where
  state := ⟨fun _ => ⟨[n], List.nodup_singleton n⟩, fun _ => n⟩
  events := [⟨.modelLoaded, some n⟩, ⟨.modelBusy, some n⟩]
  outcome := outcome

theorem poll_step {s : State ℕ (CriticalEvent ℕ) ℕ} (p : Poll ℕ (CriticalEvent ℕ)) :
    (polls id).step s p (poll id s p) := rfl

/-- A master that has got a snapshot and then a delta. -/
def polled : State ℕ (CriticalEvent ℕ) ℕ := poll id (poll id initial (round 5 .answered)) (round 5 .answered)

theorem polled_reachable : (polls id).Reachable polled :=
  .step (.step (.init rfl) (poll_step _)) (poll_step _)

theorem dropped_iff_polled :
    isOutOfOrder polled.gateway 1 = true ↔
      computeDelta polled.tracker.previousState (round 5 .answered).state = .empty ∧
        polled.gateway.lastSequenceNumber = polled.tracker.sequenceNumber :=
  dropped_iff polled_reachable (p := round 5 .answered) rfl

/-- What the rounds keep. -/
structure SyncInv (parse : ι → μ) (k : Field) (s : State ι ε μ) : Prop where
  tracker : TrackerInv parse k s.tracker
  seq : s.gateway.lastSequenceNumber ≤ s.tracker.sequenceNumber

omit [LinearOrder ι] in
theorem syncInv_initial : SyncInv parse k (initial : State ι ε μ) :=
  ⟨⟨fun _ => rfl, fun _ hq => by cases hq⟩, le_rfl⟩

/-- A poll keeps what the master and the tracker have in common. -/
theorem SyncInv.poll (h : SyncInv parse k s) (hparse : Distinct parse s.tracker.previousState p.state k) :
    SyncInv parse k (poll parse s p) := by
  refine ⟨?_, lastSequenceNumber_poll h.seq p⟩
  have hqueue := trackerInv_queue h.tracker p.events
  have hparse : Distinct parse (s.tracker.queue p.events).previousState p.state k := hparse
  have hanswer := hqueue.answer hparse (answer_getDelta (s.tracker.queue p.events) p.state)
  unfold TelemetrySync.poll serve
  cases p.outcome with
  | unsent => exact hqueue
  | lost | answered =>
    cases s.needsFullSync with
    | true => exact hqueue
    | false => exact hanswer

/-- Where a snapshot is sent, it tells of the field what the tracker knows already. -/
def SettledAt (parse : ι → μ) (k : Field) (s : State ι ε μ) (p : Poll ι ε) : Prop :=
  p.outcome = .answered → s.needsFullSync = true →
    ∀ q, s.tracker.previousState = some q → k.ofSnapshot parse q = k.ofSnapshot parse p.state

/-- A snapshot finds the field settled, and the ids name different models. -/
def Followed (parse : ι → μ) (k : Field) (s : State ι ε μ) (p : Poll ι ε) : Prop :=
  SettledAt parse k s p ∧ Distinct parse s.tracker.previousState p.state k

/-- The master agrees with the tracker while it does not ask for a snapshot. -/
def Agrees (parse : ι → μ) (k : Field) (s : State ι ε μ) : Prop :=
  s.needsFullSync = false → ∀ q, s.tracker.previousState = some q → k.ofGateway s.gateway = k.ofSnapshot parse q

theorem ofGateway_poll (hparse : Distinct parse s.tracker.previousState p.state k) (h : SyncInv parse k s)
    (hagree : Agrees parse k s) (hp : p.outcome = .answered) :
    k.ofGateway (poll parse s p).gateway = k.ofSnapshot parse p.state := by
  have ha := answer_getDelta (s.tracker.queue p.events) p.state
  have hparse : Distinct parse (s.tracker.queue p.events).previousState p.state k := hparse
  unfold poll serve
  rw [hp]
  cases hfull : s.needsFullSync with
  | true => exact ofGateway_applySnapshot _
  | false => exact ofGateway_receive hparse (trackerInv_queue h.tracker p.events) h.seq (hagree hfull) ha

theorem Agrees.poll (hparse : Distinct parse s.tracker.previousState p.state k) (h : SyncInv parse k s)
    (hagree : Agrees parse k s) (hp : SettledAt parse k s p) : Agrees parse k (poll parse s p) := by
  cases hout : p.outcome with
  | unsent | lost =>
    intro hfull
    simp [TelemetrySync.poll, hout] at hfull
  | answered =>
    intro _ q hq
    rw [ofGateway_poll hparse h hagree hout]
    have ha := answer_getDelta (s.tracker.queue p.events) p.state
    unfold TelemetrySync.poll serve at hq
    rw [hout] at hq
    cases hfull : s.needsFullSync with
    | true =>
      rw [hfull] at hq
      exact (hp hout hfull q hq).symm
    | false =>
      rw [hfull] at hq
      have hq : (getDelta (s.tracker.queue p.events) p.state).1.previousState = some q := hq
      generalize (getDelta (s.tracker.queue p.events) p.state).2 = r at ha
      generalize (getDelta (s.tracker.queue p.events) p.state).1 = t' at ha hq
      cases ha with
      | unchanged _ hsame hprev _ _ _ =>
        have hsame : computeDelta s.tracker.previousState p.state = .empty := hsame
        have hprev : s.tracker.previousState = some q := hprev.symm.trans hq
        rw [hprev] at hsame
        exact (ofSnapshot_of_change?_none (by rw [hsame, change?_empty])).symm
      | changed _ _ hprev _ _ _ => rw [Option.some.inj (hprev.symm.trans hq)]

/-- **The master keeps up.** In every run, with any losses, in which the snapshots that arrive find the field settled and
the ids before and after a change name different models, the master holds of the field what the remote read after every
answered poll. -/
theorem synced_run (h : ((polls parse).restrict (Followed parse k)).Reachable s)
    (hparse : Distinct parse s.tracker.previousState p.state k) (hp : p.outcome = .answered) :
    k.ofGateway (poll parse s p).gateway = k.ofSnapshot parse p.state := by
  have hinv : SyncInv parse k s ∧ Agrees parse k s := by
    refine h.invariant (I := fun s => SyncInv parse k s ∧ Agrees parse k s) (fun s hs => ?_) fun s p s' hi hs => ?_
    · obtain rfl : s = initial := hs
      exact ⟨syncInv_initial, fun hfull => by cases hfull⟩
    · obtain ⟨⟨hsettled, hdistinct⟩, hs : some (poll parse s p) = some s'⟩ := hs
      obtain rfl := Option.some.inj hs
      exact ⟨hi.1.poll hdistinct, hi.2.poll hdistinct hi.1 hsettled⟩
  exact ofGateway_poll hparse hinv.1 hinv.2 hp

theorem distinct_id {prev : Option (Snapshot ℕ)} {curr : Snapshot ℕ} : Distinct id prev curr k := by
  cases k with
  | models f => exact fun _ _ _ _ _ _ heq => heq
  | number f => trivial

/-- A response is lost, a snapshot comes, which finds everything settled, and then a delta. -/
theorem synced_run_afterLoss :
    (poll id (poll id (poll id (poll id initial (round 5 .answered)) (round 6 .lost)) (round 6 .answered))
      (round 7 .answered)).gateway.models .loadedModels = {7} := by
  have hfirst : ((polls id).restrict (Followed id (.models .loadedModels))).Reachable
      (poll id initial (round 5 .answered)) :=
    .step (.init rfl) ⟨⟨fun _ _ _ hq => (by cases hq), distinct_id⟩, poll_step _⟩
  have hlost : ((polls id).restrict (Followed id (.models .loadedModels))).Reachable
      (poll id (poll id initial (round 5 .answered)) (round 6 .lost)) :=
    .step hfirst ⟨⟨fun hout => (by cases hout), distinct_id⟩, poll_step _⟩
  have hresynced : ((polls id).restrict (Followed id (.models .loadedModels))).Reachable
      (poll id (poll id (poll id initial (round 5 .answered)) (round 6 .lost)) (round 6 .answered)) :=
    .step hlost ⟨⟨fun _ _ q hq => (by cases hq; rfl), distinct_id⟩, poll_step _⟩
  exact synced_run (k := .models .loadedModels) hresynced distinct_id rfl

/-! ## A snapshot over a pending change -/

variable {f : NumberField} {ps : List (Poll ι ε)}

/-- The tracker takes the number for what it knows, and has nothing to say of it. -/
structure Silent (t : Tracker ι ε) (f : NumberField) (x : ℤ) : Prop where
  known : ∃ q, t.previousState = some q ∧ q.numbers f = x
  quiet : t.accumulatedDelta.numbers f = none

theorem Silent.answer {x : ℤ} (h : Silent t f x) (hcurr : curr.numbers f = x)
    (ha : Answer t curr t' r) : Silent t' f x ∧ (receive parse g r).numbers f = g.numbers f := by
  obtain ⟨q, hq, hx⟩ := h.known
  have hsilent {acc : Delta ι} (hacc : acc = .empty ∨ acc = t.accumulatedDelta) : acc.numbers f = none := by
    rcases hacc with rfl | rfl
    · rfl
    · exact h.quiet
  have hkeeps {d : Delta ι} (hd : d.numbers f = none) (n : ℤ) : (applyDelta parse g d n).numbers f = g.numbers f := by
    unfold applyDelta
    split
    · rfl
    · split
      · rfl
      · exact congrArg (fun o => o.getD (g.numbers f)) hd
  cases ha with
  | unchanged hacc _ hprev _ hacc' hr =>
    refine ⟨⟨⟨q, hprev.trans hq, hx⟩, by rw [hacc', hsilent hacc]⟩, ?_⟩
    rcases hr with ⟨rfl, -⟩ | ⟨rfl, -⟩
    · exact hkeeps rfl _
    · exact hkeeps (hsilent hacc) _
  | changed hacc _ hprev _ hacc' _ =>
    have hupdate := hsilent hacc
    have hsame : (computeDelta t.previousState curr).numbers f = none := by
      simp [computeDelta, hq, hx, hcurr]
    have hnone : Delta.numbers (Delta.update _ (computeDelta t.previousState curr)) f = none :=
      Option.or_eq_none_iff.2 ⟨hsame, hupdate⟩
    exact ⟨⟨⟨curr, hprev, hcurr⟩, by rw [hacc', hnone]⟩, hkeeps hnone _⟩

/-- **What goes wrong otherwise.** Where the number is back at what the tracker knows, the master keeps what it holds
for as long as every poll is answered and the number stays, right or wrong. -/
theorem stale_number {x : ℤ} (hfull : s.needsFullSync = false) (hsilent : Silent s.tracker f x)
    (hrun : (polls parse).Run s ps s') (hps : ∀ p ∈ ps, p.outcome = .answered ∧ p.state.numbers f = x) :
    s'.gateway.numbers f = s.gateway.numbers f := by
  induction hrun with
  | nil _ => rfl
  | @cons s s₁ s' p ps hs _ ih =>
    obtain ⟨hout, hx⟩ := hps p List.mem_cons_self
    obtain rfl : poll parse s p = s₁ := Option.some.inj hs
    have ha := answer_getDelta (s.tracker.queue p.events) p.state
    have hqueue : Silent (s.tracker.queue p.events) f x := ⟨hsilent.known, hsilent.quiet⟩
    have hkept : _ ∧ (receive parse s.gateway _).numbers f = s.gateway.numbers f := hqueue.answer hx ha
    have hpoll : poll parse s p = ⟨(getDelta (s.tracker.queue p.events) p.state).1,
        receive parse s.gateway (getDelta (s.tracker.queue p.events) p.state).2, false⟩ := by
      simp only [poll, hout, serve, hfull, Bool.false_eq_true, if_false]
    have hrest := ih (by rw [hpoll]) (by rw [hpoll]; exact hkept.1) fun p hp => hps p (List.mem_cons_of_mem _ hp)
    rw [hrest, hpoll]
    exact hkept.2

/-- A snapshot has told the master of seven requests where the tracker knows of five. -/
def overtaken : State ℕ (CriticalEvent ℕ) ℕ :=
  poll id (poll id (poll id (poll id polled (round 5 .answered)) (round 5 .answered)) (round 5 .unsent))
    (round 7 .answered)

theorem stale_number_overtaken :
    (poll id overtaken (round 5 .answered)).gateway.numbers .activeRequests = 7 := by
  have hsilent : Silent overtaken.tracker .activeRequests 5 := ⟨⟨_, rfl, rfl⟩, rfl⟩
  have hrun : (polls id).Run overtaken [round 5 .answered] (poll id overtaken (round 5 .answered)) :=
    .cons (poll_step _) (.nil _)
  exact stale_number rfl hsilent hrun fun p hp => by
    obtain rfl := List.mem_singleton.1 hp
    exact ⟨rfl, rfl⟩

/-! ## The critical events -/

/-- What the master publishes of a critical event. -/
inductive Signal (μ : Type)
  | modelLoaded (model : μ)
  | modelUnloaded (model : μ)

/-- `_handle_critical_event`. -/
def handleCriticalEvent (parse : ι → μ) (e : CriticalEvent ι) : Option (Signal μ) :=
  e.modelId.bind fun id =>
    match e.event with
    | .modelLoaded => some (.modelLoaded (parse id))
    | .modelUnloaded => some (.modelUnloaded (parse id))
    | .modelBusy | .modelIdle | .modelLoadFailed => none

/-- A round at a remote behind which an edge runs. What the edge sends before the poll may grow the lists of the
previous state too, which are then the edge's own. -/
structure Ingest (ι : Type*) extends Poll ι (CriticalEvent ι) where
  previousState : Option (Snapshot ι)

/-- The state when the poll comes. -/
def Ingest.before (s : State ι (CriticalEvent ι) μ) (p : Ingest ι) : State ι (CriticalEvent ι) μ :=
  { s with tracker := { s.tracker with previousState := p.previousState } }

/-- A remote behind which an edge runs, and its master. -/
def relayed (parse : ι → μ) : System (State ι (CriticalEvent ι) μ) (Ingest ι) :=
  .ofFn (fun s => s = initial) fun s p => some (poll parse (p.before s) p.toPoll)

/-- The critical events that a response brings. -/
def Response.events : Response ι ε → List ε
  | .noContent => []
  | .delta _ _ events => events
  | .snapshot _ _ => []

/-- The critical events that the master handles in a round, also where the delta is dropped. -/
def handled (s : State ι ε μ) (p : Poll ι ε) : List ε :=
  match p.outcome with
  | .answered => (serve (s.tracker.queue p.events) p.state s.needsFullSync).2.events
  | .unsent | .lost => []

/-- What the master publishes in a run. -/
def published (parse : ι → μ) (s : State ι (CriticalEvent ι) μ) : List (Ingest ι) → List (Signal μ)
  | [] => []
  | p :: ps => (handled (p.before s) p.toPoll).filterMap (handleCriticalEvent parse) ++
      published parse (poll parse (p.before s) p.toPoll) ps

theorem events_answer (ha : Answer t curr t' r) :
    r.events ++ t'.criticalEvents = t.criticalEvents := by
  cases ha with
  | unchanged _ _ _ _ _ hr =>
    rcases hr with ⟨rfl, h⟩ | ⟨rfl, h⟩ <;> simp [Response.events, h]
  | changed _ _ _ _ _ h => simp [Response.events, h]

theorem events_serve (t : Tracker ι ε) (curr : Snapshot ι) (full : Bool) :
    (serve t curr full).2.events ++ (serve t curr full).1.criticalEvents = t.criticalEvents := by
  cases full with
  | true => rfl
  | false => exact events_answer (answer_getDelta t curr)

/-- A round takes events off the front of the queue, and only a lost response loses them. -/
theorem events_poll (parse : ι → μ) (s : State ι ε μ) (p : Poll ι ε) :
    (handled s p ++ (poll parse s p).tracker.criticalEvents).Sublist (s.tracker.criticalEvents ++ p.events) ∧
      (p.outcome ≠ .lost →
        handled s p ++ (poll parse s p).tracker.criticalEvents = s.tracker.criticalEvents ++ p.events) := by
  have hserve := events_serve (s.tracker.queue p.events) p.state s.needsFullSync
  unfold handled poll
  cases p.outcome with
  | unsent => exact ⟨List.Sublist.refl _, fun _ => rfl⟩
  | lost =>
    have hleft : (serve (s.tracker.queue p.events) p.state s.needsFullSync).1.criticalEvents.Sublist
        (s.tracker.criticalEvents ++ p.events) := by
      rw [show s.tracker.criticalEvents ++ p.events = _ from hserve.symm]
      exact List.sublist_append_right _ _
    exact ⟨hleft, fun h => absurd rfl h⟩
  | answered => exact ⟨hserve ▸ List.Sublist.refl _, fun _ => hserve⟩

/-- **Events come at most once, in order.** In every run at a remote with an edge, what the master publishes followed by
what it would publish of the queued events is drawn in order from what it publishes of those that were queued and came
in; it is all of that if no response is lost. -/
theorem events_in_order {s s' : State ι (CriticalEvent ι) μ} {ps : List (Ingest ι)}
    (hrun : (relayed parse).Run s ps s') :
    (published parse s ps ++ s'.tracker.criticalEvents.filterMap (handleCriticalEvent parse)).Sublist
        ((s.tracker.criticalEvents ++ ps.flatMap fun p => p.events).filterMap (handleCriticalEvent parse)) ∧
      ((∀ p ∈ ps, p.outcome ≠ .lost) →
        published parse s ps ++ s'.tracker.criticalEvents.filterMap (handleCriticalEvent parse) =
          (s.tracker.criticalEvents ++ ps.flatMap fun p => p.events).filterMap (handleCriticalEvent parse)) := by
  induction hrun with
  | nil s => simp [published]
  | @cons s s₁ s' p ps hs _ ih =>
    obtain rfl : poll parse (p.before s) p.toPoll = s₁ := Option.some.inj hs
    obtain ⟨hsub, heq⟩ := events_poll parse (p.before s) p.toPoll
    have hassoc : s.tracker.criticalEvents ++ ((p :: ps).flatMap fun p => p.events) =
        (s.tracker.criticalEvents ++ p.events) ++ ps.flatMap fun p => p.events := by
      rw [List.flatMap_cons, List.append_assoc]
    rw [hassoc, published, List.append_assoc, List.filterMap_append]
    rw [List.filterMap_append] at ih
    constructor
    · have hfirst := hsub.filterMap (handleCriticalEvent parse)
      rw [List.filterMap_append] at hfirst
      have hrest := (List.Sublist.refl ((handled (p.before s) p.toPoll).filterMap (handleCriticalEvent parse))).append ih.1
      rw [← List.append_assoc (List.filterMap _ _) (List.filterMap _ _)] at hrest
      exact hrest.trans (hfirst.append (List.Sublist.refl _))
    · intro hps
      have hfirst := congrArg (List.filterMap (handleCriticalEvent parse)) (heq (hps p List.mem_cons_self))
      rw [List.filterMap_append] at hfirst
      rw [ih.2 fun p hp => hps p (List.mem_cons_of_mem _ hp), ← List.append_assoc, hfirst]
      rfl

/-- The loaded model is published and the busy one is not. -/
theorem events_in_order_polled : (published id (initial : State ℕ (CriticalEvent ℕ) ℕ)
      [⟨round 5 .answered, none⟩, ⟨round 5 .answered, none⟩] ++
    polled.tracker.criticalEvents.filterMap (handleCriticalEvent id)).Sublist [.modelLoaded 5, .modelLoaded 5] :=
  And.left <| events_in_order (.cons rfl (.cons rfl (.nil polled)))

end

end LlmGateway.Federation.TelemetrySync
