import Mathlib.Data.List.ReduceOption
import LlmGateway.Foundations.Windows
import LlmGateway.WakeLedger.Change

/-!
# The scan cursor is a compare-and-set chain

The dispatchers of one consumer as parties beside the store. A pass of `scan_once` is three requests, with
anything in between: read the cursor, list the turns after it, and advance the cursor from what was read
to the last of these turns. The advance compares the cursor with what was read; when another dispatcher
was faster it raises and nothing is written.

`advances_chain`: over every interleaving, the successful advances form a single chain, so no turn is in
the windows of two of them and no turn between the first and the last cursor is in none.
-/

namespace LlmGateway.WakeLedger

/-! ## What a transaction does to the cursors -/

section

variable {s t : Store} {stamp : ℤ} {consumer : String} {expected new : ℤ} {pending : List Item}

theorem advanceScan_cursor (h : advanceScan s stamp consumer expected new pending = .ok t) :
    s.cursors.get? consumer = some expected ∧ t.cursors = s.cursors.set consumer new := by
  obtain ⟨hcur, ledger, -, rfl⟩ := advanceScan_inv h
  exact ⟨hcur, rfl⟩

end

theorem getCursor_cursor (s : Store) (consumer : String) {who : String} {high : ℤ}
    (h : s.cursors.get? who = some high) : (getCursor s consumer).cursors.get? who = some high := by
  change (s.cursors.setDefault consumer _).get? who = _
  unfold Dict.setDefault
  split
  · exact h
  · rename_i habs
    rw [Dict.get?_set]
    split
    · rename_i heq
      subst heq
      exact absurd (Dict.contains_iff.2 ⟨high, h⟩) habs
    · exact h

theorem acquireDirectClaim_cursors {stamp : ℤ} {wakeId agent threadId : String}
    {turns : List (ℕ × ℤ)} {s t : Store}
    (h : acquireDirectClaim s stamp wakeId agent threadId turns = .ok t) : t.cursors = s.cursors := by
  induction turns generalizing s with
  | nil =>
    cases h
    rfl
  | cons turn turns ih =>
    obtain ⟨turnId, turnNumber⟩ := turn
    obtain rfl | ⟨ledger, p, -, -, rfl | hrest⟩ := acquireDirectClaim_cons h
    · rfl
    · rfl
    · have hcursors := ih hrest
      exact hcursors

theorem claimDueWakes_cursors (R : Registry) (c : ClaimCall) (s : Store) :
    (claimDueWakes R c s).1.cursors = s.cursors := by
  obtain ⟨s₁, hs₁, ⟨h, -⟩ | ⟨g, -, h⟩⟩ := claimDueWakes_cases R c s
  · rw [h]
    exact hs₁.cursors
  · rw [h]
    exact hs₁.cursors

theorem commit_cursors {s : Store} {x : Except WakeError Store}
    (h : ∀ t, x = .ok t → t.cursors = s.cursors) : (commit s x).cursors = s.cursors := by
  cases x with
  | ok t => exact h t rfl
  | error e => rfl

/-- Whether the transaction is an advance of the scan of `who`. -/
def Action.advances (who : String) : Action → Bool
  | .advanceScan _ consumer _ _ _ => consumer == who
  | _ => false

theorem step_cursor {R : Registry} {s : Store} {a : Action} {who : String} (ha : a.advances who = false)
    {high : ℤ} (h : s.cursors.get? who = some high) :
    (step R s a).cursors.get? who = some high := by
  cases a with
  | getCursor consumer => exact getCursor_cursor s consumer h
  | advanceScan stamp consumer expected new pending =>
    rw [step]
    cases hadv : advanceScan s stamp consumer expected new pending with
    | error e => exact h
    | ok t =>
      have hne : who ≠ consumer := by
        rintro rfl
        simp [Action.advances] at ha
      rw [commit, (advanceScan_cursor hadv).2, Dict.get?_set_ne _ hne]
      exact h
  | claimDueWakes c =>
    rw [step, claimDueWakes_cursors]
    exact h
  | recordOrionDeferredStreaming stamp wakeId d =>
    rw [step, commit_cursors]
    · exact h
    · intro t ht
      unfold recordOrionDeferredStreaming at ht
      grind
  | recordWakeResult stamp wakeId outcome reason d rule =>
    rw [step, commit_cursors]
    · exact h
    · intro t ht
      unfold recordWakeResult at ht
      grind
  | suppressEndpointWakeForTurn stamp agent threadId turnNumber reason =>
    rw [step, commit_cursors]
    · exact h
    · intro t ht
      simp only [suppressEndpointWakeForTurn, pure, Except.pure, bind, Except.bind] at ht
      grind
  | skipPendingWakesOnPairMarkRead stamp threadId seat turnIds =>
    rw [step]
    unfold skipPendingWakesOnPairMarkRead
    split <;> exact h
  | notifyComposerEmptyForTarget surface agentId threadScope =>
    rw [step]
    unfold notifyComposerEmptyForTarget
    dsimp only
    split <;> exact h
  | acquireDirectClaim stamp wakeId agent threadId turns =>
    rw [step, commit_cursors fun t ht => acquireDirectClaim_cursors ht]
    exact h
  | _ => exact h

/-! ## Dispatchers -/

/-- Where a dispatcher is in a pass of `scan_once`. -/
inductive Pass where
  /-- It has read the cursor. -/
  | atCursor (high : ℤ)
  /-- It has listed the turns after the cursor; the last one is `new`. -/
  | listed (high new : ℤ)

/-- The store and the dispatchers that are in a pass. -/
structure Dispatch where
  store : Store
  passes : Dict ℕ Pass

inductive DispatchAction where
  | readCursor (d : ℕ)
  | listTurns (d limit : ℕ)
  | advance (d : ℕ) (stamp : ℤ) (pending : List Item)
  | leave (d : ℕ)
  | transaction (a : Action)

/-- `list_turns_since`, the keys. -/
def listTurnsSince (s : Store) (afterId : ℤ) (limit : ℕ) : List ℕ :=
  (((s.turns.select fun id _ => afterId < (id : ℤ)).map Prod.fst).insertionSort (· ≤ ·)).take limit

section

variable (R : Registry) (consumer : String)

/-- A step of the dispatchers of `consumer`, or a transaction of someone else. A dispatcher leaves its pass
when there is no new turn, when it is idle or when a request fails. -/
def dispatchStep (w : Dispatch) : DispatchAction → Option Dispatch
  | .readCursor d =>
    let store := getCursor w.store consumer
    (store.cursors.get? consumer).map fun high => ⟨store, w.passes.set d (.atCursor high)⟩
  | .listTurns d limit =>
    match w.passes.get? d with
    | some (.atCursor high) =>
      match (listTurnsSince w.store high limit).getLast? with
      | none => some ⟨w.store, w.passes.erase d⟩
      | some new => some ⟨w.store, w.passes.set d (.listed high new)⟩
    | _ => none
  | .advance d stamp pending =>
    match w.passes.get? d with
    | some (.listed high new) =>
      some ⟨commit w.store (advanceScan w.store stamp consumer high new pending), w.passes.erase d⟩
    | _ => none
  | .leave d => some ⟨w.store, w.passes.erase d⟩
  | .transaction a => if a.advances consumer then none else some ⟨step R w.store a, w.passes⟩

/-- The window of a successful advance. -/
def advanced (w : Dispatch) : DispatchAction → Option (ℤ × ℤ)
  | .advance d stamp pending =>
    match w.passes.get? d with
    | some (.listed high new) =>
      match advanceScan w.store stamp consumer high new pending with
      | .ok _ => some (high, new)
      | .error _ => none
    | _ => none
  | _ => none

/-- Dispatchers on an arbitrary store, none of them in a pass yet. -/
def dispatchers : System Dispatch DispatchAction :=
  .ofFn (fun w => w.passes = ∅) (dispatchStep R consumer)

/-- The windows of the successful advances of a run, in order. -/
def windows (w : Dispatch) (as : List DispatchAction) : List (ℤ × ℤ) :=
  (System.outputs (dispatchStep R consumer) (advanced consumer) w as).reduceOption

end

/-! ## The chain -/

theorem lt_of_listTurnsSince {s : Store} {afterId : ℤ} {limit new : ℕ}
    (h : (listTurnsSince s afterId limit).getLast? = some new) : afterId < new := by
  have hmem := List.mem_of_mem_take (List.mem_of_getLast? h)
  rw [List.mem_insertionSort, List.mem_map] at hmem
  obtain ⟨e, he, rfl⟩ := hmem
  simpa using (Table.mem_select.1 he).2

/-- What holds of the dispatchers and of the advances so far. -/
structure ScanInv (consumer : String) (w : Dispatch) (l : List (ℤ × ℤ)) : Prop where
  /-- A dispatcher is about to move the cursor forwards. -/
  forward : ∀ d high new, w.passes.get? d = some (.listed high new) → high < new
  chained : Windows.Chained l
  le : ∀ v ∈ l, v.1 ≤ v.2
  /-- The cursor stands where the last advance left it. -/
  cursor : ∀ v ∈ l.getLast?, w.store.cursors.get? consumer = some v.2

namespace ScanInv

variable {R : Registry} {consumer : String} {w : Dispatch} {l : List (ℤ × ℤ)}

theorem erase (h : ScanInv consumer w l) (d : ℕ) :
    ScanInv consumer ⟨w.store, w.passes.erase d⟩ l := by
  refine ⟨fun d' high new hd' => ?_, h.chained, h.le, h.cursor⟩
  rw [Dict.get?_erase] at hd'
  split at hd'
  · cases hd'
  · exact h.forward d' high new hd'

theorem set (h : ScanInv consumer w l) (d : ℕ) {pass : Pass}
    (hpass : ∀ high new, pass = .listed high new → high < new) :
    ScanInv consumer ⟨w.store, w.passes.set d pass⟩ l := by
  refine ⟨fun d' high new hd' => ?_, h.chained, h.le, h.cursor⟩
  rw [Dict.get?_set] at hd'
  split at hd'
  · exact hpass high new (Option.some.inj hd')
  · exact h.forward d' high new hd'

theorem store (h : ScanInv consumer w l) {s : Store}
    (hs : ∀ high, w.store.cursors.get? consumer = some high → s.cursors.get? consumer = some high) :
    ScanInv consumer ⟨s, w.passes⟩ l :=
  ⟨h.forward, h.chained, h.le, fun v hv => hs v.2 (h.cursor v hv)⟩

theorem advance (h : ScanInv consumer w l) {d : ℕ} {high new stamp : ℤ} {pending : List Item} {t : Store}
    (hd : w.passes.get? d = some (.listed high new))
    (ht : advanceScan w.store stamp consumer high new pending = .ok t) :
    ScanInv consumer ⟨t, w.passes.erase d⟩ (l ++ [(high, new)]) := by
  obtain ⟨hcur, hset⟩ := advanceScan_cursor ht
  have herase := h.erase d
  refine ⟨herase.forward, h.chained.concat fun v hv => ?_, fun v hv => ?_, fun v hv => ?_⟩
  · have := h.cursor v hv
    rw [hcur] at this
    exact Option.some.inj this
  · rw [List.mem_append, List.mem_singleton] at hv
    obtain hv | rfl := hv
    · exact h.le v hv
    · exact (h.forward d high new hd).le
  · obtain rfl : (high, new) = v := by simpa using hv
    change t.cursors.get? consumer = some new
    rw [hset, Dict.get?_set_self]

theorem dispatchStep {a : DispatchAction} {w' : Dispatch} (h : ScanInv consumer w l)
    (hstep : dispatchStep R consumer w a = some w') :
    ScanInv consumer w' (l ++ (advanced consumer w a).toList) := by
  cases a with
  | readCursor d =>
    obtain ⟨high, -, rfl⟩ := Option.map_eq_some_iff.1 hstep
    simp only [advanced, Option.toList_none, List.append_nil]
    have hread : ScanInv consumer ⟨getCursor w.store consumer, w.passes⟩ l :=
      h.store fun _ hc => getCursor_cursor _ _ hc
    exact hread.set d fun _ _ hp => by cases hp
  | listTurns d limit =>
    simp only [advanced, Option.toList_none, List.append_nil]
    simp only [WakeLedger.dispatchStep] at hstep
    split at hstep
    · split at hstep
      · cases hstep
        exact h.erase d
      · rename_i hlast
        cases hstep
        refine h.set d fun high new hp => ?_
        cases hp
        exact lt_of_listTurnsSince hlast
    · cases hstep
  | advance d stamp pending =>
    simp only [WakeLedger.dispatchStep] at hstep
    split at hstep
    · rename_i high new hd
      cases hstep
      simp only [advanced, hd]
      cases ht : advanceScan w.store stamp consumer high new pending with
      | ok t => exact h.advance hd ht
      | error e => simpa [commit] using h.erase d
    · cases hstep
  | leave d =>
    cases hstep
    simp only [advanced, Option.toList_none, List.append_nil]
    exact h.erase d
  | transaction a =>
    simp only [advanced, Option.toList_none, List.append_nil]
    simp only [WakeLedger.dispatchStep] at hstep
    split at hstep
    · cases hstep
    · rename_i ha
      cases hstep
      exact h.store fun _ hc => step_cursor (by simpa using ha) hc

end ScanInv

/-- What holds at the end of every run of the dispatchers. -/
theorem scanInv_of_run {R : Registry} {consumer : String} {w w' : Dispatch} {as : List DispatchAction}
    (h : (dispatchers R consumer).Run w as w') (hw : (dispatchers R consumer).init w) :
    ScanInv consumer w' (windows R consumer w as) := by
  have hrun : ((dispatchers R consumer).restrict fun _ _ => True).Run w as w' := by
    clear hw
    induction h with
    | nil => exact .nil _
    | cons hstep _ ih => exact .cons ⟨trivial, hstep⟩ ih
  have hstart : ScanInv consumer w ([] : List (Option (ℤ × ℤ))).reduceOption := by
    refine ⟨fun d high new hd => ?_, .nil, by simp, by simp⟩
    rw [show w.passes = ∅ from hw] at hd
    simp at hd
  have hend : ScanInv consumer w' ([] ++ System.outputs (dispatchStep R consumer) (advanced consumer) w
      as).reduceOption := by
    refine hrun.outputs (J := fun w l => ScanInv consumer w l.reduceOption) ?_ hstart
    intro w a w' l hl _ hstep
    have hnext := hl.dispatchStep hstep
    rw [List.reduceOption_append]
    cases hadv : advanced consumer w a with
    | none | some v => simpa [hadv] using hnext
  rwa [List.nil_append] at hend

/-- **The cursor is a compare-and-set chain.** -/
theorem advances_chain {R : Registry} {consumer : String} {w w' : Dispatch} {as : List DispatchAction}
    (h : (dispatchers R consumer).Run w as w') (hw : (dispatchers R consumer).init w) :
    Windows.Chained (windows R consumer w as) ∧
      (windows R consumer w as).Pairwise
        (fun a b => Disjoint (Set.Ioc a.1 a.2) (Set.Ioc b.1 b.2)) ∧
      ∀ a b, (windows R consumer w as).head? = some a → (windows R consumer w as).getLast? = some b →
        ∀ x, a.1 < x → x ≤ b.2 → ∃ v ∈ windows R consumer w as, x ∈ Set.Ioc v.1 v.2 := by
  have hinv := scanInv_of_run h hw
  exact ⟨hinv.chained, hinv.chained.pairwise_disjoint hinv.le,
    fun a b ha hb x hax hxb => hinv.chained.exists_mem ha hb hax hxb⟩

/-- Two dispatchers read the same cursor; the first advances it over two turns, the second is told so, and
advances over the third turn in its next pass. -/
def twoPasses : List DispatchAction :=
  [.readCursor 1, .transaction (.insertTurn (requestTurn "t" 1)),
    .transaction (.insertTurn (requestTurn "t" 2)), .listTurns 1 50, .readCursor 2, .listTurns 2 50,
    .advance 1 990 [⟨"orion", "t", 1, 1, none⟩], .advance 2 991 [⟨"orion", "t", 1, 1, none⟩],
    .readCursor 2, .transaction (.insertTurn (requestTurn "u" 1)), .listTurns 2 50,
    .advance 2 992 [⟨"orion", "u", 3, 1, none⟩]]

theorem twoPasses_chain :
    windows Registry.plain "endpoint-wake-dispatcher" ⟨.empty, ∅⟩ twoPasses = [(0, 2), (2, 3)] ∧
      Windows.Chained (windows Registry.plain "endpoint-wake-dispatcher" ⟨.empty, ∅⟩ twoPasses) := by
  have hsome : (System.exec (dispatchStep Registry.plain "endpoint-wake-dispatcher") ⟨.empty, ∅⟩
      twoPasses).isSome = true := by decide
  obtain ⟨w, hw⟩ := Option.isSome_iff_exists.1 hsome
  exact ⟨by decide, (advances_chain (System.run_of_exec hw) rfl).1⟩

end LlmGateway.WakeLedger
