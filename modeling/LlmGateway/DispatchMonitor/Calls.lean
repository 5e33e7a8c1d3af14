import LlmGateway.DispatchMonitor.Edits

/-!
# The calls of a record

A record comes to `ensure_canonical_row` at most twice: once for its row, or once for the parent and once for the
child of a park. `calls` lists the calls of a record, each with the fold that it meets.

A relation between folds *covers* the handlers when it is transitive and contains the edits and the rows that are
opened. Where it also contains the calls of a record, it relates the fold before the record to the fold behind it,
and the fold behind each call to the fold behind the record (`next_reaches`).
-/

namespace LlmGateway.DispatchMonitor

open SdkState

/-- A call of `ensure_canonical_row`. -/
structure Call where
  fold : SdkFold
  preferred : String
  ids : List String

namespace Call

/-- The key of the row. -/
def key (c : Call) : String := c.fold.resolve c.preferred

/-- The fold behind the call. -/
def run (c : Call) : SdkFold := c.fold.ensureCanonicalRow c.preferred c.ids

end Call

namespace SdkFold

/-- The call of `_state`. -/
def stateCalls (x : SdkFold) (r : Record) (queued : Bool) : List Call :=
  (r.payloadAltIds queued).1.toList.map fun preferred => ⟨x, preferred, (r.payloadAltIds queued).2⟩

/-- The call of `_row_for_id`. -/
def idCall (x : SdkFold) (r : Record) (id : String) : Call := ⟨x, id, (id :: (r.payloadAltIds false).2).eraseDups⟩

theorem resolveRow_eq (c : Call) (r : Record) :
    c.fold.resolveRow r c.preferred c.ids = (c.run.absorb c.key r, c.key) := rfl

theorem rowForId_eq (x : SdkFold) (r : Record) (id : String) :
    x.rowForId r id = ((x.idCall r id).run.absorb (x.idCall r id).key r, (x.idCall r id).key) := rfl

/-- The calls of `on_park_enter`. -/
def parkCalls (x : SdkFold) (r : Record) : List Call :=
  (r.text? "parent_id").toList.map (x.idCall r) ++ (r.text? "child_id").toList.map ((x.parkParent r).idCall r)

/-- The call of `on_worker_resumed`. -/
def resumeCalls (x : SdkFold) (r : Record) : List Call :=
  match r.text? "dispatch_id" with
  | none => []
  | some id =>
    match x.liveParent (r.text? "resume_of") with
    | some parent => [⟨x, parent, [id]⟩]
    | none => x.stateCalls r false

/-- The calls of a record. -/
def calls (x : SdkFold) (r : Record) : List Call :=
  match r.signal with
  | .workerQueued => x.stateCalls r true
  | .leaseParkEnter => x.parkCalls r
  | .workerResumed => x.resumeCalls r
  | .implementSourceRefUnresolved => (r.text? "dispatch_id").toList.map (x.idCall r)
  | .generateRequested | .leaseParkRestore | .admitDuplicateRefused | .reviewChildSpawned | .laneSelected
  | .laneBMinted | .systemStarted | .teamDispatchDispatched | .other _ => []
  | _ => x.stateCalls r false

/-! ## Covering relations -/

/-- A transitive relation that contains the edits and the rows that are opened. -/
structure Covers (R : SdkFold → SdkFold → Prop) : Prop where
  trans : ∀ {x y z}, R x y → R y z → R x z
  edits : ∀ {x y}, Edits none x y → R x y
  opens : ∀ x id, R x (x.ensureRow id).1

/-- The relation holds of the calls. -/
def Runs (R : SdkFold → SdkFold → Prop) (calls : List Call) : Prop := ∀ c ∈ calls, R c.fold c.run

/-- The relation leads from a fold to its calls, and from what they leave to another fold. -/
structure Reaches (R : SdkFold → SdkFold → Prop) (x : SdkFold) (calls : List Call) (y : SdkFold) : Prop where
  fold : R x y
  before : ∀ c ∈ calls, R x c.fold
  run : ∀ c ∈ calls, R c.run y

variable {R : SdkFold → SdkFold → Prop} {x : SdkFold} {r : Record}

namespace Covers

theorem refl (hR : Covers R) (x : SdkFold) : R x x := hR.edits (.refl none x)

theorem nil {y : SdkFold} (h : R x y) : Reaches R x [] y :=
  ⟨h, fun _ hc => (by cases hc), fun _ hc => (by cases hc)⟩

theorem single (hR : Covers R) {c : Call} {y : SdkFold} (hc : Runs R [c]) (h : Edits none c.run y) :
    Reaches R c.fold [c] y := by
  refine ⟨hR.trans (hc c (List.mem_singleton_self c)) (hR.edits h), fun c' hmem => ?_, fun c' hmem => ?_⟩
  · rw [List.mem_singleton.1 hmem]
    exact hR.refl c.fold
  · rw [List.mem_singleton.1 hmem]
    exact hR.edits h

theorem withRow (hR : Covers R) {queued : Bool} {f : SdkFold → String → Outcome}
    (h : Runs R (x.stateCalls r queued)) (hf : ∀ y key, Edits none y (f y key).1) :
    Reaches R x (x.stateCalls r queued) (x.withRow r queued f).1 := by
  unfold SdkFold.withRow stateOf stateCalls
  unfold stateCalls at h
  cases hp : (r.payloadAltIds queued).1 with
  | none => exact nil (hR.refl x)
  | some preferred =>
    rw [hp] at h
    rw [Option.map_some]
    dsimp only
    rw [resolveRow_eq ⟨x, preferred, (r.payloadAltIds queued).2⟩ r]
    dsimp only
    exact hR.single h ((edits_absorb _ _ r).trans (hf _ _))

end Covers

namespace Reaches

theorem edits (hR : Covers R) {calls : List Call} {y z : SdkFold} (h : Reaches R x calls y) (he : Edits none y z) :
    Reaches R x calls z :=
  ⟨hR.trans h.fold (hR.edits he), h.before, fun c hc => hR.trans (h.run c hc) (hR.edits he)⟩

theorem append (hR : Covers R) {calls calls' : List Call} {y z : SdkFold} (h : Reaches R x calls y)
    (h' : Reaches R y calls' z) : Reaches R x (calls ++ calls') z := by
  refine ⟨hR.trans h.fold h'.fold, fun c hc => ?_, fun c hc => ?_⟩
  · exact (List.mem_append.1 hc).elim (h.before c) fun hc => hR.trans h.fold (h'.before c hc)
  · exact (List.mem_append.1 hc).elim (fun hc => hR.trans (h.run c hc) h'.fold) (h'.run c)

end Reaches

/-! ## The handlers of rows -/

section Handlers

variable (hR : Covers R)

include hR

theorem reaches_onStarted (h : Runs R (x.stateCalls r false)) :
    Reaches R x (x.stateCalls r false) (x.onStarted r).1 :=
  hR.withRow h fun _ key =>
    .update (steady_run.comp ((steady_advance r.ts).comp (steady_startEarlier r.ts))) key

theorem reaches_onProgress (h : Runs R (x.stateCalls r false)) :
    Reaches R x (x.stateCalls r false) (x.onProgress r).1 := by
  refine hR.withRow h fun y key => ?_
  have hrun : Edits none y (y.update key fun row => (row.advance r.ts).run) :=
    .update (steady_run.comp (steady_advance r.ts)) key
  have hstage : Steady fun row =>
      if row.isLive then row.put? .stallStage (r.firstStr ["stall_stage", "phase"]) else row :=
    .ite (steady_put? _ _) .id
  exact hrun.trans (.reading (fun count => .update (hstage.comp (steady_absorbToolCallCount count)) key) _)

theorem reaches_onToolcall (h : Runs R (x.stateCalls r false)) :
    Reaches R x (x.stateCalls r false) (x.onToolcall r).1 := by
  refine hR.withRow h fun y key => .update (.ite ?_ .id) key
  exact steady_runFresh.comp ((steady_advance r.ts).comp ((steady_noteToolCallId _).comp
    ((steady_put? _ _).comp (steady_put? _ _))))

theorem reaches_onQueued (h : Runs R (x.stateCalls r true)) :
    Reaches R x (x.stateCalls r true) (x.onQueued r).1 := by
  refine hR.withRow h fun y key => ?_
  dsimp only
  split
  · exact .refl _ y
  · rename_i hlive
    rw [Bool.or_eq_true, not_or, Bool.not_eq_true', Bool.not_eq_false] at hlive
    have hqueue : Edits none y (y.update key fun row => { row with state := "queued" }) :=
      edits_update_live hlive.2 fun _ hb => hb
    refine hqueue.trans (.reading (fun position => .update ?_ key) _)
    have hposition : Steady fun row => { row with queuePosition := position.orElse fun _ => row.queuePosition } :=
      .of_eq fun _ => ⟨rfl, rfl⟩
    exact (steady_advance r.ts).comp ((steady_fill _ _).comp ((steady_put? _ _).comp hposition))

theorem reaches_onDeliveryFailed (h : Runs R (x.stateCalls r false)) :
    Reaches R x (x.stateCalls r false) (x.onDeliveryFailed r).1 := by
  refine hR.withRow h fun y key => .update (.of_live (fun row hdead => if_neg (by simp [hdead])) fun row hb => ?_) key
  split
  · dsimp only
    refine (steady_advance r.ts).blank _ ?_
    split <;> exact hb
  · exact hb

theorem reaches_onCloseoutRelocated (h : Runs R (x.stateCalls r false)) :
    Reaches R x (x.stateCalls r false) (x.onCloseoutRelocated r).1 :=
  hR.withRow h fun _ key => .update (steady_put? _ _) key

theorem reaches_onCloseoutReconciled (h : Runs R (x.stateCalls r false)) :
    Reaches R x (x.stateCalls r false) (x.onCloseoutReconciled r).1 :=
  hR.withRow h fun _ key => .update (steady_fill _ _) key

theorem reaches_onPartialWorkSpecimen (h : Runs R (x.stateCalls r false)) :
    Reaches R x (x.stateCalls r false) (x.onPartialWorkSpecimen r).1 :=
  hR.withRow h fun _ key => .update (steady_advance r.ts) key

/-! ### Terminals -/

omit hR in
theorem isLive_fail (row : SdkState) (reason : Option String) : (row.fail reason).isLive = row.isLive := by
  cases reason <;> rfl

omit hR in
theorem get?_update_self {f : SdkState → SdkState} {row : SdkState}
    (h : (x.update key f).dispatches.get? key = some row) : ∃ row', row = f row' := by
  rw [get?_update, if_pos rfl] at h
  obtain ⟨row', -, rfl⟩ := Option.map_eq_some_iff.1 h
  exact ⟨row', rfl⟩

omit hR in
theorem edits_acceptFirstTerminal {key : String} (hlive : (x.row key).isLive = true) (r : Record)
    (emitter state : String) (promptTokens completionTokens : Option ℤ) (failureReason : Option String) :
    Edits none x (x.acceptFirstTerminal key r emitter state promptTokens completionTokens failureReason).1 := by
  have hskip : Edits (some key) x
      (x.acceptFirstTerminal key r emitter state promptTokens completionTokens failureReason).1 := by
    unfold acceptFirstTerminal
    refine .trans (.update_skip fun row _ _ => blank_of_not_live rfl) (.reading (fun cached => ?_) _)
    refine .trans (.update_skip fun row hrow _ => blank_of_not_live ?_) (.reading (fun count => ?_) _)
    · obtain ⟨row', rfl⟩ := get?_update_self hrow
      refine ((steady_put? .stallStage _).frozen _ ?_).isLive.trans ?_ <;> exact isLive_fail _ failureReason
    · exact .trans (.update (steady_absorbToolCallCount count) key) ((edits_closeTerminalRow _ _ _ _ _).skipped _)
  refine hskip.of_live fun row hrow => ?_
  rw [SdkFold.row, Dict.getD, hrow] at hlive
  exact hlive

theorem reaches_onTerminal (h : Runs R (x.stateCalls r false)) :
    Reaches R x (x.stateCalls r false) (x.onTerminal r).1 := by
  refine hR.withRow h fun y key => .reading (fun promptTokens => .reading (fun completionTokens => ?_) _) _
  dsimp only
  split
  · rename_i hlive
    exact edits_acceptFirstTerminal hlive r _ _ _ _ _
  · exact .update (steady_compare _ _ _ _) key

theorem reaches_bindLifecycleTerminal (state : String) (failureReason : Option String)
    (h : Runs R (x.stateCalls r false)) :
    Reaches R x (x.stateCalls r false) (x.bindLifecycleTerminal r state failureReason).1 := by
  refine hR.withRow h fun y key => ?_
  dsimp only
  split
  · exact .refl _ y
  · rename_i hlive
    rw [Bool.not_eq_true', Bool.not_eq_false] at hlive
    refine .trans (edits_update_live hlive fun row _ => blank_of_not_live ?_) (edits_closeTerminalRow _ _ _ _ _)
    exact (frozen_fill _ .model _).isLive.trans (isLive_fail _ _)

/-! ## The handlers of other records -/

theorem reaches_onGenerateRequested : Reaches R x [] (x.onGenerateRequested r).1 := by
  refine Covers.nil (hR.edits ?_)
  unfold onGenerateRequested
  split
  · exact .refl _ x
  · extract_lets y
    exact .trans (y := y) (.of_dispatches rfl rfl) (.mapVal (steady_applyPendingModel y))

omit hR in
theorem edits_holdLease (x : SdkFold) (r : Record) : Edits none x (x.holdLease r) := by
  unfold holdLease
  split
  · exact .refl _ x
  · exact .of_dispatches rfl rfl

theorem reaches_onLeaseAcquired (h : Runs R (x.stateCalls r false)) :
    Reaches R x (x.stateCalls r false) (x.onLeaseAcquired r).1 := by
  refine hR.withRow h fun y key => .trans (.update ?_ key) (edits_holdLease _ r)
  exact (steady_advance r.ts).comp ((steady_fill _ _).comp (steady_runFresh.comp (steady_start r.ts)))

theorem reaches_onLeasePromoted (h : Runs R (x.stateCalls r false)) :
    Reaches R x (x.stateCalls r false) (x.onLeasePromoted r).1 := by
  refine hR.withRow h fun y key => ?_
  split
  · exact .refl _ y
  · rename_i hlive
    rw [Bool.not_eq_true', Bool.not_eq_false] at hlive
    refine .trans (edits_update_live hlive fun row hb => ?_) (edits_holdLease _ r)
    exact (steady_advance r.ts).blank _ hb

theorem reaches_onLeaseReleased (h : Runs R (x.stateCalls r false)) :
    Reaches R x (x.stateCalls r false) (x.onLeaseReleased r).1 := by
  refine hR.withRow h fun y key => ?_
  have hmark : Steady fun row =>
      if row.isLive && row.state != "parked_waiting" then { row with leaseReleasedWithoutTerminal := true }
      else row :=
    .ite (.of_eq fun _ => ⟨rfl, rfl⟩) .id
  have hrow : Edits none y (y.update key fun row =>
      let row := row.fill .sourceRepo (r.text? "source_repo")
      if row.isLive && row.state != "parked_waiting" then { row with leaseReleasedWithoutTerminal := true }
      else row) :=
    .update (hmark.comp (steady_fill _ _)) key
  refine hrow.trans ?_
  split
  · exact .refl _ _
  · unfold clearWriteLeaseIfCurrent done
    dsimp only
    split
    · exact .refl _ _
    · split
      · exact .of_dispatches rfl rfl
      · exact .refl _ _

/-! ### Named rows -/

theorem reaches_rowForId {id : String} (h : Runs R [x.idCall r id]) {f : SdkState → SdkState} (hf : Steady f) :
    Reaches R x [x.idCall r id] ((x.rowForId r id).1.update (x.rowForId r id).2 f) := by
  rw [rowForId_eq]
  dsimp only
  exact hR.single h ((edits_absorb _ _ r).trans (.update hf _))

theorem reaches_onImplementSourceRefUnresolved (h : Runs R ((r.text? "dispatch_id").toList.map (x.idCall r))) :
    Reaches R x ((r.text? "dispatch_id").toList.map (x.idCall r)) (x.onImplementSourceRefUnresolved r).1 := by
  unfold onImplementSourceRefUnresolved
  cases hid : r.text? "dispatch_id" with
  | none => exact Covers.nil (hR.refl x)
  | some id =>
    rw [hid] at h
    have hmark : Steady fun row => { row with implementGateBypass := true } := .of_eq fun _ => ⟨rfl, rfl⟩
    unfold done
    dsimp only
    exact reaches_rowForId hR h ((steady_advance r.ts).comp ((steady_fill _ _).comp ((steady_fill _ _).comp hmark)))

theorem reaches_parkParent (h : Runs R ((r.text? "parent_id").toList.map (x.idCall r))) :
    Reaches R x ((r.text? "parent_id").toList.map (x.idCall r)) (x.parkParent r) := by
  unfold parkParent
  cases hid : r.text? "parent_id" with
  | none => exact Covers.nil (hR.refl x)
  | some id =>
    rw [hid] at h
    exact reaches_rowForId hR h steady_park

theorem reaches_parkChild (h : Runs R ((r.text? "child_id").toList.map (x.idCall r))) :
    Reaches R x ((r.text? "child_id").toList.map (x.idCall r)) (x.parkChild r) := by
  unfold parkChild
  cases hid : r.text? "child_id" with
  | none => exact Covers.nil (hR.refl x)
  | some id =>
    rw [hid] at h
    refine reaches_rowForId hR h (.of_live (fun row hdead => if_neg (by simp [hdead])) fun row hb => ?_)
    split
    · exact (steady_advance r.ts).blank _ hb
    · exact hb

theorem reaches_onParkEnter (h : Runs R (x.parkCalls r)) : Reaches R x (x.parkCalls r) (x.onParkEnter r).1 := by
  have hparent : Runs R ((r.text? "parent_id").toList.map (x.idCall r)) :=
    fun c hc => h c (List.mem_append_left _ hc)
  have hchild : Runs R ((r.text? "child_id").toList.map ((x.parkParent r).idCall r)) :=
    fun c hc => h c (List.mem_append_right _ hc)
  refine (Reaches.append hR (reaches_parkParent hR hparent) (reaches_parkChild hR hchild)).edits hR ?_
  unfold onParkEnter
  dsimp only
  split
  · unfold noteLeasePark done
    dsimp only
    split
    · exact .of_dispatches rfl rfl
    · exact .of_dispatches rfl rfl
  · exact .refl _ _

theorem reaches_onParkRestore : Reaches R x [] (x.onParkRestore r).1 := by
  refine Covers.nil (hR.edits ?_)
  unfold onParkRestore
  split
  · exact .refl _ x
  · dsimp only
    split
    · exact .refl _ x
    · rename_i id _ _ row hrow
      split
      · exact .refl _ x
      · rename_i hlive
        rw [Bool.not_eq_true', Bool.not_eq_false] at hlive
        have hrestore : Edits none x (x.update (x.resolve id) fun row => row.restore r.ts) := by
          refine edits_update_live ?_ fun _ hb => hb
          rw [SdkFold.row, Dict.getD, hrow]
          exact hlive
        exact hrestore.trans (.of_dispatches rfl rfl)

omit hR in
theorem edits_markResumedProgress (x : SdkFold) (key : String) (r : Record) :
    Edits none x (x.markResumedProgress key r) := by
  have hstart : Edits none x (x.update key fun row => (row.start r.ts).runFresh) :=
    .update (steady_runFresh.comp (steady_start r.ts)) key
  have hclear : Steady fun row =>
      if row.stamps .resumeOf = some row.dispatchId then
        { row with stamps := Function.update row.stamps .resumeOf none }
      else row :=
    .ite (.of_eq fun _ => ⟨rfl, rfl⟩) .id
  exact (hstart.trans (edits_absorbIdentity _ key r)).trans (.update ((steady_advance r.ts).comp hclear) key)

theorem reaches_onWorkerResumed (h : Runs R (x.resumeCalls r)) :
    Reaches R x (x.resumeCalls r) (x.onWorkerResumed r).1 := by
  unfold onWorkerResumed resumeCalls
  unfold resumeCalls at h
  cases hid : r.text? "dispatch_id" with
  | none => exact Covers.nil (hR.refl x)
  | some id =>
    rw [hid] at h
    dsimp only at h ⊢
    cases hp : x.liveParent (r.text? "resume_of") with
    | some parent =>
      rw [hp] at h
      unfold done
      dsimp only
      exact hR.single h (edits_markResumedProgress _ _ r)
    | none =>
      rw [hp] at h
      refine hR.withRow h fun y key => ?_
      unfold done
      dsimp only
      exact .trans (.update (steady_fill _ _) key) (edits_markResumedProgress _ _ r)

/-! ### Records without calls -/

theorem reaches_onDuplicateRefused : Reaches R x [] (x.onDuplicateRefused r).1 := by
  refine Covers.nil (hR.edits ?_)
  unfold onDuplicateRefused
  split
  · exact .refl _ x
  · exact .of_dispatches rfl rfl

theorem reaches_onReviewChildSpawned : Reaches R x [] (x.onReviewChildSpawned r).1 := by
  have hparent : R x (x.openReviewParent r) := by
    unfold openReviewParent
    split
    · exact hR.refl x
    · exact hR.trans (hR.opens x _) (hR.edits (.update ((steady_start r.ts).comp steady_runFresh) _))
  have hchild : Steady fun row =>
      { row with reviewChild := true, parentExecutionId := r.text? "parent_execution_id" } :=
    .of_eq fun _ => ⟨rfl, rfl⟩
  refine Covers.nil ?_
  unfold onReviewChildSpawned
  split
  · exact hR.refl x
  · exact hR.trans (hR.trans hparent (hR.opens _ _)) (hR.edits (.update hchild _))

theorem reaches_onSystemStarted : Reaches R x [] (x.onSystemStarted r).1 :=
  Covers.nil (hR.edits (.foldl (fun x key => edits_closeStale r.ts x key) _ x))

theorem reaches_onTeamDispatch : Reaches R x [] (x.onTeamDispatch r).1 := by
  refine Covers.nil (hR.edits ?_)
  unfold onTeamDispatch
  split
  · split
    · exact .of_dispatches rfl rfl
    · refine .update (.ite .id ?_) _
      exact (steady_fill _ _).comp ((steady_fill _ _).comp ((steady_fill _ _).comp (steady_fill _ _)))
  · exact .refl _ x

theorem reaches_onLaneSelected : Reaches R x [] (x.onLaneSelected r).1 := by
  refine Covers.nil (hR.edits ?_)
  unfold onLaneSelected
  split
  · split
    · exact .of_dispatches rfl rfl
    · exact .update (steady_fill _ _) _
  · exact .refl _ x

theorem reaches_onLaneBMinted : Reaches R x [] (x.onLaneBMinted r).1 := by
  refine Covers.nil (hR.edits ?_)
  unfold onLaneBMinted
  split
  · split
    · exact .of_dispatches rfl rfl
    · exact .update (steady_fill _ _) _
  · exact .refl _ x

end Handlers

/-! ## A record -/

/-- **One record.** A covering relation that holds of the calls of a record leads from the fold, and from what the
calls leave, to the fold behind the record. -/
theorem next_reaches (hR : Covers R) (others : CorrelationIndex → Record → CorrelationIndex)
    (h : Runs R (x.calls r)) : Reaches R x (x.calls r) (next others x r) := by
  unfold next apply calls
  unfold calls at h
  cases hs : r.signal <;> rw [hs] at h
  case metaSdkStarted => exact reaches_onStarted hR h
  case pipelineStarted => exact reaches_onStarted hR h
  case workerDispatched => exact reaches_onStarted hR h
  case workerProgress => exact reaches_onProgress hR h
  case workerToolcall => exact reaches_onToolcall hR h
  case workerCompleted => exact reaches_onTerminal hR h
  case workerFailed => exact reaches_onTerminal hR h
  case pipelineCompleted => exact reaches_onTerminal hR h
  case pipelineFailed => exact reaches_onTerminal hR h
  case workerQueued => exact reaches_onQueued hR h
  case generateRequested => exact reaches_onGenerateRequested hR
  case workerTimeout => exact reaches_bindLifecycleTerminal hR _ _ h
  case workerOrphaned => exact reaches_bindLifecycleTerminal hR _ _ h
  case workerCancelled => exact reaches_bindLifecycleTerminal hR _ _ h
  case workerDeliveryFailed => exact reaches_onDeliveryFailed hR h
  case leaseAcquired => exact reaches_onLeaseAcquired hR h
  case leasePromoted => exact reaches_onLeasePromoted hR h
  case leaseReleased => exact reaches_onLeaseReleased hR h
  case leaseParkEnter => exact reaches_onParkEnter hR h
  case leaseParkRestore => exact reaches_onParkRestore hR
  case closeoutRelocated => exact reaches_onCloseoutRelocated hR h
  case closeoutReconciled => exact reaches_onCloseoutReconciled hR h
  case partialWorkSpecimen => exact reaches_onPartialWorkSpecimen hR h
  case workerResumed => exact reaches_onWorkerResumed hR h
  case admitDuplicateRefused => exact reaches_onDuplicateRefused hR
  case reviewChildSpawned => exact reaches_onReviewChildSpawned hR
  case implementSourceRefUnresolved => exact reaches_onImplementSourceRefUnresolved hR h
  case laneSelected => exact reaches_onLaneSelected hR
  case laneBMinted => exact reaches_onLaneBMinted hR
  case systemStarted => exact reaches_onSystemStarted hR
  case teamDispatchDispatched => exact reaches_onTeamDispatch hR
  case other name => exact Covers.nil (hR.edits (.of_dispatches rfl rfl))

end SdkFold

end LlmGateway.DispatchMonitor
