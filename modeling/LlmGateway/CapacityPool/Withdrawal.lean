import LlmGateway.CapacityPool.Fifo

/-!
# The withdrawal of a waiter

A call that times out or is cancelled while queued takes its waiter out of the queue by its request id:
`_remove_waiter` takes the first waiter it finds with that id, in any queue. With two calls under one
id that waiter may be the other call's. The other call then has no waiter, and the one that has ended
still has one, which a later dispatch admits (`withdrawn_other` is such a run).

`waiters_withdrawn` says when this does not happen: a step in which a call ends takes exactly that
call's waiter out of the queues if and only if the first waiter with its id is its own
(`RemovesOwn`), and where all steps are like that, a call that has ended is never queued again.
-/

namespace LlmGateway.CapacityPool

open State

/-! ## Steps that leave the calls alone -/

/-- The calls stay as they are, and waiters only leave the queues. -/
structure Shrinks (s t : State) : Prop where
  calls : t.calls = s.calls
  nextCall : t.nextCall = s.nextCall
  queue : ∀ m, (t.queue m).Sublist (s.queue m)

theorem Shrinks.refl (s : State) : Shrinks s s := ⟨rfl, rfl, fun _ => .refl _⟩

variable {s t u : State} {c : CallId} {call : Call}

theorem Shrinks.trans (h : Shrinks s t) (h' : Shrinks t u) : Shrinks s u :=
  ⟨h'.calls.trans h.calls, h'.nextCall.trans h.nextCall, fun m => (h'.queue m).trans (h.queue m)⟩

theorem Shrinks.of_eq (hc : t.calls = s.calls) (hn : t.nextCall = s.nextCall)
    (hq : t.queues = s.queues) : Shrinks s t :=
  ⟨hc, hn, fun m => by rw [State.queue, hq]; exact .refl _⟩

theorem Shrinks.of_fields (h : Shrinks u t) (hc : u.calls = s.calls)
    (hn : u.nextCall = s.nextCall) (hq : u.queues = s.queues) : Shrinks s t :=
  (Shrinks.of_eq hc hn hq).trans h

theorem dispatchLoop_sublist (m : ModelId) (ρ : ℕ → Reading) (q : List Waiter) (s : State) :
    ((dispatchLoop m ρ q s).1).Sublist q := by
  refine dispatchLoop_rec (m := m) (motive := fun _ q _ u _ => u.Sublist q) ?_ ?_ ?_ ?_ ρ q s
  · exact fun _ _ => .refl _
  · exact fun _ w _ _ _ _ _ ih => ih.cons w
  · exact fun _ w _ _ _ _ _ _ ih => ih.cons_cons w
  · exact fun _ w _ _ _ _ _ _ _ _ _ ih => ih.cons w

theorem Shrinks.dispatch (s : State) (ρ : ℕ → Reading) (m : ModelId) :
    Shrinks s (s.dispatch ρ m) := by
  obtain ⟨qs, he, hqs⟩ := dispatch_eq m ρ s
  obtain ⟨n, p, rt, l, f, i, hloop⟩ := dispatchLoop_eq m ρ (s.queue m) s
  rw [he, hloop]
  refine ⟨rfl, rfl, fun m' => ?_⟩
  change ((qs.get? m').getD []).Sublist _
  rw [hqs]
  split
  · subst m'
    exact dispatchLoop_sublist m ρ _ s
  · exact .refl _

theorem Shrinks.dispatchAll (ρ : ℕ → ℕ → Reading) (ms : List ModelId) (s : State) :
    Shrinks s (dispatchAll ρ ms s) := by
  induction ms generalizing ρ s with
  | nil => exact .refl s
  | cons m ms ih => exact (Shrinks.dispatch s (ρ 0) m).trans (ih _ _)

theorem Shrinks.removeWaiter (s : State) (rid : RequestId) (outcome : Future) :
    Shrinks s (s.removeWaiter rid outcome).2 := by
  rcases State.removeWaiter_cases s rid outcome with ⟨he, -⟩ | ⟨m, w, qs, -, -, -, he, hqs⟩
  · rw [he]
    exact .refl s
  · rw [he]
    refine ⟨rfl, rfl, fun m' => ?_⟩
    change ((qs.get? m').getD []).Sublist _
    rw [hqs]
    split
    · subst m'
      exact List.eraseP_sublist
    · exact .refl _

theorem Shrinks.foldl_removeSlot (l : List Slot) (s : State) :
    Shrinks s (l.foldl State.removeSlot s) := by
  induction l generalizing s with
  | nil => exact .refl s
  | cons slot l ih =>
    have hslot : Shrinks s (s.removeSlot slot) := by
      unfold State.removeSlot
      split <;> exact .of_eq rfl rfl rfl
    exact hslot.trans (ih _)

/-- The actions of a call: it starts, is asked to end, or resumes. -/
def Action.ofCall : Action → Bool
  | .acquireToken .. | .cancelTask _ | .wake _ | .sliceTimeout _ | .deliverCancel _ => true
  | _ => false

/-- **An action that is not a call's own** leaves the calls alone, and waiters only leave the queues. -/
theorem shrinks_step {a : Action} (ha : a.ofCall = false) (hst : s.step a = some t) :
    Shrinks s t := by
  cases steps_of_step hst with
  | acquireToken | cancelTask | wakeGranted | wakeCancelled | sliceTimeout | deliverCancel => cases ha
  | @release c token ρ _ =>
    unfold State.release poolRelease
    dsimp only
    split
    · exact .refl s
    · obtain ⟨i, k, l, he, -, -⟩ := releaseSlot_eq s
        (s.tokens.set c { token with released := true }) ⟨token.gatewayId, token.modelId⟩
      rw [he]
      exact (Shrinks.dispatch _ ρ token.modelId).of_fields rfl rfl rfl
  | runDispatch m ρ => exact (Shrinks.dispatch _ ρ m).of_fields rfl rfl rfl
  | resourceUpdate ρ => exact .dispatchAll ρ _ s
  | setCapacity gw m n =>
    unfold State.setCapacity
    dsimp only
    split <;> exact .of_eq rfl rfl rfl
  | removeGateway => exact .foldl_removeSlot _ s
  | removeModel gw m _ => exact .foldl_removeSlot [⟨gw, m⟩] s
  | removeNoModel => exact .refl s
  | pauseAdmission m duration =>
    unfold State.pauseAdmission
    split
    · exact .refl s
    · dsimp only
      split <;> exact .of_eq rfl rfl rfl
  | resumeAdmission m =>
    unfold State.resumeAdmission
    split <;> exact .of_eq rfl rfl rfl
  | resumeAfter m ρ _ =>
    unfold State.resumeAfter
    split
    · exact .of_eq rfl rfl rfl
    · split
      · exact .of_eq rfl rfl rfl
      · exact (Shrinks.dispatch (s.clearPause m) ρ m).of_fields rfl rfl rfl
  | isPaused m =>
    obtain ⟨p, q, he⟩ := expirePause_eq s m
    rw [he]
    exact .of_eq rfl rfl rfl
  | cancelRequest rid reason => exact .removeWaiter s rid _
  | reconcile gw ms ρ =>
    obtain ⟨i, he, -⟩ := reconcileLoop_eq gw ms s
    unfold State.reconcileGatewayState
    dsimp only
    rw [he]
    exact (Shrinks.dispatchAll ρ _ _).of_fields rfl rfl rfl
  | resetColdSlot | tick => exact .of_eq rfl rfl rfl

/-! ## Whose waiter is removed -/

/-- The first queued waiter with the request id, if there is one, belongs to the call. -/
def OwnFirst (s : State) (rid : RequestId) (c : CallId) : Prop :=
  ∀ m q w, s.findWaiter rid = some (m, q, w) → w.future = c

/-- The queues without the waiter of the call. -/
def WithdrawnExactly (s t : State) (c : CallId) : Prop :=
  ∀ m, t.queue m = (s.queue m).filter fun w => w.future ≠ c

theorem findWaiter_spec {rid : RequestId} {m : ModelId} {q : List Waiter} {w : Waiter}
    (h : s.findWaiter rid = some (m, q, w)) :
    s.queue m = q ∧ q.find? (fun w => w.requestId = rid) = some w := by
  obtain ⟨⟨m₀, q₀⟩, hmem, he⟩ := List.exists_of_findSome?_eq_some h
  obtain ⟨w₀, hw, he⟩ := Option.map_eq_some_iff.1 he
  obtain ⟨rfl, rfl, rfl⟩ : m₀ = m ∧ q₀ = q ∧ w₀ = w := by simpa using he
  exact ⟨mem_queue_of_mem_items hmem, hw⟩

theorem eraseP_eq_filter_of_find? {q : List Waiter} {p : Waiter → Bool} {w : Waiter}
    (hq : q.Pairwise fun w w' => w.future < w'.future) (h : q.find? p = some w) :
    q.eraseP p = q.filter fun w' => w'.future ≠ w.future := by
  obtain ⟨hp, l₁, l₂, rfl, hl₁⟩ := List.find?_eq_some_iff_append.1 h
  obtain ⟨-, htail, hhead⟩ := List.pairwise_append.1 hq
  have hl₂ := (List.pairwise_cons.1 htail).1
  rw [List.eraseP_append_right _ fun b hb => by simpa using hl₁ b hb,
    List.eraseP_cons_of_pos hp, List.filter_append, List.filter_cons_of_neg (by simp)]
  rw [List.filter_eq_self.2, List.filter_eq_self.2]
  · exact fun b hb => by simpa using (hl₂ b hb).ne'
  · exact fun b hb => by simpa using (hhead b hb w List.mem_cons_self).ne

/-- **`_remove_waiter` for a call** takes exactly the call's waiter out of the queues if and only if the
first waiter with the request id is its own. -/
theorem removeWaiter_exactly_iff (h : WellFormed s) (hc : s.calls.get? c = some call) (outcome : Future) :
    WithdrawnExactly s (s.removeWaiter call.requestId outcome).2 c ↔
      OwnFirst s call.requestId c := by
  cases hf : s.findWaiter call.requestId with
  | none =>
    refine iff_of_true (fun m => ?_) fun m q w hw => by rw [hf] at hw; cases hw
    have he : (s.removeWaiter call.requestId outcome).2 = s := by rw [removeWaiter, hf]
    rw [he, List.filter_eq_self.2]
    intro w hw
    have hno := List.findSome?_eq_none_iff.1 hf _ (mem_items_of_mem_queue hw)
    obtain ⟨call', hc', hr, -⟩ := h.queue_call m w hw
    rw [decide_eq_true_eq]
    rintro rfl
    obtain rfl := Option.some.inj (hc.symm.trans hc')
    simpa [hr] using List.find?_eq_none.1 (Option.map_eq_none_iff.1 hno) w hw
  | some e =>
    obtain ⟨m₀, q, w₀⟩ := e
    obtain ⟨rfl, hfind⟩ := findWaiter_spec hf
    have hw₀ := List.mem_of_find?_eq_some hfind
    have hq (m : ModelId) : (s.removeWaiter call.requestId outcome).2.queue m =
        if m = m₀ then (s.queue m₀).filter (fun w => w.future ≠ w₀.future) else s.queue m := by
      rw [removeWaiter, hf, queue, putQueue_get?,
        eraseP_eq_filter_of_find? (h.queue_sorted m₀) hfind]
      rfl
    constructor
    · intro hexact m q w hw
      rw [hf] at hw
      obtain ⟨rfl, rfl, rfl⟩ : m₀ = m ∧ s.queue m₀ = q ∧ w₀ = w := by simpa using hw
      by_contra hne
      have hmem : w₀ ∈ (s.queue m₀).filter fun w => w.future ≠ c :=
        List.mem_filter.2 ⟨hw₀, by simpa using hne⟩
      rw [← hexact m₀, hq, if_pos rfl] at hmem
      simpa using (List.mem_filter.1 hmem).2
    · intro hown m
      have hfut : w₀.future = c := hown _ _ _ hf
      rw [hq, hfut]
      split
      · rename_i hm
        rw [hm]
      · rename_i hm
        refine (List.filter_eq_self.2 fun w hw => ?_).symm
        rw [decide_eq_true_eq]
        exact fun he => hm (h.queue_unique hw hw₀ (he.trans hfut.symm))

/-! ## How a suspended call resumes -/

/-- The future of the call holds neither a gateway nor an exception. -/
def Unsettled (s : State) (c : CallId) : Prop :=
  (∀ gw, s.futures.get? c ≠ some (.result gw)) ∧ ∀ reason, s.futures.get? c ≠ some (.exception reason)

/-- The wait loop gives up: the deadline has passed, or the future was cancelled. -/
def GivesUp (s : State) (c : CallId) (call : Call) : Prop :=
  call.waitDeadline.any (· ≤ s.now) = true ∨ s.futures.get? c = some .cancelled

/-- The errors of a call that had joined its queue. -/
def AcquireError.ofWait : AcquireError → Bool
  | .queueFull .. => false
  | .timeout .. | .cancelled _ => true

/-- A call that resumes without withdrawing its waiter: it stays suspended, or it ends and no waiter of
it is queued. -/
inductive Resumed (s : State) (c : CallId) (call : Call) : State → Prop
  | rewait (u : Time) (b : Bool) : Resumed s c call (s.setPhase c call (.waiting u b))
  | ended {t : State} (hqueue : ∀ m, t.queue m = s.queue m)
    (hgone : ∀ m, ∀ w ∈ s.queue m, w.future ≠ c)
    (hcalls : ∀ c', c' ≠ c → t.calls.get? c' = s.calls.get? c') : Resumed s c call t

section

variable {s : State} {c : CallId} {call : Call}

theorem WellFormed.not_queued_of_settled (h : WellFormed s) (hs : ¬ Unsettled s c) (m : ModelId)
    (w : Waiter) (hw : w ∈ s.queue m) : w.future ≠ c := by
  rintro rfl
  have hp := h.queue_pending m w hw
  exact hs (by simp [Unsettled, hp])

/-- A call that withdraws its waiter and raises. -/
def withdraw (s : State) (c : CallId) (call : Call) (e : AcquireError) : State :=
  (s.removeWaiter call.requestId .cancelled).2.setPhase c call (.raised e)

theorem onCancelled_of_unsettled (hu : Unsettled s c) :
    s.onCancelled c call = withdraw s c call (.cancelled none) := by
  unfold onCancelled
  split
  · exact absurd ‹_› (hu.1 _)
  · exact absurd ‹_› (hu.2 _)
  · rfl

theorem resumed_onCancelled (h : WellFormed s) (hu : ¬ Unsettled s c) :
    Resumed s c call (s.onCancelled c call) := by
  have hgone := h.not_queued_of_settled hu
  unfold onCancelled
  split
  · rename_i gw _
    obtain ⟨i, l, he, -⟩ := recoverLeakedSlot_eq s ⟨gw, call.modelId⟩
    rw [he]
    exact .ended (fun _ => rfl) hgone fun c' hc' => Dict.get?_set_ne _ hc' _
  · exact .ended (fun _ => rfl) hgone fun c' hc' => Dict.get?_set_ne _ hc' _
  · rename_i hr hx
    exact absurd ⟨hr, hx⟩ hu

theorem waitLoop_of_givesUp (hu : Unsettled s c) (hg : GivesUp s c call) :
    ∃ e, e.ofWait = true ∧ s.waitLoop c call = withdraw s c call e := by
  unfold waitLoop
  split
  · exact absurd ‹_› (hu.1 _)
  · exact absurd ‹_› (hu.2 _)
  · by_cases hd : call.waitDeadline.any (· ≤ s.now) = true
    · rw [if_pos hd]
      exact ⟨_, rfl, rfl⟩
    · rw [if_neg hd, if_pos (hg.resolve_left hd)]
      exact ⟨_, rfl, onCancelled_of_unsettled hu⟩

theorem resumed_waitLoop (h : WellFormed s) (hn : ¬ (Unsettled s c ∧ GivesUp s c call)) :
    Resumed s c call (s.waitLoop c call) := by
  unfold waitLoop
  split
  · rename_i gw hf
    have hu : ¬ Unsettled s c := fun hu => hu.1 gw hf
    exact .ended (fun _ => rfl) (h.not_queued_of_settled hu) fun c' hc' => Dict.get?_set_ne _ hc' _
  · rename_i r hf
    exact resumed_onCancelled h fun hu => hu.2 r hf
  · rename_i hr hx
    have hg : ¬ GivesUp s c call := fun hg => hn ⟨⟨hr, hx⟩, hg⟩
    rw [if_neg fun hd => hg (.inl hd), if_neg fun hc => hg (.inr hc)]
    exact .rewait _ _

end

/-! ## The condition -/

/-- A new call is queued: its model is paused or no allowed gateway has room, and the queue is not
full. -/
def Queues (s : State) (m : ModelId) (allowed : List GatewayId) (r : Reading) : Prop :=
  ((s.tick r.delay).Paused m ∨ ∀ gw ∈ allowed, s.available gw m ≤ 0) ∧
    ¬ (0 < s.maxQueueDepth ∧ s.maxQueueDepth ≤ (s.queue m).length)

/-- Where the action makes a queued call end, the first waiter with its request id is its own. A new call
ends at once if its timeout has passed by the time it is queued. -/
def RemovesOwn (s : State) : Action → Prop
  | .wake c | .deliverCancel c => ∀ call, s.calls.get? c = some call → Unsettled s c →
    OwnFirst s call.requestId c
  | .sliceTimeout c => ∀ call, s.calls.get? c = some call → Unsettled s c → GivesUp s c call →
    OwnFirst s call.requestId c
  | .acquireToken rid m allowed timeout r => timeout.any (· ≤ r.delay) = true →
    Queues s m allowed r → OwnFirst (s.enqueue m ⟨rid, allowed, s.nextCall⟩) rid s.nextCall
  | _ => True

/-- The call ends in the step from `s` to `t`, by its timeout or by a cancellation. -/
def Ends (s t : State) (c : CallId) : Prop :=
  (∀ call, s.calls.get? c = some call → call.isWaiting = true) ∧
    ∃ call e, t.calls.get? c = some call ∧ call.phase = .raised e ∧ e.ofWait = true

/-- A step of the call `c` that withdraws no waiter. -/
structure Kept (s t : State) (c : CallId) : Prop where
  others : ∀ c', c' ≠ c → t.calls.get? c' = s.calls.get? c'
  queue : ∀ m, ∀ w ∈ t.queue m, w ∈ s.queue m ∨ w.future = c
  ended : (∃ call, t.calls.get? c = some call ∧ call.isWaiting = true) ∨
    (∀ m, t.queue m = s.queue m) ∧ ∀ m, ∀ w ∈ s.queue m, w.future ≠ c

/-- A step in which the call `c` withdraws a waiter and ends. -/
structure Withdrew (s t : State) (c : CallId) : Prop where
  others : ∀ c', c' ≠ c → t.calls.get? c' = s.calls.get? c'
  queue : ∀ m, ∀ w ∈ t.queue m, w ∈ s.queue m ∨ w.future = c
  ends : Ends s t c

theorem Resumed.kept (h : Resumed s c call t) :
    Kept s t c := by
  cases h with
  | rewait u b =>
    exact ⟨fun c' hc' => Dict.get?_set_ne _ hc' _, fun m w hw => .inl hw,
      .inl ⟨_, Dict.get?_set_self _ _ _, rfl⟩⟩
  | ended hqueue hgone hcalls =>
    exact ⟨hcalls, fun m w hw => .inl (hqueue m ▸ hw), .inr ⟨hqueue, hgone⟩⟩

theorem withdrew {e : AcquireError} (he : e.ofWait = true) (hcalls : ∀ c', c' ≠ c → u.calls.get? c' = s.calls.get? c')
    (hbefore : ∀ call, s.calls.get? c = some call → call.isWaiting = true)
    (hqueue : ∀ m, ∀ w ∈ u.queue m, w ∈ s.queue m ∨ w.future = c) :
    Withdrew s (withdraw u c call e) c := by
  refine ⟨fun c' hc' => ?_, fun m w hw => ?_, hbefore, _, e, Dict.get?_set_self _ _ _, rfl, he⟩
  · rw [withdraw, setPhase, Dict.get?_set_ne _ hc', calls_removeWaiter]
    exact hcalls c' hc'
  · exact hqueue m w (((Shrinks.removeWaiter u call.requestId .cancelled).queue m).subset hw)

/-! ## One step of a call -/

theorem OwnFirst.congr (hq : t.queues = s.queues) (rid : RequestId) (c : CallId) :
    OwnFirst t rid c ↔ OwnFirst s rid c := by
  rw [OwnFirst, OwnFirst, findWaiter, findWaiter, hq]

theorem withdraw_cases {p : Prop} (h : WellFormed s)
    (hc : s.calls.get? c = some call) (hw : call.isWaiting = true) (hkept : ¬ p → Kept s t c)
    (hwithdraw : p → ∃ e, e.ofWait = true ∧ t = withdraw s c call e) :
    (Kept s t c ∧ (p → OwnFirst s call.requestId c)) ∨
      Withdrew s t c ∧ (WithdrawnExactly s t c ↔ (p → OwnFirst s call.requestId c)) := by
  by_cases hp : p
  · obtain ⟨e, he, rfl⟩ := hwithdraw hp
    refine .inr ⟨withdrew he (fun _ _ => rfl) (fun call' hc' => ?_) fun _ _ => .inl, ?_⟩
    · obtain rfl := Option.some.inj (hc.symm.trans hc')
      exact hw
    · exact (removeWaiter_exactly_iff h hc .cancelled).trans ⟨fun hown _ => hown, fun hown => hown hp⟩
  · exact .inl ⟨hkept hp, fun hp' => absurd hp' hp⟩

section

variable {s t : State} {a : Action}

/-- A new call after it has joined the end of its queue. -/
structure Joined (s u : State) (m : ModelId) (w : Waiter) (call : Call) : Prop where
  wf : WellFormed u
  future : u.futures.get? w.future = some .pending
  call : u.calls.get? w.future = some call
  others : ∀ c, c ≠ w.future → u.calls.get? c = s.calls.get? c
  queue : ∀ m', u.queue m' = if m' = m then s.queue m ++ [w] else s.queue m'
  queues : u.queues = (s.enqueue m w).queues

theorem joined_enqueue {s₁ : State} (h : WellFormed s₁) (call : Call)
    (hqueues : s₁.queues = s.queues) (hcalls : s₁.calls = s.calls)
    (hnext : s₁.nextCall = s.nextCall) : Joined s
      (({ s₁ with nextCall := s₁.nextCall + 1 }.setPhase s₁.nextCall call
        (.waiting s₁.now false)).enqueue call.modelId ⟨call.requestId, call.allowed, s₁.nextCall⟩)
      call.modelId ⟨call.requestId, call.allowed, s.nextCall⟩
      { call with phase := .waiting s₁.now false } := by
  have hqueue : ∀ m, s₁.queue m = s.queue m := fun m => by rw [queue, queue, hqueues]
  refine ⟨h.change (.enqueue call s₁.now), ?_, ?_, fun c hc => ?_, fun m => ?_, ?_⟩
  · rw [← hnext]
    exact Dict.get?_set_self _ _ _
  · rw [← hnext]
    exact Dict.get?_set_self _ _ _
  · rw [← hcalls]
    exact Dict.get?_set_ne _ (hnext ▸ hc) _
  · rw [queue, State.enqueue, Dict.get?_set, hnext]
    split
    · exact congrArg (· ++ _) (hqueue call.modelId)
    · exact hqueue m
  · change s₁.queues.set _ (s₁.queue _ ++ _) = _
    rw [hqueue, hqueues, hnext]
    rfl

section

variable {u : State} {m : ModelId} {w : Waiter} {call : Call}

theorem Joined.mem (h : Joined s u m w call) (m' : ModelId) :
    ∀ w' ∈ u.queue m', w' ∈ s.queue m' ∨ w'.future = w.future := by
  intro w' hw'
  rw [h.queue] at hw'
  split at hw'
  · rename_i hm
    rcases List.mem_append.1 hw' with hw' | hw'
    · exact .inl (hm ▸ hw')
    · exact .inr (by rw [List.mem_singleton.1 hw'])
  · exact .inl hw'

theorem Joined.withdrawnExactly_iff (h : Joined s u m w call) :
    WithdrawnExactly s t w.future ↔ WithdrawnExactly u t w.future := by
  refine forall_congr' fun m' => ?_
  rw [h.queue m']
  split
  · rename_i hm
    rw [List.filter_append, List.filter_cons_of_neg (by simp), List.filter_nil, List.append_nil, hm]
  · rfl

theorem Joined.waitLoop_of_not_expired (h : Joined s u m w call)
    (hd : ¬ call.waitDeadline.any (· ≤ u.now) = true) : Kept s (u.waitLoop w.future call) w.future := by
  have hwait : u.waitLoop w.future call =
      u.setPhase w.future call (.waiting (u.sliceUntil call) false) := by
    rw [waitLoop, h.future]
    dsimp only
    rw [if_neg hd, if_neg (by simp)]
  rw [hwait]
  refine ⟨fun c' hc' => ?_, h.mem, .inl ⟨_, Dict.get?_set_self _ _ _, rfl⟩⟩
  exact (Dict.get?_set_ne _ hc' _).trans (h.others c' hc')

end

theorem deadline_any (s : State) (r : Reading) (timeout : Option Time) :
    (timeout.map fun d => if d ≤ 0 then s.now else s.now + d).any (· ≤ s.now + r.delay) =
      timeout.any (· ≤ r.delay) := by
  have hdelay := r.delay_nonneg
  cases timeout with
  | none => rfl
  | some d =>
    simp only [Option.map_some, Option.any_some, decide_eq_decide]
    split
    · constructor <;> intro <;> linarith
    · exact add_le_add_iff_left _

theorem acquireToken_ofCall (h : WellFormed s) (rid : RequestId) (m : ModelId)
    (allowed : List GatewayId) (timeout : Option Time) (r : Reading)
    (ht : t = s.acquireToken rid m allowed timeout r) :
    (Kept s t s.nextCall ∧ RemovesOwn s (.acquireToken rid m allowed timeout r)) ∨
      Withdrew s t s.nextCall ∧ (WithdrawnExactly s t s.nextCall ↔
        RemovesOwn s (.acquireToken rid m allowed timeout r)) := by
  obtain ⟨call, s₁, rfl, rfl, rfl, hdeadline, hs₁, hcases⟩ :=
    acquireToken_cases s rid m allowed timeout r
  have hwf : WellFormed s₁ := by
    rw [hs₁]
    exact h.change (.expirePause_tick s r.delay call.modelId)
  obtain ⟨hnow, hqueues, hcalls, hnext⟩ : s₁.now = s.now + r.delay ∧ s₁.queues = s.queues ∧
      s₁.calls = s.calls ∧ s₁.nextCall = s.nextCall := by
    obtain ⟨p, q, he⟩ := expirePause_eq (s.tick r.delay) call.modelId
    rw [hs₁, he]
    exact ⟨rfl, rfl, rfl, rfl⟩
  -- a call that is not queued
  have hkept : (∀ c', c' ≠ s₁.nextCall → t.calls.get? c' = s₁.calls.get? c') →
      t.queues = s₁.queues → Kept s t s.nextCall := fun hother hq => by
    have hqueue : ∀ m', t.queue m' = s.queue m' := fun m' => by rw [queue, queue, hq, hqueues]
    refine ⟨fun c' hc' => ?_, fun m' w hw => .inl (hqueue m' ▸ hw), .inr ⟨hqueue, fun m' w hw => ?_⟩⟩
    · rw [hother c' (hnext ▸ hc'), hcalls]
    · exact (h.queue_lt hw).ne
  rcases hcases with ⟨gw, hgw, hp, hroom, he⟩ | ⟨hno, ⟨hpos, hfull, he⟩ | ⟨hroom, he⟩⟩
  · refine .inl ⟨hkept (fun c' hc' => ?_) (by rw [ht, he]; rfl), fun _ hq => ?_⟩
    · rw [ht, he]
      exact Dict.get?_set_ne _ hc' _
    · rcases hq.1 with hq | hq
      · exact absurd hq hp
      · exact absurd hroom (hq gw hgw).not_gt
  · refine .inl ⟨hkept (fun c' hc' => ?_) (by rw [ht, he]; rfl), fun _ hq => absurd ⟨hpos, hfull⟩ hq.2⟩
    rw [ht, he]
    exact Dict.get?_set_ne _ hc' _
  · have hj := joined_enqueue hwf call hqueues hcalls hnext
    set u := ({ s₁ with nextCall := s₁.nextCall + 1 }.setPhase s₁.nextCall call
      (.waiting s₁.now false)).enqueue call.modelId ⟨call.requestId, call.allowed, s₁.nextCall⟩
    have hexpired : call.waitDeadline.any (· ≤ u.now) = timeout.any (· ≤ r.delay) := by
      have hun : u.now = s.now + r.delay := hnow
      rw [hdeadline, hun, deadline_any]
    have hown : RemovesOwn s (.acquireToken call.requestId call.modelId call.allowed timeout r) ↔
        (timeout.any (· ≤ r.delay) = true → OwnFirst u call.requestId s.nextCall) := by
      rw [OwnFirst.congr hj.queues]
      exact ⟨fun ho hd => ho hd ⟨hno, hroom⟩, fun ho hd _ => ho hd⟩
    rw [he, hnext] at ht
    rw [hown, hj.withdrawnExactly_iff, ht]
    by_cases hd : timeout.any (· ≤ r.delay) = true
    · have hunsettled : Unsettled u s.nextCall := by simp [Unsettled, hj.future]
      obtain ⟨e, hofWait, hwait⟩ := @waitLoop_of_givesUp u s.nextCall
        { call with phase := .waiting s₁.now false } hunsettled (.inl (hexpired.trans hd))
      rw [hwait]
      refine .inr ⟨withdrew hofWait hj.others (fun call' hc' => ?_) hj.mem, ?_⟩
      · exact absurd (h.call_lt _ _ hc') (lt_irrefl _)
      · exact (removeWaiter_exactly_iff hj.wf hj.call .cancelled).trans
          ⟨fun ho _ => ho, fun ho => ho hd⟩
    · refine .inl ⟨hj.waitLoop_of_not_expired ?_, fun hd' => absurd hd' hd⟩
      exact fun hd' => hd (hexpired.symm.trans hd')

/-- **One step of a call**: it withdraws no waiter, or it withdraws one and ends; and the waiter is
its own exactly when the first one with its request id is. -/
theorem ofCall_cases (h : WellFormed s) (ha : a.ofCall = true) (hst : s.step a = some t) :
    ∃ c, (Kept s t c ∧ RemovesOwn s a) ∨
      Withdrew s t c ∧ (WithdrawnExactly s t c ↔ RemovesOwn s a) := by
  -- the condition on a suspended call, for the call it finds
  have hcond : ∀ {c : CallId} {call : Call} {P : Call → Prop}, s.calls.get? c = some call →
      ((∀ call', s.calls.get? c = some call' → P call') ↔ P call) := fun hc =>
    ⟨fun hP => hP _ hc, fun hP call' hc' => Option.some.inj (hc.symm.trans hc') ▸ hP⟩
  cases steps_of_step hst with
  | acquireToken rid m allowed timeout r => exact ⟨_, acquireToken_ofCall h rid m allowed timeout r rfl⟩
  | @cancelTask c _ u => exact ⟨c, .inl ⟨(Resumed.rewait u true).kept, trivial⟩⟩
  | @wakeGranted c call _ _ gw hc hp hf =>
    simp only [RemovesOwn, hcond hc]
    refine ⟨c, withdraw_cases h hc (isWaiting_of_phase hp) (fun hu => ?_) fun hu => absurd hf (hu.1 gw)⟩
    exact (@Resumed.ended s c call (s.returnToken c call gw true) (fun _ => rfl)
      (h.not_queued_of_settled hu) fun c' hc' => Dict.get?_set_ne _ hc' _).kept
  | @wakeCancelled c call _ _ hc hp | @deliverCancel c call _ _ hc hp =>
    simp only [RemovesOwn, hcond hc]
    exact ⟨c, withdraw_cases h hc (isWaiting_of_phase hp) (fun hu => (resumed_onCancelled h hu).kept)
      fun hu => ⟨_, rfl, onCancelled_of_unsettled hu⟩⟩
  | @sliceTimeout c call _ _ hc hp =>
    simp only [RemovesOwn, hcond hc]
    refine ⟨c, ?_⟩
    have hcases := withdraw_cases (p := Unsettled s c ∧ GivesUp s c call) h hc
      (isWaiting_of_phase hp) (fun hn => (resumed_waitLoop h hn).kept)
      fun hg => waitLoop_of_givesUp hg.1 hg.2
    simpa only [and_imp] using hcases
  | _ => cases ha

theorem not_ends_of_shrinks (h : Shrinks s t) (c : CallId) : ¬ Ends s t c := by
  rintro ⟨hs, call, e, hc, hp, -⟩
  have hw := hs call (h.calls ▸ hc)
  rw [Call.isWaiting, hp] at hw
  cases hw

/-- **A step takes exactly the waiter of the call that ends out of the queues** if and only if the
first waiter with the request id of that call is its own. -/
theorem withdrawnExactly_iff (h : WellFormed s) (hst : s.step a = some t) :
    (∀ c, Ends s t c → WithdrawnExactly s t c) ↔ RemovesOwn s a := by
  cases ha : a.ofCall with
  | false =>
    refine iff_of_true (fun c hc => absurd hc (not_ends_of_shrinks (shrinks_step ha hst) c)) ?_
    cases a <;> trivial
  | true =>
    obtain ⟨c, ⟨hk, hown⟩ | ⟨hw, hiff⟩⟩ := ofCall_cases h ha hst
    · refine iff_of_true (fun c' hc' => ?_) hown
      obtain ⟨hs, call, e, hc, hp, -⟩ := hc'
      by_cases hcc : c' = c
      · subst c'
        rcases hk.ended with ⟨call', hc', hw⟩ | ⟨hqueue, hgone⟩
        · obtain rfl := Option.some.inj (hc.symm.trans hc')
          rw [Call.isWaiting, hp] at hw
          cases hw
        · intro m
          rw [hqueue, List.filter_eq_self.2]
          exact fun w hw => by simpa using hgone m w hw
      · have hw := hs call (hk.others c' hcc ▸ hc)
        rw [Call.isWaiting, hp] at hw
        cases hw
    · rw [← hiff]
      refine ⟨fun hall => hall c hw.ends, fun hexact c' hc' => ?_⟩
      obtain ⟨hs, call, e, hc, hp, -⟩ := hc'
      by_cases hcc : c' = c
      · exact hcc ▸ hexact
      · have hwait := hs call (hw.others c' hcc ▸ hc)
        rw [Call.isWaiting, hp] at hwait
        cases hwait

/-! ## Runs -/

/-- Every waiter in a queue belongs to a call that is suspended. -/
def EndedGone (s : State) : Prop :=
  ∀ m, ∀ w ∈ s.queue m, ∀ call, s.calls.get? w.future = some call → call.isWaiting = true

/-- Calls that have ended stay out of the queues, if a step removes only its own waiter. -/
theorem EndedGone.step (h : WellFormed s) (hg : EndedGone s) (hown : RemovesOwn s a)
    (hst : s.step a = some t) : EndedGone t := by
  intro m w hw call hc
  cases ha : a.ofCall with
  | false =>
    have hsh := shrinks_step ha hst
    exact hg m w ((hsh.queue m).subset hw) call (hsh.calls ▸ hc)
  | true =>
    obtain ⟨c, ⟨hk, -⟩ | ⟨hwd, hiff⟩⟩ := ofCall_cases h ha hst
    · by_cases hwc : w.future = c
      · rcases hk.ended with ⟨call', hc', hwait⟩ | ⟨hqueue, hgone⟩
        · exact Option.some.inj (hc'.symm.trans (hwc ▸ hc)) ▸ hwait
        · exact absurd hwc (hgone m w (hqueue m ▸ hw))
      · exact hg m w ((hk.queue m w hw).resolve_right hwc) call (hk.others _ hwc ▸ hc)
    · have hwc : w.future ≠ c := by
        rw [hiff.2 hown m] at hw
        simpa using (List.mem_filter.1 hw).2
      exact hg m w ((hwd.queue m w hw).resolve_right hwc) call (hwd.others _ hwc ▸ hc)

/-- A call of the past that is in no queue, with the future it then has. -/
structure Gone (c : CallId) (f : Option Future) (s : State) : Prop where
  lt : c < s.nextCall
  queue : ∀ m, ∀ w ∈ s.queue m, w.future ≠ c
  future : s.futures.get? c = f

theorem Gone.change {c : CallId} {f : Option Future} {e : Event} (h : WellFormed s)
    (hg : Gone c f s) (hst : Change s e t) : Gone c f t := by
  have hqueue : ∀ m, ∀ w ∈ t.queue m, w.future ≠ c := fun m w hw => by
    rcases queue_change h hst hw with hw | hw
    · exact hg.queue m w hw
    · exact hw ▸ hg.lt.ne'
  cases hst with
  | quiet hf _ | capacity hf => exact ⟨hf.nextCall ▸ hg.lt, hqueue, hf.futures ▸ hg.future⟩
  | refuse _ _ | grant _ _ => exact ⟨hg.lt.trans (Nat.lt_succ_self _), hqueue, hg.future⟩
  | enqueue _ _ =>
    exact ⟨hg.lt.trans (Nat.lt_succ_self _), hqueue,
      (Dict.get?_set_ne _ hg.lt.ne _).trans hg.future⟩
  | admitted hw _ _ _ =>
    exact ⟨hg.lt, hqueue, (Dict.get?_set_ne _ (hg.queue _ _ hw).symm _).trans hg.future⟩
  | remove rid _ =>
    rcases State.removeWaiter_cases s rid _ with ⟨he, -⟩ | ⟨m, w, qs, hw, -, -, he, -⟩
    · rw [he]
      exact hg
    · have hf := Dict.get?_set_ne s.futures (hg.queue m w hw).symm
      rw [he] at hqueue ⊢
      refine ⟨hg.lt, hqueue, ?_⟩
      dsimp only
      split
      · exact hg.future
      · exact (hf _).trans hg.future
  | recover _ _ _ _ =>
    obtain ⟨i, l, he, -⟩ := recoverLeakedSlot_eq s ⟨_, _⟩
    rw [he] at hqueue ⊢
    exact ⟨hg.lt, hqueue, hg.future⟩
  | @release c₀ token _ _ =>
    obtain ⟨i, k, l, he, -, -⟩ := releaseSlot_eq s
      (s.tokens.set c₀ { token with released := true }) ⟨token.gatewayId, token.modelId⟩
    rw [he] at hqueue ⊢
    exact ⟨hg.lt, hqueue, hg.future⟩
  | _ => exact ⟨hg.lt, hqueue, hg.future⟩

/-- A call that is gone stays so in every run. -/
theorem Gone.run {c : CallId} {f : Option Future} {as : List Action} (h : WellFormed s)
    (hg : Gone c f s) (hrun : pool.Run s as t) : Gone c f t := by
  refine (hrun.invariant (I := fun s => WellFormed s ∧ Gone c f s) ?_ ⟨h, hg⟩).2
  rintro s a t ⟨h, hg⟩ (hst : s.step a = some t)
  refine (step_path h hst).invariant (I := fun s => WellFormed s ∧ Gone c f s) ?_ ⟨h, hg⟩
  rintro s e t ⟨h, hg⟩ ⟨-, hch⟩
  exact ⟨h.change hch, hg.change h hch⟩

end

/-- **The removal of waiters is exact** where the first waiter with the request id is the call's own: a
step takes exactly the waiter of a call that ends out of the queues if and only if it `RemovesOwn`, and
in a run of such steps a call that has ended is never queued again, nor is its future given a slot. -/
theorem waiters_withdrawn (s : State) :
    (pool.Reachable s → ∀ a t, s.step a = some t →
      ((∀ c, Ends s t c → WithdrawnExactly s t c) ↔ RemovesOwn s a)) ∧
    ((pool.restrict RemovesOwn).Reachable s →
      ∀ c call, s.calls.get? c = some call → call.isWaiting = false →
        ∀ as t, pool.Run s as t →
          (∀ m, ∀ w ∈ t.queue m, w.future ≠ c) ∧ t.futures.get? c = s.futures.get? c) := by
  refine ⟨fun hs a t hst => withdrawnExactly_iff (wellFormed_of_reachable hs) hst, ?_⟩
  intro hs c call hc hended as t hrun
  have hinv : WellFormed s ∧ EndedGone s := by
    refine hs.invariant (I := fun s => WellFormed s ∧ EndedGone s) ?_ ?_
    · rintro s ⟨depth, now, rfl⟩
      exact ⟨.initial depth now, fun m w hw => by cases hw⟩
    · rintro s a t ⟨h, hg⟩ ⟨hown, (hst : s.step a = some t)⟩
      exact ⟨h.step hst, hg.step h hown hst⟩
  have hgone : Gone c (s.futures.get? c) s := by
    refine ⟨hinv.1.call_lt c call hc, fun m w hw => ?_, rfl⟩
    rintro rfl
    rw [hinv.2 m w hw call hc] at hended
    cases hended
  have hgone := hgone.run hinv.1 hrun
  exact ⟨hgone.queue, hgone.future⟩

/-- Two calls wait for a slot, and the second one times out: its waiter leaves the queue, for good. -/
theorem waiters_withdrawn_timeout : ∃ s t, pool.Reachable s ∧ s.step (.sliceTimeout 2) = some t ∧ Ends s t 2 ∧
    s.queue "m" = [⟨"b", ["gw"], 1⟩, ⟨"c", ["gw"], 2⟩] ∧ WithdrawnExactly s t 2 ∧
    ∀ as u, pool.Run t as u → (∀ m, ∀ w ∈ u.queue m, w.future ≠ 2) ∧ u.futures.get? 2 = t.futures.get? 2 := by
  let actions : List Action := [.setCapacity "gw" "m" 1, .acquireToken "a" "m" ["gw"] none .instant,
    .acquireToken "b" "m" ["gw"] none .instant, .acquireToken "c" "m" ["gw"] (some 5) .instant, .tick 5]
  have hrun : (System.exec step (.initial 0 0) actions).any (fun s =>
      s.queue "m" = [⟨"b", ["gw"], 1⟩, ⟨"c", ["gw"], 2⟩] &&
        s.calls.get? 2 = some ⟨"c", "m", ["gw"], some 5, 0, .waiting 5 false⟩ &&
        (s.findWaiter "c").map (fun found => found.2.2.future) = some 2 &&
        (s.step (.sliceTimeout 2)).any fun t =>
          t.calls.get? 2 = some ⟨"c", "m", ["gw"], some 5, 0, .raised (.timeout "m" 5)⟩) = true := by
    with_unfolding_all decide
  simp only [Option.any_eq_true, Bool.and_eq_true, decide_eq_true_eq] at hrun
  obtain ⟨s, hs, ⟨⟨hq, hc⟩, hfirst⟩, t, hst, htc⟩ := hrun
  have hprefix : ∀ s, ∀ a ∈ actions, RemovesOwn s a := by
    intro s
    simp [actions, RemovesOwn, Reading.instant]
  have hreach : (pool.restrict RemovesOwn).Reachable s :=
    .run (.init ⟨0, 0, rfl⟩) ((System.run_of_exec hs).restrict_of_forall hprefix)
  have hends : Ends s t 2 := by
    refine ⟨fun call hc' => ?_, _, _, htc, rfl, rfl⟩
    obtain rfl := Option.some.inj (hc.symm.trans hc')
    rfl
  have hown : RemovesOwn s (.sliceTimeout 2) := by
    intro call hc' _ _ m q w hw
    obtain rfl := Option.some.inj (hc.symm.trans hc')
    rw [hw] at hfirst
    exact Option.some.inj hfirst
  have hexact := ((waiters_withdrawn s).1 hreach.of_restrict _ t hst).2 hown 2 hends
  exact ⟨s, t, hreach.of_restrict, hst, hends, hq, hexact,
    (waiters_withdrawn t).2 (hreach.step ⟨hown, hst⟩) 2 _ htc rfl⟩

/-- Two calls under one request id wait for a slot, and the second one times out: the waiter of the
first is taken out, and the slot is later given to the second, which has ended. -/
theorem withdrawn_other : ∃ s t, pool.Reachable s ∧ s.step (.sliceTimeout 2) = some t ∧
    Ends s t 2 ∧ s.queue "m" = [⟨"b", ["gw"], 1⟩, ⟨"b", ["gw"], 2⟩] ∧
    t.queue "m" = [⟨"b", ["gw"], 2⟩] ∧ ¬ WithdrawnExactly s t 2 ∧
    ∃ u, t.step (.release 0 fun _ => .instant) = some u ∧
      u.futures.get? 2 = some (.result "gw") := by
  have hrun : (System.exec step (.initial 0 0)
      [.setCapacity "gw" "m" 1, .acquireToken "a" "m" ["gw"] none .instant,
        .acquireToken "b" "m" ["gw"] none .instant, .acquireToken "b" "m" ["gw"] (some 5) .instant,
        .tick 5]).any (fun s => s.queue "m" = [⟨"b", ["gw"], 1⟩, ⟨"b", ["gw"], 2⟩] &&
          s.calls.get? 2 = some ⟨"b", "m", ["gw"], some 5, 0, .waiting 5 false⟩ &&
          (s.step (.sliceTimeout 2)).any fun t => t.queue "m" = [⟨"b", ["gw"], 2⟩] &&
            t.calls.get? 2 = some ⟨"b", "m", ["gw"], some 5, 0, .raised (.timeout "m" 5)⟩ &&
            (t.step (.release 0 fun _ => .instant)).any fun u =>
              u.futures.get? 2 = some (.result "gw")) = true := by with_unfolding_all decide
  simp only [Option.any_eq_true, Bool.and_eq_true, decide_eq_true_eq] at hrun
  obtain ⟨s, hs, ⟨hq, hc⟩, t, hst, ⟨htq, htc⟩, u, hu, hf⟩ := hrun
  refine ⟨s, t, System.reachable_of_exec ⟨0, 0, rfl⟩ hs, hst, ⟨fun call hc' => ?_, _, _, htc, rfl, rfl⟩,
    hq, htq, fun h => ?_, u, hu, hf⟩
  · obtain rfl := Option.some.inj (hc.symm.trans hc')
    rfl
  · have hm := h "m"
    rw [hq, htq] at hm
    exact absurd hm (by decide)

end LlmGateway.CapacityPool
