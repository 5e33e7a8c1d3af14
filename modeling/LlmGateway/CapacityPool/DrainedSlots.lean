import LlmGateway.CapacityPool.Change

/-!
# The cleanup of drained slots

`remove_gateway` and `remove_model` delete a slot without requests in flight and zero the capacity of
one with some. The zeroed slot is to be deleted when the last of them is done. `_release` does that;
`_recover_leaked_slot`, which gives back the slot of a call that was cancelled after its admission, and
`reconcile_gateway_state`, which drops stale counts, take the count to zero and leave the slot behind
(`recovered_slot_stays` is such a run).

The ghost `Marks` says which slots have been zeroed so and not configured since. `drained_slots` says
when they are all right: in every run in which no recovery takes the last count of a marked slot and no
reconciliation touches one, a marked slot without requests in flight is deleted; and a step of any other
kind breaks that at once.
-/

namespace LlmGateway.CapacityPool

open State

/-- The slots zeroed while requests were in flight, and not configured since. -/
abbrev Marks := Slot → Bool

/-- The slot is one that `remove_gateway` and `remove_model` would zero. -/
def State.zeroes (s : State) (slot : Slot) : Bool :=
  s.capacity.contains slot && decide (0 < s.inFlight.getD slot 0)

/-- The marks after an action. -/
def Action.marks (s : State) (Z : Marks) : Action → Marks
  | .removeGateway gw => fun slot => Z slot || decide (slot.gatewayId = gw) && s.zeroes slot
  | .removeModel gw m => fun slot => Z slot || decide (slot = ⟨gw, m⟩) && s.zeroes slot
  | .setCapacity gw m _ => fun slot => Z slot && decide (slot ≠ ⟨gw, m⟩)
  | .resetColdSlot gw m _ => fun slot => Z slot && decide (slot ≠ ⟨gw, m⟩)
  | _ => Z

/-- A step of the pool, with the marks. -/
def markingStep (x : State × Marks) (a : Action) : Option (State × Marks) :=
  (x.1.step a).map fun t => (t, a.marks x.1 x.2)

/-- The pool with the marks. -/
def marking : System (State × Marks) Action :=
  .ofFn (fun x => ∃ depth now, x = (.initial depth now, fun _ => false)) markingStep

/-- The slot is not in the pool. -/
def State.Deleted (s : State) (slot : Slot) : Prop :=
  s.capacity.get? slot = none ∧ s.inFlight.get? slot = none

/-- A marked slot without requests in flight is deleted. -/
def Drained (x : State × Marks) : Prop :=
  ∀ slot, x.2 slot = true → x.1.inFlight.getD slot 0 = 0 → x.1.Deleted slot

/-- No recovery takes the last count of a marked slot, and no reconciliation touches one. -/
def LeavesNoSlot (x : State × Marks) : Action → Prop
  | .deliverCancel c => ∀ call gw, x.1.calls.get? c = some call →
    x.1.futures.get? c = some (.result gw) → x.2 ⟨gw, call.modelId⟩ = true →
      x.1.inFlight.getD ⟨gw, call.modelId⟩ 0 ≠ 1
  | .reconcile gw idleModelIds _ => ∀ slot, x.2 slot = true → slot.gatewayId = gw →
    slot.modelId ∈ idleModelIds → x.1.inFlight.getD slot 0 ≤ 0
  | _ => True

/-! ## Steps that leave a slot alone -/

/-- The capacity and the count of the slot stay as they are. -/
structure SlotKept (slot : Slot) (s t : State) : Prop where
  capacity : t.capacity.get? slot = s.capacity.get? slot
  inFlight : t.inFlight.get? slot = s.inFlight.get? slot

/-- The slot has no room. -/
def State.Full (s : State) (slot : Slot) : Prop := s.available slot.gatewayId slot.modelId ≤ 0

namespace SlotKept

variable {slot : Slot} {s t u : State}

theorem refl (s : State) : SlotKept slot s s := ⟨rfl, rfl⟩

theorem trans (h : SlotKept slot s t) (h' : SlotKept slot t u) : SlotKept slot s u :=
  ⟨h'.capacity.trans h.capacity, h'.inFlight.trans h.inFlight⟩

theorem of_eq (hc : t.capacity = s.capacity) (hi : t.inFlight = s.inFlight) : SlotKept slot s t :=
  ⟨by rw [hc], by rw [hi]⟩

theorem of_fields (h : SlotKept slot u t) (hc : u.capacity = s.capacity)
    (hi : u.inFlight = s.inFlight) : SlotKept slot s t :=
  (SlotKept.of_eq hc hi).trans h

theorem full (h : SlotKept slot s t) (hs : s.Full slot) : t.Full slot := by
  rw [Full, available_eq, Dict.getD_eq, Dict.getD_eq] at hs ⊢
  rwa [h.capacity, h.inFlight]

theorem expirePause (s : State) (dt : Time) (m : ModelId) :
    SlotKept slot s ((s.tick dt).expirePause m) := by
  obtain ⟨p, q, he⟩ := expirePause_eq (s.tick dt) m
  rw [he]
  exact of_eq rfl rfl

theorem reserve {gw : GatewayId} {m : ModelId} (hs : s.Full slot) (hroom : 0 < s.available gw m) :
    SlotKept slot s (s.reserve ⟨gw, m⟩) := by
  have hne : slot ≠ ⟨gw, m⟩ := by
    rintro rfl
    exact absurd hroom (not_lt.2 hs)
  exact ⟨rfl, Dict.get?_set_ne _ hne _⟩

theorem dispatchLoop (m : ModelId) (ρ : ℕ → Reading) (q : List Waiter) (s : State) :
    s.Full slot → SlotKept slot s (dispatchLoop m ρ q s).2 := by
  refine dispatchLoop_rec (m := m) (motive := fun _ _ s _ t => s.Full slot → SlotKept slot s t)
    ?_ ?_ ?_ ?_ ρ q s
  · exact fun _ s _ => .refl s
  · exact fun _ _ _ _ _ _ _ ih => ih
  · intro ρ _ _ s _ _ _ _ ih hs
    have hr : SlotKept slot s ((s.tick (ρ 0).delay).expirePause m) := .expirePause s _ m
    exact hr.trans (ih (hr.full hs))
  · intro ρ w _ s gw _ _ _ _ _ hroom ih hs
    have hr : SlotKept slot s ((s.tick (ρ 0).delay).expirePause m) := .expirePause s _ m
    have hroom : 0 < ((s.tick (ρ 0).delay).expirePause m).available gw m := by
      rwa [available_expirePause_tick]
    have hnext : SlotKept slot s (s.admitWaiter (ρ 0) m w gw) :=
      hr.trans ((SlotKept.reserve (hr.full hs) hroom).trans (.of_eq rfl rfl))
    exact hnext.trans (ih (hnext.full hs))

theorem dispatch (ρ : ℕ → Reading) (m : ModelId) (hs : s.Full slot) :
    SlotKept slot s (s.dispatch ρ m) := by
  obtain ⟨qs, he, -⟩ := dispatch_eq m ρ s
  rw [he]
  exact (SlotKept.dispatchLoop m ρ _ s hs).trans (.of_eq rfl rfl)

theorem dispatchAll (ρ : ℕ → ℕ → Reading) (ms : List ModelId) (hs : s.Full slot) :
    SlotKept slot s (dispatchAll ρ ms s) := by
  induction ms generalizing ρ s with
  | nil => exact .refl s
  | cons m ms ih =>
    have hd := SlotKept.dispatch (ρ 0) m hs
    exact hd.trans (ih _ (hd.full hs))

theorem removeWaiter (s : State) (rid : RequestId) (outcome : Future) :
    SlotKept slot s (s.removeWaiter rid outcome).2 := by
  rcases State.removeWaiter_cases s rid outcome with ⟨he, -⟩ | ⟨m, w, qs, -, -, -, he, -⟩
  · rw [he]
    exact .refl s
  · rw [he]
    exact .of_eq rfl rfl

theorem onCancelled {c : CallId} {call : Call} (hf : ∀ gw, s.futures.get? c ≠ some (.result gw)) :
    SlotKept slot s (s.onCancelled c call) := by
  unfold State.onCancelled
  split
  · exact absurd ‹_› (hf _)
  · exact .of_eq rfl rfl
  · exact (SlotKept.removeWaiter s _ _).trans (.of_eq rfl rfl)

theorem waitLoop (s : State) (c : CallId) (call : Call) :
    SlotKept slot s (s.waitLoop c call) := by
  unfold State.waitLoop
  split
  · exact .of_eq rfl rfl
  · rename_i r hf
    exact .onCancelled fun gw hr => by rw [hf] at hr; cases hr
  · rename_i hr _
    split
    · exact (SlotKept.removeWaiter s _ _).trans (.of_eq rfl rfl)
    · split
      · exact .onCancelled hr
      · exact .of_eq rfl rfl

theorem acquireToken (hs : s.Full slot) (rid : RequestId) (m : ModelId) (allowed : List GatewayId)
    (timeout : Option Time) (r : Reading) :
    SlotKept slot s (s.acquireToken rid m allowed timeout r) := by
  obtain ⟨call, s₁, -, -, -, -, hs₁, hcases⟩ := acquireToken_cases s rid m allowed timeout r
  have hr : SlotKept slot s s₁ := hs₁ ▸ .expirePause s _ m
  refine hr.trans ?_
  rcases hcases with ⟨gw, -, -, hroom, he⟩ | ⟨-, ⟨-, -, he⟩ | ⟨-, he⟩⟩
  · have hroom : 0 < s₁.available gw m := by
      rw [hs₁, available_expirePause_tick]
      exact hroom
    have hreserve : SlotKept slot s₁ (s₁.reserve ⟨gw, m⟩) := .reserve (hr.full hs) hroom
    rw [he]
    exact ⟨hreserve.capacity, hreserve.inFlight⟩
  · rw [he]
    exact .of_eq rfl rfl
  · rw [he]
    exact (SlotKept.waitLoop _ _ _).of_fields rfl rfl

theorem resumeAfter (hs : s.Full slot) (ρ : ℕ → Reading) (m : ModelId) :
    SlotKept slot s (s.resumeAfter ρ m) := by
  have hclear : SlotKept slot s (s.clearPause m) := .of_eq rfl rfl
  unfold State.resumeAfter
  split
  · exact .of_eq rfl rfl
  · split
    · exact .of_eq rfl rfl
    · exact hclear.trans (.dispatch ρ m (hclear.full hs))

end SlotKept

/-- The actions that write counts or capacities other than by a reservation. -/
def Action.writesSlots : Action → Bool
  | .deliverCancel _ | .release .. | .reconcile .. | .setCapacity .. | .resetColdSlot ..
  | .removeGateway _ | .removeModel .. => true
  | _ => false

/-- **Every other action** leaves a slot without room alone. -/
theorem slotKept_step {slot : Slot} {s t : State} {a : Action} (hs : s.Full slot)
    (ha : a.writesSlots = false) (hst : s.step a = some t) : SlotKept slot s t := by
  cases steps_of_step hst with
  | deliverCancel | release | reconcile | setCapacity | resetColdSlot | removeGateway | removeModel
  | removeNoModel => cases ha
  | acquireToken rid m allowed timeout r => exact .acquireToken hs rid m allowed timeout r
  | cancelTask | wakeGranted | tick => exact .of_eq rfl rfl
  | wakeCancelled _ _ hf => exact .onCancelled hf
  | @sliceTimeout c call => exact .waitLoop s c call
  | runDispatch m ρ =>
    have hq : SlotKept slot s { s with dispatchTasks := s.dispatchTasks.erase m } := .of_eq rfl rfl
    exact hq.trans (.dispatch ρ m (hq.full hs))
  | resourceUpdate ρ => exact .dispatchAll ρ _ hs
  | pauseAdmission m duration =>
    unfold State.pauseAdmission
    split
    · exact .refl s
    · dsimp only
      split <;> exact .of_eq rfl rfl
  | resumeAdmission m =>
    unfold State.resumeAdmission
    split <;> exact .of_eq rfl rfl
  | resumeAfter m ρ _ => exact .resumeAfter hs ρ m
  | isPaused m =>
    obtain ⟨p, q, he⟩ := expirePause_eq s m
    rw [he]
    exact .of_eq rfl rfl
  | cancelRequest rid reason => exact .removeWaiter s rid _

/-! ## The marked slots -/

/-- The slot is deleted, or has capacity zero and requests in flight. -/
def Clean (s : State) (slot : Slot) : Prop :=
  s.capacity.get? slot = some 0 ∧ 0 < s.inFlight.getD slot 0 ∨ s.Deleted slot

namespace Clean

variable {slot : Slot} {s t : State}

theorem full (h : Clean s slot) : s.Full slot := by
  obtain ⟨gw, m⟩ := slot
  change max 0 ((s.capacity.get? ⟨gw, m⟩).getD 0 - (s.inFlight.get? ⟨gw, m⟩).getD 0) ≤ 0
  rcases h with ⟨hc, hi⟩ | ⟨hc, hi⟩
  · rw [Dict.getD_eq] at hi
    rw [hc, Option.getD_some]
    omega
  · rw [hc, hi]
    exact le_rfl

theorem kept (h : Clean s slot) (hk : SlotKept slot s t) : Clean t slot := by
  rw [Clean, Deleted, Dict.getD_eq, hk.capacity, hk.inFlight]
  exact h

theorem releaseSlot (h : Clean s slot) (slot' : Slot) :
    Clean ((s.decrement slot').cleanupDrained slot') slot := by
  by_cases hs : slot = slot'
  · subst hs
    rcases h with ⟨hc, hi⟩ | ⟨hc, hi⟩
    · have hdec : s.decrement slot = { s with
          inFlight := s.inFlight.set slot (s.inFlight.getD slot 0 - 1)
          slotLastChange := s.slotLastChange.set slot s.now } := by
        rw [decrement, if_neg (not_le.2 hi)]
      have hget : (s.decrement slot).inFlight.getD slot 0 = s.inFlight.getD slot 0 - 1 := by
        rw [hdec, Dict.getD_set, if_pos rfl]
      have hcap : (s.decrement slot).capacity = s.capacity := by rw [hdec]
      have hzero : s.capacity.getD slot (-1) = 0 := by rw [Dict.getD_eq, hc, Option.getD_some]
      rw [cleanupDrained, hget, hcap, hzero]
      split
      · exact .inr ⟨Dict.get?_erase_self _ _, Dict.get?_erase_self _ _⟩
      · rename_i hne
        refine .inl ⟨hcap ▸ hc, ?_⟩
        rw [hget]
        have : s.inFlight.getD slot 0 - 1 ≠ 0 := fun h0 => hne ⟨h0, rfl⟩
        omega
    · have hdec : s.decrement slot = s := by
        rw [decrement, Dict.getD_eq, hi, Option.getD_none, if_pos le_rfl]
      have hno : s.capacity.getD slot (-1) ≠ 0 := by rw [Dict.getD_eq, hc]; decide
      rw [hdec, cleanupDrained, if_neg fun hb => hno hb.2]
      exact .inr ⟨hc, hi⟩
  · have hdec : SlotKept slot s (s.decrement slot') := by
      unfold decrement
      split
      · exact .refl s
      · exact ⟨rfl, Dict.get?_set_ne _ hs _⟩
    have hclean : SlotKept slot (s.decrement slot') ((s.decrement slot').cleanupDrained slot') := by
      unfold cleanupDrained
      split
      · exact ⟨Dict.get?_erase_ne _ hs, Dict.get?_erase_ne _ hs⟩
      · exact .refl _
    exact h.kept (hdec.trans hclean)

theorem release (h : Clean s slot) (ρ : ℕ → Reading) (c : CallId) (token : Token) :
    Clean (s.release ρ c token) slot := by
  unfold State.release poolRelease
  split
  · exact h
  · have hset : Clean { s with tokens := s.tokens.set c { token with released := true } } slot := h
    have hrel := hset.releaseSlot ⟨token.gatewayId, token.modelId⟩
    exact hrel.kept (.dispatch ρ _ hrel.full)

theorem recoverLeakedSlot (h : Clean s slot) {slot' : Slot}
    (hlast : slot = slot' → s.inFlight.getD slot 0 ≠ 1) : Clean (s.recoverLeakedSlot slot') slot := by
  unfold State.recoverLeakedSlot
  split
  · exact h
  · rename_i hpos
    by_cases hs : slot = slot'
    · subst hs
      rcases h with ⟨hc, hi⟩ | ⟨-, hi⟩
      · refine .inl ⟨hc, ?_⟩
        have hget : (s.inFlight.set slot (s.inFlight.getD slot 0 - 1)).getD slot 0 =
            s.inFlight.getD slot 0 - 1 := by rw [Dict.getD_set, if_pos rfl]
        change 0 < (s.inFlight.set slot (s.inFlight.getD slot 0 - 1)).getD slot 0
        have := hlast rfl
        omega
      · exact absurd (by rw [Dict.getD_eq, hi]; rfl) hpos
    · exact h.kept ⟨rfl, Dict.get?_set_ne _ hs _⟩

theorem deliverCancel (h : Clean s slot) {c : CallId} {call : Call}
    (hlast : ∀ gw, s.futures.get? c = some (.result gw) → slot = ⟨gw, call.modelId⟩ →
      s.inFlight.getD slot 0 ≠ 1) : Clean (s.onCancelled c call) slot := by
  by_cases hf : ∃ gw, s.futures.get? c = some (.result gw)
  · obtain ⟨gw, hf⟩ := hf
    rw [onCancelled, hf]
    exact h.recoverLeakedSlot (hlast gw hf)
  · exact h.kept (.onCancelled fun gw hr => hf ⟨gw, hr⟩)

theorem removeSlot_self (s : State) (slot : Slot) : Clean (s.removeSlot slot) slot := by
  unfold State.removeSlot
  split
  · rename_i hi
    exact .inl ⟨Dict.get?_set_self _ _ _, hi⟩
  · exact .inr ⟨Dict.get?_erase_self _ _, Dict.get?_erase_self _ _⟩

theorem removeSlot (h : Clean s slot) (slot' : Slot) : Clean (s.removeSlot slot') slot := by
  by_cases hs : slot = slot'
  · exact hs ▸ removeSlot_self s slot
  · unfold State.removeSlot
    split
    · exact h.kept ⟨Dict.get?_set_ne _ hs _, rfl⟩
    · exact h.kept ⟨Dict.get?_erase_ne _ hs, Dict.get?_erase_ne _ hs⟩

theorem foldl_removeSlot (l : List Slot) (s : State) (h : Clean s slot ∨ slot ∈ l) :
    Clean (l.foldl State.removeSlot s) slot := by
  induction l generalizing s with
  | nil => exact h.resolve_right (by simp)
  | cons slot' l ih =>
    refine ih _ ?_
    rcases h with h | h
    · exact .inl (h.removeSlot slot')
    · rcases List.mem_cons.1 h with rfl | h
      · exact .inl (removeSlot_self s _)
      · exact .inr h

end Clean

theorem slotKept_reconcileLoop {slot : Slot} (gw : GatewayId) (ms : List ModelId) (s : State)
    (h : slot.gatewayId = gw → slot.modelId ∈ ms → s.inFlight.getD slot 0 ≤ 0) :
    SlotKept slot s (reconcileLoop gw ms s).2 := by
  induction ms generalizing s with
  | nil => exact .refl s
  | cons m ms ih =>
    rw [reconcileLoop]
    split
    · rename_i hpos
      have hne : slot ≠ ⟨gw, m⟩ := by
        rintro rfl
        exact absurd hpos (not_lt.2 (h rfl List.mem_cons_self))
      have hset : SlotKept slot s { s with inFlight := s.inFlight.set ⟨gw, m⟩ 0 } :=
        ⟨rfl, Dict.get?_set_ne _ hne _⟩
      refine hset.trans (ih _ fun hg hm => ?_)
      rw [Dict.getD_set, if_neg hne]
      exact h hg (List.mem_cons_of_mem _ hm)
    · exact ih s fun hg hm => h hg (List.mem_cons_of_mem _ hm)

section

variable {s t : State} {Z : Marks} {a : Action}

theorem mem_keys_of_zeroes {slot : Slot} (h : s.zeroes slot = true) :
    slot ∈ s.capacity.items.map Prod.fst := by
  obtain ⟨k, hk⟩ := Dict.contains_iff.1 (Bool.and_eq_true_iff.1 h).1
  exact List.mem_map.2 ⟨(slot, k), Dict.mem_items_iff.2 hk, rfl⟩

/-- **One step** keeps the marked slots clean if it leaves no slot behind. -/
theorem clean_step (h : ∀ slot, Z slot = true → Clean s slot) (ha : LeavesNoSlot (s, Z) a)
    (hst : s.step a = some t) : ∀ slot, a.marks s Z slot = true → Clean t slot := by
  intro slot hZ
  cases hw : a.writesSlots with
  | false =>
    have hclean : Clean s slot := by
      cases a <;> first | exact h slot hZ | cases hw
    exact hclean.kept (slotKept_step hclean.full hw hst)
  | true =>
    cases steps_of_step hst with
    | @deliverCancel c call _ _ hc =>
      refine (h slot hZ).deliverCancel fun gw hf hs => ?_
      subst hs
      exact ha call gw hc hf hZ
    | @release c token ρ _ => exact (h slot hZ).release ρ c token
    | reconcile gw ms ρ =>
      have hloop := (h slot hZ).kept (slotKept_reconcileLoop gw ms s (ha slot hZ))
      exact hloop.kept (.dispatchAll ρ _ hloop.full)
    | setCapacity gw m n =>
      obtain ⟨hZ, hne⟩ := Bool.and_eq_true_iff.1 hZ
      have hne : slot ≠ ⟨gw, m⟩ := of_decide_eq_true hne
      have hdefault : (s.inFlight.setDefault ⟨gw, m⟩ 0).get? slot = s.inFlight.get? slot := by
        unfold Dict.setDefault
        split
        · rfl
        · exact Dict.get?_set_ne _ hne _
      refine (h slot hZ).kept ?_
      unfold State.setCapacity
      dsimp only
      split <;> exact ⟨Dict.get?_set_ne _ hne _, hdefault⟩
    | resetColdSlot gw m n =>
      obtain ⟨hZ, hne⟩ := Bool.and_eq_true_iff.1 hZ
      have hne : slot ≠ ⟨gw, m⟩ := of_decide_eq_true hne
      exact (h slot hZ).kept ⟨Dict.get?_set_ne _ hne _, Dict.get?_set_ne _ hne _⟩
    | removeGateway gw =>
      refine .foldl_removeSlot _ s ?_
      rcases Bool.or_eq_true_iff.1 hZ with hZ | hnew
      · exact .inl (h slot hZ)
      · obtain ⟨hgw, hz⟩ := Bool.and_eq_true_iff.1 hnew
        exact .inr (List.mem_filter.2 ⟨mem_keys_of_zeroes hz, hgw⟩)
    | removeModel gw m =>
      rcases Bool.or_eq_true_iff.1 hZ with hZ | hnew
      · exact (h slot hZ).removeSlot _
      · obtain rfl : slot = ⟨gw, m⟩ := of_decide_eq_true (Bool.and_eq_true_iff.1 hnew).1
        exact .removeSlot_self s _
    | removeNoModel gw m hnot =>
      rcases Bool.or_eq_true_iff.1 hZ with hZ | hnew
      · exact h slot hZ
      · obtain ⟨hs, hz⟩ := Bool.and_eq_true_iff.1 hnew
        obtain rfl : slot = ⟨gw, m⟩ := of_decide_eq_true hs
        exact absurd (Bool.and_eq_true_iff.1 hz).1 hnot
    | _ => cases hw

theorem not_drained_of_deliverCancel {c : CallId} {call : Call} {gw : GatewayId}
    (h : Clean s ⟨gw, call.modelId⟩) (hc : s.calls.get? c = some call)
    (hf : s.futures.get? c = some (.result gw)) (hlast : s.inFlight.getD ⟨gw, call.modelId⟩ 0 = 1)
    (hst : s.step (.deliverCancel c) = some t) :
    t.inFlight.getD ⟨gw, call.modelId⟩ 0 = 0 ∧ ¬ t.Deleted ⟨gw, call.modelId⟩ := by
  cases steps_of_step hst with
  | deliverCancel hc' =>
    obtain rfl := Option.some.inj (hc.symm.trans hc')
    have hcap : s.capacity.get? ⟨gw, call.modelId⟩ = some 0 := by
      refine (h.resolve_right fun hd => ?_).1
      rw [Dict.getD_eq, hd.2] at hlast
      cases hlast
    obtain ⟨i, l, he, hi⟩ := recoverLeakedSlot_eq s ⟨gw, call.modelId⟩
    rw [onCancelled, hf]
    dsimp only
    rw [he]
    refine ⟨?_, fun hd => ?_⟩
    · change i.getD _ 0 = 0
      rw [hi, hlast, if_pos ⟨rfl, one_pos⟩, sub_self]
    · exact absurd (hcap.symm.trans hd.1) (by simp)

theorem not_drained_of_reconcile {gw : GatewayId} {ms : List ModelId} {ρ : ℕ → ℕ → Reading}
    {slot : Slot} (h : Clean s slot) (hg : slot.gatewayId = gw) (hm : slot.modelId ∈ ms)
    (hpos : 0 < s.inFlight.getD slot 0) :
    (s.reconcileGatewayState ρ gw ms).inFlight.getD slot 0 = 0 ∧
      ¬ (s.reconcileGatewayState ρ gw ms).Deleted slot := by
  have hcap : s.capacity.get? slot = some 0 := by
    refine (h.resolve_right fun hd => ?_).1
    rw [Dict.getD_eq, hd.2] at hpos
    cases hpos
  obtain ⟨i, he, hi⟩ := reconcileLoop_eq gw ms s
  have hzero : i.getD slot 0 = 0 := by rw [hi, if_pos ⟨hg, hm, hpos⟩]
  have hfull : (reconcileLoop gw ms s).2.Full slot := by
    cases slot
    rw [he, Full, available_eq]
    dsimp only
    rw [hzero, Dict.getD_eq, hcap]
    decide
  have hk := SlotKept.dispatchAll ρ (reconcileLoop gw ms s).1 hfull
  rw [he] at hk
  unfold State.reconcileGatewayState
  dsimp only
  rw [he]
  refine ⟨?_, fun hd => ?_⟩
  · rw [Dict.getD_eq, hk.inFlight]
    exact hzero
  · exact absurd (hcap.symm.trans (hk.capacity.symm.trans hd.1)) (by simp)

/-- A slot that was drained stays clean in every run that leaves no slot behind. -/
theorem clean_of_reachable {x : State × Marks}
    (h : (marking.restrict LeavesNoSlot).Reachable x) : ∀ slot, x.2 slot = true → Clean x.1 slot := by
  refine h.invariant (I := fun x => ∀ slot, x.2 slot = true → Clean x.1 slot) ?_ ?_
  · rintro x ⟨depth, now, rfl⟩ slot hZ
    cases hZ
  · rintro x a y hx ⟨ha, hst⟩
    obtain ⟨t, ht, rfl⟩ := Option.map_eq_some_iff.1 hst
    exact clean_step hx ha ht

theorem drained_of_clean {x : State × Marks} (h : ∀ slot, x.2 slot = true → Clean x.1 slot) :
    Drained x := by
  intro slot hZ h0
  refine (h slot hZ).resolve_left fun hpos => ?_
  exact absurd h0 hpos.2.ne'

end

/-- **Drained slots are deleted** where no recovery takes the last count of a marked slot and no
reconciliation touches one: in every run of such steps a marked slot without requests in flight is
deleted, and after such a run the next step leaves it so if and only if it is of that kind. -/
theorem drained_slots (x : State × Marks) :
    ((marking.restrict LeavesNoSlot).Reachable x → Drained x) ∧
      ∀ a y, (marking.restrict LeavesNoSlot).Reachable x → marking.step x a y →
        (Drained y ↔ LeavesNoSlot x a) := by
  refine ⟨fun h => drained_of_clean (clean_of_reachable h), fun a y h hst => ?_⟩
  have hclean := clean_of_reachable h
  obtain ⟨t, ht, rfl⟩ := Option.map_eq_some_iff.1 hst
  refine ⟨fun hd => ?_, fun ha => drained_of_clean (clean_step hclean ha ht)⟩
  cases a with
  | deliverCancel c =>
    intro call gw hc hf hZ hlast
    have hbad := not_drained_of_deliverCancel (hclean _ hZ) hc hf hlast ht
    exact hbad.2 (hd _ hZ hbad.1)
  | reconcile gw ms ρ =>
    intro slot hZ hg hm
    by_contra hpos
    have hbad := not_drained_of_reconcile (ρ := ρ) (hclean slot hZ) hg hm (not_le.1 hpos)
    rw [← Option.some.inj ht] at hd
    exact hbad.2 (hd slot hZ hbad.1)
  | _ => trivial

/-- A slot is zeroed while a call holds it, and deleted when the call returns it. -/
theorem drained_slots_release : ∃ x y, (marking.restrict LeavesNoSlot).Reachable x ∧
    marking.step x (.release 0 fun _ => .instant) y ∧ x.1.inFlight.getD ⟨"gw", "m"⟩ 0 = 1 ∧ Drained x ∧
    y.2 ⟨"gw", "m"⟩ = true ∧ y.1.Deleted ⟨"gw", "m"⟩ := by
  let actions : List Action :=
    [.setCapacity "gw" "m" 1, .acquireToken "a" "m" ["gw"] none .instant, .removeModel "gw" "m"]
  have hrun : (System.exec markingStep (.initial 0 0, fun _ => false) actions).any (fun x =>
      x.1.inFlight.getD ⟨"gw", "m"⟩ 0 = 1 && (markingStep x (.release 0 fun _ => .instant)).any fun y =>
        y.2 ⟨"gw", "m"⟩ && y.1.inFlight.getD ⟨"gw", "m"⟩ 0 = 0) = true := by
    decide
  simp only [Option.any_eq_true, Bool.and_eq_true, decide_eq_true_eq] at hrun
  obtain ⟨x, hx, hheld, y, hy, hZ, hi⟩ := hrun
  have hprefix : ∀ x, ∀ a ∈ actions, LeavesNoSlot x a := by
    intro x
    simp [actions, LeavesNoSlot]
  have hreach : (marking.restrict LeavesNoSlot).Reachable x :=
    .run (.init ⟨0, 0, rfl⟩) ((System.run_of_exec hx).restrict_of_forall hprefix)
  have hdrained : Drained y := ((drained_slots x).2 _ y hreach hy).2 trivial
  exact ⟨x, y, hreach, hy, hheld, (drained_slots x).1 hreach, hZ, hdrained _ hZ hi⟩

/-- The slot of an admitted call is zeroed, and the call is cancelled before it returns its token: the
slot stays in the pool. -/
theorem recovered_slot_stays : ∃ x y, marking.Reachable x ∧ marking.step x (.deliverCancel 1) y ∧
    y.2 ⟨"gw", "m"⟩ = true ∧ y.1.inFlight.getD ⟨"gw", "m"⟩ 0 = 0 ∧
    y.1.capacity.get? ⟨"gw", "m"⟩ = some 0 ∧ ¬ Drained y := by
  have hrun : (System.exec markingStep (.initial 0 0, fun _ => false)
      [.setCapacity "gw" "m" 1, .acquireToken "a" "m" ["gw"] none .instant,
        .acquireToken "b" "m" ["gw"] none .instant, .release 0 fun _ => .instant,
        .removeModel "gw" "m", .cancelTask 1]).any (fun x =>
        (markingStep x (.deliverCancel 1)).any fun y => y.2 ⟨"gw", "m"⟩ &&
          y.1.inFlight.getD ⟨"gw", "m"⟩ 0 = 0 && y.1.capacity.get? ⟨"gw", "m"⟩ = some 0) = true := by
    decide
  simp only [Option.any_eq_true, Bool.and_eq_true, decide_eq_true_eq] at hrun
  obtain ⟨x, hx, y, hy, ⟨hZ, hi⟩, hc⟩ := hrun
  refine ⟨x, y, System.reachable_of_exec ⟨0, 0, rfl⟩ hx, hy, hZ, hi, hc, fun hd => ?_⟩
  exact absurd (hc.symm.trans (hd _ hZ hi).1) (by simp)

end LlmGateway.CapacityPool
