import LlmGateway.CapacityPool.WellFormed

/-!
# Steps as runs of elementary changes

A step of the pool is an await-free section, and a section can do many things: one dispatch admits
any number of waiters. Here every step is taken apart into elementary changes (`Change`), each of
which grants, claims, gives back or forgets one slot, or moves one call or waiter. `step_path` is
the simulation: from a well-formed state, a step is a path of changes, and `Permits` says which
changes a given action can make and in which states.

An invariant of the pool is then proved change by change. `WellFormed.change` is the first, and
`wellFormed_of_reachable` its consequence.
-/

namespace LlmGateway.CapacityPool

/-- A future that a waiter gets when it is withdrawn from its queue. -/
def Future.isWithdrawn : Future → Bool
  | .exception _ => true
  | .cancelled => true
  | _ => false

/-- No two calls have the same request id. -/
def DistinctIds (s : State) : Prop :=
  ∀ c c' call call', s.calls.get? c = some call → s.calls.get? c' = some call' →
    call.requestId = call'.requestId → c = c'

/-- The changes, by what they do. -/
inductive Event
  /-- Clocks, pauses and tasks. -/
  | quiet
  | capacity
  /-- A new call finds the queue full. -/
  | refuse (call : Call)
  | enqueue (call : Call)
  /-- A new call gets a slot at once. -/
  | grant (call : Call) (gw : GatewayId)
  /-- A queued call gets a slot. -/
  | admitted (c : CallId) (slot : Slot)
  /-- A waiter is withdrawn from its queue. -/
  | remove
  /-- A suspended call stays suspended. -/
  | rewait (c : CallId)
  /-- A call returns the slot it was admitted to. -/
  | claim (c : CallId) (slot : Slot)
  /-- A call gives up the slot it was admitted to. -/
  | recover (c : CallId) (slot : Slot)
  /-- A call without a slot raises. -/
  | raise (c : CallId)
  | release (c : CallId) (slot : Slot)
  /-- The counts of some slots are set to zero. -/
  | reset (slots : Slot → Bool)

/-- The slot a change admits a call to. -/
def Event.admitsTo : Event → Option Slot
  | .grant call gw => some ⟨gw, call.modelId⟩
  | .admitted _ slot => some slot
  | _ => none

/-- The two states agree on the queues, the calls, their futures and tokens, and all counts. -/
structure Frame (s t : State) : Prop where
  queue : ∀ m, t.queue m = s.queue m
  futures : t.futures = s.futures
  calls : t.calls = s.calls
  tokens : t.tokens = s.tokens
  nextCall : t.nextCall = s.nextCall
  inFlight : ∀ slot, t.inFlight.getD slot 0 = s.inFlight.getD slot 0

open State

/-- One elementary change. -/
inductive Change (s : State) : Event → State → Prop
  | quiet {t : State} (h : Frame s t)
      (hc : ∀ slot, t.capacity.getD slot 0 = s.capacity.getD slot 0) : Change s .quiet t
  | capacity {t : State} (h : Frame s t) : Change s .capacity t
  | refuse (call : Call) (e : AcquireError) : Change s (.refuse call)
      ({ s with nextCall := s.nextCall + 1 }.setPhase s.nextCall call (.raised e))
  | enqueue (call : Call) (u : Time) : Change s (.enqueue call)
      (({ s with nextCall := s.nextCall + 1 }.setPhase s.nextCall call (.waiting u false)).enqueue
        call.modelId ⟨call.requestId, call.allowed, s.nextCall⟩)
  | grant (call : Call) {gw : GatewayId}
      (hroom : s.inFlight.getD ⟨gw, call.modelId⟩ 0 < s.capacity.getD ⟨gw, call.modelId⟩ 0) :
      Change s (.grant call gw)
        (({ s with nextCall := s.nextCall + 1 }.reserve ⟨gw, call.modelId⟩).returnToken
          s.nextCall call gw false)
  | admitted {m : ModelId} {w : Waiter} {gw : GatewayId} {qs : Dict ModelId (List Waiter)}
      (hw : w ∈ s.queue m) (hgw : gw ∈ w.allowed)
      (hroom : s.inFlight.getD ⟨gw, m⟩ 0 < s.capacity.getD ⟨gw, m⟩ 0)
      (hqs : ∀ m', (qs.get? m').getD [] = if m' = m then (s.queue m).erase w else s.queue m') :
      Change s (.admitted w.future ⟨gw, m⟩) { s.reserve ⟨gw, m⟩ with
        queues := qs, futures := s.futures.set w.future (.result gw) }
  | remove (rid : RequestId) {outcome : Future} (h : outcome.isWithdrawn = true) :
      Change s .remove (s.removeWaiter rid outcome).2
  | rewait {c : CallId} {call : Call} (hc : s.calls.get? c = some call)
      (hw : call.isWaiting = true) (u : Time) (b : Bool) :
      Change s (.rewait c) (s.setPhase c call (.waiting u b))
  | claim {c : CallId} {call : Call} {gw : GatewayId} (hc : s.calls.get? c = some call)
      (hw : call.isWaiting = true) (hf : s.futures.get? c = some (.result gw)) :
      Change s (.claim c ⟨gw, call.modelId⟩) (s.returnToken c call gw true)
  | recover {c : CallId} {call : Call} {gw : GatewayId} (hc : s.calls.get? c = some call)
      (hw : call.isWaiting = true) (hf : s.futures.get? c = some (.result gw)) (e : AcquireError) :
      Change s (.recover c ⟨gw, call.modelId⟩)
        ((s.recoverLeakedSlot ⟨gw, call.modelId⟩).setPhase c call (.raised e))
  | raise {c : CallId} {call : Call} (hc : s.calls.get? c = some call)
      (hw : call.isWaiting = true) (hf : ∀ gw, s.futures.get? c ≠ some (.result gw))
      (hq : DistinctIds s → ∀ m, ∀ w ∈ s.queue m, w.future ≠ c) (e : AcquireError) :
      Change s (.raise c) (s.setPhase c call (.raised e))
  | release {c : CallId} {token : Token} (ht : s.tokens.get? c = some token)
      (hl : token.released = false) :
      Change s (.release c ⟨token.gatewayId, token.modelId⟩)
        (({ s with tokens := s.tokens.set c { token with released := true } }.decrement
          ⟨token.gatewayId, token.modelId⟩).cleanupDrained ⟨token.gatewayId, token.modelId⟩)
  | reset (slots : Slot → Bool) {i : Dict Slot ℤ}
      (hi : ∀ slot, i.getD slot 0 = if slots slot then 0 else s.inFlight.getD slot 0) :
      Change s (.reset slots) { s with inFlight := i }

/-- The changes as a transition system. -/
def changes : System State Event where
  init := pool.init
  step := Change

/-! ## The changes keep the queues well formed -/

namespace State

variable (s : State)

theorem decrement_eq (slot : Slot) : ∃ i l, s.decrement slot =
    { s with inFlight := i, slotLastChange := l } ∧ ∀ slot', i.getD slot' 0 =
      if slot' = slot ∧ 0 < s.inFlight.getD slot 0 then s.inFlight.getD slot 0 - 1
      else s.inFlight.getD slot' 0 := by
  unfold decrement
  by_cases h : s.inFlight.getD slot 0 ≤ 0
  · refine ⟨s.inFlight, s.slotLastChange, by rw [if_pos h], fun slot' => ?_⟩
    rw [if_neg fun hs => absurd hs.2 (not_lt.2 h)]
  · refine ⟨_, _, by rw [if_neg h], fun slot' => ?_⟩
    rw [Dict.getD_set]
    by_cases hs : slot' = slot
    · rw [if_pos hs, if_pos ⟨hs, not_le.1 h⟩]
    · rw [if_neg hs, if_neg fun hs' => hs hs'.1]

theorem cleanupDrained_eq (slot : Slot) : ∃ i k, s.cleanupDrained slot =
    { s with capacity := k, inFlight := i } ∧
      (∀ slot', i.getD slot' 0 = s.inFlight.getD slot' 0) ∧
      ∀ slot', k.getD slot' 0 = s.capacity.getD slot' 0 := by
  unfold cleanupDrained
  by_cases h : s.inFlight.getD slot 0 = 0 ∧ s.capacity.getD slot (-1) = 0
  · refine ⟨_, _, by rw [if_pos h], fun slot' => ?_, fun slot' => ?_⟩
    · rw [Dict.getD_erase]
      split
      · rw [‹slot' = slot›, h.1]
      · rfl
    · rw [Dict.getD_erase]
      split
      · rename_i hs
        have hk := h.2
        rw [Dict.getD_eq] at hk ⊢
        rw [hs]
        cases hg : s.capacity.get? slot with
        | none => rfl
        | some k => rw [hg] at hk; exact hk.symm
      · rfl
  · exact ⟨s.inFlight, s.capacity, by rw [if_neg h], fun _ => rfl, fun _ => rfl⟩

theorem releaseSlot_eq (tokens : Dict CallId Token) (slot : Slot) : ∃ i k l,
    ({ s with tokens := tokens }.decrement slot).cleanupDrained slot =
      { s with tokens := tokens, capacity := k, inFlight := i, slotLastChange := l } ∧
      (∀ slot', i.getD slot' 0 =
        if slot' = slot ∧ 0 < s.inFlight.getD slot 0 then s.inFlight.getD slot 0 - 1
        else s.inFlight.getD slot' 0) ∧
      ∀ slot', k.getD slot' 0 = s.capacity.getD slot' 0 := by
  obtain ⟨i, l, he, hi⟩ := decrement_eq { s with tokens := tokens } slot
  rw [he]
  obtain ⟨i', k, he', hi', hk⟩ := cleanupDrained_eq { s with
    tokens := tokens, inFlight := i, slotLastChange := l } slot
  rw [he']
  exact ⟨i', k, l, rfl, fun slot' => (hi' slot').trans (hi slot'), hk⟩

theorem recoverLeakedSlot_eq (slot : Slot) : ∃ i l, s.recoverLeakedSlot slot =
    { s with inFlight := i, dispatchTasks := l } ∧ (∀ slot', i.getD slot' 0 =
      if slot' = slot ∧ 0 < s.inFlight.getD slot 0 then s.inFlight.getD slot 0 - 1
      else s.inFlight.getD slot' 0) := by
  unfold recoverLeakedSlot
  by_cases h : s.inFlight.getD slot 0 ≤ 0
  · refine ⟨s.inFlight, s.dispatchTasks, by rw [if_pos h], fun slot' => ?_⟩
    rw [if_neg fun hs => absurd hs.2 (not_lt.2 h)]
  · refine ⟨_, _, by rw [if_neg h]; rfl, fun slot' => ?_⟩
    rw [Dict.getD_set]
    by_cases hs : slot' = slot
    · rw [if_pos hs, if_pos ⟨hs, not_le.1 h⟩]
    · rw [if_neg hs, if_neg fun hs' => hs hs'.1]

end State

namespace WellFormed

variable {s t : State}

theorem frame (h : WellFormed s) (hf : Frame s t) : WellFormed t :=
  h.of_eq hf.queue hf.futures hf.calls hf.tokens hf.nextCall fun slot =>
    (hf.inFlight slot).symm ▸ h.inFlight_nonneg slot

theorem queue_lt (h : WellFormed s) {m : ModelId} {w : Waiter} (hw : w ∈ s.queue m) :
    w.future < s.nextCall := by
  obtain ⟨call, hc, -⟩ := h.queue_call m w hw
  exact h.call_lt _ _ hc

theorem not_queued (h : WellFormed s) {c : CallId} {gw : GatewayId}
    (hf : s.futures.get? c = some (.result gw)) (m : ModelId) (w : Waiter) (hw : w ∈ s.queue m) :
    w.future ≠ c := by
  rintro rfl
  exact absurd ((h.queue_pending m w hw).symm.trans hf) (by simp)

theorem inFlight_reserve_nonneg (h : WellFormed s) (slot slot' : Slot) :
    0 ≤ (s.reserve slot).inFlight.getD slot' 0 := by
  have := h.inFlight_nonneg slot'
  rw [inFlight_reserve]
  split <;> omega

theorem admitted (h : WellFormed s) {m : ModelId} {w : Waiter} {gw : GatewayId}
    {qs : Dict ModelId (List Waiter)} (hw : w ∈ s.queue m)
    (hqs : ∀ m', (qs.get? m').getD [] = if m' = m then (s.queue m).erase w else s.queue m') :
    WellFormed { s.reserve ⟨gw, m⟩ with
      queues := qs, futures := s.futures.set w.future (.result gw) } := by
  refine h.of_queue_sublist (fun m' => ?_) (fun m' w' hw' => ?_) (fun c f hf => ?_) rfl rfl rfl
    (h.inFlight_reserve_nonneg _)
  · change ((qs.get? m').getD []).Sublist _
    rw [hqs]
    split
    · subst m'; exact List.erase_sublist
    · exact .refl _
  · refine Dict.get?_set_ne _ (fun he => ?_) _
    have hw'' : w' ∈ (qs.get? m').getD [] := hw'
    rw [hqs] at hw''
    split at hw''
    · subst m'
      obtain rfl := h.waiter_unique (List.mem_of_mem_erase hw'') hw he
      exact (h.queue_nodup m).not_mem_erase hw''
    · exact absurd (h.queue_unique hw'' hw he) ‹_›
  · rw [Dict.get?_set] at hf
    split at hf
    · subst c
      obtain ⟨call, hc, -⟩ := h.queue_call m w hw
      exact ⟨call, hc⟩
    · exact h.future_call c f hf

/-- **Every change keeps the queues well formed.** -/
theorem change {e : Event} (h : WellFormed s) (hst : Change s e t) : WellFormed t := by
  cases hst with
  | quiet hf _ => exact h.frame hf
  | capacity hf => exact h.frame hf
  | refuse call e => exact h.newCall call _
  | enqueue call u =>
    refine (h.newCall call (.waiting u false)).enqueue (Dict.get?_set_self _ _ _) rfl rfl rfl ?_
    exact fun m' w' hw' => h.queue_lt hw'
  | grant call hroom =>
    exact (h.newCall call .returned).setToken (Dict.get?_set_self _ _ _) rfl _
      |>.of_eq (fun _ => rfl) rfl rfl rfl rfl (h.inFlight_reserve_nonneg _)
  | admitted hw _ _ hqs => exact h.admitted hw hqs
  | remove rid _ => exact h.removeWaiter rid _
  | rewait hc hw u b | raise hc hw _ _ e => exact h.setPhase hc hw _
  | claim hc hw _ => exact h.returnToken hc hw _ _
  | recover hc hw _ e =>
    obtain ⟨i, l, he, hi⟩ := recoverLeakedSlot_eq s ⟨_, _⟩
    have hnn : ∀ slot, 0 ≤ i.getD slot 0 := fun slot => by
      have := h.inFlight_nonneg slot
      rw [hi]
      split <;> omega
    rw [he]
    exact (h.of_eq (fun _ => rfl) rfl rfl rfl rfl hnn : WellFormed { s with
      inFlight := i, dispatchTasks := l }).setPhase hc hw _
  | release ht _ =>
    obtain ⟨call, hc, hp⟩ := h.token_call _ _ ht
    obtain ⟨i, k, l, he, hi, -⟩ := releaseSlot_eq s (s.tokens.set _ _) ⟨_, _⟩
    have hnn : ∀ slot, 0 ≤ i.getD slot 0 := fun slot => by
      have := h.inFlight_nonneg slot
      rw [hi]
      split <;> omega
    rw [he]
    exact (h.setToken hc hp _).of_eq (fun _ => rfl) rfl rfl rfl rfl hnn
  | reset slots hi =>
    refine h.of_eq (fun _ => rfl) rfl rfl rfl rfl fun slot => ?_
    have := h.inFlight_nonneg slot
    change 0 ≤ Dict.getD _ slot 0
    rw [hi]
    split <;> omega

end WellFormed

/-! ## Dispatches as paths of changes -/

/-- What a dispatch changes: it admits queued waiters, and if it is steady, then each of them only
when no waiter ahead of it can be served. -/
def DispatchPermits (steady : Prop) (u : State) (e : Event) : Prop :=
  e = .quiet ∨ ∃ c slot, e = .admitted c slot ∧ (steady →
    ∀ w ∈ u.queue slot.modelId, w.future < c → u.Unservable slot.modelId w)

theorem Frame.expirePause_tick (s : State) (dt : Time) (m : ModelId) :
    Frame s ((s.tick dt).expirePause m) := by
  obtain ⟨p, q, he⟩ := expirePause_eq (s.tick dt) m
  rw [he]
  exact ⟨fun _ => rfl, rfl, rfl, rfl, rfl, fun _ => rfl⟩

theorem expirePause_tick_queues (s : State) (qs : Dict ModelId (List Waiter)) (dt : Time)
    (m : ModelId) : ({ s with queues := qs }.tick dt).expirePause m =
      { (s.tick dt).expirePause m with queues := qs } := by
  unfold expirePause isPaused tick
  cases s.pausedUntil.get? m with
  | none => rfl
  | some d => dsimp only; split <;> rfl

theorem expirePause_tick_nextCall (s : State) (n : CallId) (dt : Time) (m : ModelId) :
    ({ s with nextCall := n }.tick dt).expirePause m =
      { (s.tick dt).expirePause m with nextCall := n } := by
  unfold expirePause isPaused tick
  cases s.pausedUntil.get? m with
  | none => rfl
  | some d => dsimp only; split <;> rfl

theorem capacity_expirePause_tick (s : State) (dt : Time) (m : ModelId) :
    ((s.tick dt).expirePause m).capacity = s.capacity := by
  obtain ⟨p, q, he⟩ := expirePause_eq (s.tick dt) m
  rw [he]
  rfl

theorem Change.expirePause_tick (s : State) (dt : Time) (m : ModelId) :
    Change s .quiet ((s.tick dt).expirePause m) :=
  .quiet (.expirePause_tick s dt m) fun _ => by rw [capacity_expirePause_tick]

/-- What the loop of `_dispatch` knows of the waiters it has retained so far: none of them can be
served, or the pause lasts through the loop. -/
def Blocked (s : State) (ρ : ℕ → Reading) (m : ModelId) (retained : List Waiter) (n : ℕ) : Prop :=
  s.PausedThroughout ρ m n ∨ s.Steady ρ m n ∧ ∀ w ∈ retained, s.Unservable m w

theorem Blocked.refused {s : State} {ρ : ℕ → Reading} {m : ModelId} {retained : List Waiter}
    {w : Waiter} {n : ℕ} (h : Blocked s ρ m retained (n + 1))
    (hno : (s.tick (ρ 0).delay).Paused m ∨ s.Unservable m w) :
    Blocked ((s.tick (ρ 0).delay).expirePause m) (fun i => ρ (i + 1)) m (retained ++ [w]) n := by
  rcases h with h | ⟨hs, hu⟩
  · exact .inl h.next
  rcases hno with hp | hno
  · exact .inl (hs.pausedThroughout hp).next
  refine .inr ⟨hs.next, fun w' hw' gw hgw => ?_⟩
  rw [available_expirePause_tick]
  rcases List.mem_append.1 hw' with hw' | hw'
  · exact hu w' hw' gw hgw
  · obtain rfl := List.mem_singleton.1 hw'
    exact hno gw hgw

theorem Blocked.admitted {s : State} {ρ : ℕ → Reading} {m : ModelId} {retained : List Waiter}
    {n : ℕ} (h : Blocked s ρ m retained (n + 1)) (hp : ¬ (s.tick (ρ 0).delay).Paused m)
    (w : Waiter) (gw : GatewayId) :
    Blocked (s.admitWaiter (ρ 0) m w gw) (fun i => ρ (i + 1)) m retained n := by
  rcases h with h | ⟨-, hu⟩
  · exact absurd h.paused hp
  refine .inr ⟨steady_of_pausedUntil_none (pausedUntil_expirePause_self hp), fun w' hw' gw' hgw' => ?_⟩
  exact (available_admitWaiter_le _ _ _ _ _).trans (hu w' hw' gw' hgw')

theorem mem_of_future_lt {pre rest : List Waiter} {w w' : Waiter}
    (hs : (pre ++ w :: rest).Pairwise fun w w' => w.future < w'.future)
    (hw' : w' ∈ pre ++ w :: rest) (hlt : w'.future < w.future) : w' ∈ pre := by
  rcases List.mem_append.1 hw' with h | h
  · exact h
  rcases List.mem_cons.1 h with rfl | h
  · exact absurd hlt (lt_irrefl _)
  · exact absurd hlt (List.rel_of_pairwise_cons (List.pairwise_append.1 hs).2.1 h).not_gt

theorem dispatchLoop_path {m : ModelId} {steady : Prop} (ρ : ℕ → Reading) (q : List Waiter)
    (s : State) : ∀ pre qs qs', WellFormed { s with queues := qs } →
      (qs.get? m).getD [] = pre ++ q → (steady → Blocked s ρ m pre q.length) →
      (∀ m', (qs'.get? m').getD [] =
        if m' = m then pre ++ (dispatchLoop m ρ q s).1 else (qs.get? m').getD []) →
      (changes.restrict (DispatchPermits steady)).Path { s with queues := qs }
        { (dispatchLoop m ρ q s).2 with queues := qs' } := by
  refine dispatchLoop_rec (motive := fun ρ q s u t => ∀ pre qs qs',
    WellFormed { s with queues := qs } → (qs.get? m).getD [] = pre ++ q →
    (steady → Blocked s ρ m pre q.length) →
    (∀ m', (qs'.get? m').getD [] = if m' = m then pre ++ u else (qs.get? m').getD []) →
    (changes.restrict (DispatchPermits steady)).Path { s with queues := qs }
      { t with queues := qs' }) ?_ ?_ ?_ ?_ ρ q s
  · intro ρ s pre qs qs' _ hq _ hqs'
    refine .single ⟨.inl rfl, .quiet ⟨fun m' => ?_, rfl, rfl, rfl, rfl, fun _ => rfl⟩ fun _ => rfl⟩
    change (qs'.get? m').getD [] = (qs.get? m').getD []
    rw [hqs']
    split
    · subst m'; exact hq.symm
    · rfl
  · -- a queued waiter's future is pending
    intro ρ w rest s u t hd _ pre qs qs' hwf hq _ _
    have hw : w ∈ ({ s with queues := qs } : State).queue m := by
      change w ∈ (qs.get? m).getD []
      rw [hq]
      exact List.mem_append_right _ List.mem_cons_self
    have hp := hwf.queue_pending m w hw
    simp only [futureDone, ne_eq, decide_eq_true_eq] at hd
    exact absurd hp hd
  · intro ρ w rest s u t _ hno ih pre qs qs' hwf hq hb hqs'
    have hch := Change.expirePause_tick { s with queues := qs } (ρ 0).delay m
    rw [expirePause_tick_queues] at hch
    refine .trans (.single ⟨.inl rfl, hch⟩) ?_
    refine ih (pre ++ [w]) qs qs' (hwf.change hch) (by simp [hq]) (fun hs => (hb hs).refused hno) ?_
    simpa using hqs'
  · intro ρ w rest s gw u t _ hgw hp hroom ih pre qs qs' hwf hq hb hqs'
    have hch := Change.expirePause_tick { s with queues := qs } (ρ 0).delay m
    rw [expirePause_tick_queues] at hch
    set s₁ := (s.tick (ρ 0).delay).expirePause m with hs₁
    have hfut : s₁.futures = s.futures := (Frame.expirePause_tick s _ m).futures
    have hav : ∀ gw, s₁.available gw m = s.available gw m := fun gw =>
      available_expirePause_tick _ _ _
    have hwf₁ := hwf.change hch
    have hqm : ({ s₁ with queues := qs } : State).queue m = pre ++ w :: rest := hq
    have herase : (pre ++ w :: rest).erase w = pre ++ rest := by
      have hnd := hwf₁.queue_nodup m
      rw [hqm, List.nodup_middle, List.nodup_cons, List.mem_append, not_or] at hnd
      rw [List.erase_append_right _ hnd.1.1, List.erase_cons_head]
    have hqs₁ : ∀ m', ((qs.set m (pre ++ rest)).get? m').getD [] =
        if m' = m then (({ s₁ with queues := qs } : State).queue m).erase w
        else ({ s₁ with queues := qs } : State).queue m' := fun m' => by
      rw [Dict.get?_set, hqm, herase]
      split <;> rfl
    have hadm : Change { s₁ with queues := qs } (.admitted w.future ⟨gw, m⟩)
        { s.admitWaiter (ρ 0) m w gw with queues := qs.set m (pre ++ rest) } := by
      rw [admitWaiter, ← hs₁, ← hfut]
      exact .admitted (s := { s₁ with queues := qs }) (w := w)
        (hqm ▸ List.mem_append_right _ List.mem_cons_self) hgw
        ((available_pos_iff s₁ m).1 (by rwa [hav])) hqs₁
    refine .trans (.single ⟨.inl rfl, hch⟩) (.trans (.single ⟨.inr ⟨_, _, rfl, ?_⟩, hadm⟩) ?_)
    · intro hs w' hw' hlt gw' hgw'
      rcases hb hs with h | ⟨-, hu⟩
      · exact absurd h.paused hp
      · have hmem := mem_of_future_lt (hqm ▸ hwf₁.queue_sorted m) (hqm ▸ hw') hlt
        exact (hav gw').trans_le (hu w' hmem gw' hgw')
    · refine ih pre _ qs' (hwf₁.change hadm) (by simp) (fun hs => (hb hs).admitted hp w gw) fun m' => ?_
      rw [hqs', Dict.get?_set]
      split <;> rfl

theorem dispatch_path {s : State} (h : WellFormed s) (ρ : ℕ → Reading) (m : ModelId) :
    (changes.restrict (DispatchPermits (s.Steady ρ m (s.queue m).length))).Path s
      (s.dispatch ρ m) := by
  obtain ⟨qs, he, hqs⟩ := dispatch_eq m ρ s
  rw [he]
  refine dispatchLoop_path ρ (s.queue m) s [] s.queues qs h rfl (fun hs => .inr ⟨hs, ?_⟩) hqs
  exact fun w hw => by cases hw

/-- No dispatch of the sequence straddles the deadline of a pause. -/
def SteadyAll : (ℕ → ℕ → Reading) → List ModelId → State → Prop
  | _, [], _ => True
  | ρ, m :: ms, s => s.Steady (ρ 0) m (s.queue m).length ∧
    SteadyAll (fun i => ρ (i + 1)) ms (s.dispatch (ρ 0) m)

theorem DispatchPermits.mono {p q : Prop} (hpq : q → p) (u : State) (e : Event)
    (h : DispatchPermits p u e) : DispatchPermits q u e := by
  rcases h with rfl | ⟨c, slot, rfl, h⟩
  · exact .inl rfl
  · exact .inr ⟨c, slot, rfl, fun hq => h (hpq hq)⟩

/-- Every path of elementary changes keeps the invariant. -/
theorem WellFormed.path {P : State → Event → Prop} {s t : State} (h : WellFormed s)
    (hp : (changes.restrict P).Path s t) : WellFormed t :=
  hp.invariant (fun _ _ _ hu hst => hu.change hst.2) h

theorem dispatchAll_path {s : State} (h : WellFormed s) (ρ : ℕ → ℕ → Reading) (ms : List ModelId) :
    (changes.restrict (DispatchPermits (SteadyAll ρ ms s))).Path s (dispatchAll ρ ms s) := by
  induction ms generalizing ρ s with
  | nil => exact .refl s
  | cons m ms ih =>
    have hd := dispatch_path h (ρ 0) m
    exact (hd.mono (.mono And.left)).trans ((ih (h.path hd) _).mono (.mono And.right))

/-! ## Waiting calls -/

/-- The changes of a call that gives up no slot. -/
def Event.ofWait : Event → Bool
  | .remove | .rewait _ | .claim _ _ | .raise _ => true
  | _ => false

section

variable {s : State} {c : CallId} {call : Call}

theorem not_queued_of_removeWaiter (h : WellFormed s) (hd : DistinctIds s)
    (hc : s.calls.get? c = some call) (outcome : Future) (m : ModelId) (w : Waiter)
    (hw : w ∈ (s.removeWaiter call.requestId outcome).2.queue m) : w.future ≠ c := by
  rintro rfl
  rcases h.removeWaiter_cases call.requestId outcome with
    ⟨he, hno⟩ | ⟨m₀, w₀, qs, hw₀, hrid, he, hsub, hgone⟩
  · rw [he] at hw
    obtain ⟨call', hc', hr, -⟩ := h.queue_call m w hw
    obtain rfl : call = call' := Option.some.inj (hc.symm.trans hc')
    exact hno m w hw hr.symm
  · rw [he] at hw
    obtain ⟨call', hc', hr, -⟩ := h.queue_call m₀ w₀ hw₀
    exact hgone m w hw (hd _ _ _ _ hc hc' (by rw [hr, hrid]))

theorem futures_removeWaiter_ne_result (h : WellFormed s) {outcome : Future}
    (ho : outcome.isWithdrawn = true) (rid : RequestId)
    (hf : ∀ gw, s.futures.get? c ≠ some (.result gw)) (gw : GatewayId) :
    (s.removeWaiter rid outcome).2.futures.get? c ≠ some (.result gw) := by
  rcases h.removeWaiter_cases rid outcome with ⟨he, -⟩ | ⟨m₀, w₀, qs, -, -, he, -⟩
  · rw [he]
    exact hf gw
  · rw [he, Dict.get?_set]
    split
    · rintro hr
      obtain rfl := Option.some.inj hr
      cases ho
    · exact hf gw

theorem calls_removeWaiter (s : State) (rid : RequestId) (outcome : Future) :
    (s.removeWaiter rid outcome).2.calls = s.calls := by
  unfold removeWaiter
  cases s.findWaiter rid <;> rfl

theorem withdraw_path (h : WellFormed s) (hc : s.calls.get? c = some call)
    (hw : call.isWaiting = true) (hf : ∀ gw, s.futures.get? c ≠ some (.result gw))
    (e : AcquireError) : (changes.restrict fun _ e => e.ofWait = true).Path s
      ((s.removeWaiter call.requestId .cancelled).2.setPhase c call (.raised e)) := by
  have hcalls := calls_removeWaiter s call.requestId .cancelled
  have hrem : Change s .remove (s.removeWaiter call.requestId .cancelled).2 := .remove _ rfl
  refine .trans (.single ⟨rfl, hrem⟩) (.single (a := .raise c) ⟨rfl, ?_⟩)
  refine .raise (hcalls ▸ hc) hw (futures_removeWaiter_ne_result h rfl _ hf) (fun hd => ?_) e
  rw [DistinctIds, hcalls] at hd
  exact not_queued_of_removeWaiter h hd hc _

theorem raise_path (h : WellFormed s) (hc : s.calls.get? c = some call)
    (hw : call.isWaiting = true) {reason : String}
    (hf : s.futures.get? c = some (.exception reason)) (e : AcquireError) :
    (changes.restrict fun _ e => e.ofWait = true).Path s (s.setPhase c call (.raised e)) := by
  refine .single ⟨rfl, .raise hc hw (fun gw hr => ?_) (fun _ m w hwq he => ?_) e⟩
  · rw [hf] at hr
    cases hr
  · have := h.queue_pending m w hwq
    rw [he, hf] at this
    cases this

theorem onCancelled_path (h : WellFormed s) (hc : s.calls.get? c = some call)
    (hw : call.isWaiting = true) (hf : ∀ gw, s.futures.get? c ≠ some (.result gw)) :
    (changes.restrict fun _ e => e.ofWait = true).Path s (s.onCancelled c call) := by
  unfold onCancelled
  split
  · exact absurd ‹_› (hf _)
  · exact raise_path h hc hw ‹_› _
  · exact withdraw_path h hc hw hf _

theorem waitLoop_path (h : WellFormed s) (hc : s.calls.get? c = some call)
    (hw : call.isWaiting = true) :
    (changes.restrict fun _ e => e.ofWait = true).Path s (s.waitLoop c call) := by
  unfold waitLoop
  split
  · exact .single ⟨rfl, .claim hc hw ‹_›⟩
  · rename_i hr
    exact onCancelled_path h hc hw fun gw hr' => by rw [hr] at hr'; cases hr'
  · rename_i hr _
    by_cases hdl : call.waitDeadline.any (· ≤ s.now) = true
    · rw [if_pos hdl]
      exact withdraw_path h hc hw hr _
    rw [if_neg hdl]
    by_cases hx : s.futures.get? c = some .cancelled
    · rw [if_pos hx]
      exact onCancelled_path h hc hw hr
    · rw [if_neg hx]
      exact .single ⟨rfl, .rewait hc hw _ _⟩

end

/-! ## What each action can change -/

/-- The actions that set capacities. -/
def Action.setsCapacity : Action → Bool
  | .setCapacity .. | .removeGateway _ | .removeModel .. | .resetColdSlot .. => true
  | _ => false

/-- The actions that dispatch before they end. -/
def Action.dispatches : Action → Bool
  | .release .. | .runDispatch .. | .resourceUpdate _ | .resumeAfter .. | .reconcile .. => true
  | _ => false

/-- The actions that set counts to zero. -/
def Action.resets : Action → Bool
  | .resetColdSlot .. | .reconcile .. => true
  | _ => false

/-- The slots whose counts an action sets to zero. -/
def resetSlots (s : State) : Action → Slot → Bool
  | .resetColdSlot gw m _, slot => slot = ⟨gw, m⟩
  | .reconcile gw ms _, slot =>
    slot.gatewayId = gw ∧ slot.modelId ∈ ms ∧ 0 < s.inFlight.getD slot 0
  | _, _ => false

/-- No dispatch the action makes straddles the deadline of a pause. -/
def SteadyAction (s : State) : Action → Prop
  | .release c ρ => ∀ token ∈ s.tokens.get? c, token.released = false →
    s.Steady ρ token.modelId (s.queue token.modelId).length
  | .runDispatch m ρ => s.Steady ρ m (s.queue m).length
  | .resourceUpdate ρ => SteadyAll ρ (s.queues.items.map Prod.fst) s
  | .reconcile gw ms ρ => SteadyAll ρ (reconcileLoop gw ms s).1 (reconcileLoop gw ms s).2
  | _ => True

instance (s : State) (ρ : ℕ → Reading) (m : ModelId) (n : ℕ) : Decidable (s.Steady ρ m n) :=
  inferInstanceAs (Decidable (∀ d ∈ s.pausedUntil.get? m,
    d ≤ clockAt s.now ρ 0 ∨ ∀ i < n, clockAt s.now ρ i < d))

instance SteadyAll.decidable : ∀ ρ ms s, Decidable (SteadyAll ρ ms s)
  | _, [], _ => .isTrue trivial
  | ρ, m :: ms, s =>
    have := SteadyAll.decidable (fun i => ρ (i + 1)) ms (s.dispatch (ρ 0) m)
    inferInstanceAs (Decidable (s.Steady (ρ 0) m (s.queue m).length ∧
      SteadyAll (fun i => ρ (i + 1)) ms (s.dispatch (ρ 0) m)))

instance SteadyAction.decidable (s : State) : ∀ a, Decidable (SteadyAction s a)
  | .release c ρ => inferInstanceAs (Decidable (∀ token ∈ s.tokens.get? c, token.released = false →
    s.Steady ρ token.modelId (s.queue token.modelId).length))
  | .runDispatch m ρ => inferInstanceAs (Decidable (s.Steady ρ m (s.queue m).length))
  | .resourceUpdate ρ => SteadyAll.decidable ρ (s.queues.items.map Prod.fst) s
  | .reconcile gw ms ρ => SteadyAll.decidable ρ (reconcileLoop gw ms s).1 (reconcileLoop gw ms s).2
  | .acquireToken .. | .cancelTask _ | .wake _ | .sliceTimeout _ | .deliverCancel _
  | .setCapacity .. | .removeGateway _ | .removeModel .. | .pauseAdmission .. | .resumeAdmission _
  | .resumeAfter .. | .isPaused _ | .cancelRequest .. | .resetColdSlot .. | .tick _ =>
    .isTrue trivial

/-- The action is an `acquire_token` call with the arguments of `call`, and `u` is the state after
its pause check. -/
def Arrival (s : State) (a : Action) (u : State) (call : Call) (r : Reading) : Prop :=
  (∃ timeout, a = .acquireToken call.requestId call.modelId call.allowed timeout r) ∧
    u = (s.tick r.delay).expirePause call.modelId

/-- The changes the action `a`, taken in `s`, can make in the state `u` on its way. -/
def Permits (s : State) (a : Action) (u : State) : Event → Prop
  | .capacity => a.setsCapacity = true
  | .refuse call => ∃ r, Arrival s a u call r
  | .enqueue call => ∃ r, Arrival s a u call r
  | .grant call gw => gw ∈ call.allowed ∧
    ∃ r, Arrival s a u call r ∧ ¬ (s.tick r.delay).Paused call.modelId
  | .admitted c slot => a.dispatches = true ∧ (SteadyAction s a →
    ∀ w ∈ u.queue slot.modelId, w.future < c → u.Unservable slot.modelId w)
  | .recover c _ => u = s ∧ a = .deliverCancel c
  | .release c _ => u = s ∧ ∃ ρ, a = .release c ρ
  | .reset slots => a.resets = true ∧ u = s ∧ slots = resetSlots s a
  | _ => True

section

variable {s t : State} {a : Action}

theorem permits_of_ofWait (u : State) (e : Event) (h : e.ofWait = true) : Permits s a u e := by
  cases e <;> trivial

theorem permits_of_dispatchPermits {steady : Prop} (ha : a.dispatches = true)
    (hs : SteadyAction s a → steady) (u : State) (e : Event) (h : DispatchPermits steady u e) :
    Permits s a u e := by
  rcases h with rfl | ⟨c, slot, rfl, h⟩
  · trivial
  · exact ⟨ha, fun hsa => h (hs hsa)⟩

theorem resume_eq_some {c : CallId} {next : Call → Time → Bool → Option State}
    (h : s.resume c next = some t) : ∃ call sliceUntil cancelRequested,
      s.calls.get? c = some call ∧ call.phase = .waiting sliceUntil cancelRequested ∧
      next call sliceUntil cancelRequested = some t := by
  unfold resume at h
  split at h
  · cases h
  · rename_i call hc
    split at h
    · exact ⟨call, _, _, hc, ‹_›, h⟩
    · cases h

/-- What a step does, with the conditions under which its section runs. -/
inductive Steps (s : State) : Action → State → Prop
  | acquireToken (rid : RequestId) (m : ModelId) (allowed : List GatewayId) (timeout : Option Time) (r : Reading) :
      Steps s (.acquireToken rid m allowed timeout r) (s.acquireToken rid m allowed timeout r)
  | cancelTask {c : CallId} {call : Call} {u : Time} {b : Bool} (hc : s.calls.get? c = some call)
      (hp : call.phase = .waiting u b) : Steps s (.cancelTask c) (s.setPhase c call (.waiting u true))
  | wakeGranted {c : CallId} {call : Call} {u : Time} {b : Bool} {gw : GatewayId} (hc : s.calls.get? c = some call)
      (hp : call.phase = .waiting u b) (hf : s.futures.get? c = some (.result gw)) :
      Steps s (.wake c) (s.returnToken c call gw true)
  | wakeCancelled {c : CallId} {call : Call} {u : Time} {b : Bool} (hc : s.calls.get? c = some call)
      (hp : call.phase = .waiting u b) (hf : ∀ gw, s.futures.get? c ≠ some (.result gw)) :
      Steps s (.wake c) (s.onCancelled c call)
  | sliceTimeout {c : CallId} {call : Call} {u : Time} {b : Bool} (hc : s.calls.get? c = some call)
      (hp : call.phase = .waiting u b) : Steps s (.sliceTimeout c) (s.waitLoop c call)
  | deliverCancel {c : CallId} {call : Call} {u : Time} {b : Bool} (hc : s.calls.get? c = some call)
      (hp : call.phase = .waiting u b) : Steps s (.deliverCancel c) (s.onCancelled c call)
  | release {c : CallId} {token : Token} (ρ : ℕ → Reading) (ht : s.tokens.get? c = some token) :
      Steps s (.release c ρ) (s.release ρ c token)
  | runDispatch (m : ModelId) (ρ : ℕ → Reading) :
      Steps s (.runDispatch m ρ) ({ s with dispatchTasks := s.dispatchTasks.erase m }.dispatch ρ m)
  | resourceUpdate (ρ : ℕ → ℕ → Reading) :
      Steps s (.resourceUpdate ρ) (dispatchAll ρ (s.queues.items.map Prod.fst) s)
  | setCapacity (gw : GatewayId) (m : ModelId) (n : ℤ) : Steps s (.setCapacity gw m n) (s.setCapacity gw m n)
  | removeGateway (gw : GatewayId) : Steps s (.removeGateway gw) (s.removeGateway gw)
  | removeModel (gw : GatewayId) (m : ModelId) (h : s.capacity.contains ⟨gw, m⟩ = true) :
      Steps s (.removeModel gw m) (s.removeSlot ⟨gw, m⟩)
  | removeNoModel (gw : GatewayId) (m : ModelId) (h : ¬ s.capacity.contains ⟨gw, m⟩ = true) :
      Steps s (.removeModel gw m) s
  | pauseAdmission (m : ModelId) (duration : Time) : Steps s (.pauseAdmission m duration) (s.pauseAdmission m duration).2
  | resumeAdmission (m : ModelId) : Steps s (.resumeAdmission m) (s.resumeAdmission m).2
  | resumeAfter (m : ModelId) (ρ : ℕ → Reading) (h : (s.resumeTasks.get? m).any (· ≤ s.now) = true) :
      Steps s (.resumeAfter m ρ) (s.resumeAfter ρ m)
  | isPaused (m : ModelId) : Steps s (.isPaused m) (s.expirePause m)
  | cancelRequest (rid : RequestId) (reason : String) :
      Steps s (.cancelRequest rid reason) (s.cancelRequest rid reason).2
  | reconcile (gw : GatewayId) (ms : List ModelId) (ρ : ℕ → ℕ → Reading) :
      Steps s (.reconcile gw ms ρ) (s.reconcileGatewayState ρ gw ms)
  | resetColdSlot (gw : GatewayId) (m : ModelId) (n : ℤ) : Steps s (.resetColdSlot gw m n) (s.resetColdSlot gw m n)
  | tick {dt : Time} (h : 0 ≤ dt) : Steps s (.tick dt) (s.tick dt)

/-- **The cases of a step.** -/
theorem steps_of_step (hst : s.step a = some t) : Steps s a t := by
  cases a with
  | acquireToken rid m allowed timeout r =>
    obtain rfl := Option.some.inj hst
    exact .acquireToken rid m allowed timeout r
  | cancelTask c =>
    obtain ⟨call, u, b, hc, hp, hst⟩ := resume_eq_some hst
    obtain rfl := Option.some.inj hst
    exact .cancelTask hc hp
  | wake c =>
    obtain ⟨call, u, b, hc, hp, hst⟩ := resume_eq_some hst
    split at hst
    · obtain rfl := Option.some.inj hst
      split
      · exact .wakeGranted hc hp ‹_›
      · exact .wakeCancelled hc hp ‹_›
    · cases hst
  | sliceTimeout c =>
    obtain ⟨call, u, b, hc, hp, hst⟩ := resume_eq_some hst
    split at hst
    · obtain rfl := Option.some.inj hst
      exact .sliceTimeout hc hp
    · cases hst
  | deliverCancel c =>
    obtain ⟨call, u, b, hc, hp, hst⟩ := resume_eq_some hst
    split at hst
    · obtain rfl := Option.some.inj hst
      exact .deliverCancel hc hp
    · cases hst
  | release c ρ =>
    obtain ⟨token, ht, rfl⟩ := Option.map_eq_some_iff.1 hst
    exact .release ρ ht
  | runDispatch m ρ =>
    simp only [State.step] at hst
    split at hst
    · obtain rfl := Option.some.inj hst
      exact .runDispatch m ρ
    · cases hst
  | resourceUpdate ρ =>
    obtain rfl := Option.some.inj hst
    exact .resourceUpdate ρ
  | setCapacity gw m n =>
    obtain rfl := Option.some.inj hst
    exact .setCapacity gw m n
  | removeGateway gw =>
    obtain rfl := Option.some.inj hst
    exact .removeGateway gw
  | removeModel gw m =>
    obtain rfl := Option.some.inj hst
    unfold State.removeModel
    split
    · exact .removeModel gw m ‹_›
    · exact .removeNoModel gw m ‹_›
  | pauseAdmission m duration =>
    obtain rfl := Option.some.inj hst
    exact .pauseAdmission m duration
  | resumeAdmission m =>
    obtain rfl := Option.some.inj hst
    exact .resumeAdmission m
  | resumeAfter m ρ =>
    simp only [State.step] at hst
    split at hst
    · obtain rfl := Option.some.inj hst
      exact .resumeAfter m ρ ‹_›
    · cases hst
  | isPaused m =>
    obtain rfl := Option.some.inj hst
    exact .isPaused m
  | cancelRequest rid reason =>
    obtain rfl := Option.some.inj hst
    exact .cancelRequest rid reason
  | reconcile gw ms ρ =>
    obtain rfl := Option.some.inj hst
    exact .reconcile gw ms ρ
  | resetColdSlot gw m n =>
    obtain rfl := Option.some.inj hst
    exact .resetColdSlot gw m n
  | tick dt =>
    simp only [State.step] at hst
    split at hst
    · obtain rfl := Option.some.inj hst
      exact .tick ‹_›
    · cases hst

theorem isWaiting_of_phase {call : Call} {u : Time} {b : Bool} (h : call.phase = .waiting u b) :
    call.isWaiting = true := by
  rw [Call.isWaiting, h]

/-- **The outcomes of `acquire_token`** up to its first suspension: an immediate grant, a full queue,
or a place at the end of the queue and a first turn of the wait loop. -/
theorem acquireToken_cases (s : State) (rid : RequestId) (m : ModelId) (allowed : List GatewayId)
    (timeout : Option Time) (r : Reading) : ∃ call s₁, call.requestId = rid ∧ call.modelId = m ∧
      call.allowed = allowed ∧
      call.waitDeadline = (timeout.map fun t => if t ≤ 0 then s.now else s.now + t) ∧
      s₁ = (s.tick r.delay).expirePause m ∧
      ((∃ gw ∈ allowed, ¬ (s.tick r.delay).Paused m ∧ 0 < s.available gw m ∧
          s.acquireToken rid m allowed timeout r =
            ({ s₁ with nextCall := s₁.nextCall + 1 }.reserve ⟨gw, m⟩).returnToken
              s₁.nextCall call gw false) ∨
        ((s.tick r.delay).Paused m ∨ ∀ gw ∈ allowed, s.available gw m ≤ 0) ∧
          ((0 < s.maxQueueDepth ∧ s.maxQueueDepth ≤ (s.queue m).length ∧
              s.acquireToken rid m allowed timeout r =
                { s₁ with nextCall := s₁.nextCall + 1 }.setPhase s₁.nextCall call
                  (.raised (.queueFull m (s.queue m).length s.maxQueueDepth))) ∨
            ¬ (0 < s.maxQueueDepth ∧ s.maxQueueDepth ≤ (s.queue m).length) ∧
            s.acquireToken rid m allowed timeout r =
              (({ s₁ with nextCall := s₁.nextCall + 1 }.setPhase s₁.nextCall call
                (.waiting s₁.now false)).enqueue m ⟨rid, allowed, s₁.nextCall⟩).waitLoop
                  s₁.nextCall { call with phase := .waiting s₁.now false })) := by
  refine ⟨⟨rid, m, allowed, timeout.map fun t => if t ≤ 0 then s.now else s.now + t,
    ((s.tick r.delay).expirePause m).now, .returned⟩, _, rfl, rfl, rfl, rfl, rfl, ?_⟩
  rw [(Frame.expirePause_tick s r.delay m).nextCall]
  unfold acquireToken
  dsimp only
  rcases tryImmediate_cases { s with nextCall := s.nextCall + 1 } m r allowed with
    ⟨hno, he⟩ | ⟨gw, hgw, hp, hroom, he⟩
  · rw [he, expirePause_tick_nextCall]
    refine .inr ⟨hno, ?_⟩
    obtain ⟨p, q, hs₁⟩ := expirePause_eq (s.tick r.delay) m
    rw [hs₁]
    dsimp only
    split
    · rename_i hfull
      exact .inl ⟨hfull.1, hfull.2, rfl⟩
    · rename_i hroom
      exact .inr ⟨hroom, rfl⟩
  · rw [he, expirePause_tick_nextCall]
    exact .inl ⟨gw, hgw, hp, hroom, rfl⟩

theorem acquireToken_path (h : WellFormed s) (rid : RequestId) (m : ModelId)
    (allowed : List GatewayId) (timeout : Option Time) (r : Reading) :
    (changes.restrict (Permits s (.acquireToken rid m allowed timeout r))).Path s
      (s.acquireToken rid m allowed timeout r) := by
  obtain ⟨call, s₁, rfl, rfl, rfl, -, hs₁, hcases⟩ :=
    acquireToken_cases s rid m allowed timeout r
  have hch : Change s .quiet s₁ := hs₁ ▸ .expirePause_tick s r.delay call.modelId
  refine .trans (.single (a := .quiet) ⟨trivial, hch⟩) ?_
  rcases hcases with ⟨gw, hgw, hp, hroom, he⟩ | ⟨-, ⟨-, -, he⟩ | ⟨-, he⟩⟩
  · rw [he]
    refine .single (a := .grant call gw) ⟨⟨hgw, r, ⟨⟨timeout, rfl⟩, hs₁⟩, hp⟩, .grant call ?_⟩
    rw [hs₁, (Frame.expirePause_tick s r.delay _).inFlight, capacity_expirePause_tick]
    exact (available_pos_iff s _).1 hroom
  · rw [he]
    exact .single (a := .refuse call) ⟨⟨r, ⟨timeout, rfl⟩, hs₁⟩, .refuse call _⟩
  · rw [he]
    have hen := Change.enqueue (s := s₁) call s₁.now
    refine .trans (.single (a := .enqueue call) ⟨⟨r, ⟨timeout, rfl⟩, hs₁⟩, hen⟩) ?_
    refine (waitLoop_path ((h.change hch).change hen) ?_ rfl).mono permits_of_ofWait
    exact Dict.get?_set_self _ _ _

theorem Frame.removeSlot (h : WellFormed s) (slot : Slot) : Frame s (s.removeSlot slot) := by
  unfold State.removeSlot
  split
  · exact ⟨fun _ => rfl, rfl, rfl, rfl, rfl, fun _ => rfl⟩
  · rename_i hi
    refine ⟨fun _ => rfl, rfl, rfl, rfl, rfl, fun slot' => ?_⟩
    have := h.inFlight_nonneg slot
    rw [Dict.getD_erase]
    split
    · subst slot'; omega
    · rfl

theorem foldl_removeSlot_path (ha : a.setsCapacity = true) (l : List Slot) :
    ∀ u, WellFormed u → (changes.restrict (Permits s a)).Path u (l.foldl State.removeSlot u) := by
  induction l with
  | nil => exact fun u _ => .refl u
  | cons slot l ih =>
    intro u hu
    have hch : Change u .capacity (u.removeSlot slot) := .capacity (.removeSlot hu slot)
    exact .trans (.single (a := .capacity) ⟨ha, hch⟩) (ih _ (hu.change hch))

theorem reconcileLoop_eq (gw : GatewayId) (ms : List ModelId) (s : State) :
    ∃ i, (reconcileLoop gw ms s).2 = { s with inFlight := i } ∧ ∀ slot, i.getD slot 0 =
      if slot.gatewayId = gw ∧ slot.modelId ∈ ms ∧ 0 < s.inFlight.getD slot 0 then 0
      else s.inFlight.getD slot 0 := by
  induction ms generalizing s with
  | nil => exact ⟨s.inFlight, rfl, fun slot => by simp⟩
  | cons m ms ih =>
    rw [reconcileLoop]
    by_cases hpos : 0 < s.inFlight.getD ⟨gw, m⟩ 0
    · rw [if_pos hpos]
      obtain ⟨i, he, hi⟩ := ih { s with inFlight := s.inFlight.set ⟨gw, m⟩ 0 }
      refine ⟨i, by rw [he], fun slot => ?_⟩
      rw [hi]
      simp only [Dict.getD_set]
      by_cases hs : slot = ⟨gw, m⟩
      · simp [hs, hpos]
      · have hne : slot.gatewayId = gw → slot.modelId ≠ m := by
          rintro rfl rfl
          exact hs rfl
        simp only [hs, if_false, List.mem_cons]
        by_cases hg : slot.gatewayId = gw
        · simp [hg, hne hg]
        · simp [hg]
    · rw [if_neg hpos]
      obtain ⟨i, he, hi⟩ := ih s
      refine ⟨i, he, fun slot => ?_⟩
      rw [hi]
      by_cases hs : slot = ⟨gw, m⟩
      · simp [hs, hpos]
      · have hne : slot.gatewayId = gw → slot.modelId ≠ m := by
          rintro rfl rfl
          exact hs rfl
        simp only [List.mem_cons]
        by_cases hg : slot.gatewayId = gw
        · simp [hg, hne hg]
        · simp [hg]

theorem quiet_path (now : Time) (p q : Dict ModelId Time) (l : List ModelId) :
    (changes.restrict (Permits s a)).Path s
      { s with now := now, pausedUntil := p, resumeTasks := q, dispatchTasks := l } :=
  .single (a := .quiet) ⟨trivial,
    .quiet ⟨fun _ => rfl, rfl, rfl, rfl, rfl, fun _ => rfl⟩ fun _ => rfl⟩

theorem release_path (h : WellFormed s) {c : CallId} {token : Token}
    (ht : s.tokens.get? c = some token) (ρ : ℕ → Reading) :
    (changes.restrict (Permits s (.release c ρ))).Path s (s.release ρ c token) := by
  unfold State.release
  by_cases hl : token.released = true
  · rw [if_pos hl]
    exact .refl s
  rw [if_neg hl, poolRelease]
  have hch := Change.release ht (by simpa using hl)
  refine .trans (.single (a := .release c _) ⟨⟨rfl, ρ, rfl⟩, hch⟩) ?_
  refine (dispatch_path (h.change hch) ρ token.modelId).mono
    (permits_of_dispatchPermits rfl fun hs => ?_)
  obtain ⟨i, k, l, he, -, -⟩ := releaseSlot_eq s
    (s.tokens.set c { token with released := true }) ⟨token.gatewayId, token.modelId⟩
  rw [he]
  exact hs token ht (by simpa using hl)

theorem reconcile_path (h : WellFormed s) (gw : GatewayId) (ms : List ModelId)
    (ρ : ℕ → ℕ → Reading) : (changes.restrict (Permits s (.reconcile gw ms ρ))).Path s
      (s.reconcileGatewayState ρ gw ms) := by
  obtain ⟨i, he, hi⟩ := reconcileLoop_eq gw ms s
  have hch : Change s (.reset (resetSlots s (.reconcile gw ms ρ))) (reconcileLoop gw ms s).2 := by
    rw [he]
    exact .reset _ fun slot => by simpa [resetSlots] using hi slot
  refine .trans (.single (a := .reset _) ⟨⟨rfl, rfl, rfl⟩, hch⟩) ?_
  exact (dispatchAll_path (h.change hch) ρ _).mono (permits_of_dispatchPermits rfl fun hs => hs)

theorem resetColdSlot_path (s : State) (gw : GatewayId) (m : ModelId) (n : ℤ) :
    (changes.restrict (Permits s (.resetColdSlot gw m n))).Path s (s.resetColdSlot gw m n) := by
  have hr : Change s (.reset (resetSlots s (.resetColdSlot gw m n)))
      { s with inFlight := s.inFlight.set ⟨gw, m⟩ 0 } :=
    .reset _ fun slot => by simp [resetSlots, Dict.getD_set]
  refine .trans (.single (a := .reset _) ⟨⟨rfl, rfl, rfl⟩, hr⟩)
    (.single (a := .capacity) ⟨rfl, .capacity ?_⟩)
  exact ⟨fun _ => rfl, rfl, rfl, rfl, rfl, fun _ => rfl⟩

theorem resumeAfter_path (h : WellFormed s) (ρ : ℕ → Reading) (m : ModelId) :
    (changes.restrict (Permits s (.resumeAfter m ρ))).Path s (s.resumeAfter ρ m) := by
  unfold State.resumeAfter
  split
  · exact quiet_path _ _ _ _
  split
  · exact quiet_path _ _ _ _
  · have hq : (changes.restrict (Permits s (.resumeAfter m ρ))).Path s (s.clearPause m) :=
      quiet_path _ _ _ _
    refine hq.trans ((dispatch_path (h.path hq) ρ m).mono
      (permits_of_dispatchPermits rfl fun _ => steady_of_pausedUntil_none ?_))
    exact Dict.get?_erase_self _ _

/-- **Every step is a path of changes** that its action permits. -/
theorem step_path (h : WellFormed s) (hst : s.step a = some t) :
    (changes.restrict (Permits s a)).Path s t := by
  cases steps_of_step hst with
  | acquireToken rid m allowed timeout r => exact acquireToken_path h rid m allowed timeout r
  | cancelTask hc hp => exact .single (a := .rewait _) ⟨trivial, .rewait hc (isWaiting_of_phase hp) _ _⟩
  | wakeGranted hc hp hf => exact .single (a := .claim _ _) ⟨trivial, .claim hc (isWaiting_of_phase hp) hf⟩
  | wakeCancelled hc hp hf => exact (onCancelled_path h hc (isWaiting_of_phase hp) hf).mono permits_of_ofWait
  | sliceTimeout hc hp => exact (waitLoop_path h hc (isWaiting_of_phase hp)).mono permits_of_ofWait
  | @deliverCancel c _ _ _ hc hp =>
    by_cases hf : ∃ gw, s.futures.get? c = some (.result gw)
    · obtain ⟨gw, hf⟩ := hf
      rw [onCancelled, hf]
      exact .single (a := .recover c _) ⟨⟨rfl, rfl⟩, .recover hc (isWaiting_of_phase hp) hf _⟩
    · exact (onCancelled_path h hc (isWaiting_of_phase hp) fun gw hr => hf ⟨gw, hr⟩).mono permits_of_ofWait
  | release ρ ht => exact release_path h ht ρ
  | runDispatch m ρ =>
    have hq : (changes.restrict (Permits s (.runDispatch m ρ))).Path s _ :=
      quiet_path s.now s.pausedUntil s.resumeTasks (s.dispatchTasks.erase m)
    exact hq.trans ((dispatch_path (h.path hq) ρ m).mono (permits_of_dispatchPermits rfl id))
  | resourceUpdate ρ => exact (dispatchAll_path h ρ _).mono (permits_of_dispatchPermits rfl id)
  | setCapacity gw m n =>
    refine .single (a := .capacity) ⟨rfl, .capacity ?_⟩
    unfold State.setCapacity
    dsimp only
    split <;> exact ⟨fun _ => rfl, rfl, rfl, rfl, rfl, fun _ => Dict.getD_setDefault _ _ _ _⟩
  | removeGateway gw => exact foldl_removeSlot_path rfl _ s h
  | removeModel gw m _ => exact foldl_removeSlot_path rfl [⟨gw, m⟩] s h
  | removeNoModel => exact .refl s
  | pauseAdmission m duration =>
    unfold State.pauseAdmission
    split
    · exact .refl s
    · dsimp only
      split
      · exact .refl s
      · exact quiet_path _ _ _ _
  | resumeAdmission m =>
    unfold State.resumeAdmission
    split
    · exact quiet_path _ _ _ _
    · exact .refl s
  | resumeAfter m ρ _ => exact resumeAfter_path h ρ m
  | isPaused m =>
    obtain ⟨p, q, he⟩ := expirePause_eq s m
    rw [he]
    exact quiet_path _ _ _ _
  | cancelRequest rid reason => exact .single (a := .remove) ⟨trivial, .remove rid rfl⟩
  | reconcile gw ms ρ => exact reconcile_path h gw ms ρ
  | resetColdSlot gw m n => exact resetColdSlot_path s gw m n
  | tick => exact quiet_path _ _ _ _

/-- Every step of the pool keeps the invariant, being a path of elementary changes. -/
theorem WellFormed.step (h : WellFormed s) (hst : s.step a = some t) : WellFormed t :=
  h.path (step_path h hst)

end

/-- **The queues are well formed in every reachable state.** -/
theorem wellFormed_of_reachable {s : State} (h : pool.Reachable s) : WellFormed s := by
  refine h.invariant ?_ fun s a t hs (hst : s.step a = some t) => hs.step hst
  rintro s ⟨depth, now, rfl⟩
  exact .initial depth now

end LlmGateway.CapacityPool
