import LlmGateway.CapacityPool.Admission

/-!
# First in, first out

The queue of a model is served in the order of arrival, but a new `acquire_token` call looks at the
free capacity before it looks at the queue. So a later request overtakes a queued one with the same
allowed gateways exactly when it arrives while that one could be served, that is, between an event
that frees capacity and the dispatch that follows it (`barging` is such a run). A dispatch keeps the
order if the pause of its model does not run out between two of its checks.

`fifo` is the law for the runs without these two kinds of step.
-/

namespace LlmGateway.CapacityPool

open State

/-- The two requests allow the same gateways. -/
def SameGateways (allowed allowed' : List GatewayId) : Prop :=
  (∀ gw ∈ allowed, gw ∈ allowed') ∧ ∀ gw ∈ allowed', gw ∈ allowed

instance (allowed allowed' : List GatewayId) : Decidable (SameGateways allowed allowed') :=
  inferInstanceAs (Decidable (_ ∧ _))

/-- While a waiter is queued for a model, no later request for the model with the same allowed
gateways has been given a slot on one of them. -/
def Fifo (s : State) : Prop :=
  ∀ m, ∀ w ∈ s.queue m, ∀ c call, w.future < c → s.calls.get? c = some call → call.modelId = m →
    SameGateways call.allowed w.allowed → ∀ gw ∈ w.allowed, ¬ Granted s c ⟨gw, m⟩

section

variable {s t : State} {e : Event} {a : Action}

/-! ## One change -/

theorem call_change (hwf : WellFormed s) (hst : Change s e t) {c : CallId} {call : Call}
    (hc : s.calls.get? c = some call) : ∃ call', t.calls.get? c = some call' ∧
      call'.modelId = call.modelId ∧ call'.allowed = call.allowed := by
  have hne : c ≠ s.nextCall := (hwf.call_lt c call hc).ne
  have hphase : ∀ {c' call' phase} {u : State}, s.calls.get? c' = some call' → u.calls = s.calls →
      ∃ call'', (u.setPhase c' call' phase).calls.get? c = some call'' ∧
        call''.modelId = call.modelId ∧ call''.allowed = call.allowed := by
    intro c' call' phase u hc' hu
    rw [State.setPhase, Dict.get?_set, hu]
    split
    · subst c
      obtain rfl := Option.some.inj (hc.symm.trans hc')
      exact ⟨_, rfl, rfl, rfl⟩
    · exact ⟨call, hc, rfl, rfl⟩
  cases hst with
  | quiet hf _ | capacity hf => exact ⟨call, hf.calls ▸ hc, rfl, rfl⟩
  | refuse _ _ | enqueue _ _ | grant _ _ => exact ⟨call, (Dict.get?_set_ne _ hne _).trans hc, rfl, rfl⟩
  | remove rid _ => exact ⟨call, by rwa [calls_removeWaiter], rfl, rfl⟩
  | rewait hc' _ _ _ | claim hc' _ _ | raise hc' _ _ _ _ => exact hphase hc' rfl
  | recover hc' _ _ _ =>
    obtain ⟨i, l, he, -⟩ := recoverLeakedSlot_eq s ⟨_, _⟩
    rw [he]
    exact hphase hc' rfl
  | @release c₀ token _ _ =>
    obtain ⟨i, k, l, he, -, -⟩ := releaseSlot_eq s
      (s.tokens.set c₀ { token with released := true }) ⟨token.gatewayId, token.modelId⟩
    rw [he]
    exact ⟨call, hc, rfl, rfl⟩
  | _ => exact ⟨call, hc, rfl, rfl⟩

theorem queue_change (hwf : WellFormed s) (hst : Change s e t) {m : ModelId} {w : Waiter}
    (hw : w ∈ t.queue m) : w ∈ s.queue m ∨ w.future = s.nextCall := by
  cases hst with
  | quiet hf _ | capacity hf => exact .inl (hf.queue m ▸ hw)
  | enqueue call u =>
    rw [queue, State.enqueue, Dict.get?_set] at hw
    split at hw
    · subst m
      rcases List.mem_append.1 hw with hw | hw
      · exact .inl hw
      · exact .inr (by rw [List.mem_singleton.1 hw])
    · exact .inl hw
  | @admitted m₀ w₀ gw qs _ _ _ hqs =>
    have hw' : w ∈ (qs.get? m).getD [] := hw
    rw [hqs] at hw'
    split at hw'
    · subst m
      exact .inl (List.mem_of_mem_erase hw')
    · exact .inl hw'
  | @remove rid outcome _ =>
    rcases hwf.removeWaiter_cases rid outcome with ⟨he, -⟩ | ⟨m₀, w₀, qs, -, -, he, hsub, -⟩
    · rw [he] at hw
      exact .inl hw
    · rw [he] at hw
      exact .inl ((hsub m).subset hw)
  | recover _ _ _ _ =>
    obtain ⟨i, l, he, -⟩ := recoverLeakedSlot_eq s ⟨_, _⟩
    rw [he] at hw
    exact .inl hw
  | @release c₀ token _ _ =>
    obtain ⟨i, k, l, he, -, -⟩ := releaseSlot_eq s
      (s.tokens.set c₀ { token with released := true }) ⟨token.gatewayId, token.modelId⟩
    rw [he] at hw
    exact .inl hw
  | _ => exact .inl hw

theorem Granted.call (hwf : WellFormed s) {c : CallId} {slot : Slot} (h : Granted s c slot) :
    ∃ call, s.calls.get? c = some call := by
  rcases h with ⟨token, ht, -⟩ | ⟨call, hc, -⟩
  · obtain ⟨call, hc, -⟩ := hwf.token_call c token ht
    exact ⟨call, hc⟩
  · exact ⟨call, hc⟩

/-- **A change keeps the order** if the waiters it passes over cannot be served: those with the same
gateways when it grants a slot at once, those ahead in the queue when it admits a waiter. -/
theorem Fifo.change (hwf : WellFormed s) (h : Fifo s) (hst : Change s e t)
    (hgrant : ∀ call gw, e = .grant call gw → ∀ w ∈ s.queue call.modelId,
      SameGateways call.allowed w.allowed → s.Unservable call.modelId w)
    (hadmitted : ∀ c slot, e = .admitted c slot → ∀ w ∈ s.queue slot.modelId, w.future < c →
      s.Unservable slot.modelId w) : Fifo t := by
  intro m w hw c call hlt hc hm hsame gw hgw hg
  rcases granted_change hwf hst hg with hg | ⟨call₀, gw₀, rfl, rfl, hslot⟩ | rfl
  · obtain ⟨call₀, hc₀⟩ := hg.call hwf
    obtain ⟨call', hc', hm', ha'⟩ := call_change hwf hst hc₀
    obtain rfl := Option.some.inj (hc'.symm.trans hc)
    have hwq : w ∈ s.queue m := by
      refine (queue_change hwf hst hw).resolve_right fun he => ?_
      exact absurd (he ▸ hlt) (hwf.call_lt c call₀ hc₀).not_gt
    exact h m w hwq c call₀ hlt hc₀ (hm'.symm.trans hm) (ha' ▸ hsame) gw hgw hg
  · obtain ⟨rfl, rfl⟩ : gw = gw₀ ∧ m = call₀.modelId := by simpa using hslot
    have hwq := (queue_change hwf hst hw).resolve_right hlt.ne
    cases hst with
    | grant _ hroom =>
      obtain rfl := Option.some.inj ((Dict.get?_set_self _ _ _).symm.trans hc)
      have := hgrant call₀ gw rfl w hwq hsame gw hgw
      exact absurd ((available_pos_iff s call₀.modelId).2 hroom) (not_lt.2 this)
  · generalize he : Event.admitted c ⟨gw, m⟩ = e at hst
    cases hst with
    | @admitted m₀ w₀ gw₀ qs hw₀ hgw₀ hroom hqs =>
      obtain ⟨rfl, rfl, rfl⟩ : c = w₀.future ∧ gw = gw₀ ∧ m = m₀ := by simpa using he
      have hwq : w ∈ s.queue m := by
        have hw' : w ∈ (qs.get? m).getD [] := hw
        rw [hqs, if_pos rfl] at hw'
        exact List.mem_of_mem_erase hw'
      have := hadmitted _ _ rfl w hwq hlt gw hgw
      exact absurd ((available_pos_iff s m).2 hroom) (not_lt.2 this)
    | _ => cases he

/-! ## Runs -/

/-- The model, the allowed gateways and the pause check of the request an action makes. -/
def Action.arrival : Action → Option (ModelId × List GatewayId × Reading)
  | .acquireToken _ m allowed _ r => some (m, allowed, r)
  | _ => none

/-- A request that finds its model unpaused comes when no queued waiter with the same gateways can be
served. -/
def ArrivesInOrder (s : State) (m : ModelId) (allowed : List GatewayId) (r : Reading) : Prop :=
  ¬ (s.tick r.delay).Paused m → ∀ w ∈ s.queue m, SameGateways allowed w.allowed → s.Unservable m w

/-- The steps that keep the order: dispatches are steady, and requests arrive in order. -/
def KeepsOrder (s : State) (a : Action) : Prop :=
  SteadyAction s a ∧ ∀ e ∈ a.arrival, ArrivesInOrder s e.1 e.2.1 e.2.2

instance (s : State) (m : ModelId) (allowed : List GatewayId) (r : Reading) :
    Decidable (ArrivesInOrder s m allowed r) :=
  inferInstanceAs (Decidable (¬ (s.tick r.delay).Paused m → ∀ w ∈ s.queue m,
    SameGateways allowed w.allowed → s.Unservable m w))

instance (s : State) (a : Action) : Decidable (KeepsOrder s a) :=
  inferInstanceAs (Decidable (SteadyAction s a ∧
    ∀ e ∈ a.arrival, ArrivesInOrder s e.1 e.2.1 e.2.2))

/-- A step that keeps the order of the queues keeps the waiters in order of arrival. -/
theorem Fifo.step (hwf : WellFormed s) (h : Fifo s) (ha : KeepsOrder s a)
    (hst : s.step a = some t) : Fifo t := by
  refine ((step_path hwf hst).invariant (I := fun u => WellFormed u ∧ Fifo u) ?_ ⟨hwf, h⟩).2
  rintro u e v ⟨hwf, hu⟩ ⟨hp, hch⟩
  refine ⟨hwf.change hch, hu.change hwf hch ?_ ?_⟩
  · rintro call gw rfl w hw hsame gw' hgw'
    obtain ⟨-, r, ⟨⟨timeout, rfl⟩, rfl⟩, hunp⟩ := hp
    rw [(Frame.expirePause_tick s r.delay call.modelId).queue] at hw
    rw [available_expirePause_tick]
    exact ha.2 _ rfl hunp w hw hsame gw' hgw'
  · rintro c slot rfl
    exact hp.2 ha.1

/-- **Requests are served in the order of their arrival** in every run whose steps keep the order:
while a waiter is queued, no later request with the same gateways gets a slot. -/
theorem fifo (h : (pool.restrict KeepsOrder).Reachable s) : Fifo s := by
  refine (h.invariant (I := fun s => WellFormed s ∧ Fifo s) ?_ ?_).2
  · rintro s ⟨depth, now, rfl⟩
    refine ⟨.initial depth now, fun m w hw => ?_⟩
    cases hw
  · rintro s a t ⟨hwf, hf⟩ ⟨ha, (hst : s.step a = some t)⟩
    exact ⟨hwf.step hst, hf.step hwf ha hst⟩

end

/-- The slot is freed and dispatched while two requests wait; the earlier one gets it. -/
theorem fifo_release : ∃ s, (pool.restrict KeepsOrder).Reachable s ∧
    (s.queue "m").map Waiter.requestId = ["c"] ∧ s.futures.get? 1 = some (.result "gw") ∧
    Fifo s := by
  have hrun : (System.exec (System.guarded step KeepsOrder) (.initial 0 0)
      [.setCapacity "gw" "m" 1, .acquireToken "a" "m" ["gw"] none .instant,
        .acquireToken "b" "m" ["gw"] none .instant, .acquireToken "c" "m" ["gw"] none .instant,
        .release 0 fun _ => .instant]).map
      (fun s => ((s.queue "m").map Waiter.requestId, s.futures.get? 1)) =
        some (["c"], some (.result "gw")) := by decide
  obtain ⟨s, hs, he⟩ := Option.map_eq_some_iff.1 hrun
  simp only [Prod.mk.injEq] at he
  have hreach : (pool.restrict KeepsOrder).Reachable s :=
    System.reachable_of_exec_guarded ⟨0, 0, rfl⟩ hs
  exact ⟨s, hreach, he.1, he.2, fifo hreach⟩

/-- The capacity is raised while `b` is queued, and the call of `c` comes before the dispatch: `c`
has a token and `b` still waits. -/
theorem barging : ∃ s, System.exec step (.initial 0 0)
      [.setCapacity "gw" "m" 1, .acquireToken "a" "m" ["gw"] none .instant,
        .acquireToken "b" "m" ["gw"] none .instant, .setCapacity "gw" "m" 2,
        .acquireToken "c" "m" ["gw"] none .instant] = some s ∧
    pool.Reachable s ∧ ¬ Fifo s := by
  have hrun : (System.exec step (.initial 0 0)
      [.setCapacity "gw" "m" 1, .acquireToken "a" "m" ["gw"] none .instant,
        .acquireToken "b" "m" ["gw"] none .instant, .setCapacity "gw" "m" 2,
        .acquireToken "c" "m" ["gw"] none .instant]).map
      (fun s => (s.queue "m", s.calls.get? 2, s.tokens.get? 2)) =
        some ([⟨"b", ["gw"], 1⟩], some ⟨"c", "m", ["gw"], none, 0, .returned⟩,
          some ⟨"gw", "m", "c", false, false⟩) := by with_unfolding_all decide
  obtain ⟨s, hs, he⟩ := Option.map_eq_some_iff.1 hrun
  simp only [Prod.mk.injEq] at he
  obtain ⟨hq, hc, ht⟩ := he
  refine ⟨s, hs, System.reachable_of_exec ⟨0, 0, rfl⟩ hs, fun h => ?_⟩
  exact h "m" ⟨"b", ["gw"], 1⟩ (by rw [hq]; exact List.mem_singleton.2 rfl) 2 _ (by decide) hc rfl
    ⟨fun _ => id, fun _ => id⟩ "gw" (List.mem_singleton.2 rfl) (.inl ⟨_, ht, rfl⟩)

end LlmGateway.CapacityPool
