import LlmGateway.CapacityPool.Change

/-!
# No over-admission

A slot is granted only while its in-flight count is below its capacity, on both admission paths and
whatever happens in between: `inFlight_change` says so for one change, and `step_bound` for a step.
`never_overAdmits` adds what this means for a slot whose capacity has been lowered below its count:
the count cannot grow until it has dropped below the new capacity.
-/

namespace LlmGateway.CapacityPool

open State

/-- The call has been given the slot: its token is on it, or its future has been resolved for it. -/
def Granted (s : State) (c : CallId) (slot : Slot) : Prop :=
  (∃ token, s.tokens.get? c = some token ∧ (⟨token.gatewayId, token.modelId⟩ : Slot) = slot) ∨
    ∃ call, s.calls.get? c = some call ∧ s.futures.get? c = some (.result slot.gatewayId) ∧
      call.modelId = slot.modelId

section

variable {s t : State} {e : Event} {a : Action} {c : CallId} {slot : Slot}

theorem Granted.of_eq (h : Granted t c slot) (ht : t.tokens.get? c = s.tokens.get? c)
    (hf : t.futures.get? c = s.futures.get? c)
    (hc : ∀ call, t.calls.get? c = some call →
      ∃ call', s.calls.get? c = some call' ∧ call'.modelId = call.modelId) : Granted s c slot := by
  rcases h with ⟨token, htok, he⟩ | ⟨call, hcall, hr, hm⟩
  · exact .inl ⟨token, ht ▸ htok, he⟩
  · obtain ⟨call', hcall', hm'⟩ := hc call hcall
    exact .inr ⟨call', hcall', hf ▸ hr, hm'.trans hm⟩

theorem Granted.of_frame (h : Granted t c slot) (hf : Frame s t) : Granted s c slot :=
  h.of_eq (by rw [hf.tokens]) (by rw [hf.futures]) fun call hc => ⟨call, hf.calls ▸ hc, rfl⟩

theorem Granted.of_setPhase {c' : CallId} {call : Call} {phase : Phase}
    (h : Granted (s.setPhase c' call phase) c slot) (hc' : s.calls.get? c' = some call) :
    Granted s c slot := by
  refine h.of_eq rfl rfl fun call' hc => ?_
  rw [State.setPhase, Dict.get?_set] at hc
  split at hc
  · subst c
    exact ⟨call, hc', by rw [← Option.some.inj hc]⟩
  · exact ⟨call', hc, rfl⟩

theorem WellFormed.nextCall_none (h : WellFormed s) :
    s.tokens.get? s.nextCall = none ∧ s.futures.get? s.nextCall = none := by
  refine ⟨Option.eq_none_iff_forall_ne_some.2 fun token ht => ?_,
    Option.eq_none_iff_forall_ne_some.2 fun f hf => ?_⟩
  · obtain ⟨call, hc, -⟩ := h.token_call _ _ ht
    exact absurd (h.call_lt _ _ hc) (lt_irrefl _)
  · obtain ⟨call, hc⟩ := h.future_call _ _ hf
    exact absurd (h.call_lt _ _ hc) (lt_irrefl _)

/-- Whoever has the slot after a change had it before, or is the call the change admits to it. -/
theorem granted_change (hwf : WellFormed s) (hst : Change s e t) (h : Granted t c slot) :
    Granted s c slot ∨ (∃ call gw, e = .grant call gw ∧ c = s.nextCall ∧
      slot = ⟨gw, call.modelId⟩) ∨ e = .admitted c slot := by
  obtain ⟨htok, hfut⟩ := hwf.nextCall_none
  cases hst with
  | quiet hf _ | capacity hf => exact .inl (h.of_frame hf)
  | refuse call e =>
    by_cases hc : c = s.nextCall
    · subst hc
      rcases h with ⟨token, ht, -⟩ | ⟨call', -, hr, -⟩
      · exact absurd (htok.symm.trans ht) (by simp)
      · exact absurd (hfut.symm.trans hr) (by simp)
    · exact .inl (h.of_eq rfl rfl fun call' hc' =>
        ⟨call', by rwa [State.setPhase, Dict.get?_set_ne _ hc] at hc', rfl⟩)
  | enqueue call u =>
    by_cases hc : c = s.nextCall
    · subst hc
      rcases h with ⟨token, ht, -⟩ | ⟨call', -, hr, -⟩
      · exact absurd (htok.symm.trans ht) (by simp)
      · rw [State.enqueue, Dict.get?_set_self] at hr
        cases hr
    · exact .inl (h.of_eq rfl (Dict.get?_set_ne _ hc _) fun call' hc' =>
        ⟨call', by rwa [State.enqueue, State.setPhase, Dict.get?_set_ne _ hc] at hc', rfl⟩)
  | @grant call gw hroom =>
    by_cases hc : c = s.nextCall
    · subst hc
      rcases h with ⟨token, ht, he⟩ | ⟨call', -, hr, -⟩
      · rw [State.returnToken, State.setPhase, Dict.get?_set_self] at ht
        obtain rfl := Option.some.inj ht
        exact .inr (.inl ⟨call, gw, rfl, rfl, he.symm⟩)
      · exact absurd (hfut.symm.trans hr) (by simp)
    · exact .inl (h.of_eq (Dict.get?_set_ne _ hc _) rfl fun call' hc' =>
        ⟨call', by rwa [State.returnToken, State.setPhase, Dict.get?_set_ne _ hc] at hc', rfl⟩)
  | @admitted m w gw qs hw hgw hroom hqs =>
    by_cases hc : c = w.future
    · subst hc
      obtain ⟨call, hcall, -, hm, -⟩ := hwf.queue_call m w hw
      rcases h with ⟨token, ht, he⟩ | ⟨call', hcall', hr, hm'⟩
      · exact .inl (.inl ⟨token, ht, he⟩)
      · obtain rfl := Option.some.inj (hcall.symm.trans hcall')
        rw [Dict.get?_set_self, Option.some.injEq, Future.result.injEq] at hr
        exact .inr (.inr (by rw [hr, ← hm, hm']))
    · exact .inl (h.of_eq rfl (Dict.get?_set_ne _ hc _) fun call' hc' => ⟨call', hc', rfl⟩)
  | @remove rid outcome ho =>
    rcases hwf.removeWaiter_cases rid outcome with ⟨he, -⟩ | ⟨m, w, qs, hw, -, he, -, -⟩
    · exact .inl (he ▸ h)
    rw [he] at h
    by_cases hc : c = w.future
    · subst hc
      rcases h with ⟨token, ht, he⟩ | ⟨call', -, hr, -⟩
      · exact .inl (.inl ⟨token, ht, he⟩)
      · rw [Dict.get?_set_self, Option.some.injEq] at hr
        rw [hr] at ho
        cases ho
    · exact .inl (h.of_eq rfl (Dict.get?_set_ne _ hc _) fun call' hc' => ⟨call', hc', rfl⟩)
  | rewait hc hw u b | raise hc hw hf hq e => exact .inl (h.of_setPhase hc)
  | @claim c₀ call gw hc hw hf =>
    by_cases hcc : c = c₀
    · subst hcc
      rcases h with ⟨token, ht, he⟩ | ⟨call', hcall', hr, hm'⟩
      · rw [State.returnToken, State.setPhase, Dict.get?_set_self] at ht
        obtain rfl := Option.some.inj ht
        exact .inl (.inr ⟨call, hc, by rw [← he, hf], by rw [← he]⟩)
      · rw [State.returnToken, State.setPhase, Dict.get?_set_self] at hcall'
        obtain rfl := Option.some.inj hcall'
        exact .inl (.inr ⟨call, hc, hr, hm'⟩)
    · exact .inl (h.of_eq (Dict.get?_set_ne _ hcc _) rfl fun call' hc' =>
        ⟨call', by rwa [State.returnToken, State.setPhase, Dict.get?_set_ne _ hcc] at hc', rfl⟩)
  | @recover c₀ call gw hc hw hf e =>
    obtain ⟨i, l, he, hi⟩ := recoverLeakedSlot_eq s ⟨gw, call.modelId⟩
    rw [he] at h
    exact .inl ((h.of_setPhase hc).of_eq rfl rfl fun call hc => ⟨call, hc, rfl⟩)
  | @release c₀ token ht hl =>
    obtain ⟨i, k, l, he, -, -⟩ := releaseSlot_eq s
      (s.tokens.set c₀ { token with released := true }) ⟨token.gatewayId, token.modelId⟩
    rw [he] at h
    rcases h with ⟨token', ht', he⟩ | h
    · dsimp only at ht'
      rw [Dict.get?_set] at ht'
      split at ht'
      · subst c
        obtain rfl := Option.some.inj ht'
        exact .inl (.inl ⟨token, ht, he⟩)
      · exact .inl (.inl ⟨token', ht', he⟩)
    · exact .inl (.inr h)
  | reset slots hi => exact .inl h

theorem inFlight_change (hwf : WellFormed s) (hst : Change s e t) (slot : Slot) :
    (e.admitsTo = some slot → t.inFlight.getD slot 0 ≤ t.capacity.getD slot 0) ∧
      (e.admitsTo ≠ some slot → t.inFlight.getD slot 0 ≤ s.inFlight.getD slot 0) := by
  -- on both admission paths the slot is reserved after the same comparison
  have key : ∀ slot₀ : Slot, s.inFlight.getD slot₀ 0 < s.capacity.getD slot₀ 0 →
      (some slot₀ = some slot →
        (s.reserve slot₀).inFlight.getD slot 0 ≤ s.capacity.getD slot 0) ∧
      (some slot₀ ≠ some slot →
        (s.reserve slot₀).inFlight.getD slot 0 ≤ s.inFlight.getD slot 0) := by
    intro slot₀ hroom
    rw [inFlight_reserve]
    refine ⟨fun he => ?_, fun he => ?_⟩
    · obtain rfl := Option.some.inj he
      rw [if_pos rfl]
      omega
    · rw [if_neg fun h => he (congrArg some h.symm), add_zero]
  -- and it is given back by the same guarded decrement
  have hdec : ∀ slot₀ : Slot,
      (if slot = slot₀ ∧ 0 < s.inFlight.getD slot₀ 0 then s.inFlight.getD slot₀ 0 - 1
        else s.inFlight.getD slot 0) ≤ s.inFlight.getD slot 0 := by
    intro slot₀
    split
    · rename_i hs
      rw [hs.1]
      omega
    · exact le_rfl
  have hnone : ∀ {p : Prop}, none = some slot → p := fun h => by cases h
  cases hst with
  | grant call hroom => exact key _ hroom
  | admitted _ _ hroom _ => exact key _ hroom
  | quiet hf _ | capacity hf => exact ⟨hnone, fun _ => (hf.inFlight slot).le⟩
  | @remove rid outcome _ =>
    refine ⟨hnone, fun _ => ?_⟩
    rcases hwf.removeWaiter_cases rid outcome with ⟨he, -⟩ | ⟨m, w, qs, hw, -, he, -, -⟩ <;> rw [he]
  | @recover c₀ call gw hc hw hf e =>
    obtain ⟨i, l, he, hi⟩ := recoverLeakedSlot_eq s ⟨gw, call.modelId⟩
    rw [he]
    exact ⟨hnone, fun _ => (hi slot).trans_le (hdec _)⟩
  | @release c₀ token ht hl =>
    obtain ⟨i, k, l, he, hi, -⟩ := releaseSlot_eq s
      (s.tokens.set c₀ { token with released := true }) ⟨token.gatewayId, token.modelId⟩
    rw [he]
    exact ⟨hnone, fun _ => (hi slot).trans_le (hdec _)⟩
  | reset slots hi =>
    refine ⟨hnone, fun _ => (hi slot).trans_le ?_⟩
    have := hwf.inFlight_nonneg slot
    split <;> omega
  | _ => exact ⟨hnone, fun _ => le_rfl⟩

theorem capacity_change (hst : Change s e t) (he : e ≠ .capacity) (slot : Slot) :
    t.capacity.getD slot 0 = s.capacity.getD slot 0 := by
  cases hst with
  | quiet _ hc => exact hc slot
  | capacity _ => exact absurd rfl he
  | remove rid _ =>
    unfold State.removeWaiter
    cases s.findWaiter rid <;> rfl
  | recover _ _ _ _ =>
    obtain ⟨i, l, he, -⟩ := recoverLeakedSlot_eq s ⟨_, _⟩
    rw [he]
    rfl
  | @release c₀ token ht hl =>
    obtain ⟨i, k, l, he, hi, hk⟩ := releaseSlot_eq s
      (s.tokens.set c₀ { token with released := true }) ⟨token.gatewayId, token.modelId⟩
    rw [he]
    exact hk slot
  | _ => rfl

theorem setsCapacity_of_admitsTo {u : State} (hp : Permits s a u e)
    (he : e.admitsTo = some slot) : a.setsCapacity = false := by
  cases e with
  | grant call gw =>
    obtain ⟨-, r, ⟨⟨timeout, rfl⟩, -⟩, -⟩ := hp
    rfl
  | admitted c slot =>
    have ha := hp.1
    cases a <;> first | rfl | cases ha
  | _ => cases he

theorem capacity_of_setsCapacity {u v : State} (ha : a.setsCapacity = false)
    (hst : (changes.restrict (Permits s a)).step u e v) (slot : Slot) :
    v.capacity.getD slot 0 = u.capacity.getD slot 0 := by
  refine capacity_change hst.2 ?_ slot
  rintro rfl
  exact absurd (hst.1.symm.trans ha) (by simp)

/-- **A step admits within the capacity.** What only an admission to the slot can undo still holds
after the step, or the step leaves the count of the slot within its capacity. -/
theorem inFlight_le_or {R : State → Prop} (hwf : WellFormed s) (hst : s.step a = some t)
    (slot : Slot) (hR : R s) (hkeep : ∀ u e v, WellFormed u → Permits s a u e → Change u e v →
      e.admitsTo ≠ some slot → R u → R v) :
    R t ∨ t.inFlight.getD slot 0 ≤ t.capacity.getD slot 0 ∧
      t.capacity.getD slot 0 = s.capacity.getD slot 0 := by
  -- after the first admission to the slot the count stays within the capacity
  have key := (step_path hwf hst).invariant (I := fun u => WellFormed u ∧
      (a.setsCapacity = false → u.capacity.getD slot 0 = s.capacity.getD slot 0) ∧
      (R u ∨ a.setsCapacity = false ∧ u.inFlight.getD slot 0 ≤ u.capacity.getD slot 0)) ?_
      ⟨hwf, fun _ => rfl, .inl hR⟩
  · obtain ⟨-, hcap, hRt | ⟨ha, hi⟩⟩ := key
    · exact .inl hRt
    · exact .inr ⟨hi, hcap ha⟩
  · rintro u e v ⟨hwf, hcap, hor⟩ hst
    refine ⟨hwf.change hst.2,
      fun ha => (capacity_of_setsCapacity ha hst slot).trans (hcap ha), ?_⟩
    by_cases he : e.admitsTo = some slot
    · exact .inr ⟨setsCapacity_of_admitsTo hst.1 he, (inFlight_change hwf hst.2 slot).1 he⟩
    rcases hor with hRu | ⟨ha, hi⟩
    · exact .inl (hkeep u e v hwf hst.1 hst.2 he hRu)
    · refine .inr ⟨ha, (((inFlight_change hwf hst.2 slot).2 he).trans hi).trans ?_⟩
      exact (capacity_of_setsCapacity ha hst slot).ge

/-- **One step**: whoever it gives the slot to, it leaves the count within the capacity; and it does
not raise a count that has reached the capacity. -/
theorem step_bound (hwf : WellFormed s) (hst : s.step a = some t) (slot : Slot) :
    (∀ c, Granted t c slot → ¬ Granted s c slot →
      t.inFlight.getD slot 0 ≤ t.capacity.getD slot 0) ∧
    (s.capacity.getD slot 0 ≤ s.inFlight.getD slot 0 →
      t.inFlight.getD slot 0 ≤ s.inFlight.getD slot 0) := by
  have key := inFlight_le_or hwf hst slot
    (R := fun u => (∀ c, Granted u c slot → Granted s c slot) ∧
      u.inFlight.getD slot 0 ≤ s.inFlight.getD slot 0) ⟨fun _ h => h, le_rfl⟩ ?_
  · rcases key with ⟨hg, hi⟩ | ⟨hi, hcap⟩
    · exact ⟨fun c ht hs => absurd (hg c ht) hs, fun _ => hi⟩
    · exact ⟨fun _ _ _ => hi, fun hle => (hi.trans hcap.le).trans hle⟩
  · rintro u e v hwf - hch he ⟨hg, hi⟩
    refine ⟨fun c h => hg c ?_, ((inFlight_change hwf hch slot).2 he).trans hi⟩
    rcases granted_change hwf hch h with h | ⟨call, gw, rfl, -, rfl⟩ | rfl
    · exact h
    · exact absurd rfl he
    · exact absurd rfl he

/-! ## Lowered capacities -/

/-- The capacity an action configures for the slot. -/
def Action.newCapacity (slot : Slot) : Action → Option ℤ
  | .setCapacity gw m n => if slot = ⟨gw, m⟩ then some (max 0 n) else none
  | .resetColdSlot gw m n => if slot = ⟨gw, m⟩ then some n else none
  | _ => none

theorem capacity_removeSlot (s : State) (slot slot' : Slot) :
    (s.removeSlot slot').capacity.getD slot 0 = s.capacity.getD slot 0 ∨
      (s.removeSlot slot').capacity.getD slot 0 = 0 := by
  unfold State.removeSlot
  split
  · dsimp only
    rw [Dict.getD_set]
    split
    · exact .inr rfl
    · exact .inl rfl
  · dsimp only
    rw [Dict.getD_erase]
    split
    · exact .inr rfl
    · exact .inl rfl

theorem capacity_foldl_removeSlot (slot : Slot) (l : List Slot) (s : State) :
    (l.foldl State.removeSlot s).capacity.getD slot 0 = s.capacity.getD slot 0 ∨
      (l.foldl State.removeSlot s).capacity.getD slot 0 = 0 := by
  induction l generalizing s with
  | nil => exact .inl rfl
  | cons slot' l ih =>
    rcases ih (s.removeSlot slot') with h | h
    · rcases capacity_removeSlot s slot slot' with h' | h'
      · exact .inl (h.trans h')
      · exact .inr (h.trans h')
    · exact .inr h

/-- A step keeps the capacity of the slot, drops it to zero, or configures it. -/
theorem capacity_step (hwf : WellFormed s) (hst : s.step a = some t) (slot : Slot) :
    t.capacity.getD slot 0 = s.capacity.getD slot 0 ∨ t.capacity.getD slot 0 = 0 ∨
      a.newCapacity slot = some (t.capacity.getD slot 0) := by
  by_cases ha : a.setsCapacity = true
  · cases steps_of_step hst with
    | setCapacity gw m n =>
      have hc : (s.setCapacity gw m n).capacity = s.capacity.set ⟨gw, m⟩ (max 0 n) := by
        unfold State.setCapacity
        dsimp only
        split <;> rfl
      rw [hc, Dict.getD_set, Action.newCapacity]
      split
      · exact .inr (.inr rfl)
      · exact .inl rfl
    | resetColdSlot gw m n =>
      change (s.capacity.set ⟨gw, m⟩ n).getD slot 0 = _ ∨ (s.capacity.set ⟨gw, m⟩ n).getD slot 0 = 0 ∨
        _ = some ((s.capacity.set ⟨gw, m⟩ n).getD slot 0)
      rw [Dict.getD_set, Action.newCapacity]
      split
      · exact .inr (.inr rfl)
      · exact .inl rfl
    | removeGateway gw => exact (capacity_foldl_removeSlot slot _ s).imp_right .inl
    | removeModel => exact (capacity_removeSlot s slot _).imp_right .inl
    | removeNoModel => exact .inl rfl
    | _ => cases ha
  · have ha : a.setsCapacity = false := by simpa using ha
    refine .inl ((step_path hwf hst).invariant
      (I := fun u => u.capacity.getD slot 0 = s.capacity.getD slot 0) ?_ rfl)
    exact fun u e v hu hst => (capacity_of_setsCapacity ha hst slot).trans hu

/-- The steps until the count of the slot has dropped below `k`, in which its capacity is not raised
above `k` again. -/
def Overcommitted (slot : Slot) (k : ℤ) (s : State) (a : Action) : Prop :=
  k ≤ s.inFlight.getD slot 0 ∧ ∀ n ∈ a.newCapacity slot, n ≤ k

theorem inFlight_le_of_run {k : ℤ} (hk : 0 ≤ k) {as : List Action} (hwf : WellFormed s)
    (hcap : s.capacity.getD slot 0 ≤ k) (h : (pool.restrict (Overcommitted slot k)).Run s as t) :
    WellFormed t ∧ t.capacity.getD slot 0 ≤ k ∧
      t.inFlight.getD slot 0 ≤ s.inFlight.getD slot 0 := by
  refine h.invariant (I := fun u => WellFormed u ∧ u.capacity.getD slot 0 ≤ k ∧
    u.inFlight.getD slot 0 ≤ s.inFlight.getD slot 0) ?_ ⟨hwf, hcap, le_rfl⟩
  rintro u a v ⟨hwf, hcap, hle⟩ ⟨⟨hk', hn⟩, (hst : u.step a = some v)⟩
  refine ⟨hwf.step hst, ?_, ((step_bound hwf hst slot).2 (hcap.trans hk')).trans hle⟩
  rcases capacity_step hwf hst slot with h | h | h
  · exact h.le.trans hcap
  · exact h.le.trans hk
  · exact hn _ h

/-- **The pool never over-admits.** In every reachable state and for every next step: the step leaves
the count of every slot it gives to a call within the slot's capacity, and it does not raise a count
that has reached the capacity. And once `set_capacity` has lowered the capacity below the count, the
count never increases until it has dropped below the new capacity. -/
theorem never_overAdmits (h : pool.Reachable s) :
    (∀ a t slot c, s.step a = some t → Granted t c slot → ¬ Granted s c slot →
      t.inFlight.getD slot 0 ≤ t.capacity.getD slot 0) ∧
    (∀ a t slot, s.step a = some t → s.capacity.getD slot 0 ≤ s.inFlight.getD slot 0 →
      t.inFlight.getD slot 0 ≤ s.inFlight.getD slot 0) ∧
    ∀ gw m n t, s.step (.setCapacity gw m n) = some t → max 0 n < t.inFlight.getD ⟨gw, m⟩ 0 →
      ∀ as bs u v, (pool.restrict (Overcommitted ⟨gw, m⟩ (max 0 n))).Run t as u →
        (pool.restrict (Overcommitted ⟨gw, m⟩ (max 0 n))).Run u bs v →
        v.inFlight.getD ⟨gw, m⟩ 0 ≤ u.inFlight.getD ⟨gw, m⟩ 0 := by
  have hwf := wellFormed_of_reachable h
  refine ⟨fun a t slot c hst => (step_bound hwf hst slot).1 c,
    fun a t slot hst => (step_bound hwf hst slot).2, ?_⟩
  intro gw m n t hst _ as bs u v hu hv
  have hcap : t.capacity.getD ⟨gw, m⟩ 0 = max 0 n := by
    obtain rfl := Option.some.inj hst
    unfold State.setCapacity
    dsimp only
    split <;> exact (Dict.getD_set _ _ _ _ _).trans (if_pos rfl)
  have hk : (0 : ℤ) ≤ max 0 n := le_max_left 0 n
  obtain ⟨hwf', hcap', -⟩ := inFlight_le_of_run hk (hwf.step hst) hcap.le hu
  exact (inFlight_le_of_run hk hwf' hcap' hv).2.2

end

/-- Two requests are in flight when the capacity is lowered to one. -/
theorem never_overAdmits_lowered : ∃ s t, pool.Reachable s ∧
    s.step (.setCapacity "gw" "m" 1) = some t ∧ max 0 1 < t.inFlight.getD ⟨"gw", "m"⟩ 0 ∧
    ∀ as bs u v, (pool.restrict (Overcommitted ⟨"gw", "m"⟩ (max 0 1))).Run t as u →
      (pool.restrict (Overcommitted ⟨"gw", "m"⟩ (max 0 1))).Run u bs v →
      v.inFlight.getD ⟨"gw", "m"⟩ 0 ≤ u.inFlight.getD ⟨"gw", "m"⟩ 0 := by
  have hrun : (System.exec step (.initial 0 0)
      [.setCapacity "gw" "m" 2, .acquireToken "a" "m" ["gw"] none .instant,
        .acquireToken "b" "m" ["gw"] none .instant]).map
      (fun s => (s.setCapacity "gw" "m" 1).inFlight.getD ⟨"gw", "m"⟩ 0) = some 2 := by
    decide
  obtain ⟨s, hs, hi⟩ := Option.map_eq_some_iff.1 hrun
  have hreach : pool.Reachable s := System.reachable_of_exec ⟨0, 0, rfl⟩ hs
  have hlt : (max 0 1 : ℤ) < (s.setCapacity "gw" "m" 1).inFlight.getD ⟨"gw", "m"⟩ 0 := by
    rw [hi]
    decide
  exact ⟨s, _, hreach, rfl, hlt, (never_overAdmits hreach).2.2 "gw" "m" 1 _ rfl hlt⟩

end LlmGateway.CapacityPool
