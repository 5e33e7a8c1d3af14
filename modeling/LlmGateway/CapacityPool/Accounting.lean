import LlmGateway.CapacityPool.Holders

/-!
# Slot accounting

The in-flight count of a slot is the number of calls that hold it, for any interleaving, as long as
the request ids of the calls are distinct and no count is forgotten by a reset
(`inFlight_eq_liveTokens_add_unclaimed`).

Distinct ids matter because `_remove_waiter` looks a waiter up by its request id: they ensure that
the waiter of an ended call is never left in a queue (`Accounted`), where it would be admitted to a
slot that nobody gives back.
-/

namespace LlmGateway.CapacityPool

open State

/-! ## Calls and their phases -/

/-- The call a change registers. -/
def Event.newCall : Event → Option Call
  | .refuse call | .enqueue call | .grant call _ => some call
  | _ => none

/-- No call has the request id. -/
def FreshId (s : State) (rid : RequestId) : Prop :=
  ∀ e ∈ s.calls.items, e.2.requestId ≠ rid

instance (s : State) (rid : RequestId) : Decidable (FreshId s rid) :=
  inferInstanceAs (Decidable (∀ e ∈ s.calls.items, e.2.requestId ≠ rid))

/-- The request ids are distinct, and every queued waiter's call is suspended. -/
structure Accounted (s : State) : Prop where
  distinct : DistinctIds s
  queue_waiting : ∀ m, ∀ w ∈ s.queue m, ∃ call, s.calls.get? w.future = some call ∧
    call.isWaiting = true

namespace Accounted

variable {s t : State} {c : CallId} {call : Call}

theorem of_eq (h : Accounted s) (hc : t.calls = s.calls)
    (hq : ∀ m, ∀ w ∈ t.queue m, w ∈ s.queue m) : Accounted t := by
  refine ⟨?_, fun m w hw => ?_⟩
  · rw [DistinctIds, hc]
    exact h.distinct
  · rw [hc]
    exact h.queue_waiting m w (hq m w hw)

theorem setPhase (h : Accounted s) (hc : s.calls.get? c = some call) (phase : Phase)
    (hq : ({ call with phase := phase } : Call).isWaiting = true ∨
      ∀ m, ∀ w ∈ s.queue m, w.future ≠ c) : Accounted (s.setPhase c call phase) := by
  have hget : ∀ c' call', (s.setPhase c call phase).calls.get? c' = some call' →
      ∃ call'', s.calls.get? c' = some call'' ∧ call''.requestId = call'.requestId := by
    intro c' call' hc'
    by_cases he : c' = c
    · subst he
      rw [calls_setPhase_self, Option.some.injEq] at hc'
      exact ⟨call, hc, hc' ▸ rfl⟩
    · exact ⟨call', by rwa [(AgreeOff.setPhase call phase).calls c' he] at hc', rfl⟩
  refine ⟨fun c₁ c₂ call₁ call₂ h₁ h₂ he => ?_, fun m w hw' => ?_⟩
  · obtain ⟨call₁', h₁', e₁⟩ := hget _ _ h₁
    obtain ⟨call₂', h₂', e₂⟩ := hget _ _ h₂
    exact h.distinct _ _ _ _ h₁' h₂' (by rw [e₁, e₂, he])
  · by_cases he : w.future = c
    · rcases hq with hq | hq
      · exact ⟨_, he ▸ calls_setPhase_self _ _, hq⟩
      · exact absurd he (hq m w hw')
    · rw [(AgreeOff.setPhase call phase).calls _ he]
      exact h.queue_waiting m w hw'

theorem newCall (hwf : WellFormed s) (h : Accounted s) (hf : FreshId s call.requestId)
    (phase : Phase) :
    Accounted ({ s with nextCall := s.nextCall + 1 }.setPhase s.nextCall call phase) := by
  have hfresh : ∀ c call', s.calls.get? c = some call' → call'.requestId ≠ call.requestId :=
    fun c call' hc => hf (c, call') (Dict.mem_items_iff.2 hc)
  have hne : ∀ c call', s.calls.get? c = some call' →
      ({ s with nextCall := s.nextCall + 1 }.setPhase s.nextCall call phase).calls.get? c =
        some call' := fun c call' hc => by
    rw [State.setPhase, Dict.get?_set_ne _ (hwf.call_lt c call' hc).ne, hc]
  refine ⟨fun c₁ c₂ call₁ call₂ h₁ h₂ he => ?_, fun m w hw => ?_⟩
  · rw [State.setPhase, Dict.get?_set] at h₁ h₂
    split at h₁ <;> split at h₂
    · rw [‹c₁ = _›, ‹c₂ = _›]
    · obtain rfl := Option.some.inj h₁
      exact absurd he.symm (hfresh _ _ h₂)
    · obtain rfl := Option.some.inj h₂
      exact absurd he (hfresh _ _ h₁)
    · exact h.distinct _ _ _ _ h₁ h₂ he
  · obtain ⟨call', hc', hw'⟩ := h.queue_waiting m w hw
    exact ⟨call', hne _ _ hc', hw'⟩

/-- **Every change keeps the calls accounted for**, if the calls it registers have fresh ids. -/
theorem change {e : Event} (hwf : WellFormed s) (h : Accounted s)
    (hf : ∀ call ∈ e.newCall, FreshId s call.requestId) (hst : Change s e t) : Accounted t := by
  cases hst with
  | quiet hfr _ | capacity hfr => exact h.of_eq hfr.calls fun m w hw => hfr.queue m ▸ hw
  | refuse call e => exact h.newCall hwf (hf call rfl) _
  | enqueue call u =>
    have h' := h.newCall hwf (hf call rfl) (.waiting u false)
    refine ⟨h'.distinct, fun m w hw => ?_⟩
    rw [queue, State.enqueue, Dict.get?_set] at hw
    split at hw
    · subst m
      rcases List.mem_append.1 hw with hw | hw
      · exact h'.queue_waiting _ w hw
      · rw [List.mem_singleton.1 hw]
        exact ⟨_, calls_setPhase_self _ _, rfl⟩
    · exact h'.queue_waiting m w hw
  | grant call hroom =>
    exact (h.newCall hwf (hf call rfl) .returned).of_eq rfl fun m w hw => hw
  | @admitted m₀ w₀ gw qs hw hgw hroom hqs =>
    refine h.of_eq rfl fun m w hw' => ?_
    have hw'' : w ∈ (qs.get? m).getD [] := hw'
    rw [hqs] at hw''
    split at hw''
    · subst m
      exact List.mem_of_mem_erase hw''
    · exact hw''
  | @remove rid outcome ho =>
    rcases hwf.removeWaiter_cases rid outcome with ⟨he, -⟩ | ⟨m, w, qs, hw, -, he, hsub, -⟩
    · rw [he]
      exact h
    · rw [he]
      exact h.of_eq rfl fun m w hw => (hsub m).subset hw
  | rewait hc hw u b => exact h.setPhase hc _ (.inl rfl)
  | @claim c call gw hc hw hfut =>
    exact (h.setPhase hc .returned (.inr (hwf.not_queued hfut))).of_eq rfl fun m w hw => hw
  | @recover c call gw hc hw hfut e =>
    obtain ⟨i, l, he, -⟩ := recoverLeakedSlot_eq s ⟨gw, call.modelId⟩
    rw [he]
    have h' : Accounted { s with inFlight := i, dispatchTasks := l } :=
      h.of_eq rfl fun m w hw => hw
    exact h'.setPhase hc _ (.inr (hwf.not_queued hfut))
  | raise hc hw hfut hq e => exact h.setPhase hc _ (.inr (hq h.distinct))
  | @release c token ht hl =>
    obtain ⟨i, k, l, he, -, -⟩ := releaseSlot_eq s
      (s.tokens.set c { token with released := true }) ⟨token.gatewayId, token.modelId⟩
    rw [he]
    exact h.of_eq rfl fun m w hw => hw
  | reset slots hi => exact h.of_eq rfl fun m w hw => hw

end Accounted

/-! ## The balance -/

/-- Every in-flight count is the number of holders of the slot. -/
def Balanced (s : State) : Prop :=
  ∀ slot, s.inFlight.getD slot 0 = (held (fun _ => true) s slot : ℤ)

/-- **The balance survives every change that is no reset.** -/
theorem Balanced.change {s t : State} {e : Event} (h : Balanced s) (hwf : WellFormed s)
    (hacc : Accounted s) (hr : ∀ slots, e ≠ .reset slots) (hst : Change s e t) : Balanced t := by
  obtain ⟨c, a, b, hm⟩ := hst.moves hwf hr
  intro slot
  have hslot := h slot
  have hle := holdWeight_le_held (fun _ => true) s slot c
  have hheld := held_add_holdWeight hm.agree (fun _ => true) slot
  simp only [hm.before.holdWeight_eq, hm.after.holdWeight_eq, true_and] at hheld hle
  rcases hm.counts with ⟨rfl, hi⟩ | ⟨slot₀, -, hab, hi⟩ | ⟨slot₀, -, rfl, rfl, hi⟩
  · rw [hi, hslot]
    omega
  · rcases hab with ⟨rfl, rfl⟩ | ⟨-, ⟨m, w, hw, rfl⟩, call, hc, hnot⟩
    · rw [hi, hslot]
      by_cases hs : slot = slot₀
      · simp only [hs, reduceCtorEq, if_false, if_true] at hheld ⊢
        omega
      · simp only [hs, Option.some.injEq, Ne.symm hs, reduceCtorEq, if_false] at hheld ⊢
        omega
    · obtain ⟨call', hc', hwait⟩ := hacc.queue_waiting m w hw
      obtain rfl := Option.some.inj (hc.symm.trans hc')
      rw [hwait] at hnot
      cases hnot
  · rw [hi]
    by_cases hs : slot = slot₀
    · subst hs
      simp only [if_true, reduceCtorEq, if_false] at hheld hle
      rw [if_pos ⟨rfl, by omega⟩]
      omega
    · simp only [Option.some.injEq, Ne.symm hs, reduceCtorEq, if_false] at hheld
      rw [if_neg fun h => hs h.1]
      omega

/-! ## Runs -/

/-- The request id of the call an action starts. -/
def Action.newId : Action → Option RequestId
  | .acquireToken rid _ _ _ _ => some rid
  | _ => none

/-- The steps of the accounting law: a new call comes with a fresh request id, and no count is
reset. -/
def Accountable (s : State) (a : Action) : Prop :=
  (∀ rid ∈ a.newId, FreshId s rid) ∧ a.resets = false

instance (s : State) (a : Action) : Decidable (Accountable s a) :=
  inferInstanceAs (Decidable ((∀ rid ∈ a.newId, FreshId s rid) ∧ a.resets = false))

section

variable {s t u : State} {a : Action} {e : Event}

theorem freshId_of_permits (ha : ∀ rid ∈ a.newId, FreshId s rid) (hp : Permits s a u e) :
    ∀ call ∈ e.newCall, FreshId u call.requestId := by
  have key : ∀ call r, Arrival s a u call r → FreshId u call.requestId := by
    rintro call r ⟨⟨timeout, rfl⟩, rfl⟩
    rw [FreshId, (Frame.expirePause_tick s r.delay call.modelId).calls]
    exact ha _ rfl
  intro call hc
  cases e with
  | refuse call' | enqueue call' =>
    obtain rfl := Option.some.inj hc
    obtain ⟨r, hr⟩ := hp
    exact key _ r hr
  | grant call' gw =>
    obtain rfl := Option.some.inj hc
    obtain ⟨-, r, hr, -⟩ := hp
    exact key _ r hr
  | _ => cases hc

theorem accountable_step (hwf : WellFormed s) (hacc : Accounted s) (hb : Balanced s)
    (ha : Accountable s a) (hst : s.step a = some t) : Accounted t ∧ Balanced t := by
  refine ((step_path hwf hst).invariant
    (I := fun u => WellFormed u ∧ Accounted u ∧ Balanced u) ?_ ⟨hwf, hacc, hb⟩).2
  rintro u e v ⟨hwf, hacc, hb⟩ ⟨hp, hch⟩
  refine ⟨hwf.change hch, hacc.change hwf (freshId_of_permits ha.1 hp) hch,
    hb.change hwf hacc ?_ hch⟩
  rintro slots rfl
  exact absurd (hp.1.symm.trans ha.2) (by simp)

/-- The account is balanced in every state of a run whose steps can all be accounted for. -/
theorem balanced_of_reachable (h : (pool.restrict Accountable).Reachable s) :
    WellFormed s ∧ Accounted s ∧ Balanced s := by
  refine h.invariant (I := fun s => WellFormed s ∧ Accounted s ∧ Balanced s) ?_ ?_
  · rintro s ⟨depth, now, rfl⟩
    refine ⟨.initial depth now, ⟨fun c c' call call' hc => ?_, fun m w hw => ?_⟩, fun _ => rfl⟩
    · cases hc
    · cases hw
  · rintro s a t ⟨hwf, hacc, hb⟩ ⟨ha, (hst : s.step a = some t)⟩
    exact ⟨hwf.step hst, accountable_step hwf hacc hb ha hst⟩

/-- **Slot accounting**: in every run with distinct request ids and without resets, the in-flight
count of a slot is the number of live tokens on it plus the number of waiters admitted to it whose
calls are still suspended. It is never negative, and a call that has raised holds no slot. -/
theorem inFlight_eq_liveTokens_add_unclaimed
    (h : (pool.restrict Accountable).Reachable s) (slot : Slot) :
    s.inFlight.getD slot 0 = s.liveTokens slot + s.unclaimed slot ∧
      0 ≤ s.inFlight.getD slot 0 ∧
      ∀ c call e, s.calls.get? c = some call → call.phase = .raised e → ¬ s.Holds c slot := by
  obtain ⟨hwf, hacc, hb⟩ := balanced_of_reachable h
  refine ⟨?_, hwf.inFlight_nonneg slot, fun c call e hc hp hh => ?_⟩
  · rw [hb slot, held_true, Nat.cast_add]
  · rcases hh with hh | hh
    · rw [tokenSlot] at hh
      obtain ⟨token, ht, -⟩ := Option.bind_eq_some_iff.1 hh
      obtain ⟨call', hc', hp'⟩ := hwf.token_call c token ht
      obtain rfl := Option.some.inj (hc.symm.trans hc')
      rw [hp] at hp'
      cases hp'
    · rw [callSlot_of_not_waiting hc (by rw [Call.isWaiting, hp])] at hh
      cases hh

end

/-- A release admits the waiter `b`, whose call has yet to resume: one slot, held by no token. -/
theorem inFlight_eq_after_admission : ∃ s, (pool.restrict Accountable).Reachable s ∧
    s.unclaimed ⟨"gw", "m"⟩ = 1 ∧
    (s.inFlight.getD ⟨"gw", "m"⟩ 0 = s.liveTokens ⟨"gw", "m"⟩ + s.unclaimed ⟨"gw", "m"⟩ ∧
      0 ≤ s.inFlight.getD ⟨"gw", "m"⟩ 0 ∧
      ∀ c call e, s.calls.get? c = some call → call.phase = .raised e →
        ¬ s.Holds c ⟨"gw", "m"⟩) := by
  have hrun : (System.exec (System.guarded step Accountable) (.initial 0 0)
      [.setCapacity "gw" "m" 1, .acquireToken "a" "m" ["gw"] none .instant,
        .acquireToken "b" "m" ["gw"] none .instant, .release 0 fun _ => .instant]).map
      (fun s => s.unclaimed ⟨"gw", "m"⟩) = some 1 := by decide
  obtain ⟨s, hs, hu⟩ := Option.map_eq_some_iff.1 hrun
  have hreach : (pool.restrict Accountable).Reachable s :=
    System.reachable_of_exec_guarded ⟨0, 0, rfl⟩ hs
  exact ⟨s, hreach, hu, inFlight_eq_liveTokens_add_unclaimed hreach _⟩

end LlmGateway.CapacityPool
