import LlmGateway.FifoGate.Accounting

/-!
# Calls that end by raising

A release hands its slot over by settling the future of a waiter, and the waiter learns of it when it
runs on. If a cancellation, the cancellation event or the timer gets to the call in between, the call
raises with the slot in its future: nothing in `_wait_for_slot` or in the `except` clause of `acquire`
looks at the future again, so the slot stays with a request that has failed (`leakedSlot`).

`failedAcquire` is the law for the runs without such a step: a call that has raised was never given a
slot, none of the events that make up `active_count` is its own, and its id holds nothing unless
another acquisition of the id brought it in.
-/

namespace LlmGateway.FifoGate

open State

/-- The `acquire` call that gets a slot. -/
def SlotEvent.call : SlotEvent → Option CallId
  | .taken c _ => c
  | .handed w => some w.future
  | .quiet => none
  | .freed => none
  | .moved _ => none

/-- The id that gets a slot. -/
def SlotEvent.acquires : SlotEvent → Option RequestId
  | .taken _ id => some id
  | .handed w => some w.requestId
  | .moved toId => some toId
  | .quiet => none
  | .freed => none

/-- What the steps of a run do to slots. -/
def slotEvents : State → List Action → List SlotEvent := System.outputs step slotEvent

/-- No call runs on that has been told to give up and has a slot in its future. -/
def Undisturbed (s : State) : Action → Prop
  | .resume c _ => s.futures.get? c = some .result →
    (s.calls.get? c).any (fun call => call.phase.givesUp) = false
  | _ => True

instance (s : State) : (a : Action) → Decidable (Undisturbed s a)
  | .tryAcquire _ _ => .isTrue trivial
  | .acquire _ _ _ _ _ => .isTrue trivial
  | .release _ => .isTrue trivial
  | .transferHolder _ _ => .isTrue trivial
  | .forceRelease _ => .isTrue trivial
  | .setLimit _ => .isTrue trivial
  | .cancel _ => .isTrue trivial
  | .cancelTask _ => .isTrue trivial
  | .fireTimer _ => .isTrue trivial
  | .eventTask _ => .isTrue trivial
  | .resume _ _ => inferInstanceAs (Decidable (_ → _))

/-- What the slot events of a run say about the state it ends in. -/
structure GrantLog (s : State) (events : List SlotEvent) : Prop where
  wellFormed : WellFormed s
  granted : ∀ ev ∈ events, ∀ c, ev.call = some c → s.futures.get? c = some .result ∨
    ∃ call, s.calls.get? c = some call ∧ call.phase = .returned
  raised : ∀ c call e, s.calls.get? c = some call → call.phase = .raised e →
    s.futures.get? c ≠ some .result
  holders : ∀ id ∈ s.holders, ∃ ev ∈ events, ev.acquires = some id
  count : s.activeCount = events.foldl SlotEvent.count 0

section

variable {s t : State} {a : Action} {e : SlotEvent}

theorem holders_change (hst : Change s a e t) {id : RequestId} (hid : id ∈ t.holders) :
    id ∈ s.holders ∨ e.acquires = some id := by
  have hins : ∀ {id' : RequestId} {H : Finset RequestId}, H ⊆ s.holders → id ∈ insert id' H →
      id ∈ s.holders ∨ some id' = some id := by
    intro id' H hH h
    rcases Finset.mem_insert.1 h with rfl | h
    · exact .inr rfl
    · exact .inl (hH h)
  have hrest : ∀ {rest}, Disposes s a rest → rest ⊆ s.holders := by
    intro rest ha
    cases ha with
    | named | forced => exact Finset.erase_subset _ _
    | unnamed => exact Finset.Subset.refl _
  have hcf : ∀ {c u}, (u = s ∨ u = s.cancelFuture c) → u.holders = s.holders := by
    intro c u hu
    obtain ⟨futures, rfl⟩ := cleanUp_eq hu
    rfl
  cases hst with
  | take | takeCall => exact hins (Finset.Subset.refl _) hid
  | handOff ha _ => exact hins (hrest ha) hid
  | free ha _ => exact .inl (hrest ha hid)
  | move => exact hins (Finset.erase_subset _ _) hid
  | suspend _ _ _ _ hu | raise _ _ _ hu =>
    have hholders := hcf hu
    exact .inl (hholders ▸ hid)
  | _ => exact .inl hid

theorem granted_of_change (hst : Change s a e t) {c : CallId} (hc : e.call = some c) :
    t.futures.get? c = some .result ∨
      ∃ call, t.calls.get? c = some call ∧ call.phase = .returned := by
  cases hst with
  | takeCall =>
    obtain rfl := Option.some.inj hc
    exact .inr ⟨_, Dict.get?_set_self .., rfl⟩
  | handOff =>
    obtain rfl := Option.some.inj hc
    exact .inl (Dict.get?_set_self ..)
  | _ => cases hc

theorem WellFormed.granted_change (h : WellFormed s) (hst : Change s a e t) {c : CallId}
    (hc : s.futures.get? c = some .result ∨
      ∃ call, s.calls.get? c = some call ∧ call.phase = .returned) :
    t.futures.get? c = some .result ∨
      ∃ call, t.calls.get? c = some call ∧ call.phase = .returned := by
  rcases hc with hf | ⟨call, hc, hp⟩
  · exact .inl (h.result_change hst hf)
  · exact .inr ⟨call, h.call_change hst hc (.inr (by rw [hp]; rfl)), hp⟩

theorem WellFormed.raised_change (h : WellFormed s) (ha : Undisturbed s a) (hst : Change s a e t)
    (hs : ∀ c call e, s.calls.get? c = some call → call.phase = .raised e →
      s.futures.get? c ≠ some .result) {c : CallId} {call : Call} {err : AcquireError}
    (hc : t.calls.get? c = some call) (hp : call.phase = .raised err) :
    t.futures.get? c ≠ some .result := by
  -- the future of a call that was not queued before the step is not settled by a hand-off
  have hback : (∀ w ∈ s.waiters, w.future ≠ c) → t.futures.get? c = some .result →
      s.futures.get? c = some .result := by
    intro hq hf
    rcases futures_change hst c with h' | ⟨-, h'⟩ | ⟨⟨w, rfl, hw⟩, -, -⟩ | ⟨-, h'⟩
    · rw [← h', hf]
    · exact absurd hf h'
    · cases hst with
      | handOff _ hpop => exact absurd hw (hq _ ((sublist_of_popLive hpop).subset (by simp)))
    · rw [hf] at h'
      cases h'
  intro hf
  rcases calls_change hst hc with hc | ⟨call', hc', -, -, hm⟩ | ⟨rfl, -⟩
  · refine hs c call err hc hp (hback (fun w hw hwc => ?_) hf)
    obtain ⟨call', hc', -, hsus⟩ := h.queued_call w hw
    rw [hwc, hc, Option.some.injEq] at hc'
    rw [← hc', hp] at hsus
    cases hsus
  · rw [hp] at hm
    cases hm with
    | suspend hsus => cases hsus
    | @raise b _ hact hgive =>
      subst hact
      rcases futures_change hst c with h' | ⟨-, h'⟩ | ⟨⟨w, rfl, -⟩, -, -⟩ | ⟨-, h'⟩
      · have hf' : s.futures.get? c = some .result := by rw [← h', hf]
        have hg := ha hf'
        rw [hc', Option.any_some, hgive hf'] at hg
        cases hg
      · exact h' hf
      · cases hst with
        | handOff hd _ => cases hd
      · rw [hf] at h'
        cases h'
  · refine absurd (h.future_lt _ _ (hback (fun w hw hwc => ?_) hf)) (lt_irrefl _)
    obtain ⟨call', hc', -, -⟩ := h.queued_call w hw
    exact absurd (hwc ▸ h.call_lt _ _ hc') (lt_irrefl _)

theorem slot_kept_of_disturbed {c : CallId} {b : Bool} (ha : ¬ Undisturbed s (.resume c b))
    (hst : s.step (.resume c b) = some t) :
    t.futures.get? c = some .result ∧ t.holders = s.holders ∧ t.activeCount = s.activeCount ∧
      ∃ call, t.calls.get? c = some call ∧ (call.phase = .unwinding ∨ ∃ e, call.phase = .raised e) := by
  obtain ⟨hf, hg⟩ := Classical.not_imp.1 ha
  obtain ⟨call, hc, hst⟩ := Option.bind_eq_some_iff.1 hst
  rw [hc, Option.any_some, Bool.not_eq_false] at hg
  have hnp := isPending_of_result hf
  have hraise : ∀ e, (s.raise c call e).futures.get? c = some .result ∧
      (s.raise c call e).holders = s.holders ∧ (s.raise c call e).activeCount = s.activeCount ∧
      ∃ call', (s.raise c call e).calls.get? c = some call' ∧
        (call'.phase = .unwinding ∨ ∃ e, call'.phase = .raised e) :=
    fun e => ⟨hf, rfl, rfl, _, Dict.get?_set_self .., .inr ⟨e, rfl⟩⟩
  unfold State.resume at hst
  split at hst
  · rename_i x eventDone cancelRequested hp
    rw [hp, Phase.givesUp] at hg
    split at hst
    · obtain rfl := Option.some.inj hst
      rw [waitCancelled]
      split
      · exact ⟨hf, rfl, rfl, _, Dict.get?_set_self .., .inl rfl⟩
      · exact hraise _
    · rename_i hk
      rw [Bool.not_eq_true] at hk
      rw [hk, Bool.or_false] at hg
      rw [hg, hnp, Bool.not_false, Bool.true_or, Bool.true_or, if_pos rfl] at hst
      obtain rfl := Option.some.inj hst
      rw [waitReturns, Bool.not_true, Bool.and_false, if_neg Bool.false_ne_true,
        cancelFuture_of_not_pending hnp, conclude, hnp]
      exact hraise _
  · rename_i futureIn futureLeft hp
    rw [hp, Phase.givesUp, Bool.not_eq_true'] at hg
    obtain rfl := Option.some.inj hst
    rw [cleaned, cancelFuture_of_not_pending hnp, ite_self, conclude, hg]
    exact hraise _
  · obtain rfl := Option.some.inj hst
    exact hraise _
  · cases hst
  · cases hst

/-- An undisturbed step extends the log of the grants. -/
theorem GrantLog.step {events : List SlotEvent} (h : GrantLog s events) (ha : Undisturbed s a)
    (hst : s.step a = some t) : GrantLog t (events ++ [s.slotEvent a]) := by
  have hch := step_change hst
  refine ⟨h.wellFormed.step hst, fun ev hev c hc => ?_, fun c call e => ?_, fun id hid => ?_, ?_⟩
  · rcases List.mem_append.1 hev with hev | hev
    · exact h.wellFormed.granted_change hch (h.granted ev hev c hc)
    · rw [List.mem_singleton.1 hev] at hc
      exact granted_of_change hch hc
  · exact h.wellFormed.raised_change ha hch h.raised
  · rcases holders_change hch hid with hid | hid
    · obtain ⟨ev, hev, he⟩ := h.holders id hid
      exact ⟨ev, List.mem_append_left _ hev, he⟩
    · exact ⟨_, List.mem_append_right _ (List.mem_singleton_self _), hid⟩
  · rw [List.foldl_append, ← h.count]
    exact activeCount_change hch

theorem GrantLog.init (h : gate.init s) : GrantLog s [] := by
  obtain ⟨limit, hnew⟩ := h
  have hwf := WellFormed.new hnew
  rw [new_eq hnew] at hwf ⊢
  refine ⟨hwf, ?_, ?_, fun id hid => absurd hid (Finset.notMem_empty id), rfl⟩
  · intro ev hev
    cases hev
  · intro c call e hc
    cases hc

end

/-- **A call that raises holds nothing**, in every run in which no call runs on that has been told to
give up and has a slot in its future: it has no slot in its future, none of the slot events of the
run, from which `active_count` is made, gives it one, and its id is not a holder when no other
acquisition of the run has brought it in. -/
theorem failedAcquire {s₀ s : State} {as : List Action} (h₀ : gate.init s₀)
    (h : (gate.restrict Undisturbed).Run s₀ as s) {c : CallId} {call : Call} {e : AcquireError}
    (hc : s.calls.get? c = some call) (he : call.phase = .raised e) :
    s.futures.get? c ≠ some .result ∧
      s.activeCount = (slotEvents s₀ as).foldl SlotEvent.count 0 ∧
      (∀ ev ∈ slotEvents s₀ as, ev.call ≠ some c) ∧
      ((∀ ev ∈ slotEvents s₀ as, ev.acquires = some call.requestId → ev.call = some c) →
        call.requestId ∉ s.holders) := by
  have hlog : GrantLog s (slotEvents s₀ as) :=
    System.Run.outputs (fun _ _ _ _ hs ha hst => hs.step ha hst) h (GrantLog.init h₀)
  have hnot := hlog.raised c call e hc he
  have hcall : ∀ ev ∈ slotEvents s₀ as, ev.call ≠ some c := by
    intro ev hev hevc
    rcases hlog.granted ev hev c hevc with hf | ⟨call', hc', hp⟩
    · exact hnot hf
    · rw [hc, Option.some.injEq] at hc'
      rw [← hc', he] at hp
      cases hp
  refine ⟨hnot, hlog.count, hcall, fun hother hmem => ?_⟩
  obtain ⟨ev, hev, hid⟩ := hlog.holders _ hmem
  exact hcall ev hev (hother ev hev hid)

/-- `b` queues, is handed the slot of `a` and returns; the call of `c`, queued behind it, is cancelled
and holds nothing. -/
theorem failedAcquire_behind : ∃ as s, (gate.restrict Undisturbed).Run oneSlot as s ∧
    s.holders = {"b"} ∧ s.calls.get? 1 = some ⟨"c", true, false, .raised .cancelled⟩ ∧
    (∀ ev ∈ slotEvents oneSlot as, ev.call ≠ some 1) := by
  have hrun : (System.exec (System.guarded step Undisturbed) oneSlot
      [.tryAcquire "a" 0, .acquire "b" false false 0 0, .acquire "c" true false 0 0,
        .release (some "a"), .cancelTask 1, .resume 1 false, .resume 0 false]).map
      (fun s => (s.holders, s.calls.get? 1)) =
        some ({"b"}, some ⟨"c", true, false, .raised .cancelled⟩) := by decide
  obtain ⟨s, hs, hobs⟩ := Option.map_eq_some_iff.1 hrun
  obtain ⟨hholders, hc⟩ := Prod.mk.inj hobs
  have h : (gate.restrict Undisturbed).Run oneSlot _ s := System.run_of_exec_guarded hs
  have h₀ : gate.init oneSlot := ⟨.static 1, rfl⟩
  exact ⟨_, s, h, hholders, hc, (failedAcquire h₀ h hc rfl).2.2.1⟩

/-- The call of `b` is cancelled after the slot of `a` has been handed to it. -/
def leakRun : List Action :=
  [.tryAcquire "a" 0, .acquire "b" false false 0 0, .release (some "a"), .cancelTask 0,
    .resume 0 false]

/-- The call of `b` raises and no other acquisition brings `b` in, but `b` is the holder of the only
slot of a gate that nobody uses. -/
theorem leakedSlot : ∃ s, gate.Run oneSlot leakRun s ∧
    s.calls.get? 0 = some ⟨"b", false, false, .raised .cancelled⟩ ∧
    (∀ ev ∈ slotEvents oneSlot leakRun, ev.acquires = some "b" → ev.call = some 0) ∧
    s.holders = {"b"} ∧ s.activeCount = 1 ∧ s.waiters = [] := by
  have hrun : (System.exec step oneSlot leakRun).map
      (fun s => (s.calls.get? 0, s.holders, s.activeCount, s.waiters)) =
        some (some ⟨"b", false, false, .raised .cancelled⟩, {"b"}, 1, []) := by decide
  obtain ⟨s, hs, hobs⟩ := Option.map_eq_some_iff.1 hrun
  simp only [Prod.mk.injEq] at hobs
  obtain ⟨hc, hholders, hcount, hw⟩ := hobs
  exact ⟨s, System.run_of_exec hs, hc, by decide, hholders, hcount, hw⟩

end LlmGateway.FifoGate
