import LlmGateway.FifoGate.Change

/-!
# The queue of the gate

What holds of the queue, the futures and the calls in every reachable state, whatever the request
ids: the queue is ordered by arrival, a queued waiter belongs to a suspended call with its request
id, and its future is pending or has been cancelled by that call. `popLive_eq_some_iff` says what the
hand-off loop finds: the first waiter of the queue whose future is pending.
-/

namespace LlmGateway.FifoGate

/-- The queue, the futures and the calls fit together. -/
structure WellFormed (s : State) : Prop where
  sorted : s.waiters.Pairwise fun w w' => w.future < w'.future
  queued_call : ∀ w ∈ s.waiters, ∃ call, s.calls.get? w.future = some call ∧
    call.requestId = w.requestId ∧ call.phase.suspended = true
  queued_future : ∀ w ∈ s.waiters, s.futures.get? w.future = some .pending ∨
    s.futures.get? w.future = some .cancelled
  future_lt : ∀ c f, s.futures.get? c = some f → c < s.nextCall
  call_lt : ∀ c call, s.calls.get? c = some call → c < s.nextCall

namespace State

variable {s t : State} {a : Action} {e : SlotEvent}

variable {c : CallId} {l : List Waiter} {w : Waiter}

theorem isPending_iff : s.isPending c = true ↔ s.futures.get? c = some .pending := by
  simp [isPending]

theorem new_eq {limit : LimitSource} (h : State.new limit = .ok s) :
    s = ⟨limit, 0, ∅, [], 0, 0, 0, 0, ∅, ∅, 0⟩ := by
  unfold State.new at h
  split at h
  · split at h
    · cases h
    · cases h
      rfl
  · cases h
    rfl

/-! ## The hand-off loop -/

theorem popLive_eq_none_iff :
    s.popLive l = none ↔ ∀ w ∈ l, s.isPending w.future = false := by
  induction l with
  | nil => simp [popLive]
  | cons w ws ih =>
    rw [popLive, List.forall_mem_cons, ← ih]
    cases s.isPending w.future <;> simp

theorem popLive_eq_some_iff {ws : List Waiter} :
    s.popLive l = some (w, ws) ↔ s.isPending w.future = true ∧
      ∃ front, l = front ++ w :: ws ∧ ∀ w' ∈ front, s.isPending w'.future = false := by
  induction l with
  | nil => simp [popLive]
  | cons w₀ l ih =>
    rw [popLive]
    cases hp : s.isPending w₀.future with
    | true =>
      rw [if_pos rfl, Option.some.injEq, Prod.mk.injEq]
      constructor
      · rintro ⟨rfl, rfl⟩
        exact ⟨hp, [], rfl, fun _ hw => by cases hw⟩
      · rintro ⟨-, front, he, hf⟩
        cases front with
        | nil =>
          obtain ⟨rfl, rfl⟩ := List.cons.inj he
          exact ⟨rfl, rfl⟩
        | cons w' front =>
          obtain ⟨rfl, -⟩ := List.cons.inj he
          rw [hf _ (List.mem_cons_self ..)] at hp
          cases hp
    | false =>
      rw [if_neg Bool.false_ne_true, ih]
      constructor
      · rintro ⟨hw, front, rfl, hf⟩
        exact ⟨hw, w₀ :: front, rfl, List.forall_mem_cons.2 ⟨hp, hf⟩⟩
      · rintro ⟨hw, front, he, hf⟩
        cases front with
        | nil =>
          obtain ⟨rfl, -⟩ := List.cons.inj he
          rw [hw] at hp
          cases hp
        | cons w' front =>
          obtain ⟨rfl, rfl⟩ := List.cons.inj he
          exact ⟨hw, front, rfl, (List.forall_mem_cons.1 hf).2⟩

theorem sublist_of_popLive {ws : List Waiter} (h : s.popLive l = some (w, ws)) : (w :: ws).Sublist l := by
  obtain ⟨-, front, rfl, -⟩ := popLive_eq_some_iff.1 h
  exact List.sublist_append_right front (w :: ws)

theorem disposal_cases (s : State) : s.disposal = .freed ∨ ∃ w, s.disposal = .handed w := by
  rw [disposal]
  split
  · exact .inr ⟨_, rfl⟩
  · exact .inl rfl

theorem waiters_of_freed (h : Change s a .freed t) : t.waiters = [] := by
  cases h
  rfl

theorem pending_of_disposal (h : s.disposal = .handed w) :
    s.isPending w.future = true := by
  unfold disposal at h
  split at h
  · rename_i hpop
    cases h
    exact (popLive_eq_some_iff.1 hpop).1
  · cases h

/-! ## Removing a waiter -/

theorem ne_of_mem_eraseP (hl : l.Pairwise fun w w' => w.future < w'.future)
    (hw : w ∈ l.eraseP fun w => w.future = c) : w.future ≠ c := by
  induction l with
  | nil => cases hw
  | cons w₀ l ih =>
    rw [List.pairwise_cons] at hl
    by_cases h : w₀.future = c
    · rw [List.eraseP_cons_of_pos (by simpa using h)] at hw
      exact (h ▸ hl.1 w hw).ne'
    · rw [List.eraseP_cons_of_neg (by simpa using h)] at hw
      rcases List.mem_cons.1 hw with rfl | hw
      · exact h
      · exact ih hl.2 hw

theorem exists_of_find? {id : RequestId} (h : l.find? (fun w => w.requestId = id) = some w) :
    ∃ front back, l = front ++ w :: back ∧
      l.eraseP (fun w => w.requestId = id) = front ++ back := by
  obtain ⟨hid, front, back, hl, hfront⟩ := List.find?_eq_some_iff_append.1 h
  refine ⟨front, back, hl, ?_⟩
  rw [hl, List.eraseP_append_right _ (fun w' hw' => by simpa using hfront w' hw'),
    List.eraseP_cons_of_pos (by simpa using hid)]

theorem cancelFuture_eq (s : State) (c : CallId) :
    ∃ futures, s.cancelFuture c = { s with futures := futures } := by
  rw [cancelFuture]
  split
  · exact ⟨_, rfl⟩
  · exact ⟨s.futures, rfl⟩

theorem cleanUp_eq {u : State} (hu : u = s ∨ u = s.cancelFuture c) :
    ∃ futures, u = { s with futures := futures } := by
  rcases hu with rfl | rfl
  · exact ⟨u.futures, rfl⟩
  · exact cancelFuture_eq s c

theorem calls_of_cleanUp {u : State} (hu : u = s ∨ u = s.cancelFuture c) :
    u.calls = s.calls := by
  obtain ⟨futures, rfl⟩ := cleanUp_eq hu
  rfl

theorem get?_cancelFuture (s : State) (c c' : CallId) :
    (s.cancelFuture c).futures.get? c' = s.futures.get? c' ∨
      c' = c ∧ s.futures.get? c = some .pending ∧
        (s.cancelFuture c).futures.get? c' = some .cancelled := by
  rw [cancelFuture]
  split
  · rename_i hp
    rw [Dict.get?_set]
    split
    · exact .inr ⟨‹_›, isPending_iff.1 hp, rfl⟩
    · exact .inl rfl
  · exact .inl rfl

end State

open State

namespace WellFormed

variable {s t u : State} {a : Action} {e : SlotEvent}

theorem of_sublist (h : WellFormed s) (hw : t.waiters.Sublist s.waiters)
    (hf : ∀ w ∈ t.waiters, t.futures.get? w.future = s.futures.get? w.future ∨
      t.futures.get? w.future = some .cancelled)
    (hlt : ∀ c f, t.futures.get? c = some f → c < t.nextCall) (hc : t.calls = s.calls)
    (hn : t.nextCall = s.nextCall) : WellFormed t where
  sorted := h.sorted.sublist hw
  queued_call w hm := by
    rw [hc]
    exact h.queued_call w (hw.subset hm)
  queued_future w hm := by
    rcases hf w hm with hf | hf
    · rw [hf]
      exact h.queued_future w (hw.subset hm)
    · exact .inr hf
  future_lt := hlt
  call_lt := by
    rw [hc, hn]
    exact h.call_lt

variable {c : CallId} {call : Call}

theorem setPhase (h : WellFormed s) (phase : Phase) (hc : s.calls.get? c = some call)
    (hp : phase.suspended = true ∨ ∀ w ∈ s.waiters, w.future ≠ c) :
    WellFormed (s.setPhase c call phase) where
  sorted := h.sorted
  queued_call w hw := by
    obtain ⟨call', hc', hid, hsus⟩ := h.queued_call w hw
    rw [State.setPhase, Dict.get?_set]
    split
    · rename_i hwc
      rw [hwc, hc, Option.some.injEq] at hc'
      subst hc'
      exact ⟨_, rfl, hid, hp.resolve_right fun hne => hne w hw hwc⟩
    · exact ⟨call', hc', hid, hsus⟩
  queued_future := h.queued_future
  future_lt := h.future_lt
  call_lt c' call' hc' := by
    rw [State.setPhase, Dict.get?_set] at hc'
    split at hc'
    · subst c'
      exact h.call_lt c call hc
    · exact h.call_lt c' call' hc'

theorem newCall (h : WellFormed s) (hw : t.waiters = s.waiters) (hf : t.futures = s.futures)
    (hc : t.calls = s.calls.set s.nextCall call) (hn : t.nextCall = s.nextCall + 1) :
    WellFormed t where
  sorted := hw ▸ h.sorted
  queued_call w hm := by
    rw [hw] at hm
    obtain ⟨call', hc', hid⟩ := h.queued_call w hm
    refine ⟨call', ?_, hid⟩
    rw [hc, Dict.get?_set_ne _ (h.call_lt _ _ hc').ne]
    exact hc'
  queued_future w hm := by
    rw [hf]
    exact h.queued_future w (hw ▸ hm)
  future_lt c f hcf := by
    rw [hf] at hcf
    rw [hn]
    exact Nat.lt_succ_of_lt (h.future_lt c f hcf)
  call_lt c call' hc' := by
    rw [hc, Dict.get?_set] at hc'
    rw [hn]
    split at hc'
    · subst c
      exact Nat.lt_succ_self _
    · exact Nat.lt_succ_of_lt (h.call_lt c call' hc')

theorem enqueue (h : WellFormed s) (id : RequestId) (ht he : Bool) :
    WellFormed ((s.nextState.enqueue ⟨id, s.nextCall⟩).setPhase s.nextCall ⟨id, ht, he, .returned⟩
      (.waiting false false false)) := by
  have hlt : ∀ w ∈ s.waiters, w.future < s.nextCall := fun w hw => by
    obtain ⟨call', hc', -⟩ := h.queued_call w hw
    exact h.call_lt _ _ hc'
  refine ⟨?_, fun w hw => ?_, fun w hw => ?_, fun c f hf => ?_, fun c call' hc' => ?_⟩
  · refine List.pairwise_append.2 ⟨h.sorted, List.pairwise_singleton _ _, fun w hw w' hw' => ?_⟩
    rw [List.mem_singleton.1 hw']
    exact hlt w hw
  · simp only [State.setPhase, State.enqueue, nextState] at hw ⊢
    rcases List.mem_append.1 hw with hw | hw
    · obtain ⟨call', hc', hid'⟩ := h.queued_call w hw
      exact ⟨call', by rw [Dict.get?_set_ne _ (hlt w hw).ne]; exact hc', hid'⟩
    · rw [List.mem_singleton.1 hw]
      exact ⟨_, Dict.get?_set_self .., rfl, rfl⟩
  · simp only [State.setPhase, State.enqueue, nextState] at hw ⊢
    rcases List.mem_append.1 hw with hw | hw
    · rw [Dict.get?_set_ne _ (hlt w hw).ne]
      exact h.queued_future w hw
    · rw [List.mem_singleton.1 hw]
      exact .inl (Dict.get?_set_self ..)
  · simp only [State.setPhase, State.enqueue, nextState] at hf ⊢
    rw [Dict.get?_set] at hf
    split at hf
    · subst c
      exact Nat.lt_succ_self _
    · exact Nat.lt_succ_of_lt (h.future_lt c f hf)
  · simp only [State.setPhase, State.enqueue, nextState] at hc' ⊢
    rw [Dict.get?_set] at hc'
    split at hc'
    · subst c
      exact Nat.lt_succ_self _
    · exact Nat.lt_succ_of_lt (h.call_lt c call' hc')

theorem cancelFuture (h : WellFormed s) (c : CallId) : WellFormed (s.cancelFuture c) := by
  obtain ⟨futures, he⟩ := cancelFuture_eq s c
  have hn : (s.cancelFuture c).nextCall = s.nextCall := by rw [he]
  refine h.of_sublist (by rw [he]) (fun w _ => ?_) (fun c' f hf => ?_) (by rw [he]) hn
  · rcases get?_cancelFuture s c w.future with hf | ⟨-, -, hf⟩
    · exact .inl hf
    · exact .inr hf
  · rw [hn]
    rcases get?_cancelFuture s c c' with hf' | ⟨rfl, hf', -⟩
    · exact h.future_lt c' f (hf' ▸ hf)
    · exact h.future_lt c' _ hf'

theorem not_queued_of_result (h : WellFormed s)
    (hf : s.futures.get? c = some .result) : ∀ w ∈ s.waiters, w.future ≠ c := by
  rintro w hw rfl
  rcases h.queued_future w hw with hq | hq <;> rw [hf] at hq <;> cases hq

theorem raise (h : WellFormed s) (hc : s.calls.get? c = some call)
    (e : AcquireError) : WellFormed (s.raise c call e) := by
  have h' : WellFormed ({ s with waiters := s.waiters.eraseP fun w => w.future = c } : State) :=
    h.of_sublist List.eraseP_sublist (fun _ _ => .inl rfl) h.future_lt rfl rfl
  have h'' := h'.setPhase (.raised e) hc (.inr fun w hw => ne_of_mem_eraseP h.sorted hw)
  exact ⟨h''.sorted, h''.queued_call, h''.queued_future, h''.future_lt, h''.call_lt⟩

theorem handOff (h : WellFormed s) {w : Waiter} {ws : List Waiter} (rest : Finset RequestId)
    (hpop : s.popLive s.waiters = some (w, ws)) : WellFormed ((s.giveBack rest).handOff w ws) := by
  have hsub := sublist_of_popLive hpop
  have hp := isPending_iff.1 (popLive_eq_some_iff.1 hpop).1
  refine h.of_sublist ((List.sublist_cons_self w ws).trans hsub) (fun w' hw' => .inl ?_)
    (fun c f hf => ?_) rfl rfl
  · have hlt : w.future < w'.future := (List.pairwise_cons.1 (h.sorted.sublist hsub)).1 w' hw'
    exact Dict.get?_set_ne _ hlt.ne' _
  · simp only [State.handOff, giveBack] at hf ⊢
    rw [Dict.get?_set] at hf
    split at hf
    · subst c
      exact h.future_lt _ _ hp
    · exact h.future_lt c f hf

theorem cancel (h : WellFormed s) {id : RequestId} {w : Waiter}
    (hw : s.waiters.find? (fun w => w.requestId = id) = some w) (n : ℕ) :
    WellFormed { s with
      waiters := s.waiters.eraseP fun w => w.requestId = id
      futures := if s.isPending w.future then s.futures.set w.future .exception else s.futures
      totalCancellations := n } := by
  obtain ⟨front, back, he, hers⟩ := exists_of_find? hw
  have hsorted := h.sorted
  rw [he, List.pairwise_append, List.pairwise_cons] at hsorted
  have hne : ∀ w' ∈ front ++ back, w'.future ≠ w.future := fun w' hw' => by
    rcases List.mem_append.1 hw' with hw' | hw'
    · exact (hsorted.2.2 w' hw' w (List.mem_cons_self ..)).ne
    · exact (hsorted.2.1.1 w' hw').ne'
  refine h.of_sublist List.eraseP_sublist (fun w' hw' => .inl ?_) (fun c f hf => ?_) rfl rfl
  · simp only [hers] at hw' ⊢
    split
    · exact Dict.get?_set_ne _ (hne w' hw') _
    · rfl
  · simp only at hf ⊢
    split at hf
    · rename_i hp
      rw [Dict.get?_set] at hf
      split at hf
      · subst c
        exact h.future_lt _ _ (isPending_iff.1 hp)
      · exact h.future_lt c f hf
    · exact h.future_lt c f hf

theorem change (h : WellFormed s) (hst : Change s a e t) : WellFormed t := by
  have hcf : ∀ {c u}, (u = s ∨ u = s.cancelFuture c) → WellFormed u := by
    rintro c u (rfl | rfl)
    · exact h
    · exact h.cancelFuture c
  cases hst with
  | stay => exact h
  | limit | take | move => exact h.of_sublist (.refl _) (fun _ _ => .inl rfl) h.future_lt rfl rfl
  | enter | takeCall => exact h.newCall rfl rfl rfl rfl
  | enqueue => exact h.enqueue _ _ _
  | handOff _ hpop => exact h.handOff _ hpop
  | free => exact h.of_sublist (List.nil_sublist _) (fun _ _ => .inl rfl) h.future_lt rfl rfl
  | cancel hw => exact h.cancel hw _
  | suspend _ hc _ hp' hu => exact (hcf hu).setPhase _ (calls_of_cleanUp hu ▸ hc) (.inl hp')
  | finish hc _ hf => exact h.setPhase _ hc (.inr (h.not_queued_of_result hf))
  | raise hc _ _ hu => exact (hcf hu).raise (calls_of_cleanUp hu ▸ hc) _

theorem new {limit : LimitSource} (h : State.new limit = .ok s) : WellFormed s := by
  rw [new_eq h]
  refine ⟨.nil, ?_, ?_, ?_, ?_⟩
  · exact fun _ hw => by cases hw
  · exact fun _ hw => by cases hw
  · exact fun _ _ hf => by cases hf
  · exact fun _ _ hc => by cases hc

/-- Every step of the gate keeps the invariant. -/
theorem step (h : WellFormed s) (hst : s.step a = some t) : WellFormed t :=
  h.change (step_change hst)

end WellFormed

/-! ## One step -/

/-- `active_count` after a step, from its value before. -/
def SlotEvent.count (active : ℕ) : SlotEvent → ℕ
  | .quiet => active
  | .taken _ _ => active + 1
  | .handed _ => active
  | .freed => active - 1
  | .moved _ => active

section

variable {s t : State} {a : Action} {e : SlotEvent}

theorem activeCount_change (hst : Change s a e t) : t.activeCount = e.count s.activeCount := by
  cases hst with
  | suspend _ _ _ _ hu | raise _ _ _ hu =>
    obtain ⟨futures, rfl⟩ := cleanUp_eq hu
    rfl
  | _ => rfl

theorem futures_change (hst : Change s a e t) (c : CallId) :
    t.futures.get? c = s.futures.get? c ∨
      s.futures.get? c = some .pending ∧ t.futures.get? c ≠ some .result ∨
      (∃ w, e = .handed w ∧ w.future = c) ∧ s.futures.get? c = some .pending ∧
        t.futures.get? c = some .result ∨
      c = s.nextCall ∧ t.futures.get? c = some .pending := by
  have hcf : ∀ {c' u}, (u = s ∨ u = s.cancelFuture c') → u.futures.get? c = s.futures.get? c ∨
      s.futures.get? c = some .pending ∧ u.futures.get? c ≠ some .result := by
    rintro c' u (rfl | rfl)
    · exact .inl rfl
    · rcases get?_cancelFuture s c' c with h | ⟨rfl, hp, h⟩
      · exact .inl h
      · exact .inr ⟨hp, by rw [h]; exact fun h => by cases h⟩
  cases hst with
  | enqueue =>
    change (s.futures.set s.nextCall .pending).get? c = _ ∨ _ ∨ _ ∨ _ ∧
      (s.futures.set s.nextCall .pending).get? c = _
    rw [Dict.get?_set]
    split
    · exact .inr (.inr (.inr ⟨‹_›, rfl⟩))
    · exact .inl rfl
  | @handOff _ rest w ws _ hpop =>
    change (s.futures.set w.future .result).get? c = _ ∨ _ ∨ _ ∧ _ ∧
      (s.futures.set w.future .result).get? c = _ ∨ _
    rw [Dict.get?_set]
    split
    · subst c
      exact .inr (.inr (.inl ⟨⟨w, rfl, rfl⟩, isPending_iff.1 (popLive_eq_some_iff.1 hpop).1, rfl⟩))
    · exact .inl rfl
  | @cancel _ w hw =>
    dsimp only
    split
    · rename_i hp
      rw [Dict.get?_set]
      split
      · subst c
        exact .inr (.inl ⟨isPending_iff.1 hp, fun h => by cases h⟩)
      · exact .inl rfl
    · exact .inl rfl
  | suspend _ _ _ _ hu | raise _ _ _ hu => exact (hcf hu).imp_right .inl
  | _ => exact .inl rfl

variable {c : CallId} {call : Call}

theorem WellFormed.result_change (h : WellFormed s) (hst : Change s a e t)
    (hf : s.futures.get? c = some .result) : t.futures.get? c = some .result := by
  rcases futures_change hst c with h' | ⟨h', -⟩ | ⟨-, h', -⟩ | ⟨rfl, -⟩
  · rw [h', hf]
  · rw [hf] at h'
    cases h'
  · rw [hf] at h'
    cases h'
  · exact absurd (h.future_lt _ _ hf) (lt_irrefl _)

/-- How a call moves on in one step. -/
inductive CallMoves (s : State) (a : Action) (c : CallId) (call : Call) : Phase → Prop
  | suspend {phase : Phase} (hp : phase.suspended = true) : CallMoves s a c call phase
  | finish {b : Bool} (ha : a = .resume c b) (hf : s.futures.get? c = some .result) :
    CallMoves s a c call .returned
  | raise {b : Bool} {e : AcquireError} (ha : a = .resume c b)
    (hf : s.futures.get? c = some .result → call.phase.givesUp = true) :
    CallMoves s a c call (.raised e)

/-- How a new call stands after the step that makes it. -/
inductive CallStarts (s t : State) (e : SlotEvent) (call : Call) : Prop
  | taken (hp : call.phase = .returned) (he : e = .taken (some s.nextCall) call.requestId)
  | held (hp : call.phase = .returned) (hid : call.requestId ∈ s.holders)
  | refused {n : ℤ} (hp : call.phase = .raised (.capacityLimit n))
  | queued (hp : call.phase = .waiting false false false)
    (hw : ⟨call.requestId, s.nextCall⟩ ∈ t.waiters)

theorem calls_change (hst : Change s a e t) (hc : t.calls.get? c = some call) :
    s.calls.get? c = some call ∨
      (∃ call', s.calls.get? c = some call' ∧ call'.phase.suspended = true ∧
        call = { call' with phase := call.phase } ∧ CallMoves s a c call' call.phase) ∨
      c = s.nextCall ∧ CallStarts s t e call := by
  have hset : ∀ {d : Dict CallId Call} {c' : CallId} {call' : Call}, d = s.calls →
      (d.set c' call').get? c = some call →
      s.calls.get? c = some call ∨ c = c' ∧ call = call' := by
    rintro d c' call' rfl h
    rw [Dict.get?_set] at h
    split at h
    · exact .inr ⟨‹_›, (Option.some.inj h).symm⟩
    · exact .inl h
  cases hst with
  | enter hphase =>
    rcases hset rfl hc with h | ⟨rfl, rfl⟩
    · exact .inl h
    · rcases hphase with ⟨rfl, hid⟩ | ⟨n, rfl⟩
      · exact .inr (.inr ⟨rfl, .held rfl hid⟩)
      · exact .inr (.inr ⟨rfl, .refused rfl⟩)
  | takeCall =>
    rcases hset rfl hc with h | ⟨rfl, rfl⟩
    · exact .inl h
    · exact .inr (.inr ⟨rfl, .taken rfl rfl⟩)
  | enqueue =>
    rcases hset rfl hc with h | ⟨rfl, rfl⟩
    · exact .inl h
    · exact .inr (.inr ⟨rfl, .queued rfl (List.mem_append_right _ (List.mem_singleton_self _))⟩)
  | suspend _ hc' hp hp' hu =>
    rcases hset (calls_of_cleanUp hu) hc with h | ⟨rfl, rfl⟩
    · exact .inl h
    · exact .inr (.inl ⟨_, hc', hp, rfl, .suspend hp'⟩)
  | finish hc' hp hf =>
    rcases hset rfl hc with h | ⟨rfl, rfl⟩
    · exact .inl h
    · exact .inr (.inl ⟨_, hc', hp, rfl, .finish rfl hf⟩)
  | raise hc' hp hf hu =>
    rcases hset (calls_of_cleanUp hu) hc with h | ⟨rfl, rfl⟩
    · exact .inl h
    · exact .inr (.inl ⟨_, hc', hp, rfl, .raise rfl hf⟩)
  | _ => exact .inl hc

theorem calls_persist (hst : Change s a e t)
    (hc : s.calls.get? c = some call) : ∃ call', t.calls.get? c = some call' := by
  have hset : ∀ {d : Dict CallId Call} {c' : CallId} {call' : Call}, d = s.calls →
      ∃ call'', (d.set c' call').get? c = some call'' := by
    rintro d c' call' rfl
    rw [Dict.get?_set]
    split
    · exact ⟨_, rfl⟩
    · exact ⟨call, hc⟩
  cases hst with
  | enter => exact hset rfl
  | takeCall => exact hset rfl
  | enqueue => exact hset rfl
  | suspend _ _ _ _ hu => exact hset (calls_of_cleanUp hu)
  | finish => exact hset rfl
  | raise _ _ _ hu =>
    have hcalls := calls_of_cleanUp hu
    exact hset hcalls
  | _ => exact ⟨call, hc⟩

theorem calls_acquire (s : State) (id : RequestId) (ht he : Bool) (r r' : ℤ) :
    ∃ phase, (s.acquire id ht he r r').calls.get? s.nextCall = some ⟨id, ht, he, phase⟩ := by
  unfold acquire
  dsimp only
  split
  · exact ⟨_, Dict.get?_set_self ..⟩
  · split
    · exact ⟨_, Dict.get?_set_self ..⟩
    · split
      · exact ⟨_, Dict.get?_set_self ..⟩
      · exact ⟨_, Dict.get?_set_self ..⟩

theorem WellFormed.call_change (h : WellFormed s) (hst : Change s a e t) (hc : s.calls.get? c = some call)
    (hother : a.target ≠ some c ∨ call.phase.suspended = false) : t.calls.get? c = some call := by
  have hset : ∀ {d : Dict CallId Call} {c' : CallId} {call' : Call}, d = s.calls → c' ≠ c →
      (d.set c' call').get? c = some call := by
    rintro d c' call' rfl hne
    rw [Dict.get?_set_ne _ hne.symm]
    exact hc
  have hnew : s.nextCall ≠ c := (h.call_lt c call hc).ne'
  have hold : ∀ {c' call'}, a.target = some c' → s.calls.get? c' = some call' →
      call'.phase.suspended = true → c' ≠ c := by
    rintro c' call' ha hc' hp' rfl
    rw [hc, Option.some.injEq] at hc'
    rcases hother with hne | hp
    · exact hne ha
    · rw [hc', hp'] at hp
      cases hp
  cases hst with
  | enter | takeCall | enqueue => exact hset rfl hnew
  | suspend ha hc' hp' _ hu => exact hset (calls_of_cleanUp hu) (hold ha hc' hp')
  | finish hc' hp' _ => exact hset rfl (hold rfl hc' hp')
  | raise hc' hp' _ hu =>
    have hcalls := calls_of_cleanUp hu
    exact hset hcalls (hold rfl hc' hp')
  | _ => exact hc

end

/-! ## Suspended calls -/

/-- A suspended call whose future is pending is queued. -/
def PendingQueued (s : State) : Prop :=
  ∀ c call, s.calls.get? c = some call → call.phase.suspended = true →
    s.futures.get? c = some .pending → ∃ w ∈ s.waiters, w.future = c

section

variable {s t : State} {a : Action} {e : SlotEvent}

theorem mem_waiters_change (hst : Change s a e t) {w : Waiter} (hw : w ∈ s.waiters)
    (hp : t.futures.get? w.future = some .pending)
    (hc : ∃ call, t.calls.get? w.future = some call ∧ call.phase.suspended = true) :
    w ∈ t.waiters := by
  cases hst with
  | enqueue => exact List.mem_append_left _ hw
  | @handOff _ _ w₀ ws _ hpop =>
    obtain ⟨-, front, hl, hfront⟩ := popLive_eq_some_iff.1 hpop
    have hp' : (s.futures.set w₀.future .result).get? w.future = some .pending := hp
    rw [Dict.get?_set] at hp'
    split at hp'
    · cases hp'
    · rename_i hne
      rw [hl] at hw
      rcases List.mem_append.1 hw with hw | hw
      · have := hfront w hw
        rw [isPending_iff.2 hp'] at this
        cases this
      · rcases List.mem_cons.1 hw with rfl | hw
        · exact absurd rfl hne
        · exact hw
  | free _ hpop =>
    have hp' : s.futures.get? w.future = some .pending := hp
    have := popLive_eq_none_iff.1 hpop w hw
    rw [isPending_iff.2 hp'] at this
    cases this
  | @cancel id w₀ hfind =>
    obtain ⟨front, back, hl, hers⟩ := exists_of_find? hfind
    have hne : w ≠ w₀ := by
      rintro rfl
      dsimp only at hp
      split at hp
      · rw [Dict.get?_set_self] at hp
        cases hp
      · rename_i hn
        exact hn (isPending_iff.2 hp)
    dsimp only
    rw [hers]
    rw [hl] at hw
    rcases List.mem_append.1 hw with hw | hw
    · exact List.mem_append_left _ hw
    · exact List.mem_append_right _ ((List.mem_cons.1 hw).resolve_left hne)
  | suspend _ _ _ _ hu =>
    obtain ⟨futures, rfl⟩ := cleanUp_eq hu
    exact hw
  | @raise c _ call e u _ _ _ hu =>
    have hne : w.future ≠ c := by
      rintro rfl
      obtain ⟨call', hc', hsus⟩ := hc
      have hc'' : (u.calls.set w.future { call with phase := .raised e }).get? w.future =
        some call' := hc'
      rw [Dict.get?_set_self, Option.some.injEq] at hc''
      rw [← hc''] at hsus
      cases hsus
    have hw' : w ∈ u.waiters := by
      obtain ⟨futures, rfl⟩ := cleanUp_eq hu
      exact hw
    exact (List.mem_eraseP_of_neg (by simpa using hne)).2 hw'
  | _ => exact hw

theorem PendingQueued.change (h : PendingQueued s) (hwf : WellFormed s) (hst : Change s a e t) :
    PendingQueued t := by
  intro c call hc hsus hp
  -- a call that was suspended on a pending future before the step keeps its place in the queue
  have hold : ∀ call', s.calls.get? c = some call' → call'.phase.suspended = true →
      ∃ w ∈ t.waiters, w.future = c := by
    intro call' hc' hsus'
    have hp' : s.futures.get? c = some .pending := by
      rcases futures_change hst c with hf | ⟨hf, -⟩ | ⟨-, hf, -⟩ | ⟨rfl, -⟩
      · rw [← hf, hp]
      · exact hf
      · exact hf
      · exact absurd (hwf.call_lt _ _ hc') (lt_irrefl _)
    obtain ⟨w, hw, rfl⟩ := h c call' hc' hsus' hp'
    exact ⟨w, mem_waiters_change hst hw hp ⟨call, hc, hsus⟩, rfl⟩
  rcases calls_change hst hc with hc' | ⟨call', hc', hsus', -, -⟩ | ⟨rfl, hstart⟩
  · exact hold call hc' hsus
  · exact hold call' hc' hsus'
  · cases hstart with
    | queued _ hw => exact ⟨_, hw, rfl⟩
    | taken hphase | held hphase | refused hphase =>
      rw [hphase] at hsus
      cases hsus

end

end LlmGateway.FifoGate
