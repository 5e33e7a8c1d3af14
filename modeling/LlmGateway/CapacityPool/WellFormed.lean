import LlmGateway.CapacityPool.Basic

/-!
# Well-formed queues

What holds of the queues, futures, calls and tokens in every reachable state, whatever the request
ids: a queued waiter's future is pending and belongs to a call with the waiter's arguments, every
queue is ordered by arrival, every future belongs to a call already made and every token to a call
that has returned, and no count is negative.

The operations that touch these fields have one lemma each here; `wellFormed_of_reachable` puts them
together once every step is taken apart into such operations.
-/

namespace LlmGateway.CapacityPool

/-- The pool as a transition system, from any fresh pool. -/
def pool : System State Action :=
  .ofFn (fun s => ∃ depth now, s = .initial depth now) State.step

/-- The queues, futures, calls and tokens fit together. -/
structure WellFormed (s : State) : Prop where
  queue_pending : ∀ m, ∀ w ∈ s.queue m, s.futures.get? w.future = some .pending
  queue_call : ∀ m, ∀ w ∈ s.queue m, ∃ call, s.calls.get? w.future = some call ∧
    call.requestId = w.requestId ∧ call.modelId = m ∧ call.allowed = w.allowed
  queue_sorted : ∀ m, (s.queue m).Pairwise fun w w' => w.future < w'.future
  future_call : ∀ c f, s.futures.get? c = some f → ∃ call, s.calls.get? c = some call
  token_call : ∀ c t, s.tokens.get? c = some t → ∃ call, s.calls.get? c = some call ∧
    call.phase = .returned
  call_lt : ∀ c call, s.calls.get? c = some call → c < s.nextCall
  inFlight_nonneg : ∀ slot, 0 ≤ s.inFlight.getD slot 0

namespace State

variable {s t : State} {m : ModelId}

/-! ## Removing a waiter -/

theorem mem_queue_of_mem_items {q : List Waiter} (h : (m, q) ∈ s.queues.items) : s.queue m = q := by
  rw [queue, Dict.mem_items_iff.1 h]
  rfl

theorem mem_items_of_mem_queue {w : Waiter} (h : w ∈ s.queue m) :
    (m, s.queue m) ∈ s.queues.items := by
  rw [Dict.mem_items_iff]
  cases hq : s.queues.get? m with
  | none => simp [queue, hq] at h
  | some q => simp [queue, hq]

theorem removeWaiter_cases (s : State) (rid : RequestId) (outcome : Future) :
    s.removeWaiter rid outcome = (false, s) ∧ (∀ m, ∀ w ∈ s.queue m, w.requestId ≠ rid) ∨
      ∃ m w qs, w ∈ s.queue m ∧ w.requestId = rid ∧
        (s.queue m).find? (fun w => w.requestId = rid) = some w ∧
        s.removeWaiter rid outcome = (true, { s with
          futures := if s.futureDone w.future then s.futures else s.futures.set w.future outcome
          queues := qs }) ∧
        ∀ m', (qs.get? m').getD [] =
          if m' = m then (s.queue m).eraseP (fun w => w.requestId = rid) else s.queue m' := by
  unfold removeWaiter
  cases hf : s.findWaiter rid with
  | none =>
    refine .inl ⟨rfl, fun m w hw => ?_⟩
    have := List.findSome?_eq_none_iff.1 hf _ (mem_items_of_mem_queue hw)
    simpa using (List.find?_eq_none.1 (Option.map_eq_none_iff.1 this)) w hw
  | some e =>
    obtain ⟨m, q, w⟩ := e
    obtain ⟨⟨m₀, q₀⟩, hmem, he⟩ := List.exists_of_findSome?_eq_some hf
    obtain ⟨w₀, hw, he⟩ := Option.map_eq_some_iff.1 he
    obtain ⟨rfl, rfl, rfl⟩ : m₀ = m ∧ q₀ = q ∧ w₀ = w := by simpa using he
    have hq := mem_queue_of_mem_items hmem
    refine .inr ⟨m₀, w₀, _, hq ▸ List.mem_of_find?_eq_some hw, ?_, hq ▸ hw, rfl, fun m' => ?_⟩
    · simpa using List.find?_some hw
    · rw [putQueue_get?, hq]
      rfl

end State

open State

namespace WellFormed

variable {s t : State} {m : ModelId}

theorem of_eq (h : WellFormed s) (hq : ∀ m, t.queue m = s.queue m) (hf : t.futures = s.futures)
    (hc : t.calls = s.calls) (ht : t.tokens = s.tokens) (hn : t.nextCall = s.nextCall)
    (hi : ∀ slot, 0 ≤ t.inFlight.getD slot 0) : WellFormed t := by
  refine ⟨fun m => ?_, fun m => ?_, fun m => ?_, ?_, ?_, ?_, hi⟩
  · rw [hq, hf]; exact h.queue_pending m
  · rw [hq, hc]; exact h.queue_call m
  · rw [hq]; exact h.queue_sorted m
  · rw [hf, hc]; exact h.future_call
  · rw [ht, hc]; exact h.token_call
  · rw [hc, hn]; exact h.call_lt

theorem initial (depth : ℕ) (now : Time) : WellFormed (.initial depth now) where
  queue_pending _ _ hw := by cases hw
  queue_call _ _ hw := by cases hw
  queue_sorted _ := .nil
  future_call _ _ hf := by cases hf
  token_call _ _ ht := by cases ht
  call_lt _ _ hc := by cases hc
  inFlight_nonneg _ := le_rfl

variable {w : Waiter} {c : CallId} {call : Call}

theorem queue_unique (h : WellFormed s) {m' : ModelId} {w' : Waiter} (hw : w ∈ s.queue m)
    (hw' : w' ∈ s.queue m') (he : w.future = w'.future) : m = m' := by
  obtain ⟨call, hc, -, hm, -⟩ := h.queue_call m w hw
  obtain ⟨call', hc', -, hm', -⟩ := h.queue_call m' w' hw'
  rw [he, hc', Option.some.injEq] at hc
  rw [← hm, ← hm', hc]

theorem waiter_unique (h : WellFormed s) {w' : Waiter} (hw : w ∈ s.queue m)
    (hw' : w' ∈ s.queue m) (he : w.future = w'.future) : w = w' := by
  have hs := h.queue_sorted m
  by_contra hne
  rcases List.pairwise_iff_getElem.1 hs with hs
  obtain ⟨i, hi, rfl⟩ := List.getElem_of_mem hw
  obtain ⟨j, hj, rfl⟩ := List.getElem_of_mem hw'
  rcases lt_trichotomy i j with hij | rfl | hij
  · exact absurd he (hs i j hi hj hij).ne
  · exact hne rfl
  · exact absurd he (hs j i hj hi hij).ne'

theorem queue_nodup (h : WellFormed s) (m : ModelId) : (s.queue m).Nodup :=
  (h.queue_sorted m).imp fun hlt he => absurd (congrArg Waiter.future he) hlt.ne

theorem of_queue_sublist (h : WellFormed s) (hq : ∀ m, (t.queue m).Sublist (s.queue m))
    (hp : ∀ m, ∀ w ∈ t.queue m, t.futures.get? w.future = s.futures.get? w.future)
    (hf : ∀ c f, t.futures.get? c = some f → ∃ call, s.calls.get? c = some call)
    (hc : t.calls = s.calls) (ht : t.tokens = s.tokens) (hn : t.nextCall = s.nextCall)
    (hi : ∀ slot, 0 ≤ t.inFlight.getD slot 0) : WellFormed t where
  queue_pending m w hw := by
    rw [hp m w hw]
    exact h.queue_pending m w ((hq m).subset hw)
  queue_call m w hw := by
    rw [hc]
    exact h.queue_call m w ((hq m).subset hw)
  queue_sorted m := (h.queue_sorted m).sublist (hq m)
  future_call := by rw [hc]; exact hf
  token_call := by rw [hc, ht]; exact h.token_call
  call_lt := by rw [hc, hn]; exact h.call_lt
  inFlight_nonneg := hi

theorem removeWaiter_cases (h : WellFormed s) (rid : RequestId) (outcome : Future) :
    (s.removeWaiter rid outcome).2 = s ∧ (∀ m, ∀ w ∈ s.queue m, w.requestId ≠ rid) ∨
      ∃ m w qs, w ∈ s.queue m ∧ w.requestId = rid ∧
        (s.removeWaiter rid outcome).2 =
          { s with futures := s.futures.set w.future outcome, queues := qs } ∧
        (∀ m', ((qs.get? m').getD []).Sublist (s.queue m')) ∧
        ∀ m', ∀ w' ∈ (qs.get? m').getD [], w'.future ≠ w.future := by
  rcases State.removeWaiter_cases s rid outcome with ⟨he, hno⟩ | ⟨m, w, qs, hw, hrid, hfind, he, hqs⟩
  · exact .inl ⟨by rw [he], hno⟩
  have hdone : s.futureDone w.future = false := by
    simp [futureDone, h.queue_pending m w hw]
  simp only [hdone, Bool.false_eq_true, if_false] at he
  refine .inr ⟨m, w, qs, hw, hrid, by rw [he], fun m' => ?_, fun m' w' hw' hfut => ?_⟩
  · rw [hqs]
    split
    · subst m'; exact List.eraseP_sublist
    · exact .refl _
  rw [hqs] at hw'
  by_cases hm : m' = m
  · subst hm
    rw [if_pos rfl] at hw'
    obtain rfl := h.waiter_unique (List.eraseP_subset hw') hw hfut
    -- the removed waiter is the first with its id, and the queue has no second copy of it
    obtain ⟨-, l₁, l₂, hl, hl₁⟩ := List.find?_eq_some_iff_append.1 hfind
    have hnd := h.queue_nodup m'
    rw [hl, List.eraseP_append_right _ fun b hb => by simpa using hl₁ b hb,
      List.eraseP_cons_of_pos (by simpa using hrid)] at hw'
    rw [hl, List.nodup_middle, List.nodup_cons] at hnd
    exact hnd.1 hw'
  · rw [if_neg hm] at hw'
    exact hm (h.queue_unique hw' hw hfut)

theorem removeWaiter (h : WellFormed s) (rid : RequestId) (outcome : Future) :
    WellFormed (s.removeWaiter rid outcome).2 := by
  rcases h.removeWaiter_cases rid outcome with ⟨he, -⟩ | ⟨m, w, qs, hw, -, he, hsub, hgone⟩
  · rw [he]
    exact h
  rw [he]
  refine h.of_queue_sublist hsub (fun m' w' hw' => ?_) (fun c f hf => ?_) rfl rfl rfl
    h.inFlight_nonneg
  · exact Dict.get?_set_ne _ (hgone m' w' hw') _
  · rw [Dict.get?_set] at hf
    split at hf
    · subst c
      obtain ⟨call, hc, -⟩ := h.queue_call m w hw
      exact ⟨call, hc⟩
    · exact h.future_call c f hf

theorem token_none_of_waiting (h : WellFormed s)
    (hc : s.calls.get? c = some call) (hw : call.isWaiting = true) : s.tokens.get? c = none := by
  refine Option.eq_none_iff_forall_ne_some.2 fun token ht => ?_
  obtain ⟨call', hc', hp⟩ := h.token_call c token ht
  obtain rfl := Option.some.inj (hc.symm.trans hc')
  rw [Call.isWaiting, hp] at hw
  cases hw

theorem setPhase (h : WellFormed s) (hc : s.calls.get? c = some call)
    (hw : call.isWaiting = true) (phase : Phase) : WellFormed (s.setPhase c call phase) := by
  have hget : ∀ c' call', s.calls.get? c' = some call' →
      ∃ call'', (s.setPhase c call phase).calls.get? c' = some call'' ∧
        call''.requestId = call'.requestId ∧ call''.modelId = call'.modelId ∧
        call''.allowed = call'.allowed := by
    intro c' call' hc'
    by_cases he : c' = c
    · subst he
      rw [hc, Option.some.injEq] at hc'
      subst hc'
      exact ⟨_, Dict.get?_set_self _ _ _, rfl, rfl, rfl⟩
    · exact ⟨call', by rw [State.setPhase, Dict.get?_set_ne _ he, hc'], rfl, rfl, rfl⟩
  refine ⟨h.queue_pending, fun m w hw => ?_, h.queue_sorted, fun c' f hf => ?_,
    fun c' t ht => ?_, fun c' call' hc' => ?_, h.inFlight_nonneg⟩
  · obtain ⟨call', hc', h₁, h₂, h₃⟩ := h.queue_call m w hw
    obtain ⟨call'', hc'', h₁', h₂', h₃'⟩ := hget _ _ hc'
    exact ⟨call'', hc'', h₁'.trans h₁, h₂'.trans h₂, h₃'.trans h₃⟩
  · obtain ⟨call', hc'⟩ := h.future_call c' f hf
    obtain ⟨call'', hc'', -⟩ := hget _ _ hc'
    exact ⟨call'', hc''⟩
  · have hne : c' ≠ c := by
      rintro rfl
      exact absurd ((h.token_none_of_waiting hc hw).symm.trans ht) (by simp)
    rw [State.setPhase, Dict.get?_set_ne _ hne]
    exact h.token_call c' t ht
  · rw [State.setPhase, Dict.get?_set] at hc'
    split at hc'
    · subst c'
      exact h.call_lt c _ hc
    · exact h.call_lt c' call' hc'

theorem newCall (h : WellFormed s) (call : Call) (phase : Phase) :
    WellFormed ({ s with nextCall := s.nextCall + 1 }.setPhase s.nextCall call phase) := by
  have hfresh : ∀ c call, s.calls.get? c = some call → c ≠ s.nextCall := fun c call hc =>
    (h.call_lt c call hc).ne
  have hget : ∀ c call', s.calls.get? c = some call' →
      ({ s with nextCall := s.nextCall + 1 }.setPhase s.nextCall call phase).calls.get? c =
        some call' := fun c call' hc => by
    rw [State.setPhase, Dict.get?_set_ne _ (hfresh c call' hc), hc]
  refine ⟨h.queue_pending, fun m w hw => ?_, h.queue_sorted, fun c f hf => ?_,
    fun c t ht => ?_, fun c call' hc => ?_, h.inFlight_nonneg⟩
  · obtain ⟨call', hc', h'⟩ := h.queue_call m w hw
    exact ⟨call', hget _ _ hc', h'⟩
  · obtain ⟨call', hc'⟩ := h.future_call c f hf
    exact ⟨call', hget _ _ hc'⟩
  · obtain ⟨call', hc', hp⟩ := h.token_call c t ht
    exact ⟨call', hget _ _ hc', hp⟩
  · rw [State.setPhase, Dict.get?_set] at hc
    split at hc
    · subst c
      exact Nat.lt_succ_self _
    · exact (h.call_lt c call' hc).trans (Nat.lt_succ_self _)

theorem setToken (h : WellFormed s) (hc : s.calls.get? c = some call) (hp : call.phase = .returned) (token : Token) :
    WellFormed { s with tokens := s.tokens.set c token } := by
  refine ⟨h.queue_pending, h.queue_call, h.queue_sorted, h.future_call, fun c' t ht => ?_,
    h.call_lt, h.inFlight_nonneg⟩
  rw [Dict.get?_set] at ht
  split at ht
  · subst c'
    exact ⟨call, hc, hp⟩
  · exact h.token_call c' t ht

theorem returnToken (h : WellFormed s) (hc : s.calls.get? c = some call)
    (hw : call.isWaiting = true) (gw : GatewayId) (queued : Bool) :
    WellFormed (s.returnToken c call gw queued) :=
  ((h.setPhase hc hw .returned).setToken (Dict.get?_set_self _ _ _) rfl _).of_eq (fun _ => rfl)
    rfl rfl rfl rfl h.inFlight_nonneg

theorem enqueue (h : WellFormed s) (hc : s.calls.get? w.future = some call) (hr : call.requestId = w.requestId)
    (hm : call.modelId = m) (ha : call.allowed = w.allowed)
    (hlast : ∀ m', ∀ w' ∈ s.queue m', w'.future < w.future) : WellFormed (s.enqueue m w) := by
  have hqueue : ∀ m', (s.enqueue m w).queue m' =
      if m' = m then s.queue m ++ [w] else s.queue m' := fun m' => by
    rw [queue, State.enqueue, Dict.get?_set]
    split <;> rfl
  have hmem : ∀ m', ∀ w' ∈ (s.enqueue m w).queue m', w' ∈ s.queue m' ∨ m' = m ∧ w' = w := by
    intro m' w' hw'
    rw [hqueue] at hw'
    split at hw'
    · subst m'
      simpa using hw'
    · exact .inl hw'
  refine ⟨fun m' w' hw' => ?_, fun m' w' hw' => ?_, fun m' => ?_, fun c f hf => ?_,
    h.token_call, h.call_lt, h.inFlight_nonneg⟩
  · rw [State.enqueue, Dict.get?_set]
    rcases hmem m' w' hw' with hw' | ⟨-, rfl⟩
    · rw [if_neg (hlast m' w' hw').ne, h.queue_pending m' w' hw']
    · rw [if_pos rfl]
  · rcases hmem m' w' hw' with hw' | ⟨rfl, rfl⟩
    · exact h.queue_call m' w' hw'
    · exact ⟨call, hc, hr, hm, ha⟩
  · rw [hqueue]
    split
    · refine List.pairwise_append.2 ⟨h.queue_sorted m, List.pairwise_singleton _ _, ?_⟩
      intro w' hw' w'' hw''
      rw [List.mem_singleton.1 hw'']
      exact hlast m w' hw'
    · exact h.queue_sorted m'
  · rw [State.enqueue, Dict.get?_set] at hf
    split at hf
    · subst c
      exact ⟨call, hc⟩
    · exact h.future_call c f hf

end WellFormed

end LlmGateway.CapacityPool
