import LlmGateway.CapacityPool.Change

/-!
# Who holds a slot

A call holds a slot from its admission to its release: through the result of its future while it is
still suspended (`callSlot`), and through its token once `acquire_token` has returned (`tokenSlot`).
`held F` counts the holders of a slot that a filter `F` on the calls selects; `held_add_holdWeight`
says how the count follows one call.

Every change but a reset is a move of one call (`Change.moves`): it gains a slot, gives one back, or
keeps what it has, and the in-flight counts follow, with the guard against negative counts.
-/

namespace LlmGateway.CapacityPool

/-- The slot a token stands for, until it is released. -/
def Token.heldSlot (token : Token) : Option Slot :=
  if token.released then none else some ⟨token.gatewayId, token.modelId⟩

namespace State

/-- The slot a suspended call has been admitted to. -/
def admittedTo (s : State) (c : CallId) (call : Call) : Option Slot :=
  match call.isWaiting, s.futures.get? c with
  | true, some (.result gw) => some ⟨gw, call.modelId⟩
  | _, _ => none

/-- The slot the call holds through its token. -/
def tokenSlot (s : State) (c : CallId) : Option Slot := (s.tokens.get? c).bind Token.heldSlot

/-- The slot the call holds through its future. -/
def callSlot (s : State) (c : CallId) : Option Slot := (s.calls.get? c).bind (s.admittedTo c)

/-- The call holds the slot. -/
def Holds (s : State) (c : CallId) (slot : Slot) : Prop :=
  s.tokenSlot c = some slot ∨ s.callSlot c = some slot

/-- The number of live unreleased tokens on the slot. -/
def liveTokens (s : State) (slot : Slot) : ℕ :=
  s.tokens.count fun _ token => token.heldSlot = some slot

/-- The number of waiters admitted to the slot whose calls have neither returned nor raised. -/
def unclaimed (s : State) (slot : Slot) : ℕ :=
  s.calls.count fun c call => s.admittedTo c call = some slot

/-- The number of holders of the slot that `F` selects. -/
def held (F : CallId → Bool) (s : State) (slot : Slot) : ℕ :=
  s.tokens.count (fun c token => F c && decide (token.heldSlot = some slot)) +
    s.calls.count (fun c call => F c && decide (s.admittedTo c call = some slot))

/-- What the call `c` contributes to `held`. -/
def holdWeight (F : CallId → Bool) (s : State) (slot : Slot) (c : CallId) : ℕ :=
  if F c then (if s.tokenSlot c = some slot then 1 else 0) +
    (if s.callSlot c = some slot then 1 else 0) else 0

theorem held_true (s : State) (slot : Slot) :
    held (fun _ => true) s slot = s.liveTokens slot + s.unclaimed slot := by
  simp only [held, liveTokens, unclaimed, Bool.true_and]

/-- The two states agree on every call but `c`. -/
structure AgreeOff (s t : State) (c : CallId) : Prop where
  tokens : ∀ c', c' ≠ c → t.tokens.get? c' = s.tokens.get? c'
  calls : ∀ c', c' ≠ c → t.calls.get? c' = s.calls.get? c'
  futures : ∀ c', c' ≠ c → t.futures.get? c' = s.futures.get? c'

variable {s t : State} {c : CallId} {F : CallId → Bool} {slot : Slot}

theorem admittedTo_congr {call : Call} (h : t.futures.get? c = s.futures.get? c) :
    t.admittedTo c call = s.admittedTo c call := by
  rw [admittedTo, h, admittedTo]

theorem weight_tokens (F : CallId → Bool) (s : State) (slot : Slot) (c : CallId) :
    Dict.weight (fun c token => F c && decide (Token.heldSlot token = some slot)) c
      (s.tokens.get? c) = if F c then (if s.tokenSlot c = some slot then 1 else 0) else 0 := by
  rw [tokenSlot]
  cases s.tokens.get? c with
  | none => simp
  | some token => cases hF : F c <;> simp [hF]

theorem weight_calls (F : CallId → Bool) (s : State) (slot : Slot) (c : CallId) :
    Dict.weight (fun c call => F c && decide (s.admittedTo c call = some slot)) c
      (s.calls.get? c) = if F c then (if s.callSlot c = some slot then 1 else 0) else 0 := by
  rw [callSlot]
  cases s.calls.get? c with
  | none => simp
  | some call => cases hF : F c <;> simp [hF]

/-- **The number of holders moves with the one call that changes.** -/
theorem held_add_holdWeight (h : AgreeOff s t c) (F : CallId → Bool) (slot : Slot) :
    held F t slot + holdWeight F s slot c = held F s slot + holdWeight F t slot c := by
  have h₁ := Dict.count_add_weight c h.tokens (fun c' _ token _ => rfl :
    ∀ c', c' ≠ c → ∀ token, s.tokens.get? c' = some token →
      (fun c token => F c && decide (Token.heldSlot token = some slot)) c' token =
      (fun c token => F c && decide (Token.heldSlot token = some slot)) c' token)
  have h₂ := Dict.count_add_weight c h.calls
    (p := fun c call => F c && decide (s.admittedTo c call = some slot))
    (q := fun c call => F c && decide (t.admittedTo c call = some slot))
    (fun c' hc call _ => by rw [admittedTo_congr (h.futures c' hc)])
  rw [weight_tokens, weight_tokens] at h₁
  rw [weight_calls, weight_calls] at h₂
  have hs : ∀ u : State, holdWeight F u slot c =
      (if F c then (if u.tokenSlot c = some slot then 1 else 0) else 0) +
      (if F c then (if u.callSlot c = some slot then 1 else 0) else 0) := fun u => by
    rw [holdWeight]
    split <;> rfl
  rw [hs, hs, held, held]
  omega

theorem holdWeight_le_held (F : CallId → Bool) (s : State) (slot : Slot) (c : CallId) :
    holdWeight F s slot c ≤ held F s slot := by
  have h₁ := Dict.weight_le_count s.tokens
    (fun c token => F c && decide (token.heldSlot = some slot)) c
  have h₂ := Dict.weight_le_count s.calls
    (fun c call => F c && decide (s.admittedTo c call = some slot)) c
  rw [weight_tokens] at h₁
  rw [weight_calls] at h₂
  rw [holdWeight, held]
  cases hF : F c with
  | false => simp
  | true =>
    simp only [hF, if_true] at h₁ h₂ ⊢
    omega

theorem callSlot_of_waiting {call : Call} {gw : GatewayId} (hc : s.calls.get? c = some call)
    (hw : call.isWaiting = true) (hf : s.futures.get? c = some (.result gw)) :
    s.callSlot c = some ⟨gw, call.modelId⟩ := by
  rw [callSlot, hc, Option.bind_some, admittedTo, hw, hf]

theorem callSlot_of_not_waiting {call : Call} (hc : s.calls.get? c = some call)
    (hw : call.isWaiting = false) : s.callSlot c = none := by
  rw [callSlot, hc, Option.bind_some, admittedTo, hw]

theorem callSlot_of_not_result (hf : ∀ gw, s.futures.get? c ≠ some (.result gw)) :
    s.callSlot c = none := by
  rw [callSlot]
  cases s.calls.get? c with
  | none => rfl
  | some call =>
    rw [Option.bind_some, admittedTo]
    split
    · exact absurd ‹_› (hf _)
    · rfl

theorem AgreeOff.setPhase (call : Call) (phase : Phase) :
    AgreeOff s (s.setPhase c call phase) c :=
  ⟨fun _ _ => rfl, fun _ hc => Dict.get?_set_ne _ hc _, fun _ _ => rfl⟩

theorem AgreeOff.returnToken (call : Call) (gw : GatewayId) (queued : Bool) :
    AgreeOff s (s.returnToken c call gw queued) c :=
  ⟨fun _ hc => Dict.get?_set_ne _ hc _, fun _ hc => Dict.get?_set_ne _ hc _, fun _ _ => rfl⟩

@[simp] theorem calls_setPhase_self (call : Call) (phase : Phase) :
    (s.setPhase c call phase).calls.get? c = some { call with phase := phase } :=
  Dict.get?_set_self _ _ _

theorem tokenSlot_returnToken (call : Call) (gw : GatewayId) (queued : Bool) :
    (s.returnToken c call gw queued).tokenSlot c = some ⟨gw, call.modelId⟩ := by
  rw [tokenSlot, State.returnToken, State.setPhase, Dict.get?_set_self]
  rfl

theorem callSlot_returnToken (call : Call) (gw : GatewayId) (queued : Bool) :
    (s.returnToken c call gw queued).callSlot c = none :=
  callSlot_of_not_waiting (calls_setPhase_self _ _) rfl

end State

open State

/-! ## What a change does to the holders -/

/-- The call holds the slot `o`, through its token or through its future but not through both. -/
def HoldsOnly (s : State) (c : CallId) (o : Option Slot) : Prop :=
  s.tokenSlot c = o ∧ s.callSlot c = none ∨ s.tokenSlot c = none ∧ s.callSlot c = o

/-- The call's waiter is still queued although the call has ended. -/
def Abandoned (s : State) (c : CallId) : Prop :=
  (∃ m, ∃ w ∈ s.queue m, w.future = c) ∧
    ∃ call, s.calls.get? c = some call ∧ call.isWaiting = false

/-- One call changes what it holds from `a` to `b`, and the counts follow. -/
structure Moves (s : State) (e : Event) (t : State) (c : CallId) (a b : Option Slot) : Prop where
  agree : AgreeOff s t c
  before : HoldsOnly s c a
  after : HoldsOnly t c b
  counts :
    a = b ∧ (∀ slot, t.inFlight.getD slot 0 = s.inFlight.getD slot 0) ∨
    (∃ slot, e.admitsTo = some slot ∧ (a = none ∧ b = some slot ∨ a = b ∧ Abandoned s c) ∧
      ∀ slot', t.inFlight.getD slot' 0 =
        s.inFlight.getD slot' 0 + if slot' = slot then 1 else 0) ∨
    ∃ slot, (e = .recover c slot ∨ e = .release c slot) ∧ a = some slot ∧ b = none ∧
      ∀ slot', t.inFlight.getD slot' 0 =
        if slot' = slot ∧ 0 < s.inFlight.getD slot 0 then s.inFlight.getD slot 0 - 1
        else s.inFlight.getD slot' 0

section

variable {s t : State} {c : CallId} {call : Call}

theorem WellFormed.holdsOnly (h : WellFormed s) (c : CallId) : ∃ o, HoldsOnly s c o := by
  cases ht : s.tokens.get? c with
  | none => exact ⟨s.callSlot c, .inr ⟨by rw [tokenSlot, ht]; rfl, rfl⟩⟩
  | some token =>
    obtain ⟨call, hc, hp⟩ := h.token_call c token ht
    exact ⟨s.tokenSlot c, .inl ⟨rfl, callSlot_of_not_waiting hc (by rw [Call.isWaiting, hp])⟩⟩

theorem WellFormed.tokenSlot_none (h : WellFormed s) (hc : s.calls.get? c = some call)
    (hw : call.isWaiting = true) : s.tokenSlot c = none := by
  rw [tokenSlot, h.token_none_of_waiting hc hw]
  rfl

theorem WellFormed.holdsOnly_nextCall (h : WellFormed s) : HoldsOnly s s.nextCall none := by
  have hc : s.calls.get? s.nextCall = none := by
    cases hc : s.calls.get? s.nextCall with
    | none => rfl
    | some call => exact absurd (h.call_lt _ _ hc) (lt_irrefl _)
  refine .inl ⟨?_, by rw [callSlot, hc]; rfl⟩
  rw [tokenSlot]
  cases ht : s.tokens.get? s.nextCall with
  | none => rfl
  | some token =>
    obtain ⟨call, hc', -⟩ := h.token_call _ _ ht
    rw [hc] at hc'
    cases hc'

theorem Moves.same {e : Event} (hwf : WellFormed s) (hc : t.calls = s.calls)
    (ht : t.tokens = s.tokens) (hf : t.futures = s.futures)
    (hi : ∀ slot, t.inFlight.getD slot 0 = s.inFlight.getD slot 0) : ∃ c a b, Moves s e t c a b := by
  obtain ⟨o, ho⟩ := hwf.holdsOnly 0
  refine ⟨0, o, o, ⟨fun _ _ => by rw [ht], fun _ _ => by rw [hc], fun _ _ => by rw [hf]⟩, ho, ?_,
    .inl ⟨rfl, hi⟩⟩
  have hcs : t.callSlot 0 = s.callSlot 0 := by
    rw [callSlot, hc, callSlot]
    exact Option.bind_congr fun call _ => admittedTo_congr (by rw [hf])
  rw [HoldsOnly, tokenSlot, ht, hcs]
  exact ho

theorem holdsOnly_setPhase_raised (ht : s.tokenSlot c = none) (e : AcquireError) :
    HoldsOnly (s.setPhase c call (.raised e)) c none :=
  .inl ⟨ht, callSlot_of_not_waiting (calls_setPhase_self _ _) rfl⟩

/-- **Every change but a reset is a move of one call.** -/
theorem Change.moves {e : Event} (hwf : WellFormed s)
    (hr : ∀ slots, e ≠ .reset slots) (hst : Change s e t) : ∃ c a b, Moves s e t c a b := by
  cases hst with
  | quiet h _ | capacity h => exact Moves.same hwf h.calls h.tokens h.futures h.inFlight
  | refuse call e =>
    have hn := hwf.holdsOnly_nextCall
    refine ⟨s.nextCall, none, none, ?_, hn, ?_, .inl ⟨rfl, fun _ => rfl⟩⟩
    · exact ⟨fun _ _ => rfl, fun _ hc => Dict.get?_set_ne _ hc _, fun _ _ => rfl⟩
    · exact holdsOnly_setPhase_raised (by rcases hn with h | h <;> exact h.1) e
  | enqueue call u =>
    have hn := hwf.holdsOnly_nextCall
    refine ⟨s.nextCall, none, none, ?_, hn, .inl ⟨?_, callSlot_of_not_result fun gw => ?_⟩,
      .inl ⟨rfl, fun _ => rfl⟩⟩
    · exact ⟨fun _ _ => rfl, fun _ hc => Dict.get?_set_ne _ hc _,
        fun _ hc => Dict.get?_set_ne _ hc _⟩
    · rcases hn with h | h <;> exact h.1
    · rw [State.enqueue, Dict.get?_set_self]
      simp
  | @grant call gw hroom =>
    refine ⟨s.nextCall, none, some ⟨gw, call.modelId⟩, ?_, hwf.holdsOnly_nextCall,
      .inl ⟨tokenSlot_returnToken _ _ _, callSlot_returnToken _ _ _⟩,
      .inr (.inl ⟨_, rfl, .inl ⟨rfl, rfl⟩, inFlight_reserve s _⟩)⟩
    exact ⟨fun _ hc => Dict.get?_set_ne _ hc _, fun _ hc => Dict.get?_set_ne _ hc _, fun _ _ => rfl⟩
  | @admitted m w gw qs hw hgw hroom hqs =>
    obtain ⟨call, hc, -, hm, -⟩ := hwf.queue_call m w hw
    have hpend : s.callSlot w.future = none := callSlot_of_not_result fun gw' => by
      rw [hwf.queue_pending m w hw]
      simp
    have hag : AgreeOff s { s.reserve ⟨gw, m⟩ with
        queues := qs, futures := s.futures.set w.future (.result gw) } w.future :=
      ⟨fun _ _ => rfl, fun _ _ => rfl, fun _ hc => Dict.get?_set_ne _ hc _⟩
    cases hwait : call.isWaiting with
    | true =>
      have ht := hwf.tokenSlot_none hc hwait
      refine ⟨w.future, none, some ⟨gw, m⟩, hag, .inl ⟨ht, hpend⟩, .inr ⟨ht, ?_⟩,
        .inr (.inl ⟨_, rfl, .inl ⟨rfl, rfl⟩, inFlight_reserve s _⟩)⟩
      rw [← hm]
      exact callSlot_of_waiting hc hwait (Dict.get?_set_self _ _ _)
    | false =>
      have hab : Abandoned s w.future := ⟨⟨m, w, hw, rfl⟩, call, hc, hwait⟩
      exact ⟨w.future, _, _, hag, .inl ⟨rfl, hpend⟩, .inl ⟨rfl, callSlot_of_not_waiting hc hwait⟩,
        .inr (.inl ⟨_, rfl, .inr ⟨rfl, hab⟩, inFlight_reserve s _⟩)⟩
  | @remove rid outcome ho =>
    rcases hwf.removeWaiter_cases rid outcome with ⟨he, -⟩ | ⟨m, w, qs, hw, -, he, -, -⟩
    · rw [he]
      exact Moves.same hwf rfl rfl rfl fun _ => rfl
    rw [he]
    refine ⟨w.future, _, _, ?_, .inl ⟨rfl, callSlot_of_not_result fun gw' => ?_⟩,
      .inl ⟨rfl, callSlot_of_not_result fun gw' => ?_⟩, .inl ⟨rfl, fun _ => rfl⟩⟩
    · exact ⟨fun _ _ => rfl, fun _ _ => rfl, fun _ hc => Dict.get?_set_ne _ hc _⟩
    · rw [hwf.queue_pending m w hw]
      simp
    · rw [Dict.get?_set_self]
      rintro hr
      obtain rfl := Option.some.inj hr
      cases ho
  | @rewait c call hc hw u b =>
    refine ⟨c, s.callSlot c, s.callSlot c, .setPhase _ _, .inr ⟨hwf.tokenSlot_none hc hw, rfl⟩,
      .inr ⟨hwf.tokenSlot_none hc hw, ?_⟩, .inl ⟨rfl, fun _ => rfl⟩⟩
    rw [callSlot, calls_setPhase_self, callSlot, hc, Option.bind_some, Option.bind_some, admittedTo,
      admittedTo, hw]
    rfl
  | @claim c call gw hc hw hf =>
    exact ⟨c, _, _, .returnToken _ _ _,
      .inr ⟨hwf.tokenSlot_none hc hw, callSlot_of_waiting hc hw hf⟩,
      .inl ⟨tokenSlot_returnToken _ _ _, callSlot_returnToken _ _ _⟩, .inl ⟨rfl, fun _ => rfl⟩⟩
  | @recover c call gw hc hw hf e =>
    obtain ⟨i, l, he, hi⟩ := recoverLeakedSlot_eq s ⟨gw, call.modelId⟩
    rw [he]
    exact ⟨c, _, none, ⟨fun _ _ => rfl, fun _ hc => Dict.get?_set_ne _ hc _, fun _ _ => rfl⟩,
      .inr ⟨hwf.tokenSlot_none hc hw, callSlot_of_waiting hc hw hf⟩,
      holdsOnly_setPhase_raised (s := { s with inFlight := i, dispatchTasks := l })
        (hwf.tokenSlot_none hc hw) e, .inr (.inr ⟨_, .inl rfl, rfl, rfl, hi⟩)⟩
  | @raise c call hc hw hf hq e =>
    have ht := hwf.tokenSlot_none hc hw
    exact ⟨c, none, none, .setPhase _ _, .inl ⟨ht, callSlot_of_not_result hf⟩,
      holdsOnly_setPhase_raised ht e, .inl ⟨rfl, fun _ => rfl⟩⟩
  | @release c token ht hl =>
    obtain ⟨call, hc, hp⟩ := hwf.token_call _ _ ht
    have hcs : s.callSlot c = none := callSlot_of_not_waiting hc (by rw [Call.isWaiting, hp])
    obtain ⟨i, k, l, he, hi, hk⟩ := releaseSlot_eq s
      (s.tokens.set c { token with released := true }) ⟨token.gatewayId, token.modelId⟩
    rw [he]
    refine ⟨c, some ⟨token.gatewayId, token.modelId⟩, none, ?_, .inl ⟨?_, hcs⟩, .inl ⟨?_, hcs⟩,
      .inr (.inr ⟨_, .inr rfl, rfl, rfl, hi⟩)⟩
    · exact ⟨fun _ hc => Dict.get?_set_ne _ hc _, fun _ _ => rfl, fun _ _ => rfl⟩
    · rw [tokenSlot, ht, Option.bind_some, Token.heldSlot, hl]
      rfl
    · rw [tokenSlot, Dict.get?_set_self]
      rfl
  | reset slots hi => exact absurd rfl (hr slots)

end

theorem HoldsOnly.holdWeight_eq {s : State} {c : CallId} {o : Option Slot} (h : HoldsOnly s c o)
    (F : CallId → Bool) (slot : Slot) :
    holdWeight F s slot c = if F c = true ∧ o = some slot then 1 else 0 := by
  rw [holdWeight]
  rcases h with ⟨ht, hc⟩ | ⟨ht, hc⟩ <;> rw [ht, hc] <;> by_cases hF : F c = true <;> simp [hF]

end LlmGateway.CapacityPool
