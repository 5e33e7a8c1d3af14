import LlmGateway.CapacityPool.Turns
import LlmGateway.CapacityPool.Withdrawal

/-!
# Admission pauses

A pause asks for a deadline, now and the duration. `_paused_until` keeps one deadline per model, and it
is cleared in three places: at a check that finds it passed, when the resume task fires, and by
`resume_admission`. The ghost `Requests` keeps all deadlines asked for since the last
`resume_admission`; `Tracks` ties the two: until it has passed, the stored deadline is the greatest of
them, and none of the others lies beyond it.

An admission is a reservation at the time of its reading of the clock. `admissions` is the record of
those of a step, tied to it by `granted_step`: whoever is given a slot in the step is in the record.

`pauses_respected` puts them together. It assumes that the clock starts at a time that is not negative,
as monotonic clocks do: `pause_admission` reads a missing deadline as the time 0.
-/

namespace LlmGateway.CapacityPool

open State

/-! ## Deadlines -/

/-- The deadlines asked for each model since its pause was last released. -/
abbrev Requests := ModelId → List Time

/-- The deadlines asked for after an action at the time `now`. -/
def Action.requests (now : Time) (H : Requests) : Action → Requests
  | .pauseAdmission m duration => fun m' => if m' = m then H m ++ [now + duration] else H m'
  | .resumeAdmission m => fun m' => if m' = m then [] else H m'
  | _ => H

theorem requests_pauseAdmission (now : Time) (H : Requests) (m m' : ModelId) (duration : Time) :
    (Action.pauseAdmission m duration).requests now H m' =
      if m' = m then H m ++ [now + duration] else H m' := rfl

theorem requests_resumeAdmission (now : Time) (H : Requests) (m m' : ModelId) :
    (Action.resumeAdmission m).requests now H m' = if m' = m then [] else H m' := rfl

/-- A step of the pool, with the deadlines asked for. -/
def pausingStep (x : State × Requests) (a : Action) : Option (State × Requests) :=
  (x.1.step a).map fun t => (t, a.requests x.1.now x.2)

/-- The pool with the deadlines asked for, from a time that is not negative. -/
def pausing : System (State × Requests) Action :=
  .ofFn (fun x => ∃ depth now, 0 ≤ now ∧ x = (.initial depth now, fun _ => [])) pausingStep

/-- Time passes, and pauses only end, each after its deadline. -/
structure Expires (s t : State) : Prop where
  now : s.now ≤ t.now
  pausedUntil : ∀ m, t.pausedUntil.get? m = s.pausedUntil.get? m ∨
    t.pausedUntil.get? m = none ∧ ∀ d, s.pausedUntil.get? m = some d → d ≤ t.now

namespace Expires

theorem refl (s : State) : Expires s s := ⟨le_rfl, fun _ => .inl rfl⟩

theorem of_eq {s t : State} (hn : t.now = s.now) (hp : t.pausedUntil = s.pausedUntil) :
    Expires s t :=
  ⟨hn.ge, fun _ => .inl (by rw [hp])⟩

theorem trans {s t u : State} (h : Expires s t) (h' : Expires t u) : Expires s u := by
  refine ⟨h.now.trans h'.now, fun m => ?_⟩
  rcases h.pausedUntil m with he | ⟨hn, hle⟩
  · rcases h'.pausedUntil m with he' | ⟨hn', hle'⟩
    · exact .inl (he'.trans he)
    · exact .inr ⟨hn', fun d hd => hle' d (he.trans hd)⟩
  · refine .inr ⟨?_, fun d hd => (hle d hd).trans h'.now⟩
    rcases h'.pausedUntil m with he' | ⟨hn', -⟩
    · exact he'.trans hn
    · exact hn'

theorem of_fields {s u t : State} (h : Expires u t) (hn : u.now = s.now)
    (hp : u.pausedUntil = s.pausedUntil) : Expires s t :=
  (Expires.of_eq hn hp).trans h

theorem tick (s : State) {dt : Time} (hdt : 0 ≤ dt) : Expires s (s.tick dt) :=
  ⟨le_add_of_nonneg_right hdt, fun _ => .inl rfl⟩

theorem clearPause {s : State} {m : ModelId}
    (h : ∀ d, s.pausedUntil.get? m = some d → d ≤ s.now) : Expires s (s.clearPause m) := by
  refine ⟨le_rfl, fun m' => ?_⟩
  by_cases hm : m' = m
  · exact .inr ⟨hm ▸ Dict.get?_erase_self _ _, fun d hd => h d (hm ▸ hd)⟩
  · exact .inl (Dict.get?_erase_ne _ hm)

theorem expirePause (s : State) (m : ModelId) : Expires s (s.expirePause m) := by
  cases hd : s.pausedUntil.get? m with
  | none =>
    rw [expirePause_of_none hd]
    exact .refl s
  | some d =>
    by_cases hle : d ≤ s.now
    · rw [expirePause_of_expired hd hle]
      refine .clearPause fun d' hd' => ?_
      exact Option.some.inj (hd.symm.trans hd') ▸ hle
    · rw [expirePause_of_paused ⟨d, hd, not_le.1 hle⟩]
      exact .refl s

theorem reading (s : State) (r : Reading) (m : ModelId) :
    Expires s ((s.tick r.delay).expirePause m) :=
  (tick s r.delay_nonneg).trans (.expirePause _ m)

theorem dispatchLoop (m : ModelId) (ρ : ℕ → Reading) (q : List Waiter) (s : State) :
    Expires s (dispatchLoop m ρ q s).2 := by
  refine dispatchLoop_rec (m := m) (motive := fun _ _ s _ t => Expires s t) ?_ ?_ ?_ ?_ ρ q s
  · exact fun _ s => .refl s
  · exact fun _ _ _ _ _ _ _ ih => ih
  · exact fun ρ _ _ s _ _ _ _ ih => (Expires.reading s (ρ 0) m).trans ih
  · intro ρ w _ s gw _ t _ _ _ _ ih
    have hadmit : Expires s (s.admitWaiter (ρ 0) m w gw) := .trans (.reading s (ρ 0) m) (.of_eq rfl rfl)
    exact hadmit.trans ih

theorem dispatch (s : State) (ρ : ℕ → Reading) (m : ModelId) : Expires s (s.dispatch ρ m) := by
  obtain ⟨qs, he, -⟩ := dispatch_eq m ρ s
  rw [he]
  exact (Expires.dispatchLoop m ρ _ s).trans (.of_eq rfl rfl)

theorem dispatchAll (ρ : ℕ → ℕ → Reading) (ms : List ModelId) (s : State) :
    Expires s (dispatchAll ρ ms s) := by
  induction ms generalizing ρ s with
  | nil => exact .refl s
  | cons m ms ih => exact (Expires.dispatch s (ρ 0) m).trans (ih _ _)

theorem turns (m : ModelId) (ρ : ℕ → Reading) (q : List Waiter) (s : State) :
    ∀ turn ∈ CapacityPool.turns m ρ q s, Expires s turn.before := by
  refine turns_rec (m := m) (motive := fun _ _ s ts _ _ => ∀ turn ∈ ts, Expires s turn.before)
    ?_ ?_ ?_ ?_ ρ q s
  · exact fun _ _ _ h => by cases h
  · exact fun _ _ _ s _ _ _ _ ih => List.forall_mem_cons.2 ⟨.refl s, ih⟩
  · exact fun ρ _ _ s _ _ _ _ ih => List.forall_mem_cons.2 ⟨.refl s, fun turn h =>
      (Expires.reading s (ρ 0) m).trans (ih turn h)⟩
  · intro ρ w _ s gw ts _ _ _ ih
    have hadmit : Expires s (s.admitWaiter (ρ 0) m w gw) := .trans (.reading s (ρ 0) m) (.of_eq rfl rfl)
    exact List.forall_mem_cons.2 ⟨.refl s, fun turn h => hadmit.trans (ih turn h)⟩

theorem foldl_removeSlot (l : List Slot) (s : State) : Expires s (l.foldl State.removeSlot s) := by
  induction l generalizing s with
  | nil => exact .refl s
  | cons slot l ih =>
    have hslot : Expires s (s.removeSlot slot) := by
      unfold State.removeSlot
      split <;> exact .of_eq rfl rfl
    exact hslot.trans (ih _)

theorem removeWaiter (s : State) (rid : RequestId) (outcome : Future) :
    Expires s (s.removeWaiter rid outcome).2 := by
  rcases State.removeWaiter_cases s rid outcome with ⟨he, -⟩ | ⟨m, w, qs, -, -, -, he, -⟩
  · rw [he]
    exact .refl s
  · rw [he]
    exact .of_eq rfl rfl

theorem withdraw (s : State) (c : CallId) (call : Call) (e : AcquireError) :
    Expires s (withdraw s c call e) :=
  (Expires.removeWaiter s call.requestId .cancelled).trans (.of_eq rfl rfl)

theorem onCancelled (s : State) (c : CallId) (call : Call) : Expires s (s.onCancelled c call) := by
  unfold State.onCancelled
  split
  · rename_i gw _
    obtain ⟨i, l, he, -⟩ := recoverLeakedSlot_eq s ⟨gw, call.modelId⟩
    rw [he]
    exact .of_eq rfl rfl
  · exact .of_eq rfl rfl
  · exact .withdraw s c call _

theorem waitLoop (s : State) (c : CallId) (call : Call) : Expires s (s.waitLoop c call) := by
  unfold State.waitLoop
  split
  · exact .of_eq rfl rfl
  · exact .onCancelled s c call
  · split
    · exact .withdraw s c call _
    · split
      · exact .onCancelled s c call
      · exact .of_eq rfl rfl

theorem acquireToken (s : State) (rid : RequestId) (m : ModelId) (allowed : List GatewayId)
    (timeout : Option Time) (r : Reading) : Expires s (s.acquireToken rid m allowed timeout r) := by
  obtain ⟨call, s₁, -, -, -, -, hs₁, hcases⟩ := acquireToken_cases s rid m allowed timeout r
  have hr : Expires s s₁ := hs₁ ▸ .reading s r m
  refine hr.trans ?_
  rcases hcases with ⟨gw, -, -, -, he⟩ | ⟨-, ⟨-, -, he⟩ | ⟨-, he⟩⟩
  · rw [he]
    exact .of_eq rfl rfl
  · rw [he]
    exact .of_eq rfl rfl
  · rw [he]
    exact (Expires.waitLoop _ _ _).of_fields rfl rfl

theorem release (s : State) (ρ : ℕ → Reading) (c : CallId) (token : Token) :
    Expires s (s.release ρ c token) := by
  unfold State.release poolRelease
  dsimp only
  split
  · exact .refl s
  · obtain ⟨i, k, l, he, -, -⟩ := releaseSlot_eq s
      (s.tokens.set c { token with released := true }) ⟨token.gatewayId, token.modelId⟩
    rw [he]
    exact (Expires.dispatch _ ρ token.modelId).of_fields rfl rfl

theorem resumeAfter (s : State) (ρ : ℕ → Reading) (m : ModelId) :
    Expires s (s.resumeAfter ρ m) := by
  unfold State.resumeAfter
  split
  · exact .of_eq rfl rfl
  · rename_i d hd
    split
    · exact .of_eq rfl rfl
    · refine .trans (.clearPause fun d' hd' => ?_) (.dispatch _ ρ m)
      obtain rfl := Option.some.inj (hd.symm.trans hd')
      exact not_lt.1 ‹_›

end Expires

/-- The actions that set a deadline or drop one before its time. -/
def Action.setsDeadline : Action → Bool
  | .pauseAdmission .. | .resumeAdmission _ => true
  | _ => false

/-- **Every other action** only lets pauses end. -/
theorem expires_step {s t : State} {a : Action} (ha : a.setsDeadline = false)
    (hst : s.step a = some t) : Expires s t := by
  cases steps_of_step hst with
  | pauseAdmission | resumeAdmission => cases ha
  | acquireToken rid m allowed timeout r => exact .acquireToken s rid m allowed timeout r
  | cancelTask | wakeGranted | resetColdSlot => exact .of_eq rfl rfl
  | @wakeCancelled c call | @deliverCancel c call => exact .onCancelled s c call
  | @sliceTimeout c call => exact .waitLoop s c call
  | @release c token ρ _ => exact .release s ρ c token
  | runDispatch m ρ => exact (Expires.dispatch _ ρ m).of_fields rfl rfl
  | resourceUpdate ρ => exact .dispatchAll ρ _ s
  | setCapacity gw m n =>
    unfold State.setCapacity
    dsimp only
    split <;> exact .of_eq rfl rfl
  | removeGateway => exact .foldl_removeSlot _ s
  | removeModel gw m _ => exact .foldl_removeSlot [⟨gw, m⟩] s
  | removeNoModel => exact .refl s
  | resumeAfter m ρ _ => exact .resumeAfter s ρ m
  | isPaused m => exact .expirePause s m
  | cancelRequest rid reason => exact .removeWaiter s rid _
  | reconcile gw ms ρ =>
    obtain ⟨i, he, -⟩ := reconcileLoop_eq gw ms s
    unfold State.reconcileGatewayState
    dsimp only
    rw [he]
    exact (Expires.dispatchAll ρ _ _).of_fields rfl rfl
  | tick hdt => exact .tick s hdt

/-! ## The stored deadline -/

/-- The stored deadlines are among those asked for, and a deadline asked for has passed or is not later
than the stored one. -/
structure Tracks (s : State) (H : Requests) : Prop where
  now : 0 ≤ s.now
  asked : ∀ m d, s.pausedUntil.get? m = some d → d ∈ H m
  covered : ∀ m, ∀ d ∈ H m, d ≤ s.now ∨ ∃ d', s.pausedUntil.get? m = some d' ∧ d ≤ d'

namespace Tracks

variable {s t : State} {H : Requests}

theorem expires (h : Tracks s H) (he : Expires s t) : Tracks t H := by
  refine ⟨h.now.trans he.now, fun m d hd => ?_, fun m d hd => ?_⟩
  · rcases he.pausedUntil m with heq | ⟨hn, -⟩
    · exact h.asked m d (heq ▸ hd)
    · rw [hn] at hd
      cases hd
  · rcases h.covered m d hd with hle | ⟨d', hd', hle⟩
    · exact .inl (hle.trans he.now)
    · rcases he.pausedUntil m with heq | ⟨-, hpast⟩
      · exact .inr ⟨d', heq.trans hd', hle⟩
      · exact .inl (hle.trans (hpast d' hd'))

/-- **The effective deadline**: a time that lies ahead is the stored deadline if and only if it is the
greatest of those asked for. -/
theorem deadline_iff (h : Tracks s H) (m : ModelId) {d : Time} (hd : s.now < d) :
    s.pausedUntil.get? m = some d ↔ IsGreatest {x | x ∈ H m} d := by
  constructor
  · refine fun hget => ⟨h.asked m d hget, fun x hx => ?_⟩
    rcases h.covered m x hx with hle | ⟨d', hd', hle⟩
    · exact hle.trans hd.le
    · exact Option.some.inj (hget.symm.trans hd') ▸ hle
  · rintro ⟨hmem, hmax⟩
    obtain ⟨d', hd', hle⟩ := (h.covered m d hmem).resolve_left (not_le.2 hd)
    rw [hd', hle.antisymm (hmax (h.asked m d' hd'))]

theorem le_now (h : Tracks s H) {m : ModelId} (hp : ¬ s.Paused m) : ∀ d ∈ H m, d ≤ s.now := by
  intro d hd
  rcases h.covered m d hd with hle | ⟨d', hd', hle⟩
  · exact hle
  · exact hle.trans (not_lt.1 fun hlt => hp ⟨d', hd', hlt⟩)

theorem pauseAdmission (h : Tracks s H) (m : ModelId) (duration : Time) :
    Tracks (s.pauseAdmission m duration).2 ((Action.pauseAdmission m duration).requests s.now H) := by
  have hmem : ∀ m' d, d ∈ H m' → d ∈ (Action.pauseAdmission m duration).requests s.now H m' := by
    intro m' d hd
    rw [requests_pauseAdmission]
    split
    · rename_i hm
      exact List.mem_append_left _ (hm ▸ hd)
    · exact hd
  have hcases : ∀ m' d, d ∈ (Action.pauseAdmission m duration).requests s.now H m' →
      d ∈ H m' ∨ m' = m ∧ d = s.now + duration := by
    intro m' d hd
    rw [requests_pauseAdmission] at hd
    split at hd
    · rename_i hm
      exact (List.mem_append.1 hd).imp (hm ▸ ·) fun hd => ⟨hm, List.mem_singleton.1 hd⟩
    · exact .inl hd
  unfold State.pauseAdmission
  split
  · -- no pause is asked for
    rename_i hle
    refine ⟨h.now, fun m' d hd => hmem m' d (h.asked m' d hd), fun m' d hd => ?_⟩
    rcases hcases m' d hd with hd | ⟨-, rfl⟩
    · exact h.covered m' d hd
    · exact .inl (add_le_of_nonpos_right hle)
  rename_i hpos
  dsimp only
  split
  · -- the stored deadline is not earlier
    rename_i hle
    refine ⟨h.now, fun m' d hd => hmem m' d (h.asked m' d hd), fun m' d hd => ?_⟩
    rcases hcases m' d hd with hd | ⟨rfl, rfl⟩
    · exact h.covered m' d hd
    · cases hget : s.pausedUntil.get? m' with
      | none =>
        rw [Dict.getD_eq, hget, Option.getD_none] at hle
        exact absurd (h.now.trans_lt (lt_add_of_pos_right _ (not_le.1 hpos))) (not_lt.2 hle)
      | some d =>
        rw [Dict.getD_eq, hget, Option.getD_some] at hle
        exact .inr ⟨d, rfl, hle⟩
  · -- the new deadline replaces it
    rename_i hlt
    refine ⟨h.now, fun m' d hd => ?_, fun m' d hd => ?_⟩
    · rw [Dict.get?_set] at hd
      split at hd
      · rename_i hm
        obtain rfl := Option.some.inj hd
        rw [requests_pauseAdmission, if_pos hm]
        exact List.mem_append_right _ List.mem_cons_self
      · exact hmem m' d (h.asked m' d hd)
    · rw [Dict.get?_set]
      rcases hcases m' d hd with hd | ⟨hm, rfl⟩
      · split
        · rename_i hm
          rcases h.covered m' d hd with hle | ⟨d', hd', hle⟩
          · exact .inl hle
          · rw [Dict.getD_eq, ← hm, hd', Option.getD_some] at hlt
            exact .inr ⟨_, rfl, hle.trans (not_le.1 hlt).le⟩
        · exact h.covered m' d hd
      · rw [if_pos hm]
        exact .inr ⟨_, rfl, le_rfl⟩

theorem resumeAdmission (h : Tracks s H) (m : ModelId) :
    Tracks (s.resumeAdmission m).2 ((Action.resumeAdmission m).requests s.now H) := by
  have hget : (s.resumeAdmission m).2.now = s.now ∧
      ∀ m', (s.resumeAdmission m).2.pausedUntil.get? m' =
        if m' = m then none else s.pausedUntil.get? m' := by
    unfold State.resumeAdmission
    split
    · refine ⟨rfl, fun m' => ?_⟩
      exact Dict.get?_erase _ _ _
    · rename_i hno
      refine ⟨rfl, fun m' => ?_⟩
      split
      · rename_i hm
        rw [hm]
        exact Option.not_isSome_iff_eq_none.1 hno
      · rfl
  obtain ⟨hnow, hget⟩ := hget
  refine ⟨hnow ▸ h.now, fun m' d hd => ?_, fun m' d hd => ?_⟩
  · rw [hget] at hd
    rw [requests_resumeAdmission]
    split at hd
    · cases hd
    · rename_i hm
      rw [if_neg hm]
      exact h.asked m' d hd
  · rw [requests_resumeAdmission] at hd
    rw [hget, hnow]
    split at hd
    · cases hd
    · rename_i hm
      rw [if_neg hm]
      exact h.covered m' d hd

theorem step {a : Action} (h : Tracks s H) (hst : s.step a = some t) :
    Tracks t (a.requests s.now H) := by
  cases ha : a.setsDeadline with
  | false =>
    have he := h.expires (expires_step ha hst)
    cases a <;> first | exact he | cases ha
  | true =>
    cases steps_of_step hst with
    | pauseAdmission m duration => exact h.pauseAdmission m duration
    | resumeAdmission m => exact h.resumeAdmission m
    | _ => cases ha

end Tracks

/-- The stored deadlines cover the requests in every reachable state. -/
theorem tracks_of_reachable {s : State} {H : Requests} (h : pausing.Reachable (s, H)) :
    Tracks s H := by
  refine h.invariant (I := fun x => Tracks x.1 x.2) ?_ ?_
  · rintro x ⟨depth, now, hnow, rfl⟩
    exact ⟨hnow, fun m d hd => (by cases hd), fun m d hd => (by cases hd)⟩
  · intro x a y h hst
    obtain ⟨t, ht, rfl⟩ := Option.map_eq_some_iff.1 hst
    exact h.step ht

/-! ## Admissions -/

/-- A slot of the model is reserved for the call at the given time. -/
structure AdmissionRecord where
  call : CallId
  modelId : ModelId
  time : Time

/-- The admissions of a dispatch: its turns that admit a waiter. -/
def dispatchAdmissions (s : State) (ρ : ℕ → Reading) (m : ModelId) : List AdmissionRecord :=
  (turns m ρ (s.queue m) s).filterMap fun turn =>
    match turn.outcome with
    | .admitted _ => some ⟨turn.waiter.future, m, turn.before.now + turn.reading.delay⟩
    | _ => none

/-- The admissions of several dispatches. -/
def dispatchAllAdmissions : (ℕ → ℕ → Reading) → List ModelId → State → List AdmissionRecord
  | _, [], _ => []
  | ρ, m :: ms, s => dispatchAdmissions s (ρ 0) m ++
      dispatchAllAdmissions (fun i => ρ (i + 1)) ms (s.dispatch (ρ 0) m)

/-- The admissions of the step with an action. -/
def State.admissions (s : State) : Action → List AdmissionRecord
  | .acquireToken _ m allowed _ r =>
    match (s.tryImmediate r m allowed).1 with
    | some _ => [⟨s.nextCall, m, s.now + r.delay⟩]
    | none => []
  | .release c ρ =>
    match s.tokens.get? c with
    | some token =>
      if token.released then []
      else dispatchAdmissions
        (({ s with tokens := s.tokens.set c { token with released := true } }.decrement
          ⟨token.gatewayId, token.modelId⟩).cleanupDrained ⟨token.gatewayId, token.modelId⟩)
        ρ token.modelId
    | none => []
  | .runDispatch m ρ => dispatchAdmissions { s with dispatchTasks := s.dispatchTasks.erase m } ρ m
  | .resourceUpdate ρ => dispatchAllAdmissions ρ (s.queues.items.map Prod.fst) s
  | .resumeAfter m ρ =>
    match s.pausedUntil.get? m with
    | none => []
    | some deadline => if s.now < deadline then [] else dispatchAdmissions (s.clearPause m) ρ m
  | .reconcile gw idleModelIds ρ =>
    dispatchAllAdmissions ρ (reconcileLoop gw idleModelIds s).1 (reconcileLoop gw idleModelIds s).2
  | _ => []

section

variable {s t : State} {a : Action} {c : CallId} {slot : Slot}

theorem mem_dispatchAdmissions {ρ : ℕ → Reading} {m : ModelId} {e : AdmissionRecord} :
    e ∈ dispatchAdmissions s ρ m ↔ ∃ turn ∈ turns m ρ (s.queue m) s, ∃ gw,
      turn.outcome = .admitted gw ∧
        ⟨turn.waiter.future, m, turn.before.now + turn.reading.delay⟩ = e := by
  rw [dispatchAdmissions, List.mem_filterMap]
  refine exists_congr fun turn => and_congr_right fun _ => ?_
  cases turn.outcome <;> simp

/-! ### No admission is early -/

/-- The admissions in the list come no earlier than the deadlines asked for. -/
def NotEarly (H : Requests) (es : List AdmissionRecord) : Prop :=
  ∀ e ∈ es, ∀ d ∈ H e.modelId, d ≤ e.time

theorem notEarly_dispatch {H : Requests} (h : Tracks s H) (ρ : ℕ → Reading) (m : ModelId) :
    NotEarly H (dispatchAdmissions s ρ m) := by
  intro e he d hd
  obtain ⟨turn, hturn, gw, hout, rfl⟩ := mem_dispatchAdmissions.1 he
  have hright := right_of_mem_turns m ρ _ s turn hturn
  rw [Turn.Right, hout] at hright
  have htracks := (h.expires (.turns m ρ _ s turn hturn)).expires
    (.tick turn.before turn.reading.delay_nonneg)
  exact htracks.le_now hright.2.1 d hd

theorem notEarly_dispatchAll {H : Requests} (ρ : ℕ → ℕ → Reading) (ms : List ModelId)
    (h : Tracks s H) : NotEarly H (dispatchAllAdmissions ρ ms s) := by
  induction ms generalizing ρ s with
  | nil => exact fun _ he => by cases he
  | cons m ms ih =>
    refine fun e he => ?_
    rcases List.mem_append.1 he with he | he
    · exact notEarly_dispatch h (ρ 0) m e he
    · exact ih _ (h.expires (.dispatch s (ρ 0) m)) e he

/-- **No admission is early**: at the time of each admission of a step, every deadline asked for its
model has passed. -/
theorem notEarly_admissions {H : Requests} (h : Tracks s H) (a : Action) :
    NotEarly H (s.admissions a) := by
  cases a with
  | acquireToken rid m allowed timeout r =>
    have hr := h.expires (.tick s r.delay_nonneg)
    dsimp only [State.admissions]
    rcases tryImmediate_cases s m r allowed with ⟨-, he⟩ | ⟨gw, -, hp, -, he⟩
    · rw [he]
      exact fun _ he => by cases he
    · rw [he]
      exact List.forall_mem_singleton.2 (hr.le_now hp)
  | release c ρ =>
    dsimp only [State.admissions]
    split
    · rename_i token _
      split
      · exact fun _ he => by cases he
      · obtain ⟨i, k, l, he, -, -⟩ := releaseSlot_eq s
          (s.tokens.set c { token with released := true }) ⟨token.gatewayId, token.modelId⟩
        rw [he]
        refine notEarly_dispatch ?_ ρ _
        exact h.expires (.of_eq rfl rfl)
    · exact fun _ he => by cases he
  | runDispatch m ρ =>
    refine notEarly_dispatch ?_ ρ m
    exact h.expires (.of_eq rfl rfl)
  | resourceUpdate ρ => exact notEarly_dispatchAll ρ _ h
  | resumeAfter m ρ =>
    dsimp only [State.admissions]
    split
    · exact fun _ he => by cases he
    · rename_i d hd
      split
      · exact fun _ he => by cases he
      · refine notEarly_dispatch (h.expires (.clearPause fun d' hd' => ?_)) ρ m
        obtain rfl := Option.some.inj (hd.symm.trans hd')
        exact not_lt.1 ‹_›
  | reconcile gw ms ρ =>
    obtain ⟨i, he, -⟩ := reconcileLoop_eq gw ms s
    refine notEarly_dispatchAll ρ _ ?_
    rw [he]
    exact h.expires (.of_eq rfl rfl)
  | _ => exact fun _ he => by cases he

/-! ### The record is complete -/

theorem granted_dispatch (hwf : WellFormed s) (ρ : ℕ → Reading) (m : ModelId)
    (h : Granted (s.dispatch ρ m) c slot) : Granted s c slot ∨
      ∃ e ∈ dispatchAdmissions s ρ m, e.call = c ∧ e.modelId = slot.modelId := by
  obtain ⟨qs, he, -⟩ := dispatch_eq m ρ s
  obtain ⟨n, p, rt, l, f, i, hloop⟩ := dispatchLoop_eq m ρ (s.queue m) s
  have hcalls : (s.dispatch ρ m).calls = s.calls := by rw [he, hloop]
  have htokens : (s.dispatch ρ m).tokens = s.tokens := by rw [he, hloop]
  by_cases hadmit : ∃ turn ∈ turns m ρ (s.queue m) s, ∃ gw,
      turn.outcome = .admitted gw ∧ turn.waiter.future = c
  · obtain ⟨turn, hturn, gw, hout, rfl⟩ := hadmit
    rcases h with ⟨token, ht, hslot⟩ | ⟨call, hc, -, hm⟩
    · exact .inl (.inl ⟨token, htokens ▸ ht, hslot⟩)
    · have hw : turn.waiter ∈ s.queue m := map_waiter_turns m ρ (s.queue m) s ▸
        List.mem_map_of_mem hturn
      obtain ⟨call', hc', -, hm', -⟩ := hwf.queue_call m _ hw
      obtain rfl := Option.some.inj (hc'.symm.trans (hcalls ▸ hc))
      exact .inr ⟨_, mem_dispatchAdmissions.2 ⟨turn, hturn, gw, hout, rfl⟩, rfl, hm'.symm.trans hm⟩
  · refine .inl (h.of_eq (by rw [htokens]) ?_ fun call hc => ⟨call, hcalls ▸ hc, rfl⟩)
    rw [he]
    refine futures_of_not_admitted m ρ _ s fun turn hturn gw hout hc => ?_
    exact hadmit ⟨turn, hturn, gw, hout, hc⟩

theorem granted_dispatchAll (ρ : ℕ → ℕ → Reading) (ms : List ModelId) (hwf : WellFormed s)
    (h : Granted (dispatchAll ρ ms s) c slot) : Granted s c slot ∨
      ∃ e ∈ dispatchAllAdmissions ρ ms s, e.call = c ∧ e.modelId = slot.modelId := by
  induction ms generalizing ρ s with
  | nil => exact .inl h
  | cons m ms ih =>
    rcases ih _ (hwf.path (dispatch_path hwf (ρ 0) m)) h with h | ⟨e, he, hcm⟩
    · refine (granted_dispatch hwf (ρ 0) m h).imp_right fun ⟨e, he, hcm⟩ => ?_
      exact ⟨e, List.mem_append_left _ he, hcm⟩
    · exact .inr ⟨e, List.mem_append_right _ he, hcm⟩

theorem granted_of_not_dispatches (hwf : WellFormed s) (ha : a.dispatches = false)
    (hst : s.step a = some t) (h : Granted t c slot) : Granted s c slot ∨
      ∃ rid allowed timeout r, a = .acquireToken rid slot.modelId allowed timeout r ∧
        c = s.nextCall ∧ ¬ (s.tick r.delay).Paused slot.modelId ∧
        ∃ gw ∈ allowed, 0 < s.available gw slot.modelId := by
  refine ((step_path hwf hst).invariant (I := fun u => WellFormed u ∧ (Granted u c slot →
    Granted s c slot ∨ ∃ rid allowed timeout r, a = .acquireToken rid slot.modelId allowed timeout r ∧
        c = s.nextCall ∧ ¬ (s.tick r.delay).Paused slot.modelId ∧
        ∃ gw ∈ allowed, 0 < s.available gw slot.modelId)) ?_ ⟨hwf, .inl⟩).2 h
  rintro u e v ⟨hu, ih⟩ ⟨hp, hch⟩
  refine ⟨hu.change hch, fun hg => ?_⟩
  rcases granted_change hu hch hg with hg | ⟨call, gw, rfl, rfl, rfl⟩ | rfl
  · exact ih hg
  · obtain ⟨hgw, r, ⟨⟨timeout, rfl⟩, rfl⟩, hunpaused⟩ := hp
    refine .inr ⟨_, _, timeout, r, rfl, ?_, hunpaused, gw, hgw, ?_⟩
    · exact (Frame.expirePause_tick s r.delay call.modelId).nextCall
    · rw [← available_expirePause_tick (s := s) (m := call.modelId) r.delay]
      cases hch with
      | grant _ hroom => exact (available_pos_iff _ _).2 hroom
  · exact absurd (ha.symm.trans hp.1) (by decide)

/-- **The record is complete**: whoever is given a slot in a step is among its admissions. -/
theorem granted_step (hwf : WellFormed s) (hst : s.step a = some t) (h : Granted t c slot)
    (hs : ¬ Granted s c slot) : ∃ e ∈ s.admissions a, e.call = c ∧ e.modelId = slot.modelId := by
  cases ha : a.dispatches with
  | false =>
    obtain ⟨rid, allowed, timeout, r, rfl, rfl, hp, gw, hgw, hroom⟩ :=
      (granted_of_not_dispatches hwf ha hst h).resolve_left hs
    refine ⟨⟨s.nextCall, slot.modelId, s.now + r.delay⟩, ?_, rfl, rfl⟩
    dsimp only [State.admissions]
    rcases tryImmediate_cases s slot.modelId r allowed with ⟨hno, -⟩ | ⟨gw', -, -, -, he⟩
    · rcases hno with hno | hno
      · exact absurd hno hp
      · exact absurd hroom (hno gw hgw).not_gt
    · rw [he]
      exact List.mem_cons_self
  | true =>
    refine Or.resolve_left ?_ hs
    cases steps_of_step hst with
    | release ρ htok =>
      dsimp only [State.admissions]
      rw [htok]
      unfold State.release poolRelease at h
      dsimp only at h ⊢
      split at h
      · exact .inl h
      · rename_i hl
        rw [if_neg hl]
        have hch := Change.release htok (by simpa using hl)
        refine (granted_dispatch (hwf.change hch) ρ _ h).imp_left fun hg => ?_
        exact (granted_change hwf hch hg).resolve_right (by simp)
    | runDispatch m ρ =>
      refine (granted_dispatch ?_ ρ m h).imp_left fun hg => ?_
      · exact hwf.of_eq (fun _ => rfl) rfl rfl rfl rfl hwf.inFlight_nonneg
      · exact hg.of_eq rfl rfl fun call hc => ⟨call, hc, rfl⟩
    | resourceUpdate ρ => exact granted_dispatchAll ρ _ hwf h
    | resumeAfter m ρ _ =>
      have hsame : Granted { s with resumeTasks := s.resumeTasks.erase m } c slot →
          Granted s c slot := fun hg => hg.of_eq rfl rfl fun call hc => ⟨call, hc, rfl⟩
      dsimp only [State.admissions]
      unfold State.resumeAfter at h
      cases hd : s.pausedUntil.get? m with
      | none =>
        rw [hd] at h
        exact .inl (hsame h)
      | some d =>
        rw [hd] at h
        dsimp only at h ⊢
        by_cases hlt : s.now < d
        · rw [if_pos hlt] at h
          exact .inl (hsame h)
        · rw [if_neg hlt] at h ⊢
          refine (granted_dispatch ?_ ρ m h).imp_left fun hg => ?_
          · exact hwf.of_eq (fun _ => rfl) rfl rfl rfl rfl hwf.inFlight_nonneg
          · exact hg.of_eq rfl rfl fun call hc => ⟨call, hc, rfl⟩
    | reconcile gw ms ρ =>
      obtain ⟨i, he, hi⟩ := reconcileLoop_eq gw ms s
      have hch : Change s (.reset (resetSlots s (.reconcile gw ms ρ))) (reconcileLoop gw ms s).2 := by
        rw [he]
        exact .reset _ fun slot => by simpa [resetSlots] using hi slot
      refine (granted_dispatchAll ρ _ (hwf.change hch) h).imp_left fun hg => ?_
      exact (granted_change hwf hch hg).resolve_right (by simp)
    | _ => cases ha

end

/-! ## The order of the queues -/

theorem queues_of_setsDeadline {s t : State} {a : Action} (ha : a.setsDeadline = true)
    (hst : s.step a = some t) : t.queues = s.queues := by
  cases steps_of_step hst with
  | pauseAdmission m duration =>
    unfold State.pauseAdmission
    split
    · rfl
    · dsimp only
      split <;> rfl
  | resumeAdmission m =>
    unfold State.resumeAdmission
    split <;> rfl
  | _ => cases ha

/-- **Pauses are respected** in every reachable state. A deadline ahead is the stored one if and only if
it is the greatest asked for since the last release. In a step, no admission comes earlier than a
deadline asked for its model, and whoever is given a slot is in the record of the admissions. A pause, its
extension and its release leave the queues alone, and the end of a pause, like every dispatch, only
takes waiters out and leaves the others in their order. -/
theorem pauses_respected {s : State} {H : Requests} (h : pausing.Reachable (s, H)) :
    (∀ m d, s.now < d → (s.pausedUntil.get? m = some d ↔ IsGreatest {x | x ∈ H m} d)) ∧
    ∀ a t, s.step a = some t →
      (∀ e ∈ s.admissions a, ∀ d ∈ H e.modelId, d ≤ e.time) ∧
      (∀ c slot, Granted t c slot → ¬ Granted s c slot →
        ∃ e ∈ s.admissions a, e.call = c ∧ e.modelId = slot.modelId) ∧
      (a.setsDeadline = true → t.queues = s.queues) ∧
      (a.ofCall = false → ∀ m, (t.queue m).Sublist (s.queue m)) := by
  have htracks := tracks_of_reachable h
  have hwf : WellFormed s := by
    refine h.invariant (I := fun x => WellFormed x.1) ?_ fun x a y hx hst => ?_
    · rintro x ⟨depth, now, -, rfl⟩
      exact .initial depth now
    · obtain ⟨t, ht, rfl⟩ := Option.map_eq_some_iff.1 hst
      exact hx.step ht
  refine ⟨fun m d hd => htracks.deadline_iff m hd, fun a t hst => ⟨notEarly_admissions htracks a,
    fun c slot hg hs => granted_step hwf hst hg hs, fun ha => queues_of_setsDeadline ha hst,
    fun ha => (shrinks_step ha hst).queue⟩⟩

/-- Two pauses are stacked, of which the first is the longer one; its deadline counts. -/
theorem pauses_respected_stacked : ∃ s H, pausing.Reachable (s, H) ∧ H "m" = [10, 5] ∧
    s.pausedUntil.get? "m" = some 10 ∧ IsGreatest {x | x ∈ H "m"} 10 ∧
    ∀ a t, s.step a = some t → ∀ e ∈ s.admissions a, ∀ d ∈ H e.modelId, d ≤ e.time := by
  have hrun : (System.exec pausingStep (.initial 0 0, fun _ => [])
      [.setCapacity "gw" "m" 1, .pauseAdmission "m" 10, .pauseAdmission "m" 5]).map
      (fun x => (x.2 "m", x.1.pausedUntil.get? "m", x.1.now)) = some ([10, 5], some 10, 0) := by
    with_unfolding_all decide
  obtain ⟨⟨s, H⟩, hs, he⟩ := Option.map_eq_some_iff.1 hrun
  simp only [Prod.mk.injEq] at he
  obtain ⟨hH, hd, hnow⟩ := he
  have hreach : pausing.Reachable (s, H) := System.reachable_of_exec ⟨0, 0, le_rfl, rfl⟩ hs
  have hmain := pauses_respected hreach
  refine ⟨s, H, hreach, hH, hd, (hmain.1 "m" 10 (hnow ▸ by norm_num)).1 hd, fun a t hst => ?_⟩
  exact (hmain.2 a t hst).1

end LlmGateway.CapacityPool
