import LlmGateway.CapacityPool.Change

/-!
# Lost wakeups

A waiter that could be served must have a dispatch coming: a scheduled `_dispatch` task, or the
resume task of a pause that is over. The pool keeps this (`noLostWakeup`) as long as no pause check
outside a dispatch is the first to find the deadline passed while waiters of the model could be
served, and no dispatch straddles the deadline: `_clear_pause` cancels the resume task, and only the
resume task would have dispatched. `lostWakeup` is a run in which a second `acquire_token` call does
just that.

The inductive form is `Awake`: a pending pause has a resume task that does not end before the
deadline, and a model without one has a scheduled dispatch if a queued waiter could be served.
-/

namespace LlmGateway.CapacityPool

open State

/-- A dispatch for the model is pending: a scheduled task, or the armed resume task of a pause whose
deadline it outlasts, so that it will find the pause over and dispatch. -/
def DispatchPending (s : State) (m : ModelId) : Prop :=
  m ∈ s.dispatchTasks ∨
    ∃ u d, s.resumeTasks.get? m = some u ∧ s.pausedUntil.get? m = some d ∧ d ≤ u

/-- Whenever a model is not paused and a live waiter in its queue could be served, a dispatch for the
model is pending. -/
def NoLostWakeup (s : State) : Prop :=
  ∀ m, ¬ s.Paused m → (∃ w ∈ s.queue m, s.futures.get? w.future = some .pending ∧
    ∃ gw ∈ w.allowed, 0 < s.available gw m) → DispatchPending s m

/-- The pauses and the queue of the model cannot lose a wakeup. -/
structure Awake (s : State) (m : ModelId) : Prop where
  resume : ∀ d, s.pausedUntil.get? m = some d → ∃ u, s.resumeTasks.get? m = some u ∧ d ≤ u
  task : s.pausedUntil.get? m = none → (∃ w ∈ s.queue m, ¬ s.Unservable m w) → m ∈ s.dispatchTasks

theorem noLostWakeup_of_awake {s : State} (h : ∀ m, Awake s m) : NoLostWakeup s := by
  rintro m hp ⟨w, hw, -, gw, hgw, hav⟩
  cases hd : s.pausedUntil.get? m with
  | none => exact .inl ((h m).task hd ⟨w, hw, fun hu => absurd (hu gw hgw) (not_le.2 hav)⟩)
  | some d =>
    obtain ⟨u, hu, hle⟩ := (h m).resume d hd
    exact .inr ⟨u, d, hu, hd, hle⟩

/-! ## Changes that need no dispatch -/

/-- From `s` to `t`, the model's pause stays, no waiter joins its queue, no capacity becomes free for
it, and its scheduled dispatches stay. -/
structure Calm (s t : State) (m : ModelId) : Prop where
  pausedUntil : t.pausedUntil.get? m = s.pausedUntil.get? m
  resumeTasks : t.resumeTasks.get? m = s.resumeTasks.get? m
  tasks : m ∈ s.dispatchTasks → m ∈ t.dispatchTasks
  queue : ∀ w ∈ t.queue m, w ∈ s.queue m
  available : ∀ gw, t.available gw m ≤ s.available gw m

section

variable {s t u : State} {m : ModelId}

theorem Calm.refl (s : State) (m : ModelId) : Calm s s m :=
  ⟨rfl, rfl, id, fun _ => id, fun _ => le_rfl⟩

theorem Calm.trans (h : Calm s t m) (h' : Calm t u m) : Calm s u m :=
  ⟨h'.pausedUntil.trans h.pausedUntil, h'.resumeTasks.trans h.resumeTasks,
    fun hm => h'.tasks (h.tasks hm), fun w hw => h.queue w (h'.queue w hw),
    fun gw => (h'.available gw).trans (h.available gw)⟩

theorem Calm.unservable (h : Calm s t m) {w : Waiter} (hw : s.Unservable m w) :
    t.Unservable m w := fun gw hgw => (h.available gw).trans (hw gw hgw)

theorem Awake.calm (h : Awake s m) (hc : Calm s t m) : Awake t m := by
  refine ⟨fun d hd => ?_, fun hn => ?_⟩
  · rw [hc.resumeTasks]
    exact h.resume d (hc.pausedUntil ▸ hd)
  · rintro ⟨w, hw, hs⟩
    refine hc.tasks (h.task (hc.pausedUntil ▸ hn) ⟨w, hc.queue w hw, fun hu => hs ?_⟩)
    exact hc.unservable hu

theorem Awake.of_task (h : Awake s m) (hp : t.pausedUntil.get? m = s.pausedUntil.get? m)
    (hr : t.resumeTasks.get? m = s.resumeTasks.get? m) (ht : m ∈ t.dispatchTasks) : Awake t m :=
  ⟨fun d hd => by rw [hr]; exact h.resume d (hp ▸ hd), fun _ _ => ht⟩

theorem Calm.setPhase (s : State) (c : CallId) (call : Call) (phase : Phase) (m : ModelId) :
    Calm s (s.setPhase c call phase) m :=
  ⟨rfl, rfl, id, fun _ => id, fun _ => le_rfl⟩

theorem Calm.returnToken (s : State) (c : CallId) (call : Call) (gw : GatewayId) (queued : Bool)
    (m : ModelId) : Calm s (s.returnToken c call gw queued) m :=
  ⟨rfl, rfl, id, fun _ => id, fun _ => le_rfl⟩

theorem Calm.removeWaiter (hwf : WellFormed s) (rid : RequestId) (outcome : Future) (m : ModelId) :
    Calm s (s.removeWaiter rid outcome).2 m := by
  rcases hwf.removeWaiter_cases rid outcome with ⟨he, -⟩ | ⟨m', w, qs, -, -, he, hsub, -⟩
  · rw [he]
    exact .refl s m
  · rw [he]
    exact ⟨rfl, rfl, id, fun w hw => (hsub m).subset hw, fun _ => le_rfl⟩

theorem Calm.onCancelled (hwf : WellFormed s) {c : CallId} {call : Call}
    (hf : ∀ gw, s.futures.get? c ≠ some (.result gw)) (m : ModelId) :
    Calm s (s.onCancelled c call) m := by
  unfold State.onCancelled
  split
  · exact absurd ‹_› (hf _)
  · exact .setPhase _ _ _ _ _
  · exact (Calm.removeWaiter hwf _ _ m).trans (.setPhase _ _ _ _ _)

theorem Calm.waitLoop (hwf : WellFormed s) (c : CallId) (call : Call) (m : ModelId) :
    Calm s (s.waitLoop c call) m := by
  unfold State.waitLoop
  split
  · exact .returnToken _ _ _ _ _ _
  · rename_i hr
    exact .onCancelled hwf (fun gw hr' => by rw [hr] at hr'; cases hr') m
  · rename_i hr _
    split
    · exact (Calm.removeWaiter hwf _ _ m).trans (.setPhase _ _ _ _ _)
    split
    · exact .onCancelled hwf hr m
    · exact .setPhase _ _ _ _ _

theorem Calm.removeSlot (hwf : WellFormed s) (slot : Slot) (m : ModelId) :
    Calm s (s.removeSlot slot) m := by
  have hnn := hwf.inFlight_nonneg slot
  unfold State.removeSlot
  split
  · refine ⟨rfl, rfl, id, fun _ => id, fun gw => ?_⟩
    rw [available_eq, available_eq]
    dsimp only
    rw [Dict.getD_set]
    split
    · rename_i hs
      rw [hs]
      omega
    · exact le_rfl
  · refine ⟨rfl, rfl, id, fun _ => id, fun gw => ?_⟩
    rw [available_eq, available_eq]
    dsimp only
    rw [Dict.getD_erase, Dict.getD_erase]
    split
    · omega
    · exact le_rfl

theorem Calm.foldl_removeSlot (l : List Slot) (m : ModelId) :
    ∀ s, WellFormed s → Calm s (l.foldl State.removeSlot s) m := by
  induction l with
  | nil => exact fun s _ => .refl s m
  | cons slot l ih =>
    intro s hwf
    exact (Calm.removeSlot hwf slot m).trans (ih _ (hwf.frame (.removeSlot hwf slot)))

theorem Calm.expirePause_tick (s : State) (dt : Time) {m m' : ModelId} (hm : m ≠ m') :
    Calm s ((s.tick dt).expirePause m') m := by
  refine ⟨pausedUntil_expirePause_ne _ _ hm, resumeTasks_expirePause_ne _ _ hm, ?_, ?_, fun gw =>
    (available_expirePause_tick _ _ _).le⟩
  · obtain ⟨p, q, he⟩ := expirePause_eq (s.tick dt) m'
    rw [he]
    exact id
  · exact fun w hw => (Frame.expirePause_tick s dt m').queue m ▸ hw

/-! ## Dispatches -/

theorem pause_dispatchLoop (m : ModelId) (ρ : ℕ → Reading) (q : List Waiter) (s : State) :
    ((dispatchLoop m ρ q s).2.pausedUntil.get? m = none ∨
        (dispatchLoop m ρ q s).2.pausedUntil.get? m = s.pausedUntil.get? m ∧
        (dispatchLoop m ρ q s).2.resumeTasks.get? m = s.resumeTasks.get? m) ∧
      ∀ m', m' ≠ m → (dispatchLoop m ρ q s).2.pausedUntil.get? m' = s.pausedUntil.get? m' ∧
        (dispatchLoop m ρ q s).2.resumeTasks.get? m' = s.resumeTasks.get? m' := by
  have hstep : ∀ (s : State) (dt : Time) (t : State),
      ((t.pausedUntil.get? m = none ∨
        t.pausedUntil.get? m = ((s.tick dt).expirePause m).pausedUntil.get? m ∧
        t.resumeTasks.get? m = ((s.tick dt).expirePause m).resumeTasks.get? m) ∧
      ∀ m', m' ≠ m → t.pausedUntil.get? m' = ((s.tick dt).expirePause m).pausedUntil.get? m' ∧
        t.resumeTasks.get? m' = ((s.tick dt).expirePause m).resumeTasks.get? m') →
      (t.pausedUntil.get? m = none ∨ t.pausedUntil.get? m = s.pausedUntil.get? m ∧
        t.resumeTasks.get? m = s.resumeTasks.get? m) ∧
      ∀ m', m' ≠ m → t.pausedUntil.get? m' = s.pausedUntil.get? m' ∧
        t.resumeTasks.get? m' = s.resumeTasks.get? m' := by
    rintro s dt t ⟨h, h'⟩
    refine ⟨?_, fun m' hm => ?_⟩
    · rcases h with h | ⟨hp, hr⟩
      · exact .inl h
      rcases expirePause_eq_self_or (s.tick dt) m with he | he
      · rw [he] at hp hr
        exact .inr ⟨hp, hr⟩
      · rw [he] at hp
        exact .inl (hp.trans (Dict.get?_erase_self _ _))
    · rw [(h' m' hm).1, (h' m' hm).2]
      exact ⟨pausedUntil_expirePause_ne _ _ hm, resumeTasks_expirePause_ne _ _ hm⟩
  refine dispatchLoop_rec (motive := fun _ _ s _ t =>
    (t.pausedUntil.get? m = none ∨ t.pausedUntil.get? m = s.pausedUntil.get? m ∧
      t.resumeTasks.get? m = s.resumeTasks.get? m) ∧
    ∀ m', m' ≠ m → t.pausedUntil.get? m' = s.pausedUntil.get? m' ∧
      t.resumeTasks.get? m' = s.resumeTasks.get? m') ?_ ?_ ?_ ?_ ρ q s
  · exact fun _ s => ⟨.inr ⟨rfl, rfl⟩, fun _ _ => ⟨rfl, rfl⟩⟩
  · exact fun _ _ _ s _ t _ ih => ih
  · exact fun ρ w rest s u t _ _ ih => hstep s _ t ih
  · exact fun ρ w rest s gw u t _ _ _ _ ih => hstep s _ t ih

theorem Calm.dispatch (s : State) (ρ : ℕ → Reading) {m m' : ModelId} (hm : m ≠ m') :
    Calm s (s.dispatch ρ m') m := by
  obtain ⟨qs, he, hqs⟩ := dispatch_eq m' ρ s
  rw [he]
  have hpause := (pause_dispatchLoop m' ρ (s.queue m') s).2 m hm
  refine ⟨hpause.1, hpause.2, ?_, fun w hw => ?_, fun gw => ?_⟩
  · obtain ⟨n, p, rt, l, f, i, hl⟩ := dispatchLoop_eq m' ρ (s.queue m') s
    rw [hl]
    exact id
  · have hw' : w ∈ (qs.get? m).getD [] := hw
    rwa [hqs, if_neg hm] at hw'
  · exact available_dispatchLoop_le m' ρ (s.queue m') s gw m

/-- **A steady dispatch wakes its model**: afterwards no retained waiter can be served, or the model
is still paused and keeps its resume task. -/
theorem awake_dispatch {ρ : ℕ → Reading}
    (hr : ∀ d, s.pausedUntil.get? m = some d → ∃ u, s.resumeTasks.get? m = some u ∧ d ≤ u)
    (hs : s.Steady ρ m (s.queue m).length) : Awake (s.dispatch ρ m) m := by
  obtain ⟨qs, he, hqs⟩ := dispatch_eq m ρ s
  rw [he]
  refine ⟨fun d hd => ?_, fun hn => ?_⟩
  · rcases (pause_dispatchLoop m ρ (s.queue m) s).1 with h | ⟨hp, hrt⟩
    · exact absurd (h.symm.trans hd) (by simp)
    · obtain ⟨u, hu, hle⟩ := hr d (hp ▸ hd)
      exact ⟨u, hrt.trans hu, hle⟩
  · rintro ⟨w, hw, hu⟩
    have hw' : w ∈ (qs.get? m).getD [] := hw
    rw [hqs, if_pos rfl] at hw'
    exact absurd (unservable_dispatchLoop m ρ (s.queue m) s hs hn w hw') hu

theorem awake_dispatchAll (ρ : ℕ → ℕ → Reading) (ms : List ModelId) (s : State)
    (hr : ∀ m d, s.pausedUntil.get? m = some d → ∃ u, s.resumeTasks.get? m = some u ∧ d ≤ u)
    (h : ∀ m, m ∉ ms → Awake s m) (hs : SteadyAll ρ ms s) (m : ModelId) :
    Awake (dispatchAll ρ ms s) m := by
  induction ms generalizing ρ s with
  | nil => exact h m (List.not_mem_nil)
  | cons m₀ ms ih =>
    have hawake : Awake (s.dispatch (ρ 0) m₀) m₀ := awake_dispatch (hr m₀) hs.1
    refine ih _ _ (fun m' d hd => ?_) (fun m' hm' => ?_) hs.2
    · by_cases hm : m' = m₀
      · subst hm
        exact hawake.resume d hd
      · have hc := Calm.dispatch s (ρ 0) hm
        rw [hc.pausedUntil] at hd
        rw [hc.resumeTasks]
        exact hr m' d hd
    · by_cases hm : m' = m₀
      · exact hm ▸ hawake
      · exact (h m' (by simp [hm, hm'])).calm (.dispatch s _ hm)

/-! ## Steps -/

/-- If a pause check after the delay `dt` is the one that finds the model's deadline passed, then a
dispatch is scheduled already or no queued waiter could be served. -/
def ExpiresSafely (s : State) (m : ModelId) (dt : Time) : Prop :=
  (s.pausedUntil.get? m).any (· ≤ s.now + dt) = true →
    m ∈ s.dispatchTasks ∨ ∀ w ∈ s.queue m, s.Unservable m w

/-- The model, and the delay, of the pause check an action makes outside a dispatch. -/
def Action.pauseCheck : Action → Option (ModelId × Time)
  | .acquireToken _ m _ _ r => some (m, r.delay)
  | .isPaused m => some (m, 0)
  | _ => none

/-- No pause check loses a wakeup: its dispatches are steady, and a pause that a check of
`acquire_token` or `is_paused` finds over leaves nobody behind. -/
def WakesSafely (s : State) (a : Action) : Prop :=
  SteadyAction s a ∧ ∀ e ∈ a.pauseCheck, ExpiresSafely s e.1 e.2

instance (s : State) (m : ModelId) (dt : Time) : Decidable (ExpiresSafely s m dt) :=
  inferInstanceAs (Decidable ((s.pausedUntil.get? m).any (· ≤ s.now + dt) = true →
    m ∈ s.dispatchTasks ∨ ∀ w ∈ s.queue m, s.Unservable m w))

instance (s : State) (a : Action) : Decidable (WakesSafely s a) :=
  inferInstanceAs (Decidable (SteadyAction s a ∧ ∀ e ∈ a.pauseCheck, ExpiresSafely s e.1 e.2))

theorem awake_expirePause (h : Awake s m) {dt : Time} (hs : ExpiresSafely s m dt) :
    Awake ((s.tick dt).expirePause m) m := by
  have hcalm : Calm s (s.tick dt) m := ⟨rfl, rfl, id, fun _ => id, fun _ => le_rfl⟩
  cases hd : (s.tick dt).pausedUntil.get? m with
  | none =>
    rw [expirePause_of_none hd]
    exact h.calm hcalm
  | some d =>
    by_cases hle : d ≤ (s.tick dt).now
    · rw [expirePause_of_expired hd hle]
      refine ⟨fun d' hd' => absurd ((Dict.get?_erase_self _ _).symm.trans hd') (by simp), fun _ => ?_⟩
      rintro ⟨w, hw, hu⟩
      have hd : s.pausedUntil.get? m = some d := hd
      rcases hs (by rw [hd]; exact decide_eq_true hle) with ht | hun
      · exact ht
      · exact absurd (hun w hw) hu
    · rw [expirePause_of_paused ⟨d, hd, not_le.1 hle⟩]
      exact h.calm hcalm

theorem awake_expirePause_tick (h : ∀ m, Awake s m) {dt : Time} (hs : ExpiresSafely s m dt)
    (m' : ModelId) : Awake ((s.tick dt).expirePause m) m' := by
  by_cases hm : m' = m
  · subst hm
    exact awake_expirePause (h m') hs
  · exact (h m').calm (.expirePause_tick s dt hm)

theorem Calm.reserve (s : State) (slot : Slot) (m : ModelId) : Calm s (s.reserve slot) m := by
  refine ⟨rfl, rfl, id, fun _ => id, fun gw => ?_⟩
  have hi := inFlight_reserve s slot ⟨gw, m⟩
  rw [available_eq, available_eq, hi]
  change max 0 (s.capacity.getD ⟨gw, m⟩ 0 - _) ≤ _
  split <;> omega

theorem awake_acquireToken (hwf : WellFormed s) (h : ∀ m, Awake s m) (rid : RequestId)
    (m : ModelId) (allowed : List GatewayId) (timeout : Option Time) (r : Reading)
    (hs : ExpiresSafely s m r.delay) (m' : ModelId) :
    Awake (s.acquireToken rid m allowed timeout r) m' := by
  obtain ⟨call, s₁, rfl, rfl, rfl, -, hs₁, hcases⟩ :=
    acquireToken_cases s rid m allowed timeout r
  have h₁ : Awake s₁ m' := hs₁ ▸ awake_expirePause_tick h hs m'
  have hwf₁ : WellFormed s₁ := hs₁ ▸ hwf.change (.expirePause_tick s r.delay call.modelId)
  rcases hcases with ⟨gw, -, -, -, he⟩ | ⟨hno, ⟨-, -, he⟩ | ⟨-, he⟩⟩
  · rw [he]
    refine h₁.calm (Calm.trans ?_ (.returnToken _ _ _ _ _ _))
    exact ((⟨rfl, rfl, id, fun _ => id, fun _ => le_rfl⟩ : Calm s₁ { s₁ with
      nextCall := s₁.nextCall + 1 } m')).trans (.reserve _ _ _)
  · rw [he]
    exact h₁.calm ⟨rfl, rfl, id, fun _ => id, fun _ => le_rfl⟩
  · rw [he]
    have hen := Change.enqueue (s := s₁) call s₁.now
    refine Awake.calm ?_ (Calm.waitLoop (hwf₁.change hen) _ _ m')
    refine ⟨h₁.resume, fun hn => ?_⟩
    rintro ⟨w, hw, hu⟩
    rw [queue, State.enqueue, Dict.get?_set] at hw
    split at hw
    · rename_i hm
      subst hm
      rcases List.mem_append.1 hw with hw | hw
      · exact h₁.task hn ⟨w, hw, hu⟩
      · -- the new waiter was refused, and not because of a pause
        obtain rfl := List.mem_singleton.1 hw
        refine absurd (fun gw hgw => ?_) hu
        rcases hno with hp | hno
        · have hpu : s₁.pausedUntil.get? call.modelId = none := hn
          rw [hs₁, expirePause_of_paused hp] at hpu
          obtain ⟨d, hd, -⟩ := hp
          exact absurd (hd.symm.trans hpu) (by simp)
        · have := hno gw hgw
          rw [← available_expirePause_tick (m := call.modelId) r.delay, ← hs₁] at this
          exact this
    · exact h₁.task hn ⟨w, hw, hu⟩

theorem awake_recover (h : ∀ m, Awake s m) (slot : Slot) (m : ModelId) :
    Awake (s.recoverLeakedSlot slot) m := by
  unfold recoverLeakedSlot
  split
  · exact h m
  by_cases hm : m = slot.modelId
  · exact (h m).of_task rfl rfl (by simp [createDispatchTask, hm])
  · refine (h m).calm ⟨rfl, rfl, fun ht => List.mem_append_left _ ht, fun _ => id, fun gw => ?_⟩
    have hs : (⟨gw, m⟩ : Slot) ≠ slot := fun he => hm (he ▸ rfl)
    change max 0 (s.capacity.getD ⟨gw, m⟩ 0 - (s.inFlight.set slot _).getD ⟨gw, m⟩ 0) ≤ _
    rw [Dict.getD_set, if_neg hs]
    exact le_rfl

theorem awake_release (h : ∀ m, Awake s m) {c : CallId} {token : Token}
    (ht : s.tokens.get? c = some token) {ρ : ℕ → Reading} (hs : SteadyAction s (.release c ρ))
    (m : ModelId) : Awake (s.release ρ c token) m := by
  unfold State.release
  split
  · exact h m
  rename_i hl
  obtain ⟨i, k, l, he, hi, hk⟩ := releaseSlot_eq s
    (s.tokens.set c { token with released := true }) ⟨token.gatewayId, token.modelId⟩
  rw [poolRelease, he]
  by_cases hm : m = token.modelId
  · subst hm
    exact awake_dispatch (h _).resume (hs token ht (by simpa using hl))
  · refine (h m).calm (Calm.trans ?_ (.dispatch _ ρ hm))
    refine ⟨rfl, rfl, id, fun _ => id, fun gw => ?_⟩
    have hslot : (⟨gw, m⟩ : Slot) ≠ ⟨token.gatewayId, token.modelId⟩ :=
      fun he => hm (congrArg Slot.modelId he)
    change max 0 (k.getD ⟨gw, m⟩ 0 - i.getD ⟨gw, m⟩ 0) ≤ _
    rw [hi, hk, if_neg fun he => hslot he.1]
    exact le_rfl

theorem awake_setCapacity (h : ∀ m, Awake s m) (gw : GatewayId) (m : ModelId) (n : ℤ)
    (m' : ModelId) : Awake (s.setCapacity gw m n) m' := by
  have hav : ∀ gw', m' ≠ m ∨ max 0 n ≤ s.capacity.getD ⟨gw, m⟩ 0 →
      max 0 ((s.capacity.set ⟨gw, m⟩ (max 0 n)).getD ⟨gw', m'⟩ 0 -
        (s.inFlight.setDefault ⟨gw, m⟩ 0).getD ⟨gw', m'⟩ 0) ≤ s.available gw' m' := by
    intro gw' hor
    rw [Dict.getD_setDefault, Dict.getD_set, available_eq]
    split
    · rename_i hs
      obtain ⟨rfl, rfl⟩ : gw' = gw ∧ m' = m := by simpa using hs
      rcases hor with hm | hle
      · exact absurd rfl hm
      · omega
    · exact le_rfl
  unfold State.setCapacity
  dsimp only
  split
  · rename_i hup
    by_cases hm : m' = m
    · exact (h m').of_task rfl rfl (by simp [createDispatchTask, hm])
    · exact (h m').calm ⟨rfl, rfl, fun ht => List.mem_append_left _ ht, fun _ => id,
        fun gw' => hav gw' (.inl hm)⟩
  · rename_i hup
    by_cases hq : s.queues.contains m = true ∨ m' ≠ m
    · refine (h m').calm ⟨rfl, rfl, id, fun _ => id, fun gw' => hav gw' ?_⟩
      rcases hq with hq | hm
      · exact .inr (not_lt.1 fun hlt => hup ⟨hlt, hq⟩)
      · exact .inl hm
    · -- the queue is empty
      rw [not_or, not_not] at hq
      obtain ⟨hq, rfl⟩ := hq
      refine ⟨(h m').resume, fun _ => ?_⟩
      rintro ⟨w, hw, -⟩
      exact absurd (Dict.contains_iff.2 ⟨_, Dict.mem_items_iff.1 (mem_items_of_mem_queue hw)⟩) hq

theorem awake_pauseAdmission (h : ∀ m, Awake s m) (m : ModelId) (duration : Time) (m' : ModelId) :
    Awake (s.pauseAdmission m duration).2 m' := by
  unfold State.pauseAdmission
  split
  · exact h m'
  dsimp only
  split
  · exact h m'
  by_cases hm : m' = m
  · subst hm
    -- the resume task is armed for the deadline that is set
    refine ⟨fun d hd => ⟨_, Dict.get?_set_self _ _ _, ?_⟩, fun hn => ?_⟩
    · exact (Option.some.inj ((Dict.get?_set_self _ _ _).symm.trans hd)).ge
    · exact absurd ((Dict.get?_set_self _ _ _).symm.trans hn) (by simp)
  · exact (h m').calm ⟨Dict.get?_set_ne _ hm _, Dict.get?_set_ne _ hm _, id, fun _ => id,
      fun _ => le_rfl⟩

theorem awake_resumeAdmission (h : ∀ m, Awake s m) (m m' : ModelId) :
    Awake (s.resumeAdmission m).2 m' := by
  unfold State.resumeAdmission
  split
  · by_cases hm : m' = m
    · subst hm
      refine ⟨fun d hd => ?_, fun _ _ => List.mem_append_right _ (List.mem_singleton.2 rfl)⟩
      exact absurd ((Dict.get?_erase_self _ _).symm.trans hd) (by simp)
    · exact (h m').calm ⟨Dict.get?_erase_ne _ hm, Dict.get?_erase_ne _ hm,
        fun ht => List.mem_append_left _ ht, fun _ => id, fun _ => le_rfl⟩
  · exact h m'

theorem awake_resetColdSlot (h : ∀ m, Awake s m) (gw : GatewayId) (m : ModelId) (n : ℤ)
    (m' : ModelId) : Awake (s.resetColdSlot gw m n) m' := by
  by_cases hm : m' = m
  · exact (h m').of_task rfl rfl (by simp [State.resetColdSlot, createDispatchTask, hm])
  · refine (h m').calm ⟨rfl, rfl, fun ht => List.mem_append_left _ ht, fun _ => id, fun gw' => ?_⟩
    have hslot : (⟨gw', m'⟩ : Slot) ≠ ⟨gw, m⟩ := fun he => hm (congrArg Slot.modelId he)
    change max 0 ((s.capacity.set ⟨gw, m⟩ n).getD ⟨gw', m'⟩ 0 -
      (s.inFlight.set ⟨gw, m⟩ 0).getD ⟨gw', m'⟩ 0) ≤ _
    rw [Dict.getD_set, Dict.getD_set, if_neg hslot, if_neg hslot]
    exact le_rfl

theorem awake_resumeAfter (h : ∀ m, Awake s m) (ρ : ℕ → Reading) (m : ModelId)
    (hdue : (s.resumeTasks.get? m).any (· ≤ s.now) = true) (m' : ModelId) :
    Awake (s.resumeAfter ρ m) m' := by
  unfold State.resumeAfter
  split
  · rename_i hn
    by_cases hm : m' = m
    · subst hm
      exact ⟨fun d hd => absurd (hn.symm.trans hd) (by simp), (h m').task⟩
    · exact (h m').calm ⟨rfl, Dict.get?_erase_ne _ hm, id, fun _ => id, fun _ => le_rfl⟩
  · rename_i d hd
    -- the resume task outlasts the deadline, so the pause is over
    obtain ⟨u, hu, hle⟩ := (h m).resume d hd
    rw [hu] at hdue
    have hdue : u ≤ s.now := of_decide_eq_true hdue
    rw [if_neg (not_lt.2 (hle.trans hdue))]
    by_cases hm : m' = m
    · subst hm
      have hnone : (s.clearPause m').pausedUntil.get? m' = none := Dict.get?_erase_self _ _
      refine awake_dispatch (fun d hd => ?_) (steady_of_pausedUntil_none hnone)
      exact absurd (hnone.symm.trans hd) (by simp)
    · refine (h m').calm (Calm.trans ?_ (.dispatch _ ρ hm))
      exact ⟨Dict.get?_erase_ne _ hm, Dict.get?_erase_ne _ hm, id, fun _ => id, fun _ => le_rfl⟩

theorem mem_reconcileLoop {gw : GatewayId} {ms : List ModelId} (hm : m ∈ ms)
    (hpos : 0 < s.inFlight.getD ⟨gw, m⟩ 0) : m ∈ (reconcileLoop gw ms s).1 := by
  induction ms generalizing s with
  | nil => cases hm
  | cons m₀ ms ih =>
    rw [reconcileLoop]
    by_cases he : m = m₀
    · subst he
      rw [if_pos hpos]
      exact List.mem_cons_self
    have hm := (List.mem_cons.1 hm).resolve_left he
    split
    · refine List.mem_cons_of_mem _ (ih hm ?_)
      dsimp only
      rwa [Dict.getD_set, if_neg fun hs => he (congrArg Slot.modelId hs)]
    · exact ih hm hpos

theorem awake_reconcile (h : ∀ m, Awake s m) (gw : GatewayId) (ms : List ModelId)
    (ρ : ℕ → ℕ → Reading) (hs : SteadyAction s (.reconcile gw ms ρ)) (m : ModelId) :
    Awake (s.reconcileGatewayState ρ gw ms) m := by
  obtain ⟨i, he, hi⟩ := reconcileLoop_eq gw ms s
  refine awake_dispatchAll ρ _ _ ?_ (fun m' hm' => ?_) hs m
  · rw [he]
    exact fun m' => (h m').resume
  · rw [he]
    refine (h m').calm ⟨rfl, rfl, id, fun _ => id, fun gw' => ?_⟩
    change max 0 (s.capacity.getD ⟨gw', m'⟩ 0 - i.getD ⟨gw', m'⟩ 0) ≤ _
    rw [hi, if_neg ?_]
    · exact le_rfl
    · rintro ⟨rfl, hmem, hpos⟩
      exact hm' (mem_reconcileLoop hmem hpos)

/-- **One step** that meets the condition loses no wakeup. -/
theorem awake_step {a : Action} (hwf : WellFormed s) (h : ∀ m, Awake s m) (hs : WakesSafely s a)
    (hst : s.step a = some t) (m : ModelId) : Awake t m := by
  cases steps_of_step hst with
  | acquireToken rid m₀ allowed timeout r => exact awake_acquireToken hwf h rid m₀ allowed timeout r (hs.2 _ rfl) m
  | cancelTask => exact (h m).calm (.setPhase _ _ _ _ _)
  | wakeGranted => exact (h m).calm (.returnToken _ _ _ _ _ _)
  | wakeCancelled _ _ hf => exact (h m).calm (.onCancelled hwf hf m)
  | @sliceTimeout c call => exact (h m).calm (.waitLoop hwf c call m)
  | @deliverCancel c =>
    by_cases hf : ∃ gw, s.futures.get? c = some (.result gw)
    · obtain ⟨gw, hf⟩ := hf
      rw [onCancelled, hf]
      exact (awake_recover h _ m).calm (.setPhase _ _ _ _ _)
    · exact (h m).calm (.onCancelled hwf (fun gw hr => hf ⟨gw, hr⟩) m)
  | release ρ ht => exact awake_release h ht hs.1 m
  | runDispatch m₀ ρ =>
    by_cases hm : m = m₀
    · subst hm
      exact awake_dispatch (h m).resume hs.1
    · refine (h m).calm (Calm.trans ?_ (.dispatch _ ρ hm))
      exact ⟨rfl, rfl, fun ht => (List.mem_erase_of_ne hm).2 ht, fun _ => id, fun _ => le_rfl⟩
  | resourceUpdate ρ => exact awake_dispatchAll ρ _ s (fun m => (h m).resume) (fun m _ => h m) hs.1 m
  | setCapacity gw m₀ n => exact awake_setCapacity h gw m₀ n m
  | removeGateway gw => exact (h m).calm (.foldl_removeSlot _ m s hwf)
  | removeModel => exact (h m).calm (.removeSlot hwf _ m)
  | removeNoModel => exact h m
  | pauseAdmission m₀ duration => exact awake_pauseAdmission h m₀ duration m
  | resumeAdmission m₀ => exact awake_resumeAdmission h m₀ m
  | resumeAfter m₀ ρ hdue => exact awake_resumeAfter h ρ m₀ hdue m
  | isPaused m₀ =>
    have := awake_expirePause_tick h (hs.2 (m₀, 0) rfl) m
    rwa [tick, add_zero] at this
  | cancelRequest rid reason => exact (h m).calm (.removeWaiter hwf rid _ m)
  | reconcile gw ms ρ => exact awake_reconcile h gw ms ρ hs.1 m
  | resetColdSlot gw m₀ n => exact awake_resetColdSlot h gw m₀ n m
  | tick => exact (h m).calm ⟨rfl, rfl, id, fun _ => id, fun _ => le_rfl⟩

/-- **No wakeup is lost** in a run whose pause checks are all safe: whenever a model is not paused
and a waiter in its queue could be served, a dispatch for it is pending. -/
theorem noLostWakeup (h : (pool.restrict WakesSafely).Reachable s) : NoLostWakeup s := by
  have key : WellFormed s ∧ ∀ m, Awake s m := by
    refine h.invariant (I := fun s => WellFormed s ∧ ∀ m, Awake s m) ?_ ?_
    · rintro s ⟨depth, now, rfl⟩
      refine ⟨.initial depth now, fun m => ⟨fun d hd => ?_, fun _ => ?_⟩⟩
      · cases hd
      · rintro ⟨w, hw, -⟩
        cases hw
    · rintro s a t ⟨hwf, h⟩ ⟨hs, (hst : s.step a = some t)⟩
      exact ⟨hwf.step hst, awake_step hwf h hs hst⟩
  exact noLostWakeup_of_awake key.2

end

/-- A pause has run out with the waiter `a` in the queue; its resume task is still armed. -/
theorem noLostWakeup_expired : ∃ s, (pool.restrict WakesSafely).Reachable s ∧ ¬ s.Paused "m" ∧
    (s.queue "m").map Waiter.requestId = ["a"] ∧ 0 < s.available "gw" "m" ∧ NoLostWakeup s := by
  have hrun : (System.exec (System.guarded step WakesSafely) (.initial 0 0)
      [.setCapacity "gw" "m" 2, .pauseAdmission "m" 10,
        .acquireToken "a" "m" ["gw"] none .instant, .tick 10]).map
      (fun s => (s.pausedUntil.get? "m", s.now, (s.queue "m").map Waiter.requestId,
        s.available "gw" "m")) = some (some 10, 10, ["a"], 2) := by with_unfolding_all decide
  obtain ⟨s, hs, he⟩ := Option.map_eq_some_iff.1 hrun
  simp only [Prod.mk.injEq] at he
  obtain ⟨hp, hn, hq, hav⟩ := he
  have hreach : (pool.restrict WakesSafely).Reachable s :=
    System.reachable_of_exec_guarded ⟨0, 0, rfl⟩ hs
  refine ⟨s, hreach, ?_, hq, by rw [hav]; decide, noLostWakeup hreach⟩
  rintro ⟨d, hd, hlt⟩
  rw [hp, Option.some.injEq] at hd
  rw [hn, ← hd] at hlt
  exact absurd hlt (lt_irrefl _)

/-- The call of `b` finds the pause of the model over, takes a slot and leaves `a` behind, with a
free slot and no dispatch to come. -/
theorem lostWakeup : ∃ s, System.exec step (.initial 0 0)
      [.setCapacity "gw" "m" 2, .pauseAdmission "m" 10,
        .acquireToken "a" "m" ["gw"] none .instant, .tick 10,
        .acquireToken "b" "m" ["gw"] none .instant] = some s ∧
    pool.Reachable s ∧ ¬ NoLostWakeup s := by
  have hrun : (System.exec step (.initial 0 0)
      [.setCapacity "gw" "m" 2, .pauseAdmission "m" 10,
        .acquireToken "a" "m" ["gw"] none .instant, .tick 10,
        .acquireToken "b" "m" ["gw"] none .instant]).map
      (fun s => (s.pausedUntil.get? "m", s.dispatchTasks, s.queue "m", s.futures.get? 0,
        s.available "gw" "m")) = some (none, [], [⟨"a", ["gw"], 0⟩], some .pending, 1) := by
    with_unfolding_all decide
  obtain ⟨s, hs, he⟩ := Option.map_eq_some_iff.1 hrun
  simp only [Prod.mk.injEq] at he
  obtain ⟨hp, ht, hq, hf, hav⟩ := he
  refine ⟨s, hs, System.reachable_of_exec ⟨0, 0, rfl⟩ hs, fun h => ?_⟩
  have hlive : ∃ w ∈ s.queue "m", s.futures.get? w.future = some .pending ∧
      ∃ gw ∈ w.allowed, 0 < s.available gw "m" := by
    rw [hq]
    exact ⟨_, List.mem_singleton.2 rfl, hf, "gw", List.mem_singleton.2 rfl, by rw [hav]; decide⟩
  rcases h "m" (by rintro ⟨d, hd, -⟩; rw [hp] at hd; cases hd) hlive with h | ⟨u, d, -, hd, -⟩
  · rw [ht] at h
    cases h
  · rw [hp] at hd
    cases hd

end LlmGateway.CapacityPool
