import LlmGateway.CapacityPool.State
import LlmGateway.Foundations.System

/-!
# What the pool's operations do

One lemma for each operation of the pool, from which the invariants are derived without unfolding
the operations again. `_try_immediate` is described by `tryImmediate_cases`, and the loop of
`_dispatch` by its own induction rule `dispatchLoop_rec`, whose four cases are the ways the loop
treats a waiter.

Most operations leave most of the state alone. `dispatch_eq` and its relatives say so by writing the
result as an update of the fields that can change, so that a fact about the other fields holds of the
result by definition.
-/

namespace LlmGateway.CapacityPool

namespace State

variable (s : State) (m : ModelId)

/-! ## Pauses -/

/-- Admission for the model is suspended: its pause has a deadline and it lies ahead. -/
def Paused : Prop := ∃ d, s.pausedUntil.get? m = some d ∧ s.now < d

instance : Decidable (s.Paused m) :=
  decidable_of_iff ((s.pausedUntil.get? m).any (s.now < ·) = true) (by
    cases h : s.pausedUntil.get? m <;> simp [Paused, h])

/-- The state after a pause check that found the model unpaused. -/
def expirePause : State := (s.isPaused m).2

theorem isPaused_of_paused {s : State} {m : ModelId} (h : s.Paused m) :
    s.isPaused m = (true, s) := by
  obtain ⟨d, hd, hlt⟩ := h
  simp [isPaused, hd, not_le.2 hlt]

theorem isPaused_of_not_paused {s : State} {m : ModelId} (h : ¬ s.Paused m) :
    s.isPaused m = (false, s.expirePause m) := by
  unfold expirePause isPaused
  cases hd : s.pausedUntil.get? m with
  | none => rfl
  | some d =>
    have hle : d ≤ s.now := not_lt.1 fun hlt => h ⟨d, hd, hlt⟩
    simp [hle]

theorem expirePause_of_paused {s : State} {m : ModelId} (h : s.Paused m) :
    s.expirePause m = s := by
  rw [expirePause, isPaused_of_paused h]

theorem expirePause_of_none {s : State} {m : ModelId} (h : s.pausedUntil.get? m = none) :
    s.expirePause m = s := by
  rw [expirePause, isPaused, h]

theorem expirePause_of_expired {s : State} {m : ModelId} {d : Time}
    (h : s.pausedUntil.get? m = some d) (hd : d ≤ s.now) : s.expirePause m = s.clearPause m := by
  simp [expirePause, isPaused, h, hd]

theorem expirePause_eq_self_or : s.expirePause m = s ∨ s.expirePause m = s.clearPause m := by
  unfold expirePause isPaused
  cases s.pausedUntil.get? m with
  | none => exact .inl rfl
  | some d =>
    by_cases h : d ≤ s.now
    · exact .inr (by simp [h])
    · exact .inl (by simp [h])

theorem expirePause_eq : ∃ p q, s.expirePause m = { s with pausedUntil := p, resumeTasks := q } := by
  rcases expirePause_eq_self_or s m with h | h
  · exact ⟨s.pausedUntil, s.resumeTasks, h⟩
  · exact ⟨_, _, h⟩

theorem pausedUntil_expirePause_self {s : State} {m : ModelId} (h : ¬ s.Paused m) :
    (s.expirePause m).pausedUntil.get? m = none := by
  unfold expirePause isPaused
  cases hd : s.pausedUntil.get? m with
  | none => exact hd
  | some d =>
    have hle : d ≤ s.now := not_lt.1 fun hlt => h ⟨d, hd, hlt⟩
    simp [hle, clearPause]

theorem pausedUntil_expirePause_ne {m' : ModelId} (h : m' ≠ m) :
    (s.expirePause m).pausedUntil.get? m' = s.pausedUntil.get? m' := by
  rcases expirePause_eq_self_or s m with e | e <;> simp [e, clearPause, h]

theorem resumeTasks_expirePause_ne {m' : ModelId} (h : m' ≠ m) :
    (s.expirePause m).resumeTasks.get? m' = s.resumeTasks.get? m' := by
  rcases expirePause_eq_self_or s m with e | e <;> simp [e, clearPause, h]

/-! ## Availability -/

theorem available_eq (gw : GatewayId) : s.available gw m =
    max 0 (s.capacity.getD ⟨gw, m⟩ 0 - s.inFlight.getD ⟨gw, m⟩ 0) := rfl

theorem available_pos_iff {gw : GatewayId} :
    0 < s.available gw m ↔ s.inFlight.getD ⟨gw, m⟩ 0 < s.capacity.getD ⟨gw, m⟩ 0 := by
  rw [available_eq]
  omega

theorem inFlight_reserve (slot slot' : Slot) : (s.reserve slot).inFlight.getD slot' 0 =
    s.inFlight.getD slot' 0 + if slot' = slot then 1 else 0 := by
  rw [reserve, Dict.getD_set]
  split
  · subst slot'; rfl
  · rw [add_zero]

theorem mem_ranked {allowed : List GatewayId} {e : GatewayId × ℤ} :
    e ∈ s.ranked m allowed ↔ e.1 ∈ allowed ∧ 0 < s.available e.1 m ∧ e.2 = s.available e.1 m := by
  obtain ⟨gw, n⟩ := e
  simp only [ranked, List.mem_filterMap]
  constructor
  · rintro ⟨gw', hgw, h⟩
    split at h
    · simp only [Option.some.injEq, Prod.mk.injEq] at h
      obtain ⟨rfl, rfl⟩ := h
      exact ⟨hgw, ‹_›, rfl⟩
    · cases h
  · rintro ⟨hgw, hpos, hn⟩
    exact ⟨gw, hgw, by rw [if_pos hpos, ← hn]⟩

/-! ## `_try_immediate` -/

/-- **The outcomes of `_try_immediate`**: a refusal, because the model is paused or because no
allowed gateway has room, or a reservation on an allowed gateway with room. -/
theorem tryImmediate_cases (r : Reading) (allowed : List GatewayId) :
    ((s.tick r.delay).Paused m ∨ ∀ gw ∈ allowed, s.available gw m ≤ 0) ∧
        s.tryImmediate r m allowed = (none, (s.tick r.delay).expirePause m) ∨
      ∃ gw ∈ allowed, ¬ (s.tick r.delay).Paused m ∧ 0 < s.available gw m ∧
        s.tryImmediate r m allowed =
          (some gw, ((s.tick r.delay).expirePause m).reserve ⟨gw, m⟩) := by
  by_cases hp : (s.tick r.delay).Paused m
  · left
    refine ⟨.inl hp, ?_⟩
    rw [tryImmediate, isPaused_of_paused hp, expirePause_of_paused hp]
  rw [tryImmediate, isPaused_of_not_paused hp]
  dsimp only
  set s₁ := (s.tick r.delay).expirePause m with hs₁
  have hav : ∀ gw, s₁.available gw m = s.available gw m := fun gw => by
    obtain ⟨p, q, h⟩ := expirePause_eq (s.tick r.delay) m
    rw [hs₁, h]
    rfl
  set l := (r.shuffle.apply (s₁.ranked m allowed)).insertionSort fun x y => y.2 ≤ x.2 with hl
  have hperm : l.Perm (s₁.ranked m allowed) :=
    (List.perm_insertionSort _ _).trans (r.shuffle.perm _)
  cases hh : l.head? with
  | none =>
    left
    refine ⟨.inr fun gw hgw => not_lt.1 fun hpos => ?_, rfl⟩
    have : (gw, s₁.available gw m) ∈ l :=
      hperm.mem_iff.2 ((s₁.mem_ranked m).2 ⟨hgw, by rwa [hav], rfl⟩)
    rw [List.head?_eq_none_iff.1 hh] at this
    cases this
  | some e =>
    right
    have he : e ∈ s₁.ranked m allowed := hperm.mem_iff.1 (List.mem_of_mem_head? hh)
    obtain ⟨hgw, hpos, -⟩ := (s₁.mem_ranked m).1 he
    exact ⟨e.1, hgw, hp, by rwa [hav] at hpos, rfl⟩

/-! ## The loop of `_dispatch` -/

/-- The state after an admission by the loop of `_dispatch`. -/
def admitWaiter (s : State) (r : Reading) (m : ModelId) (w : Waiter) (gw : GatewayId) : State :=
  { ((s.tick r.delay).expirePause m).reserve ⟨gw, m⟩ with
    futures := s.futures.set w.future (.result gw) }

theorem futures_reserve_expirePause (r : Reading) (slot : Slot) :
    (((s.tick r.delay).expirePause m).reserve slot).futures = s.futures := by
  obtain ⟨p, q, he⟩ := expirePause_eq (s.tick r.delay) m
  rw [he]
  rfl

/-- **The induction rule of the loop of `_dispatch`**: it skips a waiter whose future is done,
retains one it cannot serve, and admits one it can. -/
theorem dispatchLoop_rec {m : ModelId}
    {motive : (ℕ → Reading) → List Waiter → State → List Waiter → State → Prop}
    (nil : ∀ ρ s, motive ρ [] s [] s)
    (done : ∀ ρ w rest s u t, s.futureDone w.future = true → motive ρ rest s u t →
      motive ρ (w :: rest) s u t)
    (refused : ∀ ρ w rest s u t, s.futureDone w.future = false →
      (s.tick (ρ 0).delay).Paused m ∨ (∀ gw ∈ w.allowed, s.available gw m ≤ 0) →
      motive (fun i => ρ (i + 1)) rest ((s.tick (ρ 0).delay).expirePause m) u t →
      motive ρ (w :: rest) s (w :: u) t)
    (admitted : ∀ ρ w rest s gw u t, s.futureDone w.future = false → gw ∈ w.allowed →
      ¬ (s.tick (ρ 0).delay).Paused m → 0 < s.available gw m →
      motive (fun i => ρ (i + 1)) rest (s.admitWaiter (ρ 0) m w gw) u t →
      motive ρ (w :: rest) s u t) (ρ : ℕ → Reading) (q : List Waiter) (s : State) :
    motive ρ q s (dispatchLoop m ρ q s).1 (dispatchLoop m ρ q s).2 := by
  induction q generalizing ρ s with
  | nil => exact nil ρ s
  | cons w rest ih =>
    rw [dispatchLoop]
    cases hd : s.futureDone w.future with
    | true => exact done ρ w rest s _ _ hd (ih ρ s)
    | false =>
      simp only [Bool.false_eq_true, if_false]
      rcases s.tryImmediate_cases m (ρ 0) w.allowed with ⟨hno, h⟩ | ⟨gw, hgw, hp, hpos, h⟩
      · rw [h]
        exact refused ρ w rest s _ _ hd hno (ih _ _)
      · -- the reservation leaves the futures alone, so the re-check fails
        have hf := futures_reserve_expirePause s m (ρ 0) ⟨gw, m⟩
        have hd' : (((s.tick (ρ 0).delay).expirePause m).reserve ⟨gw, m⟩).futureDone w.future =
            false := by
          rw [futureDone, hf]
          exact hd
        rw [h]
        simp only [hd', hf, Bool.false_eq_true, if_false]
        exact admitted ρ w rest s gw _ _ hd hgw hp hpos (ih _ _)

theorem dispatchLoop_eq (ρ : ℕ → Reading) (q : List Waiter) (s : State) :
    ∃ n p rt l f i, (dispatchLoop m ρ q s).2 = { s with
      now := n, pausedUntil := p, resumeTasks := rt, slotLastChange := l, futures := f
      inFlight := i } := by
  refine dispatchLoop_rec (motive := fun _ _ s _ t => ∃ n p rt l f i, t = { s with
      now := n, pausedUntil := p, resumeTasks := rt, slotLastChange := l, futures := f
      inFlight := i }) ?_ ?_ ?_ ?_ ρ q s
  · exact fun _ s => ⟨_, _, _, _, _, _, rfl⟩
  · exact fun _ _ _ s _ t _ ih => ih
  · rintro ρ w rest s u t - - ⟨n, p, rt, l, f, i, rfl⟩
    obtain ⟨p', q', he⟩ := expirePause_eq (s.tick (ρ 0).delay) m
    exact ⟨_, _, _, _, _, _, by rw [he]; rfl⟩
  · rintro ρ w rest s gw u t - - - - ⟨n, p, rt, l, f, i, rfl⟩
    obtain ⟨p', q', he⟩ := expirePause_eq (s.tick (ρ 0).delay) m
    exact ⟨_, _, _, _, _, _, by rw [admitWaiter, he]; rfl⟩

/-! ## Dispatches that do not straddle a deadline

The loop reads the clock again for each waiter, so a pause can hold back the first waiters and be
over for the later ones. `Steady` excludes that. -/

/-- The clock at the `i`-th reading of a section that starts at time `now`. -/
def clockAt : Time → (ℕ → Reading) → ℕ → Time
  | now, ρ, 0 => now + (ρ 0).delay
  | now, ρ, i + 1 => clockAt (now + (ρ 0).delay) (fun i => ρ (i + 1)) i

/-- The pause of the model ends before the first of `n` readings or after the last. -/
def Steady (s : State) (ρ : ℕ → Reading) (m : ModelId) (n : ℕ) : Prop :=
  ∀ d ∈ s.pausedUntil.get? m, d ≤ clockAt s.now ρ 0 ∨ ∀ i < n, clockAt s.now ρ i < d

/-- The pause of the model ends after the last of `n` readings. -/
def PausedThroughout (s : State) (ρ : ℕ → Reading) (m : ModelId) (n : ℕ) : Prop :=
  ∃ d, s.pausedUntil.get? m = some d ∧ ∀ i < n, clockAt s.now ρ i < d

/-- No allowed gateway of the waiter has room. -/
def Unservable (s : State) (m : ModelId) (w : Waiter) : Prop :=
  ∀ gw ∈ w.allowed, s.available gw m ≤ 0

instance (s : State) (m : ModelId) (w : Waiter) : Decidable (s.Unservable m w) :=
  inferInstanceAs (Decidable (∀ gw ∈ w.allowed, s.available gw m ≤ 0))

section

variable {s : State} {ρ : ℕ → Reading} {m : ModelId} {n : ℕ}

theorem PausedThroughout.paused (h : s.PausedThroughout ρ m (n + 1)) :
    (s.tick (ρ 0).delay).Paused m := by
  obtain ⟨d, hd, hlt⟩ := h
  exact ⟨d, hd, hlt 0 (Nat.succ_pos n)⟩

theorem PausedThroughout.next (h : s.PausedThroughout ρ m (n + 1)) :
    ((s.tick (ρ 0).delay).expirePause m).PausedThroughout (fun i => ρ (i + 1)) m n := by
  rw [expirePause_of_paused h.paused]
  obtain ⟨d, hd, hlt⟩ := h
  exact ⟨d, hd, fun i hi => hlt (i + 1) (Nat.succ_lt_succ hi)⟩

theorem Steady.pausedThroughout (h : s.Steady ρ m n) (hp : (s.tick (ρ 0).delay).Paused m) :
    s.PausedThroughout ρ m n := by
  obtain ⟨d, hd, hlt⟩ := hp
  rcases h d hd with hle | hall
  · exact absurd hlt (not_lt.2 hle)
  · exact ⟨d, hd, hall⟩

theorem steady_of_pausedUntil_none (h : s.pausedUntil.get? m = none) : s.Steady ρ m n := by
  intro d hd
  rw [h] at hd
  cases hd

theorem PausedThroughout.steady (h : s.PausedThroughout ρ m n) : s.Steady ρ m n := by
  obtain ⟨d, hd, hlt⟩ := h
  intro d' hd'
  obtain rfl : d = d' := Option.some.inj (hd.symm.trans hd')
  exact .inr hlt

theorem Steady.next (h : s.Steady ρ m (n + 1)) :
    ((s.tick (ρ 0).delay).expirePause m).Steady (fun i => ρ (i + 1)) m n := by
  by_cases hp : (s.tick (ρ 0).delay).Paused m
  · exact (h.pausedThroughout hp).next.steady
  · exact steady_of_pausedUntil_none (pausedUntil_expirePause_self hp)

theorem available_expirePause_tick (dt : Time) (gw : GatewayId) (m' : ModelId) :
    ((s.tick dt).expirePause m).available gw m' = s.available gw m' := by
  obtain ⟨p, q, he⟩ := expirePause_eq (s.tick dt) m
  rw [he]
  rfl

theorem available_admitWaiter_le (r : Reading) (w : Waiter) (gw gw' : GatewayId) (m' : ModelId) :
    (s.admitWaiter r m w gw').available gw m' ≤ s.available gw m' := by
  rw [← available_expirePause_tick (s := s) (m := m) r.delay gw m', available_eq, available_eq]
  have := inFlight_reserve ((s.tick r.delay).expirePause m) ⟨gw', m⟩ ⟨gw, m'⟩
  have hle : ((s.tick r.delay).expirePause m).inFlight.getD ⟨gw, m'⟩ 0 ≤
      (s.admitWaiter r m w gw').inFlight.getD ⟨gw, m'⟩ 0 := by
    change _ ≤ (((s.tick r.delay).expirePause m).reserve ⟨gw', m⟩).inFlight.getD ⟨gw, m'⟩ 0
    rw [this]
    split <;> omega
  have hcap : (s.admitWaiter r m w gw').capacity = ((s.tick r.delay).expirePause m).capacity := rfl
  rw [hcap]
  omega

end

theorem available_dispatchLoop_le (ρ : ℕ → Reading) (q : List Waiter) (s : State) (gw : GatewayId)
    (m' : ModelId) : (dispatchLoop m ρ q s).2.available gw m' ≤ s.available gw m' := by
  refine dispatchLoop_rec (motive := fun _ _ s _ t => t.available gw m' ≤ s.available gw m')
    ?_ ?_ ?_ ?_ ρ q s
  · exact fun _ s => le_rfl
  · exact fun _ _ _ s _ t _ ih => ih
  · exact fun ρ w rest s u t _ _ ih => ih.trans (available_expirePause_tick _ _ _).le
  · exact fun ρ w rest s gw' u t _ _ _ _ ih => ih.trans (available_admitWaiter_le _ _ _ _ _)

/-- **A steady dispatch settles its queue**: unless the model is left paused, no retained waiter can
be served. -/
theorem unservable_dispatchLoop (ρ : ℕ → Reading) (q : List Waiter) (s : State) :
    s.Steady ρ m q.length → (dispatchLoop m ρ q s).2.pausedUntil.get? m = none →
      ∀ w ∈ (dispatchLoop m ρ q s).1, (dispatchLoop m ρ q s).2.Unservable m w := by
  -- the frame facts are about the same run of the loop, so the motive carries them along
  refine (dispatchLoop_rec (motive := fun ρ q s u t =>
    (∀ gw, t.available gw m ≤ s.available gw m) ∧
    (s.PausedThroughout ρ m q.length → t.pausedUntil.get? m ≠ none) ∧
    (s.Steady ρ m q.length → t.pausedUntil.get? m = none → ∀ w ∈ u, t.Unservable m w))
    ?_ ?_ ?_ ?_ ρ q s).2.2
  · refine fun ρ s => ⟨fun _ => le_rfl, ?_, fun _ _ w hw => by cases hw⟩
    rintro ⟨d, hd, -⟩ hn
    rw [hd] at hn
    cases hn
  · rintro ρ w rest s u t - ⟨hav, hpt, ih⟩
    refine ⟨hav, ?_, fun hs => ih fun d hd => (hs d hd).imp_right fun h i hi =>
      h i (Nat.lt_succ_of_lt hi)⟩
    rintro ⟨d, hd, hlt⟩
    exact hpt ⟨d, hd, fun i hi => hlt i (Nat.lt_succ_of_lt hi)⟩
  · rintro ρ w rest s u t - hno ⟨hav, hpt, ih⟩
    simp only [available_expirePause_tick] at hav
    refine ⟨hav, fun h => hpt h.next, fun hs hn w' hw' => ?_⟩
    rcases List.mem_cons.1 hw' with rfl | hw'
    · rcases hno with hp | hno
      · exact absurd hn (hpt (hs.pausedThroughout hp).next)
      · exact fun gw hgw => (hav gw).trans (hno gw hgw)
    · exact ih hs.next hn w' hw'
  · rintro ρ w rest s gw u t - - hp - ⟨hav, hpt, ih⟩
    refine ⟨fun gw' => (hav gw').trans (available_admitWaiter_le _ _ _ _ _),
      fun h => absurd h.paused hp, fun hs hn => ih ?_ hn⟩
    exact steady_of_pausedUntil_none (pausedUntil_expirePause_self hp)

theorem putQueue_get? (queues : Dict ModelId (List Waiter)) (q : List Waiter) (m' : ModelId) :
    ((putQueue queues m q).get? m').getD [] = if m' = m then q else (queues.get? m').getD [] := by
  unfold putQueue
  by_cases hq : q = []
  · rw [if_pos hq, Dict.get?_erase]
    split <;> simp [hq]
  · rw [if_neg hq, Dict.get?_set]
    split <;> simp

theorem dispatch_eq (ρ : ℕ → Reading) (s : State) :
    ∃ qs, s.dispatch ρ m = { (dispatchLoop m ρ (s.queue m) s).2 with queues := qs } ∧
      ∀ m', (qs.get? m').getD [] =
        if m' = m then (dispatchLoop m ρ (s.queue m) s).1 else s.queue m' := by
  unfold dispatch
  by_cases hq : s.queue m = []
  · refine ⟨s.queues, by rw [if_pos hq, hq]; rfl, fun m' => ?_⟩
    by_cases hm : m' = m
    · rw [if_pos hm, hm, hq]
      exact hq
    · rw [if_neg hm]
      rfl
  · rw [if_neg hq]
    refine ⟨_, rfl, fun m' => ?_⟩
    obtain ⟨n, p, rt, l, f, i, h⟩ := dispatchLoop_eq m ρ (s.queue m) s
    rw [putQueue_get?, h]
    rfl

end State

end LlmGateway.CapacityPool
