import LlmGateway.FifoGate.Accounting

/-!
# First come, first served

A slot that is given back goes to the oldest waiter whose future is pending, and a newcomer takes a
slot only when `active_count` is below the limit. The two fit together because a free slot and a live
waiter do not occur at the same time, with one exception: nobody tells the queue that the limit has
gone up. `set_limit` does not hand the new slots out, and neither does a callable that returns a
larger value, so the next newcomer takes a slot past the waiters (`overtaken`).

`firstComeFirstServed` is the law for the runs in which the limit is not raised above `active_count`
while a live waiter is queued.
-/

namespace LlmGateway.FifoGate

open State

/-- No queued waiter is live: every future in the queue is done. -/
def NoLive (s : State) : Prop := ∀ w ∈ s.waiters, s.isPending w.future = false

instance (s : State) : Decidable (NoLive s) := inferInstanceAs (Decidable (∀ w ∈ _, _))

/-- The step does not raise the limit above `active_count` while a live waiter is queued: neither
`set_limit` on a static limit nor a callable limit that lets a newcomer in does so. -/
def KeepsOrder (s : State) : Action → Prop
  | .setLimit n => s.limitSource ≠ .callable → n ≤ s.activeCount ∨ NoLive s
  | .tryAcquire id r => s.limitSource = .callable → s.finds id r = true → NoLive s
  | .acquire id _ _ r r' =>
    s.limitSource = .callable → s.finds id r = true ∨ s.finds id r' = true → NoLive s
  | .release _ => True
  | .transferHolder _ _ => True
  | .forceRelease _ => True
  | .cancel _ => True
  | .cancelTask _ => True
  | .fireTimer _ => True
  | .eventTask _ => True
  | .resume _ _ => True

instance (s : State) : (a : Action) → Decidable (KeepsOrder s a)
  | .setLimit _ => inferInstanceAs (Decidable (_ → _))
  | .tryAcquire _ _ => inferInstanceAs (Decidable (_ → _ → _))
  | .acquire _ _ _ _ _ => inferInstanceAs (Decidable (_ → _ ∨ _ → _))
  | .release _ => .isTrue trivial
  | .transferHolder _ _ => .isTrue trivial
  | .forceRelease _ => .isTrue trivial
  | .cancel _ => .isTrue trivial
  | .cancelTask _ => .isTrue trivial
  | .fireTimer _ => .isTrue trivial
  | .eventTask _ => .isTrue trivial
  | .resume _ _ => .isTrue trivial

/-- No slot is free while a live waiter is queued. -/
def NoFreeSlot (s : State) : Prop :=
  ∀ n, s.limitSource = .static n → (s.activeCount : ℤ) < n → NoLive s

section

variable {s t : State} {a : Action} {e : SlotEvent}

theorem lt_limit_of_finds {id : RequestId} {r n : ℤ} (h : s.finds id r = true)
    (hs : s.limitSource = .static n) : (s.activeCount : ℤ) < n := by
  simp only [finds, currentLimit, hs, Bool.and_eq_true, decide_eq_true_eq] at h
  exact h.2

theorem isPending_change (hst : Change s a e t) {c : CallId} (h : t.isPending c = true) :
    s.isPending c = true ∨ c = s.nextCall := by
  rw [isPending_iff] at h ⊢
  rcases futures_change hst c with h' | ⟨h', -⟩ | ⟨-, h', -⟩ | ⟨h', -⟩
  · exact .inl (h' ▸ h)
  · exact .inl h'
  · exact .inl h'
  · exact .inr h'

theorem NoLive.change (h : NoLive s) (hwf : WellFormed s) (hst : Change s a e t)
    (hw : ∀ w ∈ t.waiters, w ∈ s.waiters) : NoLive t := by
  intro w hwt
  by_contra hp
  rw [Bool.not_eq_false] at hp
  have hws := hw w hwt
  rcases isPending_change hst hp with hp | hp
  · rw [h w hws] at hp
    cases hp
  · obtain ⟨call, hc, -⟩ := hwf.queued_call w hws
    exact (hwf.call_lt _ _ hc).ne hp

theorem waiters_of_cleanUp {u : State} {c : CallId} (hu : u = s ∨ u = s.cancelFuture c) :
    u.waiters = s.waiters ∧ u.limitSource = s.limitSource ∧ u.activeCount = s.activeCount := by
  obtain ⟨futures, rfl⟩ := cleanUp_eq hu
  exact ⟨rfl, rfl, rfl⟩

theorem NoFreeSlot.change (h : NoFreeSlot s) (hwf : WellFormed s) (ha : KeepsOrder s a)
    (hst : Change s a e t) : NoFreeSlot t := by
  intro n hs hlt
  have hch := hst
  cases hst with
  | stay => exact h n hs hlt
  | limit hm _ =>
    cases hs
    rcases ha (by rw [hm]; exact fun hc => by cases hc) with hn | hno
    · exact absurd hlt (not_lt.2 hn)
    · exact hno
  | take hf => exact (h n hs (lt_limit_of_finds hf hs)).change hwf hch fun _ hw => hw
  | enter | move | finish => exact (h n hs hlt).change hwf hch fun _ hw => hw
  | takeCall hf =>
    have hlt' : (s.activeCount : ℤ) < n :=
      hf.elim (fun hf => lt_limit_of_finds hf hs) fun hf => lt_limit_of_finds hf hs
    exact (h n hs hlt').change hwf hch fun _ hw => hw
  | enqueue _ hl hle =>
    have hs' : s.limitSource = .static n := hs
    rw [currentLimit, hs'] at hl
    cases hl
    exact absurd hlt (not_lt.2 hle)
  | handOff _ hpop =>
    have hno := popLive_eq_none_iff.2 (h n hs hlt)
    rw [hpop] at hno
    cases hno
  | free => exact fun w hw => by cases hw
  | cancel => exact (h n hs hlt).change hwf hch fun _ hw => List.mem_of_mem_eraseP hw
  | suspend _ _ _ _ hu =>
    obtain ⟨hw, hl, hc⟩ := waiters_of_cleanUp hu
    exact (h n (hl ▸ hs) (hc ▸ hlt)).change hwf hch fun _ hm => hw ▸ hm
  | raise _ _ _ hu =>
    obtain ⟨hw, hl, hc⟩ := waiters_of_cleanUp hu
    exact (h n (hl ▸ hs) (hc ▸ hlt)).change hwf hch fun _ hm => hw ▸ List.mem_of_mem_eraseP hm

theorem not_taken (h : NoFreeSlot s) (ha : KeepsOrder s a) {w : Waiter} (hw : w ∈ s.waiters)
    (hp : s.isPending w.future = true) (c : Option CallId) (id : RequestId) :
    s.slotEvent a ≠ .taken c id := by
  have hno : ¬ NoLive s := fun hno => by
    rw [hno w hw] at hp
    cases hp
  have hfinds : ∀ {id r}, (s.limitSource = .callable → s.finds id r = true → NoLive s) →
      s.finds id r = false := by
    intro id r hcall
    by_contra hf
    rw [Bool.not_eq_false] at hf
    cases hs : s.limitSource with
    | static n => exact hno (h n hs (lt_limit_of_finds hf hs))
    | callable => exact hno (hcall hs hf)
  have hdisp : s.disposal ≠ .taken c id := by
    rw [disposal]
    split <;> exact fun hc => by cases hc
  cases a with
  | tryAcquire id' r =>
    rw [slotEvent, hfinds ha, if_neg Bool.false_ne_true]
    exact fun hc => by cases hc
  | acquire id' ht he r r' =>
    rw [slotEvent, hfinds fun hs hf => ha hs (.inl hf), hfinds fun hs hf => ha hs (.inr hf),
      Bool.or_false, if_neg Bool.false_ne_true]
    exact fun hc => by cases hc
  | release id' =>
    cases id' with
    | none | some id' =>
      rw [slotEvent]
      split
      · exact hdisp
      · exact fun hc => by cases hc
  | forceRelease id' =>
    rw [slotEvent]
    split
    · exact hdisp
    · exact fun hc => by cases hc
  | transferHolder fromId toId =>
    rw [slotEvent]
    split <;> exact fun hc => by cases hc
  | _ => exact fun hc => by cases hc

theorem WellFormed.handed_le (hwf : WellFormed s) (hst : Change s a e t) {w w' : Waiter}
    (he : e = .handed w') (hw : w ∈ s.waiters) (hp : s.isPending w.future = true) :
    w'.future ≤ w.future := by
  subst he
  cases hst with
  | @handOff _ _ _ ws _ hpop =>
    obtain ⟨-, front, hl, hfront⟩ := popLive_eq_some_iff.1 hpop
    have hsorted := hwf.sorted
    rw [hl] at hw hsorted
    rcases List.mem_append.1 hw with hw | hw
    · rw [hfront w hw] at hp
      cases hp
    · rcases List.mem_cons.1 hw with rfl | hw
      · exact le_rfl
      · exact ((List.pairwise_cons.1 (List.pairwise_append.1 hsorted).2.1).1 w hw).le

theorem overtakes_of_not_keepsOrder (ha : ¬ KeepsOrder s a) (hst : s.step a = some t) :
    ¬ NoFreeSlot t ∨ ¬ NoLive s ∧ ∃ c id, s.slotEvent a = .taken c id := by
  cases a with
  | setLimit n =>
    obtain ⟨hs, hn⟩ := Classical.not_imp.1 ha
    obtain ⟨hn, hno⟩ := not_or.1 hn
    cases hsrc : s.limitSource with
    | callable => exact absurd hsrc hs
    | static m =>
      have hn1 : ¬ n < 1 := by omega
      have ht : s.setLimit n = .ok { s with limitSource := .static n } := by
        rw [setLimit, hsrc]
        exact if_neg hn1
      obtain rfl := Option.some.inj hst
      rw [ht]
      exact .inl fun hfree => hno (hfree n rfl (not_le.1 hn))
  | tryAcquire id r =>
    obtain ⟨-, hf⟩ := Classical.not_imp.1 ha
    obtain ⟨hf, hno⟩ := Classical.not_imp.1 hf
    exact .inr ⟨hno, none, id, by rw [slotEvent, if_pos hf]⟩
  | acquire id ht he r r' =>
    obtain ⟨-, hf⟩ := Classical.not_imp.1 ha
    obtain ⟨hf, hno⟩ := Classical.not_imp.1 hf
    exact .inr ⟨hno, some s.nextCall, id, by rw [slotEvent, if_pos (by simpa using hf)]⟩
  | _ => exact absurd trivial ha

end

end LlmGateway.FifoGate
