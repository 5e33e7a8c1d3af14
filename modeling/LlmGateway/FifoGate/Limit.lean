import LlmGateway.FifoGate.FailedAcquire
import LlmGateway.FifoGate.Order

/-!
# Over the limit

`set_limit` can leave the gate with more slots in use than the limit allows. From there on a newcomer
gets nothing, but a slot that is given back is handed to a live waiter without a look at the limit, so
`active_count` stays where it is as long as somebody waits (`staysOver`).

`limitRestored` is the law for the runs in which no live waiter is queued when a slot is given back
over the limit: then every release brings the count down by one, and nothing brings it up.
-/

namespace LlmGateway.FifoGate

open State

/-- More slots are in use than a static limit allows. -/
def Over (s : State) : Prop :=
  match s.limitSource with
  | .static n => n < s.activeCount
  | .callable => False

instance (s : State) : Decidable (Over s) :=
  match h : s.limitSource with
  | .static n => decidable_of_iff (n < s.activeCount) (by rw [Over, h])
  | .callable => .isFalse (by rw [Over, h]; exact not_false)

/-- The step gives back the slot of a holder. -/
def GivesBack (s : State) : Action → Prop
  | .release (some id) => id ∈ s.holders
  | .release none => True
  | .forceRelease id => id ∈ s.holders
  | _ => False

/-- A slot that is given back over the limit meets no live waiter. -/
def MeetsNoWaiter (s : State) (a : Action) : Prop := Over s → GivesBack s a → NoLive s

instance (s : State) : (a : Action) → Decidable (GivesBack s a)
  | .release (some _) => inferInstanceAs (Decidable (_ ∈ _))
  | .release none => .isTrue trivial
  | .forceRelease _ => inferInstanceAs (Decidable (_ ∈ _))
  | .tryAcquire _ _ => .isFalse not_false
  | .acquire _ _ _ _ _ => .isFalse not_false
  | .transferHolder _ _ => .isFalse not_false
  | .setLimit _ => .isFalse not_false
  | .cancel _ => .isFalse not_false
  | .cancelTask _ => .isFalse not_false
  | .fireTimer _ => .isFalse not_false
  | .eventTask _ => .isFalse not_false
  | .resume _ _ => .isFalse not_false

instance (s : State) (a : Action) : Decidable (MeetsNoWaiter s a) :=
  inferInstanceAs (Decidable (_ → _ → _))

/-- A static limit is positive. -/
def LimitPos (s : State) : Prop := ∀ n, s.limitSource = .static n → 1 ≤ n

section

variable {s t : State} {a : Action} {e : SlotEvent}

theorem LimitPos.change (h : LimitPos s) (hst : Change s a e t) : LimitPos t := by
  intro n hn
  cases hst with
  | limit _ hpos =>
    cases hn
    exact hpos
  | suspend _ _ _ _ hu | raise _ _ _ hu => exact h n ((waiters_of_cleanUp hu).2.1 ▸ hn)
  | _ => exact h n hn

theorem LimitPos.new {limit : LimitSource} (h : State.new limit = .ok s) : LimitPos s := by
  intro n hn
  have hl : s.limitSource = limit := by rw [new_eq h]
  rw [hl] at hn
  subst hn
  by_contra hlt
  rw [State.new, if_pos (not_le.1 hlt)] at h
  cases h

theorem Over.ne_zero (ho : Over s) (h : LimitPos s) : s.activeCount ≠ 0 := by
  unfold Over at ho
  split at ho
  · have := h _ ‹_›
    omega
  · cases ho

theorem Over.finds_eq_false (ho : Over s) (id : RequestId) (r : ℤ) : s.finds id r = false := by
  by_contra hf
  rw [Bool.not_eq_false] at hf
  unfold Over at ho
  split at ho
  · have := lt_limit_of_finds hf ‹_›
    omega
  · cases ho

theorem slotEvent_of_givesBack (ha : GivesBack s a) (h0 : s.activeCount ≠ 0) :
    s.slotEvent a = s.disposal := by
  cases a with
  | release id =>
    cases id with
    | none => exact if_pos h0
    | some id => exact if_pos ⟨ha, h0⟩
  | forceRelease id => exact if_pos ha
  | _ => cases ha

theorem disposal_eq_freed_iff : s.disposal = .freed ↔ NoLive s := by
  rw [disposal, NoLive, ← popLive_eq_none_iff]
  cases s.popLive s.waiters with
  | none => simp
  | some p => simp

theorem slotEvent_of_not_givesBack (ho : Over s) (ha : ¬ GivesBack s a) :
    s.slotEvent a = .quiet ∨ ∃ id, s.slotEvent a = .moved id := by
  cases a with
  | tryAcquire id r => exact .inl (if_neg (by rw [ho.finds_eq_false]; exact Bool.false_ne_true))
  | acquire id ht he r r' =>
    refine .inl (if_neg ?_)
    rw [ho.finds_eq_false, ho.finds_eq_false]
    exact Bool.false_ne_true
  | release id =>
    cases id with
    | none => exact absurd trivial ha
    | some id => exact .inl (if_neg fun hc => ha hc.1)
  | forceRelease id => exact .inl (if_neg ha)
  | transferHolder fromId toId =>
    by_cases hc : fromId ∈ s.holders ∧ fromId ≠ toId
    · exact .inr ⟨toId, if_pos hc⟩
    · exact .inl (if_neg hc)
  | _ => exact .inl rfl

/-- **One step over the limit**: no slot is handed to a waiter exactly when a slot that is given back
meets no live waiter. -/
theorem not_handed_iff (ho : Over s) (hl : LimitPos s) :
    (∀ w, s.slotEvent a ≠ .handed w) ↔ MeetsNoWaiter s a := by
  by_cases ha : GivesBack s a
  · rw [slotEvent_of_givesBack ha (ho.ne_zero hl)]
    constructor
    · intro h _ _
      rw [← disposal_eq_freed_iff]
      exact s.disposal_cases.resolve_right fun ⟨w, hw⟩ => h w hw
    · intro h w hw
      rw [disposal_eq_freed_iff.2 (h ho ha)] at hw
      cases hw
  · constructor
    · exact fun _ _ hg => absurd hg ha
    · intro _ w hw
      rcases slotEvent_of_not_givesBack ho ha with he | ⟨id, he⟩ <;> rw [he] at hw <;> cases hw

/-- Over the limit a step frees the slot that is given back, or leaves the count. -/
theorem count_step_over (ho : Over s) (hl : LimitPos s) (hm : MeetsNoWaiter s a)
    (hst : s.step a = some t) :
    GivesBack s a ∧ s.slotEvent a = .freed ∧ t.activeCount + 1 = s.activeCount ∨
      ¬ GivesBack s a ∧ s.slotEvent a ≠ .freed ∧ t.activeCount = s.activeCount := by
  have hcount := activeCount_change (step_change hst)
  by_cases ha : GivesBack s a
  · have he : s.slotEvent a = .freed := by
      rw [slotEvent_of_givesBack ha (ho.ne_zero hl)]
      exact disposal_eq_freed_iff.2 (hm ho ha)
    have h0 := ho.ne_zero hl
    rw [he, SlotEvent.count] at hcount
    exact .inl ⟨ha, he, by omega⟩
  · rcases slotEvent_of_not_givesBack ho ha with he | ⟨id, he⟩
    · rw [he] at hcount ⊢
      exact .inr ⟨ha, by simp, hcount⟩
    · rw [he] at hcount ⊢
      exact .inr ⟨ha, by simp, hcount⟩

end

/-- **The limit is restored** in every run in which no live waiter is queued when a slot is given back
over the limit. While the gate stays over the limit, no step hands a slot to a waiter, and the count
falls by one with every slot that becomes free and moves with nothing else; and every release of a
holder makes its slot free. -/
theorem limitRestored {s : State} (h : (gate.restrict MeetsNoWaiter).Reachable s)
    {as : List Action} {t : State}
    (hrun : (gate.restrict fun s a => Over s ∧ MeetsNoWaiter s a).Run s as t) :
    (∀ w, SlotEvent.handed w ∉ slotEvents s as) ∧
    t.activeCount + (slotEvents s as).count SlotEvent.freed = s.activeCount ∧
    (Over t → ∀ a u, MeetsNoWaiter t a → gate.step t a u →
      (∀ w, t.slotEvent a ≠ .handed w) ∧ u.activeCount ≤ t.activeCount ∧
      (GivesBack t a → u.activeCount + 1 = t.activeCount)) := by
  have hpos : LimitPos s := by
    refine h.invariant ?_ ?_
    · rintro s ⟨limit, hnew⟩
      exact .new hnew
    · rintro s a t hs ⟨-, hst⟩
      exact hs.change (step_change hst)
  have hlog : LimitPos t ∧ (∀ w, SlotEvent.handed w ∉ slotEvents s as) ∧
      t.activeCount + (slotEvents s as).count SlotEvent.freed = s.activeCount := by
    refine System.Run.outputs (J := fun u l => LimitPos u ∧ (∀ w, SlotEvent.handed w ∉ l) ∧
      u.activeCount + l.count SlotEvent.freed = s.activeCount) ?_ hrun (l := [])
      ⟨hpos, fun w => List.not_mem_nil, rfl⟩
    rintro u a v l ⟨hu, hno, hcount⟩ ⟨ho, hm⟩ hst
    refine ⟨hu.change (step_change hst), fun w hw => ?_, ?_⟩
    · rcases List.mem_append.1 hw with hw | hw
      · exact hno w hw
      · exact (not_handed_iff ho hu).2 hm w (List.mem_singleton.1 hw).symm
    · rw [List.count_append, List.count_singleton]
      rcases count_step_over ho hu hm hst with ⟨-, he, hv⟩ | ⟨-, he, hv⟩
      · rw [he, beq_self_eq_true, if_pos rfl]
        omega
      · rw [beq_eq_false_iff_ne.2 he, if_neg Bool.false_ne_true]
        omega
  obtain ⟨hpos', hno, hcount⟩ := hlog
  refine ⟨hno, hcount, fun ho a u hm hst => ⟨(not_handed_iff ho hpos').2 hm, ?_, fun hg => ?_⟩⟩
  · rcases count_step_over ho hpos' hm hst with ⟨-, -, hu⟩ | ⟨-, -, hu⟩ <;> omega
  · rcases count_step_over ho hpos' hm hst with ⟨-, -, hu⟩ | ⟨hg', -, -⟩
    · exact hu
    · exact absurd hg hg'

/-- The limit is lowered to one with two slots in use and nobody waiting; the release of `a` brings
the count down to it. -/
theorem limitRestored_release : ∃ s t, (gate.restrict MeetsNoWaiter).Reachable s ∧ Over s ∧
    (gate.restrict fun s a => Over s ∧ MeetsNoWaiter s a).Run s [.release (some "a")] t ∧
    t.activeCount + (slotEvents s [.release (some "a")]).count .freed = 2 := by
  have hrun : (System.exec (System.guarded step MeetsNoWaiter) twoSlots
      [.tryAcquire "a" 0, .tryAcquire "b" 0, .setLimit 1]).map
      (fun s => (s.activeCount, decide (Over s), (System.exec (System.guarded step
        fun s a => Over s ∧ MeetsNoWaiter s a) s [.release (some "a")]).isSome)) =
        some (2, true, true) := by decide
  obtain ⟨s, hs, hobs⟩ := Option.map_eq_some_iff.1 hrun
  simp only [Prod.mk.injEq, decide_eq_true_eq, Option.isSome_iff_exists] at hobs
  obtain ⟨hc, ho, t, ht⟩ := hobs
  have hreach : (gate.restrict MeetsNoWaiter).Reachable s :=
    System.reachable_of_exec_guarded ⟨.static 2, rfl⟩ hs
  have hst : (gate.restrict fun s a => Over s ∧ MeetsNoWaiter s a).Run s [.release (some "a")] t :=
    System.run_of_exec_guarded ht
  exact ⟨s, t, hreach, ho, hst, hc ▸ (limitRestored hreach hst).2.1⟩

/-- The limit is lowered to one with two slots in use and `c` queued: the release of `a` hands the slot
to `c`, and two slots stay in use. -/
theorem staysOver : ∃ s t, gate.Run twoSlots
      [.tryAcquire "a" 0, .tryAcquire "b" 0, .acquire "c" false false 0 0, .setLimit 1] s ∧
    s.limitSource = .static 1 ∧ s.activeCount = 2 ∧ gate.step s (.release (some "a")) t ∧
    s.slotEvent (.release (some "a")) = .handed ⟨"c", 0⟩ ∧ t.limitSource = .static 1 ∧
    t.activeCount = 2 ∧ t.holders = {"b", "c"} := by
  have hrun : (System.exec step twoSlots
      [.tryAcquire "a" 0, .tryAcquire "b" 0, .acquire "c" false false 0 0, .setLimit 1]).map
      (fun s => (s.limitSource, s.activeCount, s.slotEvent (.release (some "a")))) =
        some (.static 1, 2, .handed ⟨"c", 0⟩) := by decide
  have hlast : ((System.exec step twoSlots
      [.tryAcquire "a" 0, .tryAcquire "b" 0, .acquire "c" false false 0 0, .setLimit 1]).bind
      fun s => s.step (.release (some "a"))).map
        (fun t => (t.limitSource, t.activeCount, t.holders)) =
        some (.static 1, 2, {"b", "c"}) := by decide
  obtain ⟨s, hs, hobs⟩ := Option.map_eq_some_iff.1 hrun
  obtain ⟨t, ht, hobs'⟩ := Option.map_eq_some_iff.1 hlast
  rw [hs, Option.bind_some] at ht
  simp only [Prod.mk.injEq] at hobs hobs'
  obtain ⟨hl, hc, he⟩ := hobs
  exact ⟨s, t, System.run_of_exec hs, hl, hc, ht, he, hobs'⟩

end LlmGateway.FifoGate
