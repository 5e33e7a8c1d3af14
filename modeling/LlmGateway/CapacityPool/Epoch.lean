import LlmGateway.CapacityPool.Accounting
import LlmGateway.CapacityPool.Admission

/-!
# Resets and the tokens they forget

`reconcile_gateway_state` and `reset_cold_slot` set the count of a slot to zero and forget its
holders. Nothing marks the forgotten tokens, so a later release of one takes from the count like any
other release (`overAdmission` is a run in which that lets a second request into a slot of capacity
one). What does hold is the bound `heldSinceReset_le`: the count falls short of the holders admitted
since the last reset by at most the number of forgotten holders that have given back since, and no
step admits beyond the capacity plus that number.

The history this speaks about is kept beside the state, in `Epochs`: which calls held their slot when
it was reset, and how many of them have since taken from the count of the slot.
-/

namespace LlmGateway.CapacityPool

open State

/-- The history of the resets. -/
structure Epochs where
  /-- The calls that held their slot when it was reset. -/
  stale : CallId → Bool
  /-- The number of times, since the last reset of the slot, that a stale holder has taken from its
  count. -/
  late : Slot → ℕ

/-- The slot an action gives back, and its holder: the release of a live token, or the delivered
cancellation of a call already admitted. -/
def givenBack (s : State) : Action → Option (CallId × Slot)
  | .release c _ => (s.tokenSlot c).map fun slot => (c, slot)
  | .deliverCancel c => (s.callSlot c).map fun slot => (c, slot)
  | _ => none

/-- The history after the action `a` in the state `s`. -/
def Epochs.next (g : Epochs) (s : State) (a : Action) : Epochs where
  stale c := g.stale c || (s.tokenSlot c).any (resetSlots s a) || (s.callSlot c).any (resetSlots s a)
  late slot :=
    if resetSlots s a slot then 0
    else g.late slot + (if (givenBack s a).any (fun e => e.2 = slot ∧ g.stale e.1 = true) = true ∧
      0 < s.inFlight.getD slot 0 then 1 else 0)

/-- The pool with the history of its resets. -/
def trackedPool : System (State × Epochs) Action :=
  .ofFn (fun e => ∃ depth now, e = (.initial depth now, ⟨fun _ => false, fun _ => 0⟩))
    fun e a => (e.1.step a).map fun t => (t, e.2.next e.1 a)

/-- The number of holders of the slot admitted since its last reset. -/
def heldSinceReset (g : Epochs) (s : State) (slot : Slot) : ℕ := held (fun c => !g.stale c) s slot

section

variable {F F' : CallId → Bool} {s t : State} {a : Action} {e : Event} {slot : Slot}

theorem held_mono (hF : ∀ c, F' c = true → F c = true) (s : State) (slot : Slot) :
    held F' s slot ≤ held F s slot := by
  refine Nat.add_le_add (Dict.count_mono _ fun c token _ h => ?_)
    (Dict.count_mono _ fun c call _ h => ?_)
  · rw [Bool.and_eq_true] at h ⊢
    exact ⟨hF c h.1, h.2⟩
  · rw [Bool.and_eq_true] at h ⊢
    exact ⟨hF c h.1, h.2⟩

theorem held_eq_zero (h : ∀ c, s.Holds c slot → F c = false) : held F s slot = 0 := by
  have h₁ : s.tokens.count (fun c token => F c && decide (token.heldSlot = some slot)) = 0 := by
    refine Dict.count_eq_zero _ fun c token ht => ?_
    by_cases hs : token.heldSlot = some slot
    · simp [h c (.inl (by rw [tokenSlot, ht]; exact hs))]
    · simp [hs]
  have h₂ : s.calls.count (fun c call => F c && decide (s.admittedTo c call = some slot)) = 0 := by
    refine Dict.count_eq_zero _ fun c call hc => ?_
    by_cases hs : s.admittedTo c call = some slot
    · simp [h c (.inr (by rw [callSlot, hc]; exact hs))]
    · simp [hs]
  rw [held, h₁, h₂]

/-! ## One change -/

/-- The count of every slot falls short of the selected holders by at most `k`. -/
def ShortBy (F : CallId → Bool) (k : Slot → ℕ) (s : State) : Prop :=
  ∀ slot, (held F s slot : ℤ) ≤ s.inFlight.getD slot 0 + k slot

/-- What a holder that is not selected takes from the count of the slot. -/
def takes (F : CallId → Bool) (s : State) (slot : Slot) : Event → ℕ
  | .recover c slot' | .release c slot' =>
    if slot' = slot ∧ F c = false ∧ 0 < s.inFlight.getD slot 0 then 1 else 0
  | _ => 0

theorem ShortBy.change {k : Slot → ℕ} (hwf : WellFormed s) (h : ShortBy F k s)
    (hr : ∀ slots, e ≠ .reset slots) (hst : Change s e t) :
    ShortBy F (fun slot => k slot + takes F s slot e) t := by
  obtain ⟨c, a, b, hm⟩ := hst.moves hwf hr
  intro slot
  have hslot := h slot
  have hheld := held_add_holdWeight hm.agree F slot
  rw [hm.before.holdWeight_eq, hm.after.holdWeight_eq] at hheld
  rcases hm.counts with ⟨rfl, hi⟩ | ⟨slot₀, -, hab, hi⟩ | ⟨slot₀, he, rfl, rfl, hi⟩
  · rw [hi]
    push_cast
    omega
  · rw [hi]
    push_cast
    rcases hab with ⟨rfl, rfl⟩ | ⟨rfl, -⟩
    · by_cases hs : slot = slot₀
      · subst hs
        simp only [reduceCtorEq, and_false, if_false, and_true, if_true] at hheld ⊢
        split at hheld <;> omega
      · simp only [Option.some.injEq, Ne.symm hs, hs, reduceCtorEq, and_false, if_false] at hheld ⊢
        omega
    · split <;> omega
  · have htakes : takes F s slot e =
        if slot₀ = slot ∧ F c = false ∧ 0 < s.inFlight.getD slot 0 then 1 else 0 := by
      rcases he with rfl | rfl <;> rfl
    rw [hi]
    dsimp only
    rw [htakes]
    push_cast
    have hnn := hwf.inFlight_nonneg slot
    by_cases hs : slot = slot₀
    · subst hs
      cases hF : F c with
      | true =>
        have hle := holdWeight_le_held F s slot c
        rw [hm.before.holdWeight_eq] at hle
        simp only [hF, reduceCtorEq, and_self, and_false, if_true, if_false, true_and, false_and]
          at hheld hle ⊢
        split <;> omega
      | false =>
        simp only [hF, reduceCtorEq, false_and, if_false, true_and] at hheld ⊢
        split <;> omega
    · simp only [Option.some.injEq, Ne.symm hs, hs, reduceCtorEq, and_false, if_false, false_and]
        at hheld ⊢
      omega

theorem held_change_le (hwf : WellFormed s) (hst : Change s e t) (he : e.admitsTo ≠ some slot) :
    held F t slot ≤ held F s slot := by
  by_cases hr : ∃ slots, e = .reset slots
  · obtain ⟨slots, rfl⟩ := hr
    cases hst with
    | reset slots hi => exact le_rfl
  · obtain ⟨c, a, b, hm⟩ := hst.moves hwf fun slots he => hr ⟨slots, he⟩
    have hheld := held_add_holdWeight hm.agree F slot
    rw [hm.before.holdWeight_eq, hm.after.holdWeight_eq] at hheld
    rcases hm.counts with ⟨rfl, -⟩ | ⟨slot₀, he₀, hab, -⟩ | ⟨slot₀, -, rfl, rfl, -⟩
    · omega
    · rcases hab with ⟨rfl, rfl⟩ | ⟨rfl, -⟩
      · have hs : slot₀ ≠ slot := fun hs => he (hs ▸ he₀)
        simp only [Option.some.injEq, hs, reduceCtorEq, and_false, if_false] at hheld
        omega
      · omega
    · simp only [reduceCtorEq, and_false, if_false] at hheld
      omega

/-! ## Steps and runs -/

theorem resetSlots_of_resets_eq_false (hr : a.resets = false) (s : State) :
    resetSlots s a = fun _ => false := by
  funext slot
  cases a <;> first | rfl | cases hr

theorem givenBack_of_resets (hr : a.resets = true) (s : State) : givenBack s a = none := by
  cases a <;> first | rfl | cases hr

theorem stale_next_of_resets_eq_false (g : Epochs) (hr : a.resets = false) (s : State) :
    (g.next s a).stale = g.stale := by
  funext c
  rw [Epochs.next, resetSlots_of_resets_eq_false hr]
  cases s.tokenSlot c <;> cases s.callSlot c <;> simp

theorem late_next_of_resets (g : Epochs) (hr : a.resets = true) (s : State) (slot : Slot) :
    (g.next s a).late slot = if resetSlots s a slot then 0 else g.late slot := by
  simp [Epochs.next, givenBack_of_resets hr]

theorem takes_eq {u : State} (g : Epochs) (hp : Permits s a u e) (hst : Change u e t)
    (hr : a.resets = false) (slot : Slot) :
    takes (fun c => !g.stale c) u slot e = 0 ∨
      u = s ∧ (g.next s a).late slot = g.late slot + takes (fun c => !g.stale c) u slot e := by
  cases hst with
  | recover hc hw hf e =>
    obtain ⟨rfl, rfl⟩ := hp
    refine .inr ⟨rfl, ?_⟩
    simp [takes, Epochs.next, resetSlots, givenBack, callSlot_of_waiting hc hw hf, and_assoc]
  | release ht hl =>
    obtain ⟨rfl, ρ, rfl⟩ := hp
    refine .inr ⟨rfl, ?_⟩
    simp [takes, Epochs.next, resetSlots, givenBack, tokenSlot, ht, Token.heldSlot, hl, and_assoc]
  | _ => exact .inl rfl

theorem ShortBy.mono {k k' : Slot → ℕ} (h : ShortBy F k s) (hF : ∀ c, F' c = true → F c = true)
    (hk : ∀ slot, k slot ≤ k' slot) : ShortBy F' k' s := by
  intro slot
  have h₁ := h slot
  have h₂ := held_mono hF s slot
  have h₃ := hk slot
  omega

theorem fresh_of_fresh_next {g : Epochs} {s : State} {a : Action} (c : CallId)
    (h : (!(g.next s a).stale c) = true) : (!g.stale c) = true := by
  simp only [Epochs.next, Bool.not_or, Bool.and_eq_true] at h
  exact h.1.1

theorem shortBy_step_of_not_resets {g : Epochs} (hwf : WellFormed s) (hst : s.step a = some t)
    (hr : a.resets = false) (h : ShortBy (fun c => !g.stale c) g.late s) :
    ShortBy (fun c => !(g.next s a).stale c) (g.next s a).late t := by
  rw [stale_next_of_resets_eq_false g hr]
  have hle : ∀ slot, g.late slot ≤ (g.next s a).late slot := fun slot => by
    rw [Epochs.next, resetSlots_of_resets_eq_false hr]
    exact Nat.le_add_right _ _
  refine ((step_path hwf hst).invariant (I := fun u => WellFormed u ∧
    ShortBy (fun c => !g.stale c) (g.next s a).late u) ?_ ⟨hwf, h.mono (fun _ => id) hle⟩).2
  rintro u e v ⟨hwf, hu⟩ ⟨hp, hch⟩
  have hnr : ∀ slots, e ≠ .reset slots := by
    rintro slots rfl
    exact absurd (hp.1.symm.trans hr) (by simp)
  refine ⟨hwf.change hch, fun slot => ?_⟩
  rcases takes_eq g hp hch hr slot with h0 | ⟨rfl, hk⟩
  · have := hu.change hwf hnr hch slot
    dsimp only at this
    rwa [h0, Nat.add_zero] at this
  · rw [hk]
    exact h.change hwf hnr hch slot

theorem shortBy_step_of_resets {g : Epochs} (hwf : WellFormed s) (hst : s.step a = some t)
    (hr : a.resets = true) (h : ShortBy (fun c => !g.stale c) g.late s) :
    ShortBy (fun c => !(g.next s a).stale c) (g.next s a).late t := by
  -- the holders of a slot that is reset are all forgotten
  have hzero : ∀ slot, resetSlots s a slot = true →
      held (fun c => !(g.next s a).stale c) s slot = 0 := by
    intro slot hslot
    refine held_eq_zero fun c hc => ?_
    rcases hc with hc | hc <;> simp [Epochs.next, hc, hslot]
  have hkept : ∀ slot, resetSlots s a slot = false →
      (held (fun c => !(g.next s a).stale c) s slot : ℤ) ≤
        s.inFlight.getD slot 0 + (g.next s a).late slot := by
    intro slot hslot
    rw [late_next_of_resets g hr, hslot]
    exact (h.mono fresh_of_fresh_next fun _ => le_rfl : ShortBy _ g.late s) slot
  refine ((step_path hwf hst).invariant (I := fun u => WellFormed u ∧
    ShortBy (fun c => !(g.next s a).stale c) (g.next s a).late u) ?_ ⟨hwf, fun slot => ?_⟩).2
  · rintro u e v ⟨hwf, hu⟩ ⟨hp, hch⟩
    refine ⟨hwf.change hch, fun slot => ?_⟩
    by_cases hreset : ∃ slots, e = .reset slots
    · obtain ⟨slots, rfl⟩ := hreset
      obtain ⟨-, rfl, rfl⟩ := hp
      cases hch with
      | @reset _ i hi =>
        change (held (fun c => !(g.next u a).stale c) u slot : ℤ) ≤ i.getD slot 0 + _
        rw [hi]
        cases hslot : resetSlots u a slot with
        | true =>
          rw [hzero slot hslot]
          simp
        | false => exact hkept slot hslot
    · have htakes : takes (fun c => !(g.next s a).stale c) u slot e = 0 := by
        cases e with
        | recover c slot' =>
          obtain ⟨-, rfl⟩ := hp
          cases hr
        | release c slot' =>
          obtain ⟨-, ρ, rfl⟩ := hp
          cases hr
        | _ => rfl
      have := hu.change hwf (fun slots he => hreset ⟨slots, he⟩) hch slot
      dsimp only at this
      rwa [htakes, Nat.add_zero] at this
  · cases hslot : resetSlots s a slot with
    | true =>
      have := hwf.inFlight_nonneg slot
      rw [hzero slot hslot]
      push_cast
      omega
    | false => exact hkept slot hslot

theorem trackedPool_step {g g' : Epochs} :
    trackedPool.step (s, g) a (t, g') ↔ s.step a = some t ∧ g' = g.next s a := by
  simp [trackedPool, System.ofFn, Prod.ext_iff, eq_comm]

/-- In every reachable state the count is short by exactly the late returns of earlier epochs. -/
theorem tracked_invariant {g : Epochs} (h : trackedPool.Reachable (s, g)) :
    WellFormed s ∧ ShortBy (fun c => !g.stale c) g.late s := by
  refine h.invariant (I := fun e => WellFormed e.1 ∧
    ShortBy (fun c => !e.2.stale c) e.2.late e.1) ?_ ?_
  · rintro e ⟨depth, now, rfl⟩
    refine ⟨.initial depth now, fun slot => ?_⟩
    rfl
  · rintro ⟨s, g⟩ a ⟨t, g'⟩ ⟨hwf, hs⟩ hst
    obtain ⟨hstep, rfl⟩ := trackedPool_step.1 hst
    refine ⟨hwf.step hstep, ?_⟩
    cases hr : a.resets with
    | false => exact shortBy_step_of_not_resets hwf hstep hr hs
    | true => exact shortBy_step_of_resets hwf hstep hr hs

/-- **What a reset forgets**, in every run with resets: the count of a slot falls short of the
holders admitted since its last reset by at most the number of times a forgotten holder has taken
from it since, and a step that adds such a holder leaves their number within the capacity plus that
number. -/
theorem heldSinceReset_le {g : Epochs} (h : trackedPool.Reachable (s, g)) :
    (∀ slot, (heldSinceReset g s slot : ℤ) ≤ s.inFlight.getD slot 0 + g.late slot) ∧
    ∀ a t g' slot, trackedPool.step (s, g) a (t, g') →
      heldSinceReset g s slot < heldSinceReset g' t slot →
      (heldSinceReset g' t slot : ℤ) ≤ t.capacity.getD slot 0 + g'.late slot := by
  obtain ⟨hwf, hs⟩ := tracked_invariant h
  refine ⟨hs, fun a t g' slot hst hlt => ?_⟩
  have hbound := (tracked_invariant (h.step hst)).2 slot
  obtain ⟨hstep, rfl⟩ := trackedPool_step.1 hst
  have key := inFlight_le_or hwf hstep slot
    (R := fun u => held (fun c => !(g.next s a).stale c) u slot ≤ heldSinceReset g s slot)
    (held_mono fresh_of_fresh_next s slot)
    fun u e v hwf _ hch he hu => (held_change_le hwf hch he).trans hu
  rcases key with hle | ⟨hle, -⟩
  · exact absurd hlt (not_lt.2 hle)
  · exact hbound.trans (add_le_add_left hle _)

end

/-- The slot of `a` is reset and `b` gets it; then `a` is released. -/
theorem heldSinceReset_le_late : ∃ s g, trackedPool.Reachable (s, g) ∧
    g.late ⟨"gw", "m"⟩ = 1 ∧ s.inFlight.getD ⟨"gw", "m"⟩ 0 = 0 ∧
    ∀ slot, (heldSinceReset g s slot : ℤ) ≤ s.inFlight.getD slot 0 + g.late slot := by
  have hrun : (System.exec (fun e a => (e.1.step a).map fun t => (t, e.2.next e.1 a))
      (State.initial 0 0, (⟨fun _ => false, fun _ => 0⟩ : Epochs))
      [.setCapacity "gw" "m" 1, .acquireToken "a" "m" ["gw"] none .instant,
        .resetColdSlot "gw" "m" 1, .acquireToken "b" "m" ["gw"] none .instant,
        .release 0 fun _ => .instant]).map
      (fun e => (e.2.late ⟨"gw", "m"⟩, e.1.inFlight.getD ⟨"gw", "m"⟩ 0)) = some (1, 0) := by
    decide
  obtain ⟨⟨s, g⟩, hs, he⟩ := Option.map_eq_some_iff.1 hrun
  obtain ⟨hl, hi⟩ := Prod.mk.inj he
  have hreach : trackedPool.Reachable (s, g) := System.reachable_of_exec ⟨0, 0, rfl⟩ hs
  exact ⟨s, g, hreach, hl, hi, (heldSinceReset_le hreach).1⟩

/-- The release of `a`, forgotten by the reset, takes from the count held for `b`, and `c` is
admitted beside it: two holders since the reset on a slot of capacity one. -/
theorem overAdmission : ∃ s g t g',
    System.exec (fun e a => (e.1.step a).map fun t => (t, e.2.next e.1 a))
      (State.initial 0 0, (⟨fun _ => false, fun _ => 0⟩ : Epochs))
      [.setCapacity "gw" "m" 1, .acquireToken "a" "m" ["gw"] none .instant,
        .resetColdSlot "gw" "m" 1, .acquireToken "b" "m" ["gw"] none .instant,
        .release 0 fun _ => .instant] = some (s, g) ∧
    trackedPool.Reachable (s, g) ∧
    heldSinceReset g s ⟨"gw", "m"⟩ = 1 ∧ s.inFlight.getD ⟨"gw", "m"⟩ 0 = 0 ∧
    trackedPool.step (s, g) (.acquireToken "c" "m" ["gw"] none .instant) (t, g') ∧
    heldSinceReset g' t ⟨"gw", "m"⟩ = 2 ∧ t.capacity.getD ⟨"gw", "m"⟩ 0 = 1 := by
  have hrun : (System.exec (fun e a => (e.1.step a).map fun t => (t, e.2.next e.1 a))
      (State.initial 0 0, (⟨fun _ => false, fun _ => 0⟩ : Epochs))
      [.setCapacity "gw" "m" 1, .acquireToken "a" "m" ["gw"] none .instant,
        .resetColdSlot "gw" "m" 1, .acquireToken "b" "m" ["gw"] none .instant,
        .release 0 fun _ => .instant]).map
      (fun e => (heldSinceReset e.2 e.1 ⟨"gw", "m"⟩, e.1.inFlight.getD ⟨"gw", "m"⟩ 0,
        (e.1.step (.acquireToken "c" "m" ["gw"] none .instant)).map fun t =>
          (heldSinceReset (e.2.next e.1 (.acquireToken "c" "m" ["gw"] none .instant)) t ⟨"gw", "m"⟩,
            t.capacity.getD ⟨"gw", "m"⟩ 0))) = some (1, 0, some (2, 1)) := by
    decide
  obtain ⟨⟨s, g⟩, hs, he⟩ := Option.map_eq_some_iff.1 hrun
  simp only [Prod.mk.injEq] at he
  obtain ⟨hh, hi, ht⟩ := he
  obtain ⟨t, hst, ht⟩ := Option.map_eq_some_iff.1 ht
  obtain ⟨hh', hc⟩ := Prod.mk.inj ht
  exact ⟨s, g, t, _, hs, System.reachable_of_exec ⟨0, 0, rfl⟩ hs, hh, hi,
    trackedPool_step.2 ⟨hst, rfl⟩, hh', hc⟩

end LlmGateway.CapacityPool
