import LlmGateway.FifoGate.WellFormed

/-!
# The count and the holders

`active_count` counts slots and `_holders` is a set of request ids, so the two agree as long as no id
holds two slots. Nothing keeps an id from getting a second one: two `acquire` calls with one id can
both be queued, and each is handed a slot; `transfer_holder` adds an id that may hold a slot of its
own. Then the set has one member for the two slots, and the release of one of them leaves a slot that
nobody can name.

`activeCount_eq_card_holders` is the law for the runs in which every slot goes to an id that holds no
other one, and says that every other step breaks it.
-/

namespace LlmGateway.FifoGate

/-- The holder a step names when it gives a slot back. -/
def Action.leaver : Action → Option RequestId
  | .release id => id
  | .forceRelease id => some id
  | _ => none

/-- A release names its holder. -/
def Action.Named (a : Action) : Prop := a ≠ .release none

instance (a : Action) : Decidable a.Named := inferInstanceAs (Decidable (_ ≠ _))

/-- The slot that changes hands goes to an id that is no holder beside the one that leaves. -/
def SlotEvent.Fresh (holders : Finset RequestId) (leaver : Option RequestId) : SlotEvent → Prop
  | .handed w => w.requestId ∈ holders → leaver = some w.requestId
  | .moved toId => toId ∉ holders
  | .quiet => True
  | .taken _ _ => True
  | .freed => True

instance (holders : Finset RequestId) (leaver : Option RequestId) :
    (e : SlotEvent) → Decidable (e.Fresh holders leaver)
  | .handed _ => inferInstanceAs (Decidable (_ → _))
  | .moved _ => inferInstanceAs (Decidable (_ ∉ _))
  | .quiet => .isTrue trivial
  | .taken _ _ => .isTrue trivial
  | .freed => .isTrue trivial

/-- A slot that the step hands over or transfers goes to an id that holds no other slot. -/
def FreshHolder (s : State) (a : Action) : Prop := (s.slotEvent a).Fresh s.holders a.leaver

instance (s : State) (a : Action) : Decidable (FreshHolder s a) :=
  inferInstanceAs (Decidable ((s.slotEvent a).Fresh _ _))

open State

variable {s t : State} {a : Action} {e : SlotEvent}

theorem State.Disposes.rest_eq {rest : Finset RequestId} (ha : Disposes s a rest) (hn : a.Named) :
    ∃ id ∈ s.holders, a.leaver = some id ∧ rest = s.holders.erase id := by
  cases ha with
  | named hid _ | forced hid => exact ⟨_, hid, rfl, rfl⟩
  | unnamed _ => exact absurd rfl hn

theorem not_mem_of_finds {id : RequestId} {r : ℤ} (h : s.finds id r = true) : id ∉ s.holders := by
  simp only [finds, Bool.and_eq_true, decide_eq_true_eq] at h
  exact h.1

theorem card_insert_erase_eq_iff {H : Finset RequestId} {id id' : RequestId} (hid : id ∈ H) :
    H.card = (insert id' (H.erase id)).card ↔ (id' ∈ H → id = id') := by
  have hpos : 0 < H.card := Finset.card_pos.2 ⟨id, hid⟩
  have herase := Finset.card_erase_of_mem hid
  by_cases hmem : id' ∈ H.erase id
  · have hne := Finset.mem_erase.1 hmem
    rw [Finset.insert_eq_of_mem hmem]
    constructor
    · intro h
      omega
    · intro h
      exact absurd (h hne.2).symm hne.1
  · rw [Finset.card_insert_of_notMem hmem]
    constructor
    · intro _ hid'
      by_contra hne
      exact hmem (Finset.mem_erase.2 ⟨Ne.symm hne, hid'⟩)
    · intro _
      omega

/-- **One step**: the count stays the number of holders exactly when a slot that changes hands goes to
an id that holds no other one. -/
theorem card_holders_step (hs : s.activeCount = s.holders.card) (hn : a.Named)
    (h : s.step a = some t) : t.activeCount = t.holders.card ↔ FreshHolder s a := by
  have hst := step_change h
  have htriv : ∀ {P : Prop}, P → (P ↔ True) := fun hP => ⟨fun _ => trivial, fun _ => hP⟩
  rw [FreshHolder]
  generalize s.slotEvent a = e at hst ⊢
  cases hst with
  | stay => exact htriv hs
  | limit => exact htriv hs
  | take hf =>
    refine htriv ?_
    rw [take, Finset.card_insert_of_notMem (not_mem_of_finds hf), hs]
  | enter => exact htriv hs
  | @takeCall id _ _ _ _ hf =>
    refine htriv ?_
    have hid : id ∉ s.holders := hf.elim not_mem_of_finds not_mem_of_finds
    change s.activeCount + 1 = (insert id s.holders).card
    rw [Finset.card_insert_of_notMem hid, hs]
  | enqueue => exact htriv hs
  | @handOff _ rest w ws ha hpop =>
    obtain ⟨id, hid, hl, rfl⟩ := ha.rest_eq hn
    change s.activeCount = (insert w.requestId (s.holders.erase id)).card ↔
      (w.requestId ∈ s.holders → a.leaver = some w.requestId)
    rw [hs, hl, Option.some.injEq]
    exact card_insert_erase_eq_iff hid
  | @free _ rest ha _ =>
    obtain ⟨id, hid, -, rfl⟩ := ha.rest_eq hn
    refine htriv ?_
    change s.activeCount - 1 = (s.holders.erase id).card
    rw [Finset.card_erase_of_mem hid, hs]
  | @move fromId toId hf hne =>
    change s.activeCount = (insert toId (s.holders.erase fromId)).card ↔ _
    rw [hs, card_insert_erase_eq_iff hf]
    exact ⟨fun h hmem => hne (h hmem), fun h hmem => absurd hmem h⟩
  | cancel => exact htriv hs
  | suspend _ _ _ _ hu | raise _ _ _ hu =>
    obtain ⟨futures, rfl⟩ := cleanUp_eq hu
    exact htriv hs
  | finish => exact htriv hs

/-- **The count is the number of holders** in every state that steps lead to which name the holder
they release and give no id a second slot; and from such a state every step that does give an id a
second slot breaks it. -/
theorem activeCount_eq_card_holders
    (h : (gate.restrict fun s a => a.Named ∧ FreshHolder s a).Reachable s) :
    s.activeCount = s.holders.card ∧ ∀ a t, a.Named → gate.step s a t →
      (t.activeCount = t.holders.card ↔ FreshHolder s a) := by
  have hs : s.activeCount = s.holders.card := by
    refine h.invariant (I := fun s => s.activeCount = s.holders.card) ?_ ?_
    · rintro s ⟨limit, hnew⟩
      rw [new_eq hnew]
      rfl
    · rintro s a t hs ⟨⟨hn, hf⟩, hst⟩
      exact (card_holders_step hs hn hst).2 hf
  exact ⟨hs, fun a t hn hst => card_holders_step hs hn hst⟩

/-- A fresh gate with one slot. -/
def oneSlot : State := ⟨.static 1, 0, ∅, [], 0, 0, 0, 0, ∅, ∅, 0⟩

/-- A fresh gate with two slots. -/
def twoSlots : State := ⟨.static 2, 0, ∅, [], 0, 0, 0, 0, ∅, ∅, 0⟩

/-- Both slots are taken, `c` queues, and the slot of `a` goes to it; then `b` is transferred. -/
theorem activeCount_eq_card_holders_handOff : ∃ s,
    (gate.restrict fun s a => a.Named ∧ FreshHolder s a).Reachable s ∧
      s.holders = {"c", "d"} ∧ s.activeCount = s.holders.card := by
  have hrun : (System.exec (System.guarded step fun s a => a.Named ∧ FreshHolder s a) twoSlots
      [.tryAcquire "a" 0, .tryAcquire "b" 0, .acquire "c" true false 0 0, .release (some "a"),
        .resume 0 false, .transferHolder "b" "d"]).map (fun s => s.holders) =
      some {"c", "d"} := by decide
  obtain ⟨s, hs, hholders⟩ := Option.map_eq_some_iff.1 hrun
  have hreach : (gate.restrict fun s a => a.Named ∧ FreshHolder s a).Reachable s :=
    System.reachable_of_exec_guarded ⟨.static 2, rfl⟩ hs
  exact ⟨s, hreach, hholders, (activeCount_eq_card_holders hreach).1⟩

/-- Two calls with the id `b` are queued when both slots are given back: `b` is handed two slots and
is one holder. -/
theorem sameIdTwice : ∃ s, (gate.restrict fun _ a => a.Named).Reachable s ∧
    s.activeCount = 2 ∧ s.holders = {"b"} ∧
    ¬ ∀ s, (gate.restrict fun _ a => a.Named).Reachable s → s.activeCount = s.holders.card := by
  have hrun : (System.exec (System.guarded step fun _ a => a.Named) twoSlots
      [.tryAcquire "a" 0, .tryAcquire "c" 0, .acquire "b" false false 0 0,
        .acquire "b" false false 0 0, .release (some "a"), .release (some "c")]).map
      (fun s => (s.activeCount, s.holders)) = some (2, {"b"}) := by decide
  obtain ⟨s, hs, hobs⟩ := Option.map_eq_some_iff.1 hrun
  obtain ⟨hcount, hholders⟩ := Prod.mk.inj hobs
  have hreach : (gate.restrict fun _ a => a.Named).Reachable s :=
    System.reachable_of_exec_guarded ⟨.static 2, rfl⟩ hs
  refine ⟨s, hreach, hcount, hholders, fun hall => ?_⟩
  have := hall s hreach
  rw [hcount, hholders] at this
  cases this

end LlmGateway.FifoGate
