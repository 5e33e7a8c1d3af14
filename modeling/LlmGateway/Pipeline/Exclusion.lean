import LlmGateway.Pipeline.ConcurrencyBackend

/-!
# At most one execution inside

A gate has one slot, but the backend releases it without naming the execution. When the slot goes to
a waiter, the id of the execution that left stays in the holders of the gate; and `try_acquire` lets a
holder in. So an execution id that comes back to a key before its gate has been evicted is let in
beside the execution that has the slot (`twoInside`).

`mutualExclusion` is the law for the runs in which no execution asks for a key whose gate has its id
among the holders while another one uses the slot. The executions that use a gate are those inside and
those to whose future the slot has been handed; the invariant says that there is at most one of them,
that the slot is taken while there is one, and that the store still has their gate.
-/

namespace LlmGateway.Pipeline

open FifoGate (WellFormed PendingQueued SlotEvent)
open State

/-- What holds of a gate object by itself. -/
structure GateOk (gate : FifoGate.State) : Prop where
  wellFormed : WellFormed gate
  queued : PendingQueued gate
  limit : gate.limitSource = .static 1
  active_le : gate.activeCount ≤ 1

namespace State

/-- The future the entry waits on. -/
def future? (s : State) (entry : Entry) : Option FifoGate.Future :=
  (s.gates.get? entry.gate).bind fun gate => gate.state.futures.get? entry.call

/-- The entry uses the slot of its gate: it is inside, or the slot has been handed to it. -/
def Uses (s : State) (entry : Entry) : Prop :=
  entry.phase = .inside ∨ entry.phase = .entering ∧ s.future? entry = some .result

instance (s : State) (entry : Entry) : Decidable (s.Uses entry) :=
  inferInstanceAs (Decidable (_ ∨ _ ∧ _))

/-- No entry uses the slot of the gate. -/
def Unused (s : State) (g : GateId) : Prop :=
  ∀ e ∈ s.entries.items, e.2.gate = g → ¬ s.Uses e.2

instance (s : State) (g : GateId) : Decidable (s.Unused g) :=
  inferInstanceAs (Decidable (∀ e ∈ _, _ → ¬ _))

/-- The entry needs its gate to stay in the store. -/
def Needs (s : State) (entry : Entry) : Prop :=
  s.Uses entry ∨ entry.phase = .entering ∧ s.future? entry = some .pending

end State

/-- An execution does not ask for a key whose gate has its id among the holders while another one uses
the slot. -/
def FreshEntry (s : State) : Action → Prop
  | .enter executionId key => ∀ g ∈ s.store.get? key, ∀ gate ∈ s.gates.get? g,
    executionId ∈ gate.state.holders → s.Unused g
  | .leave _ => True
  | .cancelTask _ => True
  | .fireTimer _ => True
  | .resume _ _ => True

instance (s : State) : (a : Action) → Decidable (FreshEntry s a)
  | .enter _ _ => inferInstanceAs (Decidable (∀ g ∈ _, ∀ gate ∈ _, _ → _))
  | .leave _ => .isTrue trivial
  | .cancelTask _ => .isTrue trivial
  | .fireTimer _ => .isTrue trivial
  | .resume _ _ => .isTrue trivial

/-- The gates, the store and the executions fit together. -/
structure Linked (s : State) : Prop where
  gate_ok : ∀ g gate, s.gates.get? g = some gate → GateOk gate.state
  gate_lt : ∀ g gate, s.gates.get? g = some gate → g < s.nextGate
  store_gate : ∀ key g, s.store.get? key = some g →
    ∃ gate, s.gates.get? g = some gate ∧ gate.key = key
  entry_gate : ∀ x entry, s.entries.get? x = some entry → ∃ gate call,
    s.gates.get? entry.gate = some gate ∧ gate.key = entry.key ∧
      gate.state.calls.get? entry.call = some call ∧
      (entry.phase = .entering → call.phase.suspended = true)
  entry_lt : ∀ x entry, s.entries.get? x = some entry → x < s.nextEntry
  entry_inj : ∀ x entry y entry', s.entries.get? x = some entry → s.entries.get? y = some entry' →
    entry.gate = entry'.gate → entry.call = entry'.call → x = y

/-- At most one entry uses a gate; its slot is taken then, and the store has it. -/
structure Exclusive (s : State) : Prop where
  needs_store : ∀ x entry, s.entries.get? x = some entry → s.Needs entry →
    s.store.get? entry.key = some entry.gate
  uses_active : ∀ x entry gate, s.entries.get? x = some entry → s.Uses entry →
    s.gates.get? entry.gate = some gate → gate.state.activeCount = 1
  uses_unique : ∀ x entry y entry', s.entries.get? x = some entry → s.entries.get? y = some entry' →
    s.Uses entry → s.Uses entry' → entry.gate = entry'.gate → x = y

/-- The slot of every gate in the store is taken. -/
def SlotTaken (s : State) : Prop :=
  ∀ key g gate, s.store.get? key = some g → s.gates.get? g = some gate → gate.state.activeCount = 1

theorem unused_iff {s : State} {g : GateId} :
    s.Unused g ↔ ∀ x entry, s.entries.get? x = some entry → entry.gate = g → ¬ s.Uses entry := by
  constructor
  · exact fun h x entry he => h (x, entry) (Dict.mem_items_iff.2 he)
  · exact fun h e he => h e.1 e.2 (Dict.mem_items_iff.1 he)

/-! ## One gate -/

section

variable {gate gate' : FifoGate.State} {a : FifoGate.Action}

/-- A step that is no `set_limit` keeps a gate with one slot in order. -/
theorem GateOk.step (h : GateOk gate) (ha : ∀ n, a ≠ .setLimit n) (hst : gate.step a = some gate') :
    GateOk gate' := by
  have hch := FifoGate.State.step_change hst
  refine ⟨h.wellFormed.step hst, h.queued.change h.wellFormed hch, ?_, ?_⟩
  · generalize gate.slotEvent a = e at hch
    cases hch with
    | limit => exact absurd rfl (ha _)
    | suspend _ _ _ _ hu | raise _ _ _ hu => exact (FifoGate.waiters_of_cleanUp hu).2.1.trans h.limit
    | _ => exact h.limit
  · have hle := h.active_le
    have hcount := FifoGate.activeCount_change hch
    generalize gate.slotEvent a = e at hch hcount
    have hfinds : ∀ {id r}, gate.finds id r = true → gate.activeCount = 0 := by
      intro id r hf
      have := FifoGate.lt_limit_of_finds hf h.limit
      omega
    cases hch with
    | take hf =>
      rw [hcount, SlotEvent.count, hfinds hf]
    | takeCall hf =>
      rw [hcount, SlotEvent.count, hf.elim hfinds hfinds]
    | free =>
      rw [hcount, SlotEvent.count]
      omega
    | _ => exact hcount.trans_le hle

theorem GateOk.newGate : GateOk State.newGate := by
  have hnew : FifoGate.State.new (.static 1) = .ok State.newGate := rfl
  refine ⟨.new hnew, ?_, rfl, ?_⟩
  · intro c call hc
    cases hc
  · exact Nat.zero_le 1

theorem result_of_step {c : FifoGate.CallId} (hst : gate.step a = some gate')
    (hf : gate'.futures.get? c = some .result) : gate.futures.get? c = some .result ∨
      ∃ w, gate.slotEvent a = .handed w ∧ w.future = c := by
  rcases FifoGate.futures_change (FifoGate.State.step_change hst) c with h | ⟨-, h⟩ | ⟨h, -, -⟩ | ⟨-, h⟩
  · exact .inl (h ▸ hf)
  · exact absurd hf h
  · exact .inr h
  · rw [hf] at h
    cases h

theorem pending_of_step {c : FifoGate.CallId} (hst : gate.step a = some gate')
    (hf : gate'.futures.get? c = some .pending) :
    gate.futures.get? c = some .pending ∨ c = gate.nextCall := by
  have h := FifoGate.isPending_change (FifoGate.State.step_change hst)
    (FifoGate.State.isPending_iff.2 hf)
  rwa [FifoGate.State.isPending_iff] at h

end

/-! ## An entry and its gate -/

/-- The gate of an entry takes a step, and `entry` is where the execution `x` stands behind it; `x` is
new or stays with its gate and its call. -/
structure Moves (s t : State) (x : EntryId) (entry : Entry) (gate : Gate) (a : FifoGate.Action)
    (state : FifoGate.State) : Prop where
  gate_eq : s.gates.get? entry.gate = some gate
  key_eq : gate.key = entry.key
  step : gate.state.step a = some state
  not_setLimit : ∀ n, a ≠ .setLimit n
  target : ∀ c, a.target = some c → c = entry.call
  call : ∃ call, state.calls.get? entry.call = some call ∧
    (entry.phase = .entering → call.phase.suspended = true)
  gates : t.gates = s.gates.set entry.gate { gate with state := state }
  nextGate : t.nextGate = s.nextGate
  entries : t.entries = s.entries.set x entry
  origin : x = s.nextEntry ∧ t.nextEntry = s.nextEntry + 1 ∧ entry.call = gate.state.nextCall ∨
    t.nextEntry = s.nextEntry ∧ ∃ old, s.entries.get? x = some old ∧ old.gate = entry.gate ∧
      old.call = entry.call ∧ old.key = entry.key

section

variable {s t : State} {x : EntryId} {entry : Entry} {gate : Gate} {a : FifoGate.Action}
  {state : FifoGate.State}

theorem Moves.get?_gates (h : Moves s t x entry gate a state) (g : GateId) :
    t.gates.get? g =
      if g = entry.gate then some { gate with state := state } else s.gates.get? g := by
  rw [h.gates, Dict.get?_set]

variable {entry' : Entry} {y : EntryId}

theorem Moves.entry_cases (h : Moves s t x entry gate a state) (hy : t.entries.get? y = some entry') :
    y = x ∧ entry' = entry ∨ y ≠ x ∧ s.entries.get? y = some entry' := by
  rw [h.entries, Dict.get?_set] at hy
  split at hy
  · exact .inl ⟨‹_›, (Option.some.inj hy).symm⟩
  · exact .inr ⟨‹_›, hy⟩

theorem Moves.call_ne (h : Moves s t x entry gate a state) (hs : Linked s)
    (hne : y ≠ x) (hy : s.entries.get? y = some entry')
    (hg : entry'.gate = entry.gate) : entry'.call ≠ entry.call := by
  intro hcall
  rcases h.origin with ⟨-, -, hnew⟩ | ⟨-, old, hold, hgate, hcall', -⟩
  · obtain ⟨gate', call, hgate, -, hc, -⟩ := hs.entry_gate y entry' hy
    rw [hg, h.gate_eq, Option.some.injEq] at hgate
    subst hgate
    have hlt := (hs.gate_ok _ _ h.gate_eq).wellFormed.call_lt _ _ hc
    rw [hcall, hnew] at hlt
    exact lt_irrefl _ hlt
  · exact hne (hs.entry_inj y entry' x old hy hold (hg.trans hgate.symm) (hcall.trans hcall'.symm))

theorem Linked.moves (hs : Linked s) (h : Moves s t x entry gate a state)
    (hstore : ∀ key g, t.store.get? key = some g → s.store.get? key = some g) : Linked t := by
  have hok := hs.gate_ok _ _ h.gate_eq
  refine ⟨fun g gate' hg => ?_, fun g gate' hg => ?_, fun key g hk => ?_, fun y entry' hy => ?_,
    fun y entry' hy => ?_, fun y entry₁ z entry₂ hy hz hgate hcall => ?_⟩
  · rw [h.get?_gates] at hg
    split at hg
    · obtain rfl := Option.some.inj hg
      exact hok.step h.not_setLimit h.step
    · exact hs.gate_ok g gate' hg
  · rw [h.nextGate]
    rw [h.get?_gates] at hg
    split at hg
    · subst g
      exact hs.gate_lt _ _ h.gate_eq
    · exact hs.gate_lt g gate' hg
  · obtain ⟨gate', hg, hkey⟩ := hs.store_gate key g (hstore key g hk)
    rw [h.get?_gates]
    split
    · subst g
      rw [h.gate_eq, Option.some.injEq] at hg
      exact ⟨_, rfl, hg ▸ hkey⟩
    · exact ⟨gate', hg, hkey⟩
  · rcases h.entry_cases hy with ⟨rfl, rfl⟩ | ⟨hne, hy⟩
    · obtain ⟨call, hc, hsus⟩ := h.call
      exact ⟨{ gate with state := state }, call, by rw [h.get?_gates, if_pos rfl], h.key_eq, hc, hsus⟩
    · obtain ⟨gate', call, hg, hkey, hc, hsus⟩ := hs.entry_gate y entry' hy
      rw [h.get?_gates]
      split
      · rename_i hgate
        rw [hgate, h.gate_eq, Option.some.injEq] at hg
        subst hg
        have hcne := h.call_ne hs hne hy hgate
        have hkeep := hok.wellFormed.call_change (FifoGate.State.step_change h.step) hc
          (.inl fun htarget => hcne (h.target _ htarget))
        exact ⟨_, call, rfl, hkey, hkeep, hsus⟩
      · exact ⟨gate', call, hg, hkey, hc, hsus⟩
  · rcases h.entry_cases hy with ⟨rfl, rfl⟩ | ⟨-, hy⟩
    · rcases h.origin with ⟨hx, hnext, -⟩ | ⟨hnext, old, hold, -⟩
      · rw [hnext, hx]
        exact Nat.lt_succ_self _
      · rw [hnext]
        exact hs.entry_lt _ _ hold
    · rcases h.origin with ⟨-, hnext, -⟩ | ⟨hnext, -⟩
      · rw [hnext]
        exact Nat.lt_succ_of_lt (hs.entry_lt _ _ hy)
      · rw [hnext]
        exact hs.entry_lt _ _ hy
  · rcases h.entry_cases hy with ⟨rfl, rfl⟩ | ⟨hyne, hy⟩
    · rcases h.entry_cases hz with ⟨rfl, rfl⟩ | ⟨hzne, hz⟩
      · rfl
      · exact absurd hcall.symm (h.call_ne hs hzne hz hgate.symm)
    · rcases h.entry_cases hz with ⟨rfl, rfl⟩ | ⟨hzne, hz⟩
      · exact absurd hcall (h.call_ne hs hyne hy hgate)
      · exact hs.entry_inj y entry₁ z entry₂ hy hz hgate hcall

theorem SlotTaken.moves (hst : SlotTaken s) (h : Moves s t x entry gate a state)
    (hstore : t.store = s.store) (hcount : gate.state.activeCount = 1 → state.activeCount = 1) :
    SlotTaken t := by
  intro key g gate' hk hg
  rw [hstore] at hk
  rw [h.get?_gates] at hg
  split at hg
  · subst g
    obtain rfl := Option.some.inj hg
    exact hcount (hst key _ gate hk h.gate_eq)
  · exact hst key g gate' hk hg

theorem Moves.future?_eq (h : Moves s t x entry gate a state)
    (hg : entry'.gate = entry.gate) : s.future? entry' = gate.state.futures.get? entry'.call ∧
      t.future? entry' = state.futures.get? entry'.call := by
  rw [future?, future?, h.get?_gates, hg, h.gate_eq, if_pos rfl]
  exact ⟨rfl, rfl⟩

theorem Moves.future?_of_ne (h : Moves s t x entry gate a state)
    (hg : entry'.gate ≠ entry.gate) : t.future? entry' = s.future? entry' := by
  rw [future?, future?, h.get?_gates, if_neg hg]

theorem Moves.uses_cases (h : Moves s t x entry gate a state)
    (hu : t.Uses entry') : s.Uses entry' ∨ entry'.gate = entry.gate ∧ entry'.phase = .entering ∧
      ∃ w, gate.state.slotEvent a = .handed w ∧ w.future = entry'.call := by
  rcases hu with hin | ⟨hent, hf⟩
  · exact .inl (.inl hin)
  · by_cases hg : entry'.gate = entry.gate
    · obtain ⟨hfs, hft⟩ := h.future?_eq hg
      rw [hft] at hf
      rcases result_of_step h.step hf with hf | hw
      · exact .inl (.inr ⟨hent, hfs.trans hf⟩)
      · exact .inr ⟨hg, hent, hw⟩
    · exact .inl (.inr ⟨hent, h.future?_of_ne hg ▸ hf⟩)

theorem Moves.pending_other (h : Moves s t x entry gate a state) (hs : Linked s) (hy : s.entries.get? y = some entry')
    (hf : t.future? entry' = some .pending) : s.future? entry' = some .pending := by
  by_cases hg : entry'.gate = entry.gate
  · obtain ⟨hfs, hft⟩ := h.future?_eq hg
    rw [hft] at hf
    rw [hfs]
    refine (pending_of_step h.step hf).resolve_right fun hnew => ?_
    obtain ⟨gate', call, hgate, -, hc, -⟩ := hs.entry_gate y entry' hy
    rw [hg, h.gate_eq, Option.some.injEq] at hgate
    subst hgate
    exact ((hs.gate_ok _ _ h.gate_eq).wellFormed.call_lt _ _ hc).ne hnew
  · rw [← h.future?_of_ne hg]
    exact hf

theorem Exclusive.moves (hx : Exclusive s) (hs : Linked s) (h : Moves s t x entry gate a state)
    (hstore : t.store = s.store) (hno : ∀ w, gate.state.slotEvent a ≠ .handed w)
    (hneeds : t.Needs entry → s.store.get? entry.key = some entry.gate)
    (huses : t.Uses entry → state.activeCount = 1 ∧
      (s.Unused entry.gate ∨ ∃ old, s.entries.get? x = some old ∧ old.gate = entry.gate ∧
        s.Uses old))
    (hact : gate.state.activeCount = 1 → state.activeCount = 1) : Exclusive t := by
  have hback : ∀ {entry'}, t.Uses entry' → s.Uses entry' := fun hu =>
    (h.uses_cases hu).resolve_right fun ⟨_, _, w, hw, _⟩ => hno w hw
  -- a user of the gate beside `x` leaves `x` no slot to use
  have hxne : ∀ {y entry'}, y ≠ x → s.entries.get? y = some entry' → s.Uses entry' →
      t.Uses entry → entry.gate ≠ entry'.gate := by
    intro y entry' hne hy hu hu' hg
    rcases (huses hu').2 with hunused | ⟨old, hold, hgate, huo⟩
    · exact unused_iff.1 hunused y entry' hy hg.symm hu
    · exact hne (hx.uses_unique y entry' x old hy hold hu huo (hg.symm.trans hgate.symm))
  refine ⟨fun y entry' hy hn => ?_, fun y entry' gate' hy hu hg => ?_,
    fun y entry₁ z entry₂ hy hz hu₁ hu₂ hg => ?_⟩
  · rw [hstore]
    rcases h.entry_cases hy with ⟨rfl, rfl⟩ | ⟨-, hy⟩
    · exact hneeds hn
    · refine hx.needs_store y entry' hy ?_
      rcases hn with hu | ⟨hent, hf⟩
      · exact .inl (hback hu)
      · exact .inr ⟨hent, h.pending_other hs hy hf⟩
  · rw [h.get?_gates] at hg
    rcases h.entry_cases hy with ⟨rfl, rfl⟩ | ⟨-, hy⟩
    · rw [if_pos rfl] at hg
      obtain rfl := Option.some.inj hg
      exact (huses hu).1
    · split at hg
      · rename_i hgate
        obtain rfl := Option.some.inj hg
        exact hact (hx.uses_active y entry' gate hy (hback hu) (hgate ▸ h.gate_eq))
      · exact hx.uses_active y entry' gate' hy (hback hu) hg
  · rcases h.entry_cases hy with ⟨rfl, rfl⟩ | ⟨hyne, hy⟩
    · rcases h.entry_cases hz with ⟨rfl, rfl⟩ | ⟨hzne, hz⟩
      · rfl
      · exact absurd hg (hxne hzne hz (hback hu₂) hu₁)
    · rcases h.entry_cases hz with ⟨rfl, rfl⟩ | ⟨-, hz⟩
      · exact absurd hg.symm (hxne hyne hy (hback hu₁) hu₂)
      · exact hx.uses_unique y entry₁ z entry₂ hy hz (hback hu₁) (hback hu₂) hg

end

theorem follow_of_call {s : State} {x : EntryId} {entry : Entry} {state : FifoGate.State}
    {call : FifoGate.Call} (h : state.calls.get? entry.call = some call) :
    s.follow x entry state =
      { s with entries := s.entries.set x { entry with phase := entryPhase call.phase } } := by
  rw [follow, h]

theorem suspended_of_entryPhase {phase : FifoGate.Phase} (h : entryPhase phase = .entering) :
    phase.suspended = true := by
  cases phase with
  | waiting => rfl
  | cleaning => rfl
  | unwinding => rfl
  | returned => cases h
  | raised => cases h

theorem eq_returned_of_entryPhase {phase : FifoGate.Phase} (h : entryPhase phase = .inside) :
    phase = .returned := by
  cases phase with
  | returned => rfl
  | _ => cases h

/-! ## Entering -/

section

variable {s t : State} {id : ExecutionId} {key : Key}

/-- `_get_or_create_gate` finds or makes the gate of the key. -/
theorem getOrCreateGate_spec (hs : Linked s) (hx : Exclusive s) (htaken : SlotTaken s)
    (hf : FreshEntry s (.enter id key)) :
    ∃ g u gate, s.getOrCreateGate key = (g, u) ∧ Linked u ∧ Exclusive u ∧
      u.store.get? key = some g ∧ u.gates.get? g = some gate ∧ gate.key = key ∧
      (id ∈ gate.state.holders → u.Unused g ∧ gate.state.activeCount = 1) ∧
      ∀ key' g' gate', u.store.get? key' = some g' → u.gates.get? g' = some gate' → g' ≠ g →
        gate'.state.activeCount = 1 := by
  rw [getOrCreateGate]
  cases hk : s.store.get? key with
  | some g =>
    obtain ⟨gate, hg, hkey⟩ := hs.store_gate key g hk
    exact ⟨g, s, gate, rfl, hs, hx, hk, hg, hkey,
      fun hid => ⟨hf g hk gate hg hid, htaken key g gate hk hg⟩,
      fun key' g' gate' hk' hg' _ => htaken key' g' gate' hk' hg'⟩
  | none =>
    have hnew : ∀ {x entry}, s.entries.get? x = some entry → entry.gate ≠ s.nextGate := by
      intro x entry he
      obtain ⟨gate, call, hg, -⟩ := hs.entry_gate x entry he
      exact (hs.gate_lt _ _ hg).ne
    have hgates : ∀ {g}, g ≠ s.nextGate →
        (s.gates.set s.nextGate ⟨key, newGate⟩).get? g = s.gates.get? g :=
      fun hne => Dict.get?_set_ne _ hne _
    refine ⟨s.nextGate, _, ⟨key, newGate⟩, rfl, ⟨fun g gate hg => ?_, fun g gate hg => ?_,
      fun key' g hk' => ?_, fun x entry he => ?_, hs.entry_lt, hs.entry_inj⟩, ?_, ?_, ?_, rfl, ?_, ?_⟩
    · dsimp only at hg
      rw [Dict.get?_set] at hg
      split at hg
      · obtain rfl := Option.some.inj hg
        exact .newGate
      · exact hs.gate_ok g gate hg
    · dsimp only at hg ⊢
      rw [Dict.get?_set] at hg
      split at hg
      · subst g
        exact Nat.lt_succ_self _
      · exact Nat.lt_succ_of_lt (hs.gate_lt g gate hg)
    · dsimp only at hk' ⊢
      rw [Dict.get?_set] at hk'
      split at hk'
      · obtain rfl := Option.some.inj hk'
        exact ⟨_, Dict.get?_set_self .., by subst key'; rfl⟩
      · obtain ⟨gate, hg, hkey⟩ := hs.store_gate key' g hk'
        exact ⟨gate, by rw [hgates (hs.gate_lt _ _ hg).ne, hg], hkey⟩
    · obtain ⟨gate, call, hg, hrest⟩ := hs.entry_gate x entry he
      exact ⟨gate, call, by rw [hgates (hnew he), hg], hrest⟩
    · have hfut : ∀ {x entry}, s.entries.get? x = some entry →
          State.future? { s with gates := s.gates.set s.nextGate ⟨key, newGate⟩
                                 store := s.store.set key s.nextGate
                                 nextGate := s.nextGate + 1 } entry = s.future? entry :=
        fun he => by rw [future?, future?, hgates (hnew he)]
      refine ⟨fun x entry he hn => ?_, fun x entry gate he hu hg => ?_,
        fun x entry y entry' he he' hu hu' hg => ?_⟩
      · have hst := hx.needs_store x entry he (by rwa [Needs, Uses, hfut he] at hn)
        dsimp only
        rw [Dict.get?_set_ne, hst]
        rintro rfl
        rw [hk] at hst
        cases hst
      · exact hx.uses_active x entry gate he (by rwa [Uses, hfut he] at hu) (hgates (hnew he) ▸ hg)
      · exact hx.uses_unique x entry y entry' he he' (by rwa [Uses, hfut he] at hu)
          (by rwa [Uses, hfut he'] at hu') hg
    · exact Dict.get?_set_self ..
    · exact Dict.get?_set_self ..
    · exact fun hid => absurd hid (Finset.notMem_empty id)
    · intro key' g' gate' hk' hg' hne
      dsimp only at hk' hg'
      rw [hgates hne] at hg'
      rw [Dict.get?_set] at hk'
      split at hk'
      · exact absurd (Option.some.inj hk').symm hne
      · exact htaken key' g' gate' hk' hg'

theorem acquire_count {gate : FifoGate.State} (hok : GateOk gate)
    (hid : id ∈ gate.holders → gate.activeCount = 1) :
    (gate.acquire id true false 0 0).activeCount = 1 := by
  have hst : gate.step (.acquire id true false 0 0) = some (gate.acquire id true false 0 0) := rfl
  have hle := (hok.step (fun n hn => by cases hn) hst).active_le
  have hcount := FifoGate.activeCount_change (FifoGate.State.step_change hst)
  rw [FifoGate.State.slotEvent] at hcount
  split at hcount
  · rw [SlotEvent.count] at hcount
    omega
  · rename_i hnot
    rw [hcount, SlotEvent.count]
    by_cases hmem : id ∈ gate.holders
    · exact hid hmem
    · have hle' := hok.active_le
      simp only [FifoGate.State.finds, FifoGate.State.currentLimit, hok.limit, hmem, not_false_eq_true,
        decide_true, Bool.true_and, Bool.or_self, decide_eq_true_eq] at hnot
      omega

theorem acquire_returned {gate : FifoGate.State} (hok : GateOk gate) {call : FifoGate.Call}
    (hp : call.phase = .returned)
    (hc : (gate.acquire id true false 0 0).calls.get? gate.nextCall = some call) :
    gate.activeCount = 0 ∨ call.requestId ∈ gate.holders := by
  have hst : gate.step (.acquire id true false 0 0) = some (gate.acquire id true false 0 0) := rfl
  have hle := (hok.step (fun n hn => by cases hn) hst).active_le
  have hch := FifoGate.State.step_change hst
  have hcount := FifoGate.activeCount_change hch
  rcases FifoGate.calls_change hch hc with hold | ⟨call', hold, -⟩ | ⟨-, hstart⟩
  · exact absurd (hok.wellFormed.call_lt _ _ hold) (lt_irrefl _)
  · exact absurd (hok.wellFormed.call_lt _ _ hold) (lt_irrefl _)
  · cases hstart with
    | taken _ he =>
      rw [he, SlotEvent.count] at hcount
      exact .inl (by omega)
    | held _ hmem => exact .inr hmem
    | refused hp' | queued hp' =>
      rw [hp] at hp'
      cases hp'

theorem enter_spec (hs : Linked s) (hx : Exclusive s) (htaken : SlotTaken s)
    (hf : FreshEntry s (.enter id key)) (h : s.enter id key = some t) :
    Linked t ∧ Exclusive t ∧ SlotTaken t := by
  obtain ⟨g, u, gate, hget, hu, hxu, hstore, hg, hkey, hid, hother⟩ :=
    getOrCreateGate_spec hs hx htaken hf
  obtain ⟨phase, hcall⟩ := FifoGate.calls_acquire gate.state id true false 0 0
  rw [enter, hget] at h
  dsimp only at h
  rw [hg, Option.map_some, Option.some.injEq, follow_of_call hcall] at h
  have hst : gate.state.step (.acquire id true false 0 0) =
    some (gate.state.acquire id true false 0 0) := rfl
  have hok := hu.gate_ok g gate hg
  have hmoves : Moves u t u.nextEntry ⟨id, key, g, gate.state.nextCall, entryPhase phase⟩ gate
      (.acquire id true false 0 0) (gate.state.acquire id true false 0 0) :=
    { gate_eq := hg
      key_eq := hkey
      step := hst
      not_setLimit := fun n hn => by cases hn
      target := fun c hc => by cases hc
      call := ⟨_, hcall, suspended_of_entryPhase⟩
      gates := by rw [← h]; rfl
      nextGate := by rw [← h]; rfl
      entries := by rw [← h]; rfl
      origin := .inl ⟨rfl, by rw [← h]; rfl, rfl⟩ }
  have hno : ∀ w, gate.state.slotEvent (.acquire id true false 0 0) ≠ .handed w := by
    intro w
    rw [FifoGate.State.slotEvent]
    split <;> simp
  have hsame : t.store = u.store := by rw [← h]; rfl
  have hone := acquire_count hok fun hmem => (hid hmem).2
  refine ⟨hu.moves hmoves fun _ _ hk => hsame ▸ hk,
    hxu.moves hu hmoves hsame hno (fun _ => hstore) ?_ fun _ => hone, fun key' g' gate' hk' hg' => ?_⟩
  · intro huses
    refine ⟨hone, .inl ?_⟩
    rcases huses with hin | ⟨-, hres⟩
    · rcases acquire_returned hok (eq_returned_of_entryPhase hin) hcall with h0 | hmem
      · refine unused_iff.2 fun y entry' hy hg' hu' => ?_
        have := hxu.uses_active y entry' gate hy hu' (hg' ▸ hg)
        omega
      · exact (hid hmem).1
    · rw [(hmoves.future?_eq rfl).2] at hres
      rcases result_of_step hst hres with hres | ⟨w, hw, -⟩
      · exact absurd (hok.wellFormed.future_lt _ _ hres) (lt_irrefl _)
      · exact absurd hw (hno w)
  · rw [hmoves.get?_gates] at hg'
    split at hg'
    · obtain rfl := Option.some.inj hg'
      exact hone
    · exact hother key' g' gate' (hsame ▸ hk') hg' ‹_›

end

/-! ## Waiting -/

section

variable {s t : State} {x : EntryId} {entry : Entry} {a : FifoGate.Action}

/-- A step of the call an entry waits on. -/
theorem gateStep_spec (hs : Linked s) (hx : Exclusive s) (htaken : SlotTaken s)
    (he : s.entries.get? x = some entry) (hent : entry.phase = .entering)
    (ha : a.target = some entry.call) (h : s.gateStep x entry a = some t) :
    Linked t ∧ Exclusive t ∧ SlotTaken t := by
  obtain ⟨gate, hg, h⟩ := Option.bind_eq_some_iff.1 h
  obtain ⟨state, hst, h⟩ := Option.map_eq_some_iff.1 h
  obtain ⟨gate', call, hg', hkey, hcall, hsus⟩ := hs.entry_gate x entry he
  rw [hg, Option.some.injEq] at hg'
  subst hg'
  have hok := hs.gate_ok _ _ hg
  have hch := FifoGate.State.step_change hst
  have hquiet : gate.state.slotEvent a = .quiet := by
    cases a <;> first | rfl | cases ha
  obtain ⟨call', hcall'⟩ := FifoGate.calls_persist hch hcall
  rw [follow_of_call hcall'] at h
  have hmoves : Moves s t x { entry with phase := entryPhase call'.phase } gate a state :=
    { gate_eq := hg
      key_eq := hkey
      step := hst
      not_setLimit := by
        rintro n rfl
        cases ha
      target := fun c hc => by
        rw [ha, Option.some.injEq] at hc
        exact hc.symm
      call := ⟨call', hcall', suspended_of_entryPhase⟩
      gates := by rw [← h]; rfl
      nextGate := by rw [← h]; rfl
      entries := by rw [← h]; rfl
      origin := .inr ⟨by rw [← h]; rfl, entry, he, rfl, rfl, rfl⟩ }
  have hno : ∀ w, gate.state.slotEvent a ≠ .handed w := fun w => by
    rw [hquiet]
    simp
  have hcount : state.activeCount = gate.state.activeCount := by
    have := FifoGate.activeCount_change hch
    rwa [hquiet] at this
  have hfut : s.future? entry = gate.state.futures.get? entry.call := by
    rw [future?, hg, Option.bind_some]
  -- `x` uses its gate behind the step only if it did before
  have huses : t.Uses { entry with phase := entryPhase call'.phase } → s.Uses entry := by
    rintro (hin | ⟨-, hres⟩)
    · rcases FifoGate.calls_change hch hcall' with hsame | ⟨call₀, -, -, -, hm⟩ | ⟨hnew, -⟩
      · rw [hcall, Option.some.injEq] at hsame
        have := hsus hent
        rw [hsame, eq_returned_of_entryPhase hin] at this
        cases this
      · rw [eq_returned_of_entryPhase hin] at hm
        cases hm with
        | suspend hp => cases hp
        | finish _ hf => exact .inr ⟨hent, hfut.trans hf⟩
      · exact absurd hnew (hok.wellFormed.call_lt _ _ hcall).ne
    · rw [(hmoves.future?_eq rfl).2] at hres
      refine .inr ⟨hent, hfut.trans ?_⟩
      exact (result_of_step hst hres).resolve_right fun ⟨w, hw, _⟩ => hno w hw
  have hsame : t.store = s.store := by rw [← h]; rfl
  refine ⟨hs.moves hmoves fun _ _ hk => hsame ▸ hk, hx.moves hs hmoves hsame hno ?_ ?_ ?_,
    htaken.moves hmoves hsame hcount.trans⟩
  · rintro (hu | ⟨-, hp⟩)
    · exact hx.needs_store x entry he (.inl (huses hu))
    · rw [(hmoves.future?_eq rfl).2] at hp
      refine hx.needs_store x entry he (.inr ⟨hent, hfut.trans ?_⟩)
      exact (pending_of_step hst hp).resolve_right (hok.wellFormed.call_lt _ _ hcall).ne
  · intro hu
    have h1 := hx.uses_active x entry gate he (huses hu) hg
    exact ⟨hcount.trans h1, .inr ⟨entry, he, rfl, huses hu⟩⟩
  · exact fun h1 => hcount.trans h1

end

/-! ## Leaving -/

section

variable {s t : State} {x : EntryId} {entry : Entry}

theorem leave_eq {gate : Gate} (hstore : s.store.get? entry.key = some entry.gate)
    (hg : s.gates.get? entry.gate = some gate) (hactive : gate.state.activeCount ≠ 0) :
    s.leave x entry = { s with
      gates := s.gates.set entry.gate { gate with state := gate.state.dispose }
      store := if gate.state.dispose.activeCount = 0 ∧ gate.state.dispose.waiters.length = 0 then
        s.store.erase entry.key else s.store
      entries := s.entries.set x { entry with phase := .left none } } := by
  have hrel : gate.state.release none = .ok gate.state.dispose := by
    rw [FifoGate.State.release, if_neg hactive]
  rw [leave, hstore]
  dsimp only
  rw [hg]
  dsimp only
  rw [hrel]
  dsimp only
  rw [maybeEvict, setGate, hstore]
  dsimp only
  rw [Dict.get?_set_self]
  dsimp only
  split <;> rfl

/-- `x` is inside and gives the slot of its gate back. -/
structure Leaving (s : State) (x : EntryId) (entry : Entry) (gate : Gate) : Prop where
  entry_eq : s.entries.get? x = some entry
  inside : entry.phase = .inside
  gate_eq : s.gates.get? entry.gate = some gate
  stored : s.store.get? entry.key = some entry.gate
  active : gate.state.activeCount = 1
  event : gate.state.slotEvent (.release none) = gate.state.disposal
  moves : Moves s (s.leave x entry) x { entry with phase := .left none } gate (.release none)
    gate.state.dispose

theorem exists_leaving (hs : Linked s) (hx : Exclusive s) (he : s.entries.get? x = some entry)
    (hin : entry.phase = .inside) : ∃ gate, Leaving s x entry gate := by
  have hstore := hx.needs_store x entry he (.inl (.inl hin))
  obtain ⟨gate, call, hg, hkey, hcall, -⟩ := hs.entry_gate x entry he
  have hactive := hx.uses_active x entry gate he (.inl hin) hg
  have h0 : gate.state.activeCount ≠ 0 := by omega
  have hst : gate.state.step (.release none) = some gate.state.dispose := by
    rw [FifoGate.State.step, FifoGate.State.release, if_neg h0]
    rfl
  have hev : gate.state.slotEvent (.release none) = gate.state.disposal := by
    rw [FifoGate.State.slotEvent, if_pos h0]
  obtain ⟨call', hcall'⟩ := FifoGate.calls_persist (FifoGate.State.step_change hst) hcall
  have heq := leave_eq (x := x) hstore hg h0
  have hmoves : Moves s (s.leave x entry) x { entry with phase := .left none } gate
      (.release none) gate.state.dispose :=
    { gate_eq := hg
      key_eq := hkey
      step := hst
      not_setLimit := fun n hn => by cases hn
      target := fun c hc => by cases hc
      call := ⟨call', hcall', fun hent => by cases hent⟩
      gates := by rw [heq]
      nextGate := by rw [heq]
      entries := by rw [heq]
      origin := .inr ⟨by rw [heq], entry, he, rfl, rfl, rfl⟩ }
  exact ⟨gate, he, hin, hg, hstore, hactive, hev, hmoves⟩

namespace Leaving

variable {gate : Gate}

theorem store_eq (h : Leaving s x entry gate) : (s.leave x entry).store =
    if gate.state.dispose.activeCount = 0 ∧ gate.state.dispose.waiters.length = 0 then
      s.store.erase entry.key else s.store := by
  have h0 : gate.state.activeCount ≠ 0 := by
    rw [h.active]
    decide
  rw [leave_eq h.stored h.gate_eq h0]

theorem of_store (h : Leaving s x entry gate) {key : Key} {g : GateId}
    (hk : (s.leave x entry).store.get? key = some g) :
    s.store.get? key = some g ∧ ¬ (key = entry.key ∧ gate.state.dispose.activeCount = 0 ∧
      gate.state.dispose.waiters.length = 0) := by
  rw [h.store_eq] at hk
  split at hk
  · rw [Dict.get?_erase] at hk
    split at hk
    · cases hk
    · exact ⟨hk, fun hc => ‹key ≠ entry.key› hc.1⟩
  · exact ⟨hk, fun hc => ‹¬ (_ ∧ _)› hc.2⟩

theorem keeps (h : Leaving s x entry gate) {key : Key} {g : GateId} (hk : s.store.get? key = some g)
    (hor : key ≠ entry.key ∨ ¬ (gate.state.dispose.activeCount = 0 ∧
      gate.state.dispose.waiters.length = 0)) : (s.leave x entry).store.get? key = some g := by
  rw [h.store_eq]
  split
  · rename_i hidle
    rw [Dict.get?_erase_ne _ (hor.resolve_right fun hn => hn hidle)]
    exact hk
  · exact hk

theorem count (h : Leaving s x entry gate) :
    gate.state.dispose.activeCount = gate.state.disposal.count gate.state.activeCount := by
  rw [← h.event]
  exact FifoGate.activeCount_change (FifoGate.State.step_change h.moves.step)

theorem count_of_handed (h : Leaving s x entry gate) {w : FifoGate.Waiter}
    (hw : gate.state.disposal = .handed w) : gate.state.dispose.activeCount = 1 := by
  rw [h.count, hw]
  exact h.active

theorem not_uses (_ : Leaving s x entry gate) :
    ¬ (s.leave x entry).Uses { entry with phase := .left none } := by
  rintro (hu | ⟨hu, -⟩) <;> cases hu

variable {entry' : Entry} {y : EntryId}

theorem handed (h : Leaving s x entry gate) (hx : Exclusive s) (hne : y ≠ x)
    (hy : s.entries.get? y = some entry') (hgate : entry'.gate = entry.gate)
    (hu : (s.leave x entry).Uses entry') :
    entry'.phase = .entering ∧ ∃ w, gate.state.disposal = .handed w ∧ w.future = entry'.call := by
  rcases h.moves.uses_cases hu with hu | ⟨-, hent, hw⟩
  · exact absurd (hx.uses_unique y entry' x entry hy h.entry_eq hu (.inl h.inside) hgate) hne
  · exact ⟨hent, h.event ▸ hw⟩

theorem uses_other (h : Leaving s x entry gate) (hgate : entry'.gate ≠ entry.gate)
    (hu : (s.leave x entry).Uses entry') : s.Uses entry' :=
  (h.moves.uses_cases hu).resolve_right fun hc => hgate hc.1

theorem linked (h : Leaving s x entry gate) (hs : Linked s) : Linked (s.leave x entry) :=
  hs.moves h.moves fun _ _ hk => (h.of_store hk).1

theorem not_idle_of_pending (h : Leaving s x entry gate) (hs : Linked s)
    (hy : (s.leave x entry).entries.get? y = some entry') (hgate : entry'.gate = entry.gate)
    (hent : entry'.phase = .entering) (hp : (s.leave x entry).future? entry' = some .pending) :
    gate.state.dispose.waiters.length ≠ 0 := by
  intro hidle
  obtain ⟨gate', call, hg', -, hc, hsus⟩ := (h.linked hs).entry_gate y entry' hy
  rw [hgate, h.moves.get?_gates, if_pos rfl, Option.some.injEq] at hg'
  subst hg'
  rw [(h.moves.future?_eq hgate).2] at hp
  have hok := (hs.gate_ok _ _ h.gate_eq).step h.moves.not_setLimit h.moves.step
  obtain ⟨w, hw, -⟩ := hok.queued _ _ hc (hsus hent) hp
  rw [List.length_eq_zero_iff.1 hidle] at hw
  cases hw

theorem needs_store (h : Leaving s x entry gate) (hs : Linked s) (hx : Exclusive s)
    (hy : (s.leave x entry).entries.get? y = some entry') (hn : (s.leave x entry).Needs entry') :
    (s.leave x entry).store.get? entry'.key = some entry'.gate := by
  rcases h.moves.entry_cases hy with ⟨rfl, rfl⟩ | ⟨hne, hys⟩
  · rcases hn with hu | ⟨hent, -⟩
    · exact absurd hu h.not_uses
    · cases hent
  by_cases hgate : entry'.gate = entry.gate
  · rcases hn with hu | ⟨hent, hp⟩
    · obtain ⟨hent, w, hw, hcallw⟩ := h.handed hx hne hys hgate hu
      have hpend : s.future? entry' = some .pending := by
        rw [(h.moves.future?_eq hgate).1, ← hcallw]
        exact FifoGate.State.isPending_iff.1 (FifoGate.State.pending_of_disposal hw)
      refine h.keeps (hx.needs_store y entry' hys (.inr ⟨hent, hpend⟩)) (.inr fun hidle => ?_)
      rw [h.count_of_handed hw] at hidle
      cases hidle.1
    · have hpend := h.moves.pending_other hs hys hp
      refine h.keeps (hx.needs_store y entry' hys (.inr ⟨hent, hpend⟩)) (.inr fun hidle => ?_)
      exact h.not_idle_of_pending hs hy hgate hent hp hidle.2
  · have hneeds : s.Needs entry' := by
      rcases hn with hu | ⟨hent, hp⟩
      · exact .inl (h.uses_other hgate hu)
      · exact .inr ⟨hent, h.moves.pending_other hs hys hp⟩
    have hk := hx.needs_store y entry' hys hneeds
    refine h.keeps hk (.inl fun hkey' => hgate ?_)
    rw [hkey', h.stored, Option.some.injEq] at hk
    exact hk.symm

theorem uses_active (h : Leaving s x entry gate) (hx : Exclusive s)
    {gate' : Gate} (hy : (s.leave x entry).entries.get? y = some entry')
    (hu : (s.leave x entry).Uses entry') (hg' : (s.leave x entry).gates.get? entry'.gate = some gate') :
    gate'.state.activeCount = 1 := by
  rcases h.moves.entry_cases hy with ⟨rfl, rfl⟩ | ⟨hne, hys⟩
  · exact absurd hu h.not_uses
  rw [h.moves.get?_gates] at hg'
  by_cases hgate : entry'.gate = entry.gate
  · obtain ⟨-, w, hw, -⟩ := h.handed hx hne hys hgate hu
    rw [if_pos hgate] at hg'
    obtain rfl := Option.some.inj hg'
    exact h.count_of_handed hw
  · rw [if_neg hgate] at hg'
    exact hx.uses_active y entry' gate' hys (h.uses_other hgate hu) hg'

theorem uses_unique (h : Leaving s x entry gate) (hs : Linked s) (hx : Exclusive s) {z : EntryId}
    {entry₁ entry₂ : Entry} (hy : (s.leave x entry).entries.get? y = some entry₁)
    (hz : (s.leave x entry).entries.get? z = some entry₂) (hu₁ : (s.leave x entry).Uses entry₁)
    (hu₂ : (s.leave x entry).Uses entry₂) (hgate : entry₁.gate = entry₂.gate) : y = z := by
  rcases h.moves.entry_cases hy with ⟨rfl, rfl⟩ | ⟨hyne, hys⟩
  · exact absurd hu₁ h.not_uses
  rcases h.moves.entry_cases hz with ⟨rfl, rfl⟩ | ⟨hzne, hzs⟩
  · exact absurd hu₂ h.not_uses
  by_cases hg₁ : entry₁.gate = entry.gate
  · obtain ⟨-, w, hw, hc₁⟩ := h.handed hx hyne hys hg₁ hu₁
    obtain ⟨-, w', hw', hc₂⟩ := h.handed hx hzne hzs (hgate ▸ hg₁) hu₂
    rw [hw, SlotEvent.handed.injEq] at hw'
    exact hs.entry_inj y entry₁ z entry₂ hys hzs hgate (by rw [← hc₁, ← hc₂, hw'])
  · have hg₂ : entry₂.gate ≠ entry.gate := hgate ▸ hg₁
    exact hx.uses_unique y entry₁ z entry₂ hys hzs (h.uses_other hg₁ hu₁) (h.uses_other hg₂ hu₂) hgate

theorem slotTaken (h : Leaving s x entry gate) (hs : Linked s) (htaken : SlotTaken s) :
    SlotTaken (s.leave x entry) := by
  intro key g gate' hk hg'
  obtain ⟨hks, hidle⟩ := h.of_store hk
  rw [h.moves.get?_gates] at hg'
  split at hg'
  · subst g
    obtain rfl := Option.some.inj hg'
    obtain ⟨gate₁, hg₁, hkey₁⟩ := hs.store_gate key _ hks
    rw [h.gate_eq, Option.some.injEq] at hg₁
    have hsame : key = entry.key := by rw [← hkey₁, ← hg₁, h.moves.key_eq]
    rcases gate.state.disposal_cases with hd | ⟨w, hd⟩
    · have hch := FifoGate.State.step_change h.moves.step
      rw [h.event, hd] at hch
      have hcount := h.count
      rw [hd, SlotEvent.count, h.active] at hcount
      exact absurd ⟨hsame, hcount, by rw [FifoGate.State.waiters_of_freed hch]; rfl⟩ hidle
    · exact h.count_of_handed hd
  · exact htaken key g gate' hks hg'

end Leaving

theorem leave_spec (hs : Linked s) (hx : Exclusive s) (htaken : SlotTaken s)
    (he : s.entries.get? x = some entry) (hin : entry.phase = .inside) :
    Linked (s.leave x entry) ∧ Exclusive (s.leave x entry) ∧ SlotTaken (s.leave x entry) := by
  obtain ⟨gate, h⟩ := exists_leaving hs hx he hin
  refine ⟨h.linked hs, ⟨fun y entry' hy hn => h.needs_store hs hx hy hn,
    fun y entry' gate' hy hu hg' => h.uses_active hx hy hu hg', ?_⟩, h.slotTaken hs htaken⟩
  exact fun y entry₁ z entry₂ hy hz hu₁ hu₂ hgate => h.uses_unique hs hx hy hz hu₁ hu₂ hgate

end

/-- **At most one execution is between acquire and release for a key**, in every state that steps lead
to in which no execution asks for a key whose gate has its id among the holders while another one uses
the slot. -/
theorem mutualExclusion {s : State} (h : (backend.restrict FreshEntry).Reachable s) (key : Key) :
    s.insideCount key ≤ 1 := by
  have hinv : Linked s ∧ Exclusive s ∧ SlotTaken s := by
    refine h.invariant (I := fun s => Linked s ∧ Exclusive s ∧ SlotTaken s) ?_ ?_
    · rintro s rfl
      refine ⟨⟨?_, ?_, ?_, ?_, ?_, ?_⟩, ⟨?_, ?_, ?_⟩, fun _ _ _ hk => by cases hk⟩
      · exact fun _ _ hg => by cases hg
      · exact fun _ _ hg => by cases hg
      · exact fun _ _ hk => by cases hk
      · exact fun _ _ hx => by cases hx
      · exact fun _ _ hx => by cases hx
      · exact fun _ _ _ _ hx => by cases hx
      · exact fun _ _ hx => by cases hx
      · exact fun _ _ _ hx => by cases hx
      · exact fun _ _ _ _ hx => by cases hx
    · rintro s a t ⟨hs, hx, htaken⟩ ⟨hf, (hst : s.step a = some t)⟩
      cases a with
      | enter id key => exact enter_spec hs hx htaken hf hst
      | leave x =>
        obtain ⟨entry, he, hst⟩ := Option.bind_eq_some_iff.1 hst
        split at hst
        · obtain rfl := Option.some.inj hst
          exact leave_spec hs hx htaken he ‹_›
        · cases hst
      | cancelTask x | fireTimer x | resume x b =>
        obtain ⟨entry, he, hst⟩ := Option.bind_eq_some_iff.1 hst
        split at hst
        · exact gateStep_spec hs hx htaken he ‹_› rfl hst
        · cases hst
  obtain ⟨-, hx, -⟩ := hinv
  refine Dict.count_le_one fun x entry y entry' he hp he' hp' => ?_
  obtain ⟨hkey, hin⟩ := of_decide_eq_true hp
  obtain ⟨hkey', hin'⟩ := of_decide_eq_true hp'
  have hst := hx.needs_store x entry he (.inl (.inl hin))
  have hst' := hx.needs_store y entry' he' (.inl (.inl hin'))
  rw [hkey] at hst
  rw [hkey', hst, Option.some.injEq] at hst'
  exact hx.uses_unique x entry y entry' he he' (.inl hin) (.inl hin') hst'

/-- `e1` leaves while `e2` waits, `e2` leaves, the gate is evicted, and `e1` comes back to a new one. -/
theorem mutualExclusion_return : ∃ s, (backend.restrict FreshEntry).Reachable s ∧ s.nextGate = 2 ∧
    s.store.get? "k" = some 1 ∧ s.insideCount "k" ≤ 1 := by
  have hrun : (System.exec (System.guarded step FreshEntry) .initial
      [.enter "e1" "k", .enter "e2" "k", .leave 0, .resume 1 false, .leave 1, .enter "e1" "k"]).map
      (fun s => (s.nextGate, s.store.get? "k")) = some (2, some 1) := by decide
  obtain ⟨s, hs, hobs⟩ := Option.map_eq_some_iff.1 hrun
  obtain ⟨hnext, hstore⟩ := Prod.mk.inj hobs
  have hreach : (backend.restrict FreshEntry).Reachable s :=
    System.reachable_of_exec_guarded rfl hs
  exact ⟨s, hreach, hnext, hstore, mutualExclusion hreach "k"⟩

/-- `e1` leaves while `e2` waits, and comes back while `e2` has the slot: the gate still has `e1` among
its holders, and both are inside. -/
theorem twoInside : ∃ s, backend.Run .initial
      [.enter "e1" "k", .enter "e2" "k", .leave 0, .enter "e1" "k", .resume 1 false] s ∧
    s.insideCount "k" = 2 := by
  have hrun : (System.exec step .initial
      [.enter "e1" "k", .enter "e2" "k", .leave 0, .enter "e1" "k", .resume 1 false]).map
      (fun s => s.insideCount "k") = some 2 := by decide
  obtain ⟨s, hs, hobs⟩ := Option.map_eq_some_iff.1 hrun
  exact ⟨s, System.run_of_exec hs, hobs⟩

end LlmGateway.Pipeline
