import LlmGateway.CapacityPool.WellFormed

/-!
# The turns of a dispatch

`_dispatch` gives every queued waiter one turn, in queue order. `turns` is the record of that: for each
waiter the state and the reading at its turn and what became of it. The record is a ghost of the loop,
tied to it by `dispatch_turns`: the queue left behind is the retained waiters in turn order, the
futures set are those of the admitted ones, and the slots taken are theirs.

A retained waiter may have had room (`dispatch_paused_retains`): under an admission pause `_dispatch`
retains every live waiter, whatever is free.
-/

namespace LlmGateway.CapacityPool

open State

/-- What the loop makes of a waiter. -/
inductive Outcome where
  | skipped
  | retained
  | admitted (gatewayId : GatewayId)
  deriving DecidableEq

/-- A waiter's turn. -/
structure Turn where
  waiter : Waiter
  reading : Reading
  before : State
  outcome : Outcome

namespace Turn

/-- The future of the waiter is not done when its turn comes. -/
def Live (turn : Turn) : Prop := turn.before.futureDone turn.waiter.future = false

/-- The pause check of the turn finds the model paused. -/
def PausedFor (turn : Turn) (m : ModelId) : Prop :=
  (turn.before.tick turn.reading.delay).Paused m

/-- What the outcome says about the state at the turn. -/
def Right (turn : Turn) (m : ModelId) : Prop :=
  match turn.outcome with
  | .skipped => ¬ turn.Live
  | .retained => turn.Live ∧
    (turn.PausedFor m ∨ ∀ gw ∈ turn.waiter.allowed, turn.before.available gw m ≤ 0)
  | .admitted gw => turn.Live ∧ ¬ turn.PausedFor m ∧ gw ∈ turn.waiter.allowed ∧
    0 < turn.before.available gw m

/-- Whether the turn retains its waiter. -/
def isRetained (turn : Turn) : Bool := turn.outcome = .retained

/-- Whether the turn admits its waiter on a gateway. -/
def admittedOn (turn : Turn) (gw : GatewayId) : Bool := turn.outcome = .admitted gw

end Turn

/-- The turns of the loop of `_dispatch`. -/
def turns (m : ModelId) (ρ : ℕ → Reading) : List Waiter → State → List Turn
  | [], _ => []
  | w :: rest, s =>
    if s.futureDone w.future then ⟨w, ρ 0, s, .skipped⟩ :: turns m ρ rest s
    else
      match s.tryImmediate (ρ 0) m w.allowed with
      | (none, s') => ⟨w, ρ 0, s, .retained⟩ :: turns m (fun i => ρ (i + 1)) rest s'
      | (some gw, s') => ⟨w, ρ 0, s, .admitted gw⟩ :: turns m (fun i => ρ (i + 1)) rest
          { s' with futures := s'.futures.set w.future (.result gw) }

/-- **The loop and its turns together**: the induction rule of the loop, with the record. -/
theorem turns_rec {m : ModelId}
    {motive : (ℕ → Reading) → List Waiter → State → List Turn → List Waiter → State → Prop}
    (nil : ∀ ρ s, motive ρ [] s [] [] s)
    (skipped : ∀ ρ w rest s ts u t, s.futureDone w.future = true → motive ρ rest s ts u t →
      motive ρ (w :: rest) s (⟨w, ρ 0, s, .skipped⟩ :: ts) u t)
    (retained : ∀ ρ w rest s ts u t, (⟨w, ρ 0, s, .retained⟩ : Turn).Right m →
      motive (fun i => ρ (i + 1)) rest ((s.tick (ρ 0).delay).expirePause m) ts u t →
      motive ρ (w :: rest) s (⟨w, ρ 0, s, .retained⟩ :: ts) (w :: u) t)
    (admitted : ∀ ρ w rest s gw ts u t, (⟨w, ρ 0, s, .admitted gw⟩ : Turn).Right m →
      motive (fun i => ρ (i + 1)) rest (s.admitWaiter (ρ 0) m w gw) ts u t →
      motive ρ (w :: rest) s (⟨w, ρ 0, s, .admitted gw⟩ :: ts) u t)
    (ρ : ℕ → Reading) (q : List Waiter) (s : State) :
    motive ρ q s (turns m ρ q s) (dispatchLoop m ρ q s).1 (dispatchLoop m ρ q s).2 := by
  induction q generalizing ρ s with
  | nil => exact nil ρ s
  | cons w rest ih =>
    rw [dispatchLoop, turns]
    cases hd : s.futureDone w.future with
    | true => exact skipped ρ w rest s _ _ _ hd (ih ρ s)
    | false =>
      simp only [Bool.false_eq_true, if_false]
      rcases s.tryImmediate_cases m (ρ 0) w.allowed with ⟨hno, h⟩ | ⟨gw, hgw, hp, hpos, h⟩
      · rw [h]
        exact retained ρ w rest s _ _ _ ⟨hd, hno⟩ (ih _ _)
      · -- the reservation leaves the futures alone, so the re-check fails
        have hf := futures_reserve_expirePause s m (ρ 0) ⟨gw, m⟩
        have hd' : (((s.tick (ρ 0).delay).expirePause m).reserve ⟨gw, m⟩).futureDone w.future =
            false := by
          rw [futureDone, hf]
          exact hd
        rw [h]
        simp only [hd', hf, Bool.false_eq_true, if_false]
        exact admitted ρ w rest s gw _ _ _ ⟨hd, hp, hgw, hpos⟩ (ih _ _)

/-! ## What the record says -/

section Loop

variable (m : ModelId) (ρ : ℕ → Reading) (q : List Waiter) (s : State)

theorem map_waiter_turns : (turns m ρ q s).map Turn.waiter = q := by
  refine turns_rec (m := m) (motive := fun _ q _ ts _ _ => ts.map Turn.waiter = q) ?_ ?_ ?_ ?_ ρ q s
  · exact fun _ _ => rfl
  · exact fun _ w _ _ _ _ _ _ ih => congrArg (w :: ·) ih
  · exact fun _ w _ _ _ _ _ _ ih => congrArg (w :: ·) ih
  · exact fun _ w _ _ _ _ _ _ _ ih => congrArg (w :: ·) ih

theorem dispatchLoop_fst_eq :
    (dispatchLoop m ρ q s).1 = ((turns m ρ q s).filter Turn.isRetained).map Turn.waiter := by
  refine turns_rec (m := m)
    (motive := fun _ _ _ ts u _ => u = (ts.filter Turn.isRetained).map Turn.waiter) ?_ ?_ ?_ ?_ ρ q s
  · exact fun _ _ => rfl
  · intro _ w _ s ts u t _ ih
    rw [List.filter_cons_of_neg (by simp [Turn.isRetained])]
    exact ih
  · intro _ w _ s ts u t _ ih
    rw [List.filter_cons_of_pos (by simp [Turn.isRetained]), List.map_cons, ih]
  · intro _ w _ s gw ts u t _ ih
    rw [List.filter_cons_of_neg (by simp [Turn.isRetained])]
    exact ih

theorem right_of_mem_turns : ∀ turn ∈ turns m ρ q s, turn.Right m := by
  refine turns_rec (m := m) (motive := fun _ _ _ ts _ _ => ∀ turn ∈ ts, turn.Right m)
    ?_ ?_ ?_ ?_ ρ q s
  · exact fun _ _ _ h => by cases h
  · intro _ w _ s ts u t hd ih
    exact List.forall_mem_cons.2 ⟨by simp [Turn.Right, Turn.Live, hd], ih⟩
  · exact fun _ w _ s ts u t h ih => List.forall_mem_cons.2 ⟨h, ih⟩
  · exact fun _ w _ s gw ts u t h ih => List.forall_mem_cons.2 ⟨h, ih⟩

theorem futures_of_admitted :
    (∀ c, s.futureDone c = true → (dispatchLoop m ρ q s).2.futures.get? c = s.futures.get? c) ∧
      ∀ turn ∈ turns m ρ q s, ∀ gw, turn.outcome = .admitted gw →
        (dispatchLoop m ρ q s).2.futures.get? turn.waiter.future = some (.result gw) := by
  refine turns_rec (m := m) (motive := fun _ _ s ts _ t =>
    (∀ c, s.futureDone c = true → t.futures.get? c = s.futures.get? c) ∧
      ∀ turn ∈ ts, ∀ gw, turn.outcome = .admitted gw →
        t.futures.get? turn.waiter.future = some (.result gw)) ?_ ?_ ?_ ?_ ρ q s
  · exact fun _ _ => ⟨fun _ _ => rfl, fun _ h => by cases h⟩
  · rintro ρ w rest s ts u t - ⟨hdone, hadmitted⟩
    exact ⟨hdone, List.forall_mem_cons.2 ⟨fun _ h => (by cases h), hadmitted⟩⟩
  · rintro ρ w rest s ts u t - ⟨hdone, hadmitted⟩
    obtain ⟨p, r, he⟩ := expirePause_eq (s.tick (ρ 0).delay) m
    rw [he] at hdone
    exact ⟨hdone, List.forall_mem_cons.2 ⟨fun _ h => (by cases h), hadmitted⟩⟩
  · rintro ρ w rest s gw ts u t hright ⟨hdone, hadmitted⟩
    have hset : (s.admitWaiter (ρ 0) m w gw).futures.get? w.future = some (.result gw) :=
      Dict.get?_set_self _ _ _
    refine ⟨fun c hc => ?_, List.forall_mem_cons.2 ⟨fun gw' h => ?_, hadmitted⟩⟩
    · have hne : c ≠ w.future := by
        rintro rfl
        exact absurd (hc.symm.trans hright.1) (by decide)
      have hget : (s.admitWaiter (ρ 0) m w gw).futures.get? c = s.futures.get? c :=
        Dict.get?_set_ne _ hne _
      rw [hdone c (by rw [futureDone, hget]; exact hc), hget]
    · cases h
      rw [hdone w.future (by simp [futureDone, hset]), hset]

theorem futures_of_not_admitted {c : CallId}
    (h : ∀ turn ∈ turns m ρ q s, ∀ gw, turn.outcome = .admitted gw → turn.waiter.future ≠ c) :
    (dispatchLoop m ρ q s).2.futures.get? c = s.futures.get? c := by
  revert h
  refine turns_rec (m := m) (motive := fun _ _ s ts _ t =>
    (∀ turn ∈ ts, ∀ gw, turn.outcome = .admitted gw → turn.waiter.future ≠ c) →
      t.futures.get? c = s.futures.get? c) ?_ ?_ ?_ ?_ ρ q s
  · exact fun _ _ _ => rfl
  · exact fun _ w _ s ts u t _ ih h => ih (List.forall_mem_cons.1 h).2
  · intro ρ w _ s ts u t _ ih h
    obtain ⟨p, r, he⟩ := expirePause_eq (s.tick (ρ 0).delay) m
    rw [he] at ih
    exact ih (List.forall_mem_cons.1 h).2
  · intro ρ w _ s gw ts u t _ ih h
    obtain ⟨hw, h⟩ := List.forall_mem_cons.1 h
    rw [ih h]
    exact Dict.get?_set_ne _ (hw gw rfl).symm _

theorem skipped_of_mem_turns : ∀ turn ∈ turns m ρ q s, turn.outcome = .skipped →
    s.futureDone turn.waiter.future = true ∨ ∃ turn' ∈ turns m ρ q s, ∃ gw,
      turn'.outcome = .admitted gw ∧ turn'.waiter.future = turn.waiter.future := by
  refine turns_rec (m := m) (motive := fun _ _ s ts _ _ => ∀ turn ∈ ts, turn.outcome = .skipped →
    s.futureDone turn.waiter.future = true ∨ ∃ turn' ∈ ts, ∃ gw,
      turn'.outcome = .admitted gw ∧ turn'.waiter.future = turn.waiter.future) ?_ ?_ ?_ ?_ ρ q s
  · exact fun _ _ _ h => by cases h
  · intro ρ w rest s ts u t hd ih
    refine List.forall_mem_cons.2 ⟨fun _ => .inl hd, fun turn hturn h => ?_⟩
    exact (ih turn hturn h).imp_right fun ⟨turn', hmem, h'⟩ => ⟨turn', List.mem_cons_of_mem _ hmem, h'⟩
  · intro ρ w rest s ts u t _ ih
    obtain ⟨p, r, he⟩ := expirePause_eq (s.tick (ρ 0).delay) m
    rw [he] at ih
    refine List.forall_mem_cons.2 ⟨fun h => (by cases h), fun turn hturn h => ?_⟩
    exact (ih turn hturn h).imp_right fun ⟨turn', hmem, h'⟩ => ⟨turn', List.mem_cons_of_mem _ hmem, h'⟩
  · intro ρ w rest s gw ts u t _ ih
    refine List.forall_mem_cons.2 ⟨fun h => (by cases h), fun turn hturn h => ?_⟩
    rcases ih turn hturn h with hdone | ⟨turn', hmem, h'⟩
    · by_cases hw : turn.waiter.future = w.future
      · exact .inr ⟨_, List.mem_cons_self, gw, rfl, hw.symm⟩
      · left
        rwa [futureDone, admitWaiter, Dict.get?_set_ne _ hw] at hdone
    · exact .inr ⟨turn', List.mem_cons_of_mem _ hmem, h'⟩

theorem inFlight_dispatchLoop (slot : Slot) :
    (dispatchLoop m ρ q s).2.inFlight.getD slot 0 = s.inFlight.getD slot 0 +
      if slot.modelId = m then ((turns m ρ q s).countP (·.admittedOn slot.gatewayId) : ℤ) else 0 := by
  refine turns_rec (m := m) (motive := fun _ _ s ts _ t => t.inFlight.getD slot 0 =
    s.inFlight.getD slot 0 +
      if slot.modelId = m then (ts.countP (·.admittedOn slot.gatewayId) : ℤ) else 0)
    ?_ ?_ ?_ ?_ ρ q s
  · intro _ s
    simp
  · intro _ w _ s ts u t _ ih
    rw [List.countP_cons_of_neg (by simp [Turn.admittedOn])]
    exact ih
  · intro ρ w _ s ts u t _ ih
    obtain ⟨p, r, he⟩ := expirePause_eq (s.tick (ρ 0).delay) m
    rw [he] at ih
    rw [List.countP_cons_of_neg (by simp [Turn.admittedOn])]
    exact ih
  · intro ρ w _ s gw ts u t _ ih
    have hreserve : (s.admitWaiter (ρ 0) m w gw).inFlight.getD slot 0 =
        s.inFlight.getD slot 0 + if slot = ⟨gw, m⟩ then 1 else 0 := by
      obtain ⟨p, r, he⟩ := expirePause_eq (s.tick (ρ 0).delay) m
      rw [admitWaiter, he]
      exact inFlight_reserve s ⟨gw, m⟩ slot
    obtain ⟨gw', m'⟩ := slot
    rw [ih, hreserve, List.countP_cons]
    simp only [Slot.mk.injEq, Turn.admittedOn, decide_eq_true_eq, Outcome.admitted.injEq]
    by_cases hm : m' = m
    · by_cases hgw : gw = gw'
      · simp only [hm, hgw, and_self, if_true]
        push_cast
        ring
      · simp [hm, hgw, Ne.symm hgw]
    · simp [hm]

end Loop

/-- **A dispatch conserves the waiters.** Every queued waiter has one turn, in queue order, and its
outcome is right for the state at its turn: a live waiter is admitted on an allowed gateway with room,
or retained because the model is paused or no allowed gateway has room. The queue left behind is the
retained waiters in that order, the futures set and the slots taken are those of the admitted ones, and
a waiter is skipped only if its future was done or has been given a gateway by an earlier turn. -/
theorem dispatch_turns (s : State) (ρ : ℕ → Reading) (m : ModelId) :
    let ts := turns m ρ (s.queue m) s
    let t := s.dispatch ρ m
    ts.map Turn.waiter = s.queue m ∧
    t.queue m = (ts.filter Turn.isRetained).map Turn.waiter ∧ (t.queue m).Sublist (s.queue m) ∧
    (∀ turn ∈ ts, turn.Right m) ∧
    (∀ turn ∈ ts, turn.outcome = .skipped → s.futureDone turn.waiter.future = true ∨
      ∃ turn' ∈ ts, ∃ gw,
        turn'.outcome = .admitted gw ∧ turn'.waiter.future = turn.waiter.future) ∧
    (∀ turn ∈ ts, ∀ gw, turn.outcome = .admitted gw →
      t.futures.get? turn.waiter.future = some (.result gw)) ∧
    (∀ c, (∀ turn ∈ ts, ∀ gw, turn.outcome = .admitted gw → turn.waiter.future ≠ c) →
      t.futures.get? c = s.futures.get? c) ∧
    (∀ slot, t.inFlight.getD slot 0 = s.inFlight.getD slot 0 +
      if slot.modelId = m then (ts.countP (·.admittedOn slot.gatewayId) : ℤ) else 0) ∧
    ∀ m', m' ≠ m → t.queue m' = s.queue m' := by
  intro ts t
  obtain ⟨qs, ht, hqs⟩ := dispatch_eq m ρ s
  have hretained : t.queue m = (ts.filter Turn.isRetained).map Turn.waiter := by
    change (t.queues.get? m).getD [] = _
    rw [show t = _ from ht, hqs m, if_pos rfl, dispatchLoop_fst_eq]
  have hmap : ts.map Turn.waiter = s.queue m := map_waiter_turns m ρ _ s
  refine ⟨hmap, hretained, ?_, right_of_mem_turns m ρ _ s, skipped_of_mem_turns m ρ _ s, ?_, ?_, ?_,
    ?_⟩
  · rw [hretained, ← hmap]
    exact List.filter_sublist.map _
  · rw [show t = _ from ht]
    exact (futures_of_admitted m ρ _ s).2
  · rw [show t = _ from ht]
    exact fun c => futures_of_not_admitted m ρ _ s
  · rw [show t = _ from ht]
    exact inFlight_dispatchLoop m ρ _ s
  · intro m' hne
    change (t.queues.get? m').getD [] = _
    rw [show t = _ from ht, hqs m', if_neg hne]

/-- Under a pause a live waiter is retained although its allowed gateway has room. -/
theorem dispatch_paused_retains : ∃ s, pool.Reachable s ∧
    s.queue "m" = [⟨"r", ["g"], 0⟩] ∧ s.futureDone 0 = false ∧ 0 < s.available "g" "m" ∧
    (s.dispatch (fun _ => .instant) "m").queue "m" = [⟨"r", ["g"], 0⟩] := by
  have hrun : (System.exec step (.initial 0 0)
      [.setCapacity "g" "m" 1, .pauseAdmission "m" 10, .acquireToken "r" "m" ["g"] none .instant]).map
      (fun s => (s.queue "m", s.futureDone 0, s.available "g" "m",
        (s.dispatch (fun _ => .instant) "m").queue "m")) =
      some ([⟨"r", ["g"], 0⟩], false, 1, [⟨"r", ["g"], 0⟩]) := by with_unfolding_all decide
  obtain ⟨s, hs, he⟩ := Option.map_eq_some_iff.1 hrun
  simp only [Prod.mk.injEq] at he
  obtain ⟨hq, hf, ha, hd⟩ := he
  exact ⟨s, System.reachable_of_exec ⟨0, 0, rfl⟩ hs, hq, hf, ha ▸ by decide, hd⟩

end LlmGateway.CapacityPool
