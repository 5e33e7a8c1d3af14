import LlmGateway.FifoGate.State

/-!
# What a step of the gate can do

`slotEvent` names what a step does to a slot, as a function of the state before it and the action.
`Change s a e t` lists the steps with their effects, and `step_change` is the inversion lemma: every
step is one of them. The results about the gate are case analyses of `Change`.
-/

namespace LlmGateway.FifoGate

/-- What a step does to a slot: a `try_acquire` or an `acquire` call takes a free one, one is handed to
a queued waiter, one becomes free, or one is transferred to another holder. -/
inductive SlotEvent
  | quiet
  | taken (c : Option CallId) (id : RequestId)
  | handed (w : Waiter)
  | freed
  | moved (toId : RequestId)
  deriving DecidableEq

/-- The call is suspended. -/
def Phase.suspended : Phase → Bool
  | .waiting _ _ _ => true
  | .cleaning _ _ => true
  | .unwinding => true
  | .returned => false
  | .raised _ => false

/-- The call has been told to give up: it ends by raising, whatever its future holds. -/
def Phase.givesUp : Phase → Bool
  | .waiting _ eventDone cancelRequested => eventDone || cancelRequested
  | .cleaning futureIn _ => !futureIn
  | .unwinding => true
  | .returned => false
  | .raised _ => false

/-- The suspended call a step is about. -/
def Action.target : Action → Option CallId
  | .cancelTask c => some c
  | .fireTimer c => some c
  | .eventTask c => some c
  | .resume c _ => some c
  | _ => none

namespace State

/-- A request that does not hold a slot finds a free one when it reads the limit. -/
def finds (s : State) (id : RequestId) (reading : ℤ) : Bool :=
  decide (id ∉ s.holders) &&
    match s.currentLimit reading with
    | .error _ => false
    | .ok limit => decide ((s.activeCount : ℤ) < limit)

/-- What becomes of a slot that is given back. -/
def disposal (s : State) : SlotEvent :=
  match s.popLive s.waiters with
  | some (w, _) => .handed w
  | none => .freed

/-- What a step does to a slot. -/
def slotEvent (s : State) : Action → SlotEvent
  | .tryAcquire id reading => if s.finds id reading then .taken none id else .quiet
  | .acquire id _ _ reading reading' =>
    if s.finds id reading || s.finds id reading' then .taken (some s.nextCall) id else .quiet
  | .release (some id) => if id ∈ s.holders ∧ s.activeCount ≠ 0 then s.disposal else .quiet
  | .release none => if s.activeCount ≠ 0 then s.disposal else .quiet
  | .forceRelease id => if id ∈ s.holders then s.disposal else .quiet
  | .transferHolder fromId toId =>
    if fromId ∈ s.holders ∧ fromId ≠ toId then .moved toId else .quiet
  | .setLimit _ => .quiet
  | .cancel _ => .quiet
  | .cancelTask _ => .quiet
  | .fireTimer _ => .quiet
  | .eventTask _ => .quiet
  | .resume _ _ => .quiet

/-- A step gives a slot back; `rest` are the holders that are left. -/
inductive Disposes (s : State) : Action → Finset RequestId → Prop
  | named {id : RequestId} (hid : id ∈ s.holders) (h : s.activeCount ≠ 0) :
    Disposes s (.release (some id)) (s.holders.erase id)
  | unnamed (h : s.activeCount ≠ 0) : Disposes s (.release none) s.holders
  | forced {id : RequestId} (hid : id ∈ s.holders) :
    Disposes s (.forceRelease id) (s.holders.erase id)

/-- The slot of a holder that has gone. -/
def giveBack (s : State) (rest : Finset RequestId) : State :=
  { s with holders := rest, totalReleased := s.totalReleased + 1 }

/-- The gate with one more call. -/
def nextState (s : State) : State := { s with nextCall := s.nextCall + 1 }

/-- The steps of the gate, with what they do to a slot. -/
inductive Change (s : State) : Action → SlotEvent → State → Prop
  | stay {a : Action} : Change s a .quiet s
  | limit {m n : ℤ} (hs : s.limitSource = .static m) (hn : 1 ≤ n) :
    Change s (.setLimit n) .quiet { s with limitSource := .static n }
  | take {id : RequestId} {r : ℤ} (h : s.finds id r = true) :
    Change s (.tryAcquire id r) (.taken none id) (s.take id)
  | enter {id : RequestId} {ht he : Bool} {r r' : ℤ} {phase : Phase}
    (hphase : phase = .returned ∧ id ∈ s.holders ∨ ∃ n, phase = .raised (.capacityLimit n)) :
    Change s (.acquire id ht he r r') .quiet
      (s.nextState.setPhase s.nextCall ⟨id, ht, he, .returned⟩ phase)
  | takeCall {id : RequestId} {ht he : Bool} {r r' : ℤ}
    (h : s.finds id r = true ∨ s.finds id r' = true) :
    Change s (.acquire id ht he r r') (.taken (some s.nextCall) id)
      ((s.nextState.take id).setPhase s.nextCall ⟨id, ht, he, .returned⟩ .returned)
  | enqueue {id : RequestId} {ht he : Bool} {r r' limit : ℤ} (hid : id ∉ s.holders)
    (hl : s.currentLimit r' = .ok limit) (h : limit ≤ s.activeCount) :
    Change s (.acquire id ht he r r') .quiet
      ((s.nextState.enqueue ⟨id, s.nextCall⟩).setPhase s.nextCall ⟨id, ht, he, .returned⟩
        (.waiting false false false))
  | handOff {a : Action} {rest : Finset RequestId} {w : Waiter} {ws : List Waiter}
    (ha : Disposes s a rest) (hpop : s.popLive s.waiters = some (w, ws)) :
    Change s a (.handed w) ((s.giveBack rest).handOff w ws)
  | free {a : Action} {rest : Finset RequestId} (ha : Disposes s a rest)
    (hpop : s.popLive s.waiters = none) :
    Change s a .freed
      { s.giveBack rest with waiters := [], activeCount := s.activeCount - 1 }
  | move {fromId toId : RequestId} (hf : fromId ∈ s.holders) (hne : fromId ≠ toId) :
    Change s (.transferHolder fromId toId) (.moved toId)
      { s with holders := insert toId (s.holders.erase fromId) }
  | cancel {id : RequestId} {w : Waiter} (hw : s.waiters.find? (fun w => w.requestId = id) = some w) :
    Change s (.cancel id) .quiet { s with
      waiters := s.waiters.eraseP fun w => w.requestId = id
      futures := if s.isPending w.future then s.futures.set w.future .exception else s.futures
      totalCancellations := s.totalCancellations + 1 }
  | suspend {a : Action} {c : CallId} {call : Call} {phase : Phase} {u : State}
    (ha : a.target = some c) (hc : s.calls.get? c = some call) (hp : call.phase.suspended = true)
    (hp' : phase.suspended = true) (hu : u = s ∨ u = s.cancelFuture c) :
    Change s a .quiet (u.setPhase c call phase)
  | finish {c : CallId} {b : Bool} {call : Call} (hc : s.calls.get? c = some call)
    (hp : call.phase.suspended = true) (hf : s.futures.get? c = some .result) :
    Change s (.resume c b) .quiet (s.setPhase c call .returned)
  | raise {c : CallId} {b : Bool} {call : Call} {e : AcquireError} {u : State}
    (hc : s.calls.get? c = some call) (hp : call.phase.suspended = true)
    (hf : s.futures.get? c = some .result → call.phase.givesUp = true)
    (hu : u = s ∨ u = s.cancelFuture c) : Change s (.resume c b) .quiet (u.raise c call e)

variable {s t : State} {a : Action}

theorem cancelFuture_of_not_pending {c : CallId} (h : s.isPending c = false) :
    s.cancelFuture c = s := by
  rw [cancelFuture, h, if_neg Bool.false_ne_true]

theorem isPending_of_result {c : CallId} (h : s.futures.get? c = some .result) :
    s.isPending c = false := by
  simp [isPending, h]

/-! ## Acquiring -/

theorem tryAcquire_eq (s : State) (id : RequestId) (r : ℤ) :
    s.tryAcquire id r =
      if s.finds id r then (true, s.take id) else (decide (id ∈ s.holders), s) := by
  rw [tryAcquire, finds]
  by_cases hid : id ∈ s.holders
  · simp [hid]
  · cases hl : s.currentLimit r with
    | error e => simp [hid]
    | ok limit =>
      by_cases h : (s.activeCount : ℤ) < limit
      · simp [hid, h]
      · simp [hid, h]

theorem change_tryAcquire (id : RequestId) (r : ℤ) :
    Change s (.tryAcquire id r) (s.slotEvent (.tryAcquire id r)) (s.tryAcquire id r).2 := by
  rw [slotEvent, tryAcquire_eq]
  split
  · exact .take ‹_›
  · exact .stay

theorem change_acquire (id : RequestId) (ht he : Bool) (r r' : ℤ) :
    Change s (.acquire id ht he r r') (s.slotEvent (.acquire id ht he r r'))
      (s.acquire id ht he r r') := by
  have htry : ({ s with nextCall := s.nextCall + 1 } : State).tryAcquire id r =
      if s.finds id r then (true, s.nextState.take id) else (decide (id ∈ s.holders), s.nextState) :=
    tryAcquire_eq s.nextState id r
  rw [acquire]
  rw [htry, slotEvent]
  by_cases h : s.finds id r = true
  · rw [if_pos h, if_pos (by simp [h])]
    exact .takeCall (.inl h)
  · rw [if_neg h]
    by_cases hid : id ∈ s.holders
    · have hr' : s.finds id r' = false := by simp [finds, hid]
      rw [decide_eq_true hid, if_neg (by simp [h, hr'])]
      exact .enter (.inl ⟨rfl, hid⟩)
    · rw [decide_eq_false hid]
      dsimp only
      rw [show s.nextState.currentLimit r' = s.currentLimit r' from rfl]
      cases hl : s.currentLimit r' with
      | error e =>
        have hr' : s.finds id r' = false := by simp [finds, hl]
        rw [if_neg (by simp [h, hr'])]
        exact .enter (.inr ⟨r', rfl⟩)
      | ok limit =>
        by_cases hlt : (s.activeCount : ℤ) < limit
        · have hr' : s.finds id r' = true := by simp [finds, hl, hid, hlt]
          rw [if_pos (by simp [hr'])]
          dsimp only
          rw [if_pos (show (s.nextState.activeCount : ℤ) < limit from hlt)]
          exact .takeCall (.inr hr')
        · have hr' : s.finds id r' = false := by simp [finds, hl, hlt]
          rw [if_neg (by simp [h, hr'])]
          dsimp only
          rw [if_neg (show ¬ (s.nextState.activeCount : ℤ) < limit from hlt)]
          exact .enqueue hid hl (not_lt.1 hlt)

/-! ## Giving slots back -/

theorem popLive_congr {u : State} (h : u.futures = s.futures) (l : List Waiter) :
    u.popLive l = s.popLive l := by
  induction l with
  | nil => rfl
  | cons w ws ih => rw [popLive, popLive, ih, isPending, isPending, h]

theorem change_dispose {rest : Finset RequestId} (ha : Disposes s a rest) :
    Change s a s.disposal ({ s with holders := rest } : State).dispose := by
  have hpop : ({ s with holders := rest, totalReleased := s.totalReleased + 1 } : State).popLive
      s.waiters = s.popLive s.waiters :=
    popLive_congr (s := s) (u := s.giveBack rest) rfl _
  rw [dispose]
  dsimp only
  rw [hpop, disposal]
  cases h : s.popLive s.waiters with
  | none => exact .free ha h
  | some p => exact .handOff ha h

theorem change_release (id : Option RequestId) :
    Change s (.release id) (s.slotEvent (.release id)) (s.orElse (s.release id)) := by
  cases id with
  | none =>
    rw [slotEvent, release]
    by_cases h : s.activeCount = 0
    · rw [if_pos h, if_neg (not_not.2 h)]
      exact .stay
    · rw [if_neg h, if_pos h]
      exact change_dispose (.unnamed h)
  | some id =>
    rw [slotEvent, release]
    by_cases hid : id ∈ s.holders
    · rw [if_neg (not_not.2 hid)]
      by_cases h : s.activeCount = 0
      · rw [if_pos h, if_neg fun hc => hc.2 h]
        exact .stay
      · rw [if_neg h, if_pos ⟨hid, h⟩]
        exact change_dispose (.named hid h)
    · rw [if_pos hid, if_neg fun hc => hid hc.1]
      exact .stay

theorem change_forceRelease (id : RequestId) :
    Change s (.forceRelease id) (s.slotEvent (.forceRelease id)) (s.forceRelease id).2 := by
  rw [slotEvent, forceRelease]
  by_cases hid : id ∈ s.holders
  · rw [if_neg (not_not.2 hid), if_pos hid]
    exact change_dispose (.forced hid)
  · rw [if_pos hid, if_neg hid]
    exact .stay

theorem change_transferHolder (fromId toId : RequestId) :
    Change s (.transferHolder fromId toId) (s.slotEvent (.transferHolder fromId toId))
      (s.orElse (s.transferHolder fromId toId)) := by
  rw [slotEvent, transferHolder]
  by_cases hid : fromId ∈ s.holders
  · rw [if_neg (not_not.2 hid)]
    by_cases h : fromId = toId
    · rw [if_pos h, if_neg fun hc => hc.2 h]
      exact .stay
    · rw [if_neg h, if_pos ⟨hid, h⟩]
      exact .move hid h
  · rw [if_pos hid, if_neg fun hc => hid hc.1]
    exact .stay

theorem change_setLimit (n : ℤ) :
    Change s (.setLimit n) .quiet (s.orElse (s.setLimit n)) := by
  rw [setLimit]
  cases hs : s.limitSource with
  | callable => exact .stay
  | static m =>
    by_cases hn : n < 1
    · simp only [if_pos hn]
      exact .stay
    · simp only [if_neg hn]
      exact .limit hs (not_lt.1 hn)

theorem change_cancel (id : RequestId) : Change s (.cancel id) .quiet (s.cancel id).2 := by
  rw [cancel]
  split
  · exact .stay
  · exact .cancel ‹_›

/-! ## Waiting -/

theorem change_signal {c : CallId} {next : Call → Bool → Bool → Bool → Option Phase}
    (ha : a.target = some c)
    (hnext : ∀ call x y z phase, next call x y z = some phase → phase.suspended = true)
    (h : s.signal c next = some t) : Change s a .quiet t := by
  unfold signal at h
  split at h
  · cases h
  · rename_i call hc
    split at h
    · rename_i x y z hp
      obtain ⟨phase, hphase, rfl⟩ := Option.map_eq_some_iff.1 h
      exact .suspend ha hc (by rw [hp]; rfl) (hnext _ _ _ _ _ hphase) (.inl rfl)
    all_goals cases h

variable {c : CallId} {call : Call} {b futureIn eventIn : Bool} {u : State}

theorem change_conclude (hc : s.calls.get? c = some call) (hp : call.phase.suspended = true)
    (hu : u = s ∨ u = s.cancelFuture c)
    (hg : futureIn = false ∨ eventIn = true → s.futures.get? c = some .result →
      call.phase.givesUp = true) :
    Change s (.resume c b) .quiet (u.conclude c call futureIn eventIn) := by
  have hr : u.futures.get? c = some .result ↔ s.futures.get? c = some .result := by
    rcases hu with rfl | rfl
    · rfl
    · rw [cancelFuture]
      split
      · have := ‹s.isPending c = true›
        simp only [isPending, decide_eq_true_eq] at this
        simp [this]
      · rfl
  rw [conclude]
  by_cases h₁ : (!futureIn && !eventIn) = true
  · rw [if_pos h₁]
    simp only [Bool.and_eq_true, Bool.not_eq_true'] at h₁
    exact .raise hc hp (hg (.inl h₁.1)) hu
  · rw [if_neg h₁]
    by_cases h₂ : eventIn = true
    · rw [if_pos h₂]
      exact .raise hc hp (hg (.inr h₂)) hu
    · rw [if_neg h₂]
      by_cases h₃ : u.futures.get? c = some .result
      · rw [if_pos h₃]
        have hs := hr.1 h₃
        have : u = s := by
          rcases hu with hu | hu
          · exact hu
          · rw [hu, cancelFuture_of_not_pending (isPending_of_result hs)]
        rw [this]
        exact .finish hc hp hs
      · rw [if_neg h₃]
        exact .raise hc hp (fun h => absurd (hr.2 h) h₃) hu

theorem change_resume (hc : s.calls.get? c = some call) (h : s.resume c call b = some t) :
    Change s (.resume c b) .quiet t := by
  unfold resume at h
  split at h
  · rename_i x eventDone cancelRequested hp
    have hsus : call.phase.suspended = true := by rw [hp]; rfl
    have hgive : call.phase.givesUp = (eventDone || cancelRequested) := by rw [hp]; rfl
    split at h
    · rename_i hk
      obtain rfl := Option.some.inj h
      rw [waitCancelled]
      split
      · exact .suspend rfl hc hsus rfl (.inl rfl)
      · exact .raise hc hsus (fun _ => by rw [hgive, hk, Bool.or_true]) (.inl rfl)
    · split at h
      · obtain rfl := Option.some.inj h
        rw [waitReturns]
        split
        · split
          · exact .suspend rfl hc hsus rfl (.inl rfl)
          · split
            · exact .suspend rfl hc hsus rfl (.inr rfl)
            · exact .suspend rfl hc hsus rfl (.inl rfl)
        · refine change_conclude hc hsus (.inr rfl) fun hg hf => ?_
          rcases hg with hg | hg
          · rw [isPending_of_result hf] at hg
            cases hg
          · rw [hgive, hg, Bool.true_or]
      · cases h
  · rename_i futureIn futureLeft hp
    have hsus : call.phase.suspended = true := by rw [hp]; rfl
    obtain rfl := Option.some.inj h
    rw [cleaned]
    refine change_conclude hc hsus ?_ fun hg _ => ?_
    · split
      · exact .inr rfl
      · exact .inl rfl
    · rcases hg with hg | hg
      · rw [hp, Phase.givesUp, hg, Bool.not_false]
      · cases hg
  · rename_i hp
    obtain rfl := Option.some.inj h
    exact .raise hc (by rw [hp]; rfl) (fun _ => by rw [hp]; rfl) (.inl rfl)
  · cases h
  · cases h

/-- **Every step of the gate is one of the listed changes.** -/
theorem step_change (h : s.step a = some t) : Change s a (s.slotEvent a) t := by
  cases a with
  | tryAcquire id r =>
    obtain rfl := Option.some.inj h
    exact change_tryAcquire id r
  | acquire id ht he r r' =>
    obtain rfl := Option.some.inj h
    exact change_acquire id ht he r r'
  | release id =>
    obtain rfl := Option.some.inj h
    exact change_release id
  | transferHolder fromId toId =>
    obtain rfl := Option.some.inj h
    exact change_transferHolder fromId toId
  | forceRelease id =>
    obtain rfl := Option.some.inj h
    exact change_forceRelease id
  | setLimit n =>
    obtain rfl := Option.some.inj h
    exact change_setLimit n
  | cancel id =>
    obtain rfl := Option.some.inj h
    exact change_cancel id
  | cancelTask c =>
    refine change_signal rfl (fun call x y z phase hn => ?_) h
    obtain rfl := Option.some.inj hn
    rfl
  | fireTimer c | eventTask c =>
    refine change_signal rfl (fun call x y z phase hn => ?_) h
    split at hn
    · obtain rfl := Option.some.inj hn
      rfl
    · cases hn
  | resume c b =>
    obtain ⟨call, hc, h⟩ := Option.bind_eq_some_iff.1 h
    exact change_resume hc h

end State

end LlmGateway.FifoGate
