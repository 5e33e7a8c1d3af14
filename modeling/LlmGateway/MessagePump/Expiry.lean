import Mathlib.Algebra.Order.Group.MinMax
import Mathlib.Algebra.Order.Ring.Rat
import Mathlib.Tactic.Linarith
import LlmGateway.Foundations.System
import LlmGateway.MessagePump.CorrelationRegistry

/-!
# When a correlation expires

A correlation is to expire only when the timeout that was registered last has passed since the last registration or
activity, and none is to be dropped while a call waits on its queue. A second registration starts a task with its
own timeout and leaves the recorded one as it is; the next activity starts a task with the recorded one. And no drop of a
correlation does anything for a call that waits.

`timeouts_kept` says that nothing else goes wrong: where no activity finds a recorded timeout below the one registered
last, and no correlation is dropped that is waited for, the law holds in every state; and a step of either kind leads to
a state where it does not.
-/

namespace LlmGateway.MessagePump

variable {Message : Type*}

/-! ## What was asked of the registry -/

/-- An expiry: the timeout that was registered last, and the time since the last registration or activity. -/
structure Expiry where
  timeout : ℚ
  idle : ℚ

/-- A registry, with the timeout that was registered last and the time of the last registration or activity, for
each id, and the expiries so far. -/
structure Traced (Message : Type*) where
  registry : CorrelationRegistry Message
  asked : String → ℚ
  touched : String → ℚ
  expired : List Expiry

namespace Traced

/-- At the start nothing is registered. -/
def start (now : ℚ) : Traced Message := ⟨.start now, fun _ => 0, fun _ => now, []⟩

/-- What an event asks and what it drops. -/
def record (x : Traced Message) (registry : CorrelationRegistry Message) : RegistryEvent Message → Traced Message
  | .register id timeout =>
    { x with
      registry
      asked := Function.update x.asked id timeout
      touched := Function.update x.touched id x.registry.now }
  | .route id _ =>
    if x.registry.isRegistered id then
      { x with registry, touched := Function.update x.touched id x.registry.now }
    else { x with registry }
  | .expire id =>
    if x.registry.isRegistered id && !registry.isRegistered id then
      { x with registry, expired := x.expired ++ [⟨x.asked id, x.registry.now - x.touched id⟩] }
    else { x with registry }
  | _ => { x with registry }

def step (x : Traced Message) (e : RegistryEvent Message) : Option (Traced Message) :=
  (x.registry.step e).map fun registry => x.record registry e

variable (Message) in
/-- Registries and what happens to them. -/
def system : System (Traced Message) (RegistryEvent Message) := .ofFn (fun x => ∃ now, x = start now) step

/-- A call waits on the queue of a correlation. -/
def Awaited (r : CorrelationRegistry Message) (id : String) : Prop :=
  ∃ queue, r.queues.get? id = some queue ∧ ∃ w ∈ r.waiters, w.queue = queue.number

/-- **The law**: whatever expired had been idle for the timeout registered last, and every call that waits does so on
the queue of a registered correlation. -/
structure Kept (x : Traced Message) : Prop where
  lawful : ∀ e ∈ x.expired, e.timeout ≤ e.idle
  attended : ∀ w ∈ x.registry.waiters, ∃ id queue, x.registry.queues.get? id = some queue ∧ queue.number = w.queue

/-- The condition on a step: an activity finds a recorded timeout that is not below the one registered last, and what
is dropped is not waited for. -/
def Careful (x : Traced Message) : RegistryEvent Message → Prop
  | .route id _ => ∀ metadata, x.registry.metadata.get? id = some metadata → x.asked id ≤ max 0 metadata.timeout
  | .expire id => ¬ Awaited x.registry id
  | .unregister id => ¬ Awaited x.registry id
  | .clear => ∀ id, ¬ Awaited x.registry id
  | _ => True

end Traced

open Traced

/-! ## The invariant -/

/-- What the registry holds of an id, against what was asked of it. -/
structure EntryKept (r : CorrelationRegistry Message) (asked touched : ℚ) (id : String) : Prop where
  contains_eq : r.queues.contains id = r.metadata.contains id
  past : touched ≤ r.now
  active : ∀ metadata, r.metadata.get? id = some metadata → metadata.lastActivity = touched
  task : ∀ task, r.tasks.get? id = some task →
    r.metadata.contains id = true ∧ task.wakeAt = touched + task.timeout ∧ asked ≤ max 0 task.timeout

/-- The queues have different numbers, all given out. -/
structure Numbered (r : CorrelationRegistry Message) : Prop where
  lt : ∀ id queue, r.queues.get? id = some queue → queue.number < r.nextQueue
  inj : ∀ id id' queue queue', r.queues.get? id = some queue → r.queues.get? id' = some queue' →
    queue.number = queue'.number → id = id'

/-- **The invariant.** -/
structure Invariant (x : Traced Message) : Prop where
  entry : ∀ id, EntryKept x.registry (x.asked id) (x.touched id) id
  numbered : Numbered x.registry
  kept : Kept x

variable {r r' : CorrelationRegistry Message} {asked touched : ℚ} {id : String}

theorem EntryKept.congr (h : EntryKept r asked touched id) (hnow : r.now ≤ r'.now)
    (hqueue : r'.queues.contains id = r.queues.contains id) (hmetadata : r'.metadata.get? id = r.metadata.get? id)
    (htask : r'.tasks.get? id = r.tasks.get? id) : EntryKept r' asked touched id where
  contains_eq := by
    rw [hqueue, h.contains_eq, Dict.contains, Dict.contains, hmetadata]
  past := h.past.trans hnow
  active := by
    rw [hmetadata]
    exact h.active
  task := by
    rw [htask, Dict.contains, hmetadata, ← Dict.contains]
    exact h.task

theorem EntryKept.dropped (hqueue : r'.queues.contains id = false) (hmetadata : r'.metadata.get? id = none)
    (htask : r'.tasks.get? id = none) (hpast : touched ≤ r'.now) : EntryKept r' asked touched id where
  contains_eq := by
    rw [hqueue, Dict.contains, hmetadata]
    rfl
  past := hpast
  active := by simp [hmetadata]
  task := by simp [htask]

theorem EntryKept.touch {timeout : ℚ} {metadata : Metadata} (hqueue : r.queues.contains id = true)
    (hmetadata : r.metadata.get? id = some metadata) (hactive : metadata.lastActivity = r.now)
    (htask : r.tasks.get? id = some ⟨timeout, r.now + timeout⟩) (hasked : asked ≤ max 0 timeout) :
    EntryKept r asked r.now id where
  contains_eq := by
    rw [hqueue, Dict.contains, hmetadata]
    rfl
  past := le_rfl
  active := by
    rw [hmetadata]
    rintro _ ⟨⟩
    exact hactive
  task := by
    rw [htask]
    rintro _ ⟨⟩
    exact ⟨by rw [Dict.contains, hmetadata]; rfl, rfl, hasked⟩

/-! ## What the operations do -/

/-- An operation that gives one correlation a new task, and registers it if it is not. -/
structure Touches (r r' : CorrelationRegistry Message) (id : String) (timeout : ℚ) : Prop where
  now_eq : r'.now = r.now
  waiters_eq : r'.waiters = r.waiters
  metadata : ∃ metadata, r'.metadata.get? id = some metadata ∧ metadata.lastActivity = r.now
  task : r'.tasks.get? id = some ⟨timeout, r.now + timeout⟩
  queue : ∃ queue, r'.queues.get? id = some queue ∧
    ((∃ old, r.queues.get? id = some old ∧ queue.number = old.number ∧ r'.nextQueue = r.nextQueue) ∨
      r.queues.get? id = none ∧ queue.number = r.nextQueue ∧ r'.nextQueue = r.nextQueue + 1)
  others : ∀ j, j ≠ id → r'.queues.get? j = r.queues.get? j ∧ r'.metadata.get? j = r.metadata.get? j ∧
    r'.tasks.get? j = r.tasks.get? j

/-- An operation that drops the correlations of some ids. -/
structure Drops (r r' : CorrelationRegistry Message) (p : String → Prop) : Prop where
  now_eq : r'.now = r.now
  waiters_eq : r'.waiters = r.waiters
  nextQueue_eq : r'.nextQueue = r.nextQueue
  gone : ∀ j, p j → r'.queues.get? j = none ∧ r'.metadata.get? j = none ∧ r'.tasks.get? j = none
  others : ∀ j, ¬ p j → r'.queues.get? j = r.queues.get? j ∧ r'.metadata.get? j = r.metadata.get? j ∧
    r'.tasks.get? j = r.tasks.get? j

/-- An operation on the messages of the queues and on the calls that wait. -/
structure Serves (r r' : CorrelationRegistry Message) : Prop where
  now_le : r.now ≤ r'.now
  nextQueue_eq : r'.nextQueue = r.nextQueue
  metadata_eq : r'.metadata = r.metadata
  tasks_eq : r'.tasks = r.tasks
  number_eq : ∀ j, (r'.queues.get? j).map CorrelationQueue.number = (r.queues.get? j).map CorrelationQueue.number
  waiters : ∀ w ∈ r'.waiters, w ∈ r.waiters ∨ ∃ j queue, r.queues.get? j = some queue ∧ queue.number = w.queue

theorem get?_eq_none_of_contains {κ ν : Type*} [DecidableEq κ] {d : Dict κ ν} {k : κ} (h : d.contains k = false) :
    d.get? k = none := by
  rwa [Dict.contains, Option.isSome_eq_false_iff, Option.isNone_iff_eq_none] at h

theorem register_touches (h : r.queues.contains id = r.metadata.contains id) (timeout : ℚ) :
    Touches r (r.register id timeout) id timeout := by
  rw [CorrelationRegistry.register, CorrelationRegistry.isRegistered]
  cases hregistered : r.queues.contains id with
  | true =>
    obtain ⟨queue, hqueue⟩ := Dict.contains_iff.1 hregistered
    obtain ⟨metadata, hmetadata⟩ := Dict.contains_iff.1 (h ▸ hregistered)
    rw [if_pos rfl, CorrelationRegistry.refreshExpiration, hmetadata]
    exact {
      now_eq := rfl
      waiters_eq := rfl
      metadata := ⟨_, Dict.get?_set_self _ _ _, rfl⟩
      task := Dict.get?_set_self _ _ _
      queue := ⟨queue, hqueue, .inl ⟨queue, hqueue, rfl, rfl⟩⟩
      others := fun j hj => ⟨rfl, Dict.get?_set_ne _ hj _, Dict.get?_set_ne _ hj _⟩ }
  | false =>
    rw [if_neg Bool.false_ne_true]
    exact {
      now_eq := rfl
      waiters_eq := rfl
      metadata := ⟨_, Dict.get?_set_self _ _ _, rfl⟩
      task := Dict.get?_set_self _ _ _
      queue := ⟨_, Dict.get?_set_self _ _ _, .inr ⟨get?_eq_none_of_contains hregistered, rfl, rfl⟩⟩
      others := fun j hj => ⟨Dict.get?_set_ne _ hj _, Dict.get?_set_ne _ hj _, Dict.get?_set_ne _ hj _⟩ }

theorem routeMessage_touches {queue : CorrelationQueue Message} {metadata : Metadata}
    (hqueue : r.queues.get? id = some queue) (hmetadata : r.metadata.get? id = some metadata) (message : Message) :
    Touches r (r.routeMessage id message) id metadata.timeout := by
  simp only [CorrelationRegistry.routeMessage, hqueue, hmetadata, CorrelationRegistry.refreshExpiration,
    Dict.get?_set_self]
  exact {
    now_eq := rfl
    waiters_eq := rfl
    metadata := ⟨_, Dict.get?_set_self _ _ _, rfl⟩
    task := Dict.get?_set_self _ _ _
    queue := ⟨_, Dict.get?_set_self _ _ _, .inl ⟨queue, hqueue, rfl, rfl⟩⟩
    others := fun j hj => ⟨Dict.get?_set_ne _ hj _, by
      show ((r.metadata.set id _).set id _).get? j = _
      rw [Dict.get?_set_ne _ hj, Dict.get?_set_ne _ hj], Dict.get?_set_ne _ hj _⟩ }

theorem routeMessage_of_none (h : r.queues.get? id = none) (message : Message) : r.routeMessage id message = r := by
  rw [CorrelationRegistry.routeMessage, h]

theorem unregister_drops (h : r.queues.contains id = r.metadata.contains id) :
    Drops r (r.unregister id) fun j => j = id := by
  rw [CorrelationRegistry.unregister]
  show Drops r (if r.queues.contains id = true then _ else _) _
  cases hregistered : r.queues.contains id with
  | true =>
    rw [if_pos rfl]
    refine ⟨rfl, rfl, rfl, ?_, fun j hj =>
      ⟨Dict.get?_erase_ne _ hj, Dict.get?_erase_ne _ hj, Dict.get?_erase_ne _ hj⟩⟩
    rintro _ rfl
    exact ⟨Dict.get?_erase_self _ _, Dict.get?_erase_self _ _, Dict.get?_erase_self _ _⟩
  | false =>
    rw [if_neg Bool.false_ne_true]
    refine ⟨rfl, rfl, rfl, ?_, fun j hj => ⟨rfl, rfl, Dict.get?_erase_ne _ hj⟩⟩
    rintro _ rfl
    exact ⟨get?_eq_none_of_contains hregistered, get?_eq_none_of_contains (h ▸ hregistered),
      Dict.get?_erase_self _ _⟩

theorem clear_drops (r : CorrelationRegistry Message) : Drops r r.clear fun _ => True :=
  ⟨rfl, rfl, rfl, fun _ _ => ⟨rfl, rfl, rfl⟩, fun _ hj => (hj trivial).elim⟩

theorem number_set {queue : CorrelationQueue Message} (h : r.queues.get? id = some queue) (messages : List Message)
    (j : String) : ((r.queues.set id { queue with messages }).get? j).map CorrelationQueue.number =
      (r.queues.get? j).map CorrelationQueue.number := by
  rw [Dict.get?_set]
  split_ifs with hj
  · rw [hj, h]
    rfl
  · rfl

theorem getMessage_serves {timeout : Option ℚ} (h : r.getMessage id timeout = some r') : Serves r r' := by
  rw [CorrelationRegistry.getMessage, Option.map_eq_some_iff] at h
  obtain ⟨queue, hqueue, rfl⟩ := h
  split
  · exact ⟨le_rfl, rfl, rfl, rfl, number_set hqueue _, fun w hw => .inl hw⟩
  · refine ⟨le_rfl, rfl, rfl, rfl, fun _ => rfl, fun w hw => ?_⟩
    obtain hw | hw := List.mem_append.1 hw
    · exact .inl hw
    · rw [List.mem_singleton.1 hw]
      exact .inr ⟨id, queue, hqueue, rfl⟩

theorem resume_serves {w : Waiter} (h : r.resume w = some r') : Serves r r' := by
  rw [CorrelationRegistry.resume, Option.bind_eq_some_iff] at h
  obtain ⟨⟨j, queue⟩, hfind, h⟩ := h
  have hqueue : r.queues.get? j = some queue := Dict.mem_items_iff.1 (List.mem_of_find?_eq_some hfind)
  split at h
  · cases h
  · obtain rfl := Option.some.inj h
    exact ⟨le_rfl, rfl, rfl, rfl, number_set hqueue _, fun v hv => .inl (List.mem_of_mem_erase hv)⟩

/-! ## The invariant is kept -/

variable {x y : Traced Message} {p : String → Prop}

theorem numbered_of_touches {timeout : ℚ} (hnumbered : Numbered r) (h : Touches r r' id timeout) : Numbered r' := by
  obtain ⟨queue, hqueue, hcase⟩ := h.queue
  -- the queue under an id is an old one, or the one with the new number
  have hold : ∀ j queue', r'.queues.get? j = some queue' →
      (∃ old, r.queues.get? j = some old ∧ queue'.number = old.number) ∨
        j = id ∧ queue'.number = r.nextQueue ∧ r'.nextQueue = r.nextQueue + 1 := by
    intro j queue' hj
    by_cases hid : j = id
    · subst hid
      obtain rfl := Option.some.inj (hqueue.symm.trans hj)
      obtain ⟨old, hold, hnumber, -⟩ | ⟨-, hnumber, hnext⟩ := hcase
      · exact .inl ⟨old, hold, hnumber⟩
      · exact .inr ⟨rfl, hnumber, hnext⟩
    · exact .inl ⟨queue', (h.others j hid).1 ▸ hj, rfl⟩
  have hnext : r.nextQueue ≤ r'.nextQueue := by
    obtain ⟨-, -, -, hnext⟩ | ⟨-, -, hnext⟩ := hcase <;> omega
  constructor
  · intro j queue' hj
    obtain ⟨old, hj', hnumber⟩ | ⟨-, hnumber, hnext'⟩ := hold j queue' hj
    · have := hnumbered.lt j old hj'
      omega
    · omega
  · intro j k queue₁ queue₂ hj hk heq
    obtain ⟨old₁, hj', hnumber₁⟩ | ⟨hj', hnumber₁, -⟩ := hold j queue₁ hj
    · have := hnumbered.lt j old₁ hj'
      obtain ⟨old₂, hk', hnumber₂⟩ | ⟨-, hnumber₂, -⟩ := hold k queue₂ hk
      · exact hnumbered.inj j k old₁ old₂ hj' hk' (by omega)
      · omega
    · obtain ⟨old₂, hk', hnumber₂⟩ | ⟨hk', -, -⟩ := hold k queue₂ hk
      · have := hnumbered.lt k old₂ hk'
        omega
      · rw [hj', hk']

theorem Invariant.of_touches (h : Invariant x) {timeout asked' : ℚ} (htouches : Touches x.registry r' id timeout)
    (hasked : asked' ≤ max 0 timeout) :
    Invariant { x with
      registry := r'
      asked := Function.update x.asked id asked'
      touched := Function.update x.touched id x.registry.now } where
  entry j := by
    dsimp only
    obtain ⟨queue, hqueue, hcase⟩ := htouches.queue
    by_cases hj : j = id
    · subst hj
      obtain ⟨metadata, hmetadata, hactive⟩ := htouches.metadata
      rw [Function.update_self, Function.update_self, ← htouches.now_eq]
      exact .touch (Dict.contains_iff.2 ⟨queue, hqueue⟩) hmetadata (hactive.trans htouches.now_eq.symm)
        (htouches.now_eq ▸ htouches.task) hasked
    · obtain ⟨hqueues, hmetadata, htasks⟩ := htouches.others j hj
      rw [Function.update_of_ne hj, Function.update_of_ne hj]
      exact (h.entry j).congr htouches.now_eq.ge (by rw [Dict.contains, Dict.contains, hqueues]) hmetadata htasks
  numbered := numbered_of_touches h.numbered htouches
  kept := {
    lawful := h.kept.lawful
    attended := fun w hw => by
      rw [htouches.waiters_eq] at hw
      obtain ⟨j, queue, hqueue, hnumber⟩ := h.kept.attended w hw
      by_cases hj : j = id
      · subst hj
        obtain ⟨queue', hqueue', ⟨old, hold, hsame, -⟩ | ⟨hnone, -⟩⟩ := htouches.queue
        · obtain rfl := Option.some.inj (hold.symm.trans hqueue)
          exact ⟨j, queue', hqueue', hsame.trans hnumber⟩
        · rw [hnone] at hqueue
          cases hqueue
      · exact ⟨j, queue, by rw [(htouches.others j hj).1, hqueue], hnumber⟩ }

theorem Invariant.of_drops (h : Invariant x) (hdrops : Drops x.registry r' p)
    (hclear : ∀ j, p j → ¬ Awaited x.registry j) : Invariant { x with registry := r' } where
  entry j := by
    by_cases hj : p j
    · obtain ⟨hqueue, hmetadata, htask⟩ := hdrops.gone j hj
      exact .dropped (by rw [Dict.contains, hqueue]; rfl) hmetadata htask
        (hdrops.now_eq.symm ▸ (h.entry j).past)
    · obtain ⟨hqueue, hmetadata, htask⟩ := hdrops.others j hj
      exact (h.entry j).congr hdrops.now_eq.ge (by rw [Dict.contains, Dict.contains, hqueue]) hmetadata htask
  numbered := by
    have hold : ∀ j queue, r'.queues.get? j = some queue → x.registry.queues.get? j = some queue := by
      intro j queue hj
      by_cases hp : p j
      · rw [(hdrops.gone j hp).1] at hj
        cases hj
      · rw [← (hdrops.others j hp).1, hj]
    exact ⟨fun j queue hj => hdrops.nextQueue_eq ▸ h.numbered.lt j queue (hold j queue hj),
      fun j k _ _ hj hk => h.numbered.inj j k _ _ (hold j _ hj) (hold k _ hk)⟩
  kept := {
    lawful := h.kept.lawful
    attended := fun w hw => by
      have hw' : w ∈ x.registry.waiters := hdrops.waiters_eq ▸ hw
      obtain ⟨j, queue, hqueue, hnumber⟩ := h.kept.attended w hw'
      have hp : ¬ p j := fun hp => hclear j hp ⟨queue, hqueue, w, hw', hnumber.symm⟩
      exact ⟨j, queue, by rw [(hdrops.others j hp).1, hqueue], hnumber⟩ }

theorem Invariant.of_serves (h : Invariant x) (hserves : Serves x.registry r') :
    Invariant { x with registry := r' } := by
  have hcontains (j : String) : r'.queues.contains j = x.registry.queues.contains j := by
    have := congrArg Option.isSome (hserves.number_eq j)
    rwa [Option.isSome_map, Option.isSome_map] at this
  -- a queue keeps its number, back and forth
  have hback : ∀ j queue, r'.queues.get? j = some queue →
      ∃ old, x.registry.queues.get? j = some old ∧ old.number = queue.number := by
    intro j queue hj
    have := hserves.number_eq j
    rw [hj] at this
    exact Option.map_eq_some_iff.1 this.symm
  have hforth : ∀ j queue, x.registry.queues.get? j = some queue →
      ∃ queue', r'.queues.get? j = some queue' ∧ queue'.number = queue.number := by
    intro j queue hj
    have := hserves.number_eq j
    rw [hj] at this
    exact Option.map_eq_some_iff.1 this
  constructor
  · exact fun j => (h.entry j).congr hserves.now_le (hcontains j) (by rw [hserves.metadata_eq])
      (by rw [hserves.tasks_eq])
  · constructor
    · intro j queue hj
      obtain ⟨old, hold, hnumber⟩ := hback j queue hj
      rw [← hnumber]
      exact hserves.nextQueue_eq.symm ▸ h.numbered.lt j old hold
    · intro j k queue queue' hj hk heq
      obtain ⟨old, hold, hnumber⟩ := hback j queue hj
      obtain ⟨old', hold', hnumber'⟩ := hback k queue' hk
      exact h.numbered.inj j k old old' hold hold' (by rw [hnumber, hnumber', heq])
  · refine ⟨h.kept.lawful, fun w hw => ?_⟩
    have hfound : ∃ j queue, x.registry.queues.get? j = some queue ∧ queue.number = w.queue := by
      obtain hw | hw := hserves.waiters w hw
      · exact h.kept.attended w hw
      · exact hw
    obtain ⟨j, queue, hqueue, hnumber⟩ := hfound
    obtain ⟨queue', hqueue', hnumber'⟩ := hforth j queue hqueue
    exact ⟨j, queue', hqueue', hnumber'.trans hnumber⟩

theorem Invariant.expire_eq (h : Invariant x) {task : ExpirationTask} (htask : x.registry.tasks.get? id = some task)
    (hwake : task.wakeAt ≤ x.registry.now) :
    x.registry.expire id task = x.registry.unregister id ∧ x.registry.isRegistered id = true ∧
      x.asked id ≤ x.registry.now - x.touched id := by
  obtain ⟨hcontains, hwakeAt, hasked⟩ := (h.entry id).task task htask
  obtain ⟨metadata, hmetadata⟩ := Dict.contains_iff.1 hcontains
  have hactive := (h.entry id).active metadata hmetadata
  have hpast := (h.entry id).past
  have hidle : task.timeout ≤ x.registry.now - x.touched id := by linarith
  refine ⟨?_, (h.entry id).contains_eq.trans hcontains, hasked.trans (max_le (by linarith) hidle)⟩
  rw [CorrelationRegistry.expire, hmetadata]
  exact if_pos (hactive.symm ▸ hidle)

theorem isRegistered_unregister (r : CorrelationRegistry Message) (id : String) :
    (r.unregister id).isRegistered id = false := by
  rw [CorrelationRegistry.unregister]
  show CorrelationRegistry.isRegistered (if r.queues.contains id = true then _ else _) id = false
  split_ifs with hregistered
  · show Option.isSome _ = false
    rw [Dict.get?_erase_self]
    rfl
  · exact Bool.not_eq_true _ |>.mp hregistered

/-- **Every careful step keeps the invariant.** -/
theorem Invariant.step (h : Invariant x) {e : RegistryEvent Message} (hcareful : Careful x e)
    (hstep : x.step e = some y) : Invariant y := by
  rw [Traced.step, Option.map_eq_some_iff] at hstep
  obtain ⟨r', hr', rfl⟩ := hstep
  cases e with
  | advance t =>
    rw [CorrelationRegistry.step] at hr'
    split_ifs at hr' with ht
    obtain rfl := Option.some.inj hr'
    exact h.of_serves ⟨ht, rfl, rfl, rfl, fun _ => rfl, fun w hw => .inl hw⟩
  | register id timeout =>
    obtain rfl := Option.some.inj hr'
    exact h.of_touches (register_touches (h.entry id).contains_eq timeout) (le_max_right _ _)
  | unregister id =>
    obtain rfl := Option.some.inj hr'
    refine h.of_drops (unregister_drops (h.entry id).contains_eq) ?_
    rintro _ rfl
    exact hcareful
  | clear =>
    obtain rfl := Option.some.inj hr'
    exact h.of_drops (clear_drops _) fun j _ => hcareful j
  | route id message =>
    obtain rfl := Option.some.inj hr'
    rw [record]
    cases hregistered : x.registry.isRegistered id with
    | true =>
      obtain ⟨queue, hqueue⟩ := Dict.contains_iff.1 hregistered
      obtain ⟨metadata, hmetadata⟩ := Dict.contains_iff.1 ((h.entry id).contains_eq.symm.trans hregistered)
      have := h.of_touches (routeMessage_touches hqueue hmetadata message) (hcareful metadata hmetadata)
      rwa [Function.update_eq_self] at this
    | false =>
      rw [routeMessage_of_none (get?_eq_none_of_contains hregistered)]
      exact h
  | getMessage id timeout => exact h.of_serves (getMessage_serves hr')
  | expire id =>
    obtain ⟨task, htask, hr'⟩ := Option.bind_eq_some_iff.1 hr'
    split_ifs at hr' with hwake
    obtain rfl := Option.some.inj hr'
    obtain ⟨hexpire, hregistered, hidle⟩ := h.expire_eq htask hwake
    have hdrop := h.of_drops (unregister_drops (h.entry id).contains_eq) (by
      rintro _ rfl
      exact hcareful)
    rw [record, hexpire, hregistered, isRegistered_unregister]
    refine ⟨hdrop.entry, hdrop.numbered, ⟨fun e he => ?_, hdrop.kept.attended⟩⟩
    obtain he | he := List.mem_append.1 he
    · exact h.kept.lawful e he
    · rw [List.mem_singleton.1 he]
      exact hidle
  | resume w =>
    rw [CorrelationRegistry.step] at hr'
    split_ifs at hr'
    exact h.of_serves (resume_serves hr')
  | giveUp w =>
    rw [CorrelationRegistry.step] at hr'
    split_ifs at hr'
    obtain rfl := Option.some.inj hr'
    exact h.of_serves ⟨le_rfl, rfl, rfl, rfl, fun _ => rfl, fun v hv => .inl (List.mem_of_mem_erase hv)⟩

theorem Invariant.start (now : ℚ) : Invariant (Traced.start now : Traced Message) where
  entry _ := .dropped rfl rfl rfl le_rfl
  numbered := ⟨(by rintro _ _ ⟨⟩), (by rintro _ _ _ _ ⟨⟩)⟩
  kept := ⟨fun _ h => (List.not_mem_nil h).elim, fun _ h => (List.not_mem_nil h).elim⟩

/-- Every careful run keeps the invariant of the registry. -/
theorem Invariant.of_reachable (h : ((system Message).restrict Careful).Reachable x) : Invariant x := by
  refine h.invariant ?_ fun _ _ _ hx hstep => hx.step hstep.1 hstep.2
  rintro _ ⟨now, rfl⟩
  exact .start now

/-! ## Steps that are not careful -/

theorem not_kept_of_drops (hnumbered : Numbered r) (hdrops : Drops r r' p) {j : String} (hj : p j)
    (hawaited : Awaited r j) (hy : y.registry = r') : ¬ Kept y := by
  intro hkept
  obtain ⟨queue, hqueue, w, hw, hnumber⟩ := hawaited
  obtain ⟨k, queue', hqueue', hnumber'⟩ := hkept.attended w (by rwa [hy, hdrops.waiters_eq])
  rw [hy] at hqueue'
  have hk : ¬ p k := by
    intro hk
    rw [(hdrops.gone k hk).1] at hqueue'
    cases hqueue'
  have hsame := hnumbered.inj j k queue queue' hqueue ((hdrops.others k hk).1 ▸ hqueue') (by rw [hnumber', hnumber])
  exact hk (hsame ▸ hj)

theorem early_of_route (h : Invariant x) {metadata : Metadata} (hmetadata : x.registry.metadata.get? id = some metadata)
    (hshort : max 0 metadata.timeout < x.asked id) {message : Message}
    (hstep : x.step (.route id message) = some y) : ∃ es z, (system Message).Run y es z ∧ ¬ Kept z := by
  obtain ⟨queue, hqueue⟩ := Dict.contains_iff.1 ((h.entry id).contains_eq.trans (Dict.contains_iff.2 ⟨_, hmetadata⟩))
  have htouches := routeMessage_touches hqueue hmetadata message
  rw [Traced.step, Option.map_eq_some_iff] at hstep
  obtain ⟨_, ⟨⟩, rfl⟩ := hstep
  have hregistered : x.registry.isRegistered id = true := Dict.contains_iff.2 ⟨_, hqueue⟩
  rw [record, if_pos hregistered]
  generalize x.registry.routeMessage id message = r' at htouches
  set now := x.registry.now
  set late := max now (now + metadata.timeout) with hlate
  obtain ⟨metadata', hmetadata', hactive⟩ := htouches.metadata
  obtain ⟨queue', hqueue', -⟩ := htouches.queue
  have hidle : late - now = max 0 metadata.timeout := by
    rw [hlate, ← max_sub_sub_right, sub_self, add_sub_cancel_left]
  set r'' : CorrelationRegistry Message := { r' with now := late }
  have hregistered' : r''.isRegistered id = true := Dict.contains_iff.2 ⟨_, hqueue'⟩
  have hadvance (touched : String → ℚ) : Traced.step ⟨r', x.asked, touched, x.expired⟩ (.advance late) =
      some ⟨r'', x.asked, touched, x.expired⟩ := by
    show Option.map _ (if r'.now ≤ late then some r'' else none) = _
    rw [if_pos (htouches.now_eq.trans_le (le_max_left _ _))]
    rfl
  have hexpire : r''.step (.expire id) = some (r''.unregister id) := by
    show (r'.tasks.get? id).bind _ = _
    rw [htouches.task, Option.bind_some, if_pos (show now + metadata.timeout ≤ late from le_max_right _ _)]
    simp only [CorrelationRegistry.expire, r'', hmetadata']
    rw [if_pos (show metadata.timeout ≤ late - metadata'.lastActivity by
      rw [hactive, hidle]
      exact le_max_right _ _)]
  have hdrop : Traced.step ⟨r'', x.asked, Function.update x.touched id now, x.expired⟩ (.expire id) =
      some ⟨r''.unregister id, x.asked, Function.update x.touched id now,
        x.expired ++ [⟨x.asked id, late - Function.update x.touched id now id⟩]⟩ := by
    rw [Traced.step, hexpire, Option.map_some, record, hregistered', isRegistered_unregister]
    rfl
  refine ⟨[.advance late, .expire id], _, .cons (hadvance _) (.cons hdrop (.nil _)), fun hkept => ?_⟩
  have hlawful := hkept.lawful _ (List.mem_append_right _ (List.mem_singleton_self _))
  rw [Function.update_self, hidle] at hlawful
  exact hlawful.not_gt hshort

/-- **Where the law holds**: in every state that careful steps lead to; and any other step leads to a state where it
does not, or to one after which it can be broken. -/
theorem timeouts_kept (h : ((system Message).restrict Careful).Reachable x) :
    Kept x ∧ ∀ e y, x.step e = some y → ¬ Careful x e → ∃ es z, (system Message).Run y es z ∧ ¬ Kept z := by
  have hx := Invariant.of_reachable h
  refine ⟨hx.kept, fun e y hstep hcareless => ?_⟩
  have hnow {r' : CorrelationRegistry Message} {p : String → Prop} {j : String} (hdrops : Drops x.registry r' p)
      (hj : p j) (hawaited : Awaited x.registry j) (hy : y.registry = r') :
      ∃ es z, (system Message).Run y es z ∧ ¬ Kept z :=
    ⟨[], y, .nil y, not_kept_of_drops hx.numbered hdrops hj hawaited hy⟩
  cases e with
  | route id message =>
    simp only [Careful, not_forall, not_le] at hcareless
    obtain ⟨metadata, hmetadata, hshort⟩ := hcareless
    exact early_of_route hx hmetadata hshort hstep
  | unregister id =>
    obtain ⟨_, ⟨⟩, rfl⟩ := Option.map_eq_some_iff.1 hstep
    exact hnow (unregister_drops (hx.entry id).contains_eq) rfl (not_not.1 hcareless) rfl
  | clear =>
    obtain ⟨_, ⟨⟩, rfl⟩ := Option.map_eq_some_iff.1 hstep
    simp only [Careful, not_forall, not_not] at hcareless
    obtain ⟨id, hawaited⟩ := hcareless
    exact hnow (clear_drops _) trivial hawaited rfl
  | expire id =>
    obtain ⟨r', hr', rfl⟩ := Option.map_eq_some_iff.1 hstep
    obtain ⟨task, htask, hr'⟩ := Option.bind_eq_some_iff.1 hr'
    split_ifs at hr' with hwake
    obtain rfl := Option.some.inj hr'
    obtain ⟨hexpire, hregistered, -⟩ := hx.expire_eq htask hwake
    refine hnow (unregister_drops (hx.entry id).contains_eq) rfl (not_not.1 hcareless) ?_
    rw [record, hexpire, hregistered, isRegistered_unregister]
    rfl
  | advance | register | getMessage | resume | giveUp => exact (hcareless trivial).elim

/-- Two correlations are registered, a call waits for one, a message comes for the other, and 10 seconds later that one
expires. -/
def expiredAlone : List (RegistryEvent Unit) :=
  [.register "a" 10, .register "b" 20, .getMessage "b" none, .route "a" (), .advance 10, .expire "a"]

/-- The registry behind the first of these. -/
def afterAlone (n : ℕ) : Traced Unit :=
  (System.exec Traced.step (Traced.start 0) (expiredAlone.take n)).getD (Traced.start 0)

theorem timeouts_kept_expiredAlone : (afterAlone 6).expired.map Expiry.timeout = [10] ∧
    (afterAlone 6).registry.waiters = [⟨1, none⟩] ∧ Kept (afterAlone 6) ∧ ∀ e y, (afterAlone 6).step e = some y →
      ¬ Careful (afterAlone 6) e → ∃ es z, (system Unit).Run y es z ∧ ¬ Kept z := by
  have hasked : Careful (afterAlone 3) (.route "a" ()) := by
    intro metadata hmetadata
    cases hmetadata
    exact le_max_right 0 10
  have hfree : Careful (afterAlone 5) (.expire "a") := by
    rintro ⟨queue, hqueue, w, hw, hnumber⟩
    obtain rfl : queue = ⟨0, [()]⟩ := Option.some.inj (hqueue.symm.trans (by with_unfolding_all rfl))
    obtain rfl : w = ⟨1, none⟩ := List.mem_singleton.1 hw
    cases hnumber
  have hrun : ((system Unit).restrict Careful).Reachable (afterAlone 6) :=
    .step (s := afterAlone 5) (.step (a := .advance 10) (s := afterAlone 4) (.step (s := afterAlone 3)
      (.step (a := .getMessage "b" none) (s := afterAlone 2) (.step (a := .register "b" 20) (s := afterAlone 1)
        (.step (a := .register "a" 10) (.init ⟨0, rfl⟩) ⟨trivial, rfl⟩) ⟨trivial, rfl⟩) ⟨trivial, rfl⟩)
      ⟨hasked, rfl⟩) ⟨trivial, by with_unfolding_all rfl⟩) ⟨hfree, by with_unfolding_all rfl⟩
  exact ⟨by with_unfolding_all decide, by with_unfolding_all rfl, timeouts_kept hrun⟩

/-- A correlation is registered for 10 seconds and then for 300, a message comes, and 10 seconds later it expires. -/
def reregistered : List (RegistryEvent Unit) :=
  [.register "a" 10, .register "a" 300, .route "a" (), .advance 10, .expire "a"]

theorem expired_early : ∃ z, (system Unit).Run (Traced.start 0) reregistered z ∧ ¬ Kept z := by
  obtain ⟨z, hz⟩ := Option.isSome_iff_exists.1
    (show (System.exec Traced.step (Traced.start 0) reregistered).isSome = true by with_unfolding_all decide)
  have hexpired : z.expired.map (fun e => (e.timeout, e.idle)) = [(300, 10)] := by
    have h := congrArg (fun x => x.map fun z : Traced Unit => z.expired.map fun e => (e.timeout, e.idle)) hz
    exact Option.some.inj (h.symm.trans (by with_unfolding_all decide))
  refine ⟨z, System.run_of_exec hz, fun hkept => ?_⟩
  obtain ⟨e, he, heq⟩ := List.mem_map.1 (hexpired ▸ List.mem_singleton_self ((300 : ℚ), (10 : ℚ)))
  have hlawful := hkept.lawful e he
  rw [(Prod.mk.inj heq).1, (Prod.mk.inj heq).2] at hlawful
  norm_num at hlawful

end LlmGateway.MessagePump
