import Mathlib.Data.List.Basic
import Mathlib.Data.Nat.Notation
import Mathlib.Data.List.GetD

/-!
# The queues of subscribers

Every event that was stored is offered to the queue of each subscriber. A queue that is full gives up its head for a
notice that one event is missing, and the event that found it full is not queued either. So what a subscriber has
got, will get and is told to have missed falls short of what was offered by one for every event that found the queue
full (`accounted_add_overflows`).
-/

namespace LlmGateway.EventStore

/-- What a subscriber's queue holds: events, and `events.dropped.subscribe` notices with their counts. -/
inductive Item (ε : Type) where
  | event (e : ε)
  | dropped (count : ℕ)
  deriving DecidableEq

/-- A subscriber's queue, and what was taken from it. A bound of zero is no bound. -/
structure Subscriber (ε : Type) where
  maxsize : ℕ
  queue : List (Item ε)
  taken : List (Item ε)
  deriving DecidableEq

namespace Subscriber

variable {ε : Type}

/-- A queue that was just made. -/
def connected (maxsize : ℕ) : Subscriber ε := ⟨maxsize, [], []⟩

def full (s : Subscriber ε) : Bool := decide (0 < s.maxsize) && decide (s.maxsize ≤ s.queue.length)

/-- `sq.put_nowait(x)`, unless it raises `QueueFull`. -/
def putNowait (s : Subscriber ε) (x : Item ε) : Option (Subscriber ε) :=
  if s.full then none else some { s with queue := s.queue ++ [x] }

/-- `sq.get_nowait()`, unless it raises `QueueEmpty`. Nobody keeps what is removed. -/
def evict (s : Subscriber ε) : Option (Subscriber ε) :=
  match s.queue with
  | [] => none
  | _ :: queue => some { s with queue := queue }

/-- A get of the consumer, which waits while the queue is empty. -/
def get (s : Subscriber ε) : Subscriber ε :=
  match s.queue with
  | [] => s
  | x :: queue => { s with queue := queue, taken := s.taken ++ [x] }

/-- `_fan_out` to one queue, and whether it counts as dead. -/
def offer (s : Subscriber ε) (e : ε) : Subscriber ε × Bool :=
  match s.putNowait (.event e) with
  | some s => (s, false)
  | none =>
    match s.evict with
    | none => (s, true)
    | some s =>
      match s.putNowait (.dropped 1) with
      | none => (s, true)
      | some s => (s, false)

end Subscriber

section FanOut

variable {ε : Type}

/-- `_fan_out`: the queues that are not dead, and how many were full. -/
def fanOut (subscribers : List (Subscriber ε)) (e : ε) : List (Subscriber ε) × ℕ :=
  (((subscribers.map fun s => s.offer e).filter fun r => !r.2).map Prod.fst, subscribers.countP Subscriber.full)

/-- What happens to the queues: an event is fanned out, or a consumer takes from its queue. -/
inductive QueueAct (ε : Type) where
  | fanOut (e : ε)
  | get (i : ℕ)

/-- The queues after an act. -/
def nextQueues (subscribers : List (Subscriber ε)) : QueueAct ε → List (Subscriber ε)
  | .fanOut e => (fanOut subscribers e).1
  | .get i => subscribers.modify i Subscriber.get

/-- The queues after all acts. -/
def runQueues (subscribers : List (Subscriber ε)) (acts : List (QueueAct ε)) : List (Subscriber ε) :=
  acts.foldl nextQueues subscribers

/-! ## Accounts -/

/-- How many events there are among the items. -/
def eventCount : List (Item ε) → ℕ
  | [] => 0
  | .event _ :: items => eventCount items + 1
  | .dropped _ :: items => eventCount items

/-- The sum of the counts of the notices among the items. -/
def droppedCount : List (Item ε) → ℕ
  | [] => 0
  | .event _ :: items => droppedCount items
  | .dropped count :: items => droppedCount items + count

/-- The events that were taken or are queued, with those that notices tell of. -/
def Subscriber.accounted (s : Subscriber ε) : ℕ :=
  eventCount s.taken + eventCount s.queue + (droppedCount s.taken + droppedCount s.queue)

/-- How many events are fanned out. -/
def fannedOut : List (QueueAct ε) → ℕ
  | [] => 0
  | .fanOut _ :: acts => fannedOut acts + 1
  | .get _ :: acts => fannedOut acts

/-- Whether the `i`-th queue is full. -/
def isFull (subscribers : List (Subscriber ε)) (i : ℕ) : Bool := (subscribers[i]?.map Subscriber.full).getD false

/-- How many events find the `i`-th queue full. -/
def overflows (i : ℕ) (subscribers : List (Subscriber ε)) : List (QueueAct ε) → ℕ
  | [] => 0
  | .fanOut e :: acts =>
    overflows i (nextQueues subscribers (.fanOut e)) acts + if isFull subscribers i then 1 else 0
  | .get j :: acts => overflows i (nextQueues subscribers (.get j)) acts

/-- No event finds the `i`-th queue full. -/
def NeverFull (i : ℕ) (subscribers : List (Subscriber ε)) (acts : List (QueueAct ε)) : Prop :=
  ∀ before e after, acts = before ++ .fanOut e :: after → isFull (runQueues subscribers before) i = false

@[simp] theorem eventCount_append (items items' : List (Item ε)) :
    eventCount (items ++ items') = eventCount items + eventCount items' := by
  induction items with
  | nil => simp [eventCount]
  | cons x items ih =>
    cases x with
    | event e =>
      rw [List.cons_append, eventCount, eventCount, ih]
      omega
    | dropped count => rw [List.cons_append, eventCount, eventCount, ih]

@[simp] theorem droppedCount_append (items items' : List (Item ε)) :
    droppedCount (items ++ items') = droppedCount items + droppedCount items' := by
  induction items with
  | nil => simp [droppedCount]
  | cons x items ih =>
    cases x with
    | event e => rw [List.cons_append, droppedCount, droppedCount, ih]
    | dropped count =>
      rw [List.cons_append, droppedCount, droppedCount, ih]
      omega

/-! ## One queue -/

namespace Subscriber

/-- What holds of every queue: it keeps its bound, and its notices are about one event each. -/
structure Sound (s : Subscriber ε) : Prop where
  bounded : 0 < s.maxsize → s.queue.length ≤ s.maxsize
  single : ∀ count, Item.dropped count ∈ s.queue → count = 1

theorem sound_connected (maxsize : ℕ) : (connected maxsize : Subscriber ε).Sound where
  bounded _ := Nat.zero_le _
  single _ h := absurd h List.not_mem_nil

variable {s : Subscriber ε}

theorem full_iff : s.full = true ↔ 0 < s.maxsize ∧ s.maxsize ≤ s.queue.length := by
  rw [full, Bool.and_eq_true, decide_eq_true_iff, decide_eq_true_iff]

/-- What an offer does: the event is queued, or the head makes place for a notice. -/
theorem Sound.offer_cases (h : s.Sound) (e : ε) :
    (s.full = false ∧ s.offer e = ({ s with queue := s.queue ++ [.event e] }, false)) ∨
    (s.full = true ∧ ∃ x queue, s.queue = x :: queue ∧
      s.offer e = ({ s with queue := queue ++ [.dropped 1] }, false)) := by
  by_cases hfull : s.full = true
  · refine .inr ⟨hfull, ?_⟩
    obtain ⟨hpos, hle⟩ := full_iff.1 hfull
    have hbound := h.bounded hpos
    cases hqueue : s.queue with
    | nil =>
      rw [hqueue, List.length_nil] at hle
      omega
    | cons x queue =>
      rw [hqueue, List.length_cons] at hbound
      have hroom : ({ s with queue := queue } : Subscriber ε).full = false := by
        rw [Bool.eq_false_iff, ne_eq, full_iff]
        dsimp only
        omega
      exact ⟨x, queue, rfl, by simp [offer, putNowait, evict, hfull, hqueue, hroom]⟩
  · rw [Bool.not_eq_true] at hfull
    exact .inl ⟨hfull, by simp [offer, putNowait, hfull]⟩

theorem Sound.offer (h : s.Sound) (e : ε) : (s.offer e).1.Sound := by
  obtain ⟨hfull, heq⟩ | ⟨hfull, x, queue, hqueue, heq⟩ := h.offer_cases e
  · rw [heq]
    refine ⟨fun hpos => ?_, fun count hcount => ?_⟩
    · have hroom : ¬ (0 < s.maxsize ∧ s.maxsize ≤ s.queue.length) := fun hle =>
        Bool.false_ne_true (hfull.symm.trans (full_iff.2 hle))
      rw [List.length_append, List.length_singleton]
      dsimp only at hpos ⊢
      omega
    · simp only [List.mem_append, List.mem_singleton, reduceCtorEq, or_false] at hcount
      exact h.single count hcount
  · rw [heq]
    have hbound := h.bounded
    have hsingle := h.single
    rw [hqueue] at hbound hsingle
    refine ⟨fun hpos => ?_, fun count hcount => ?_⟩
    · simpa using hbound hpos
    · obtain hmem | hmem := List.mem_append.1 hcount
      · exact hsingle count (List.mem_cons_of_mem _ hmem)
      · exact (Item.dropped.inj (List.mem_singleton.1 hmem))

theorem Sound.accounted_offer (h : s.Sound) (e : ε) :
    (s.offer e).1.accounted + (if s.full then 1 else 0) = s.accounted + 1 := by
  obtain ⟨hfull, heq⟩ | ⟨hfull, x, queue, hqueue, heq⟩ := h.offer_cases e
  · rw [heq, hfull]
    simp only [accounted, eventCount_append, droppedCount_append, eventCount, droppedCount, Bool.false_eq_true, if_false]
    omega
  · rw [heq, hfull]
    simp only [accounted, eventCount_append, droppedCount_append, eventCount, droppedCount, if_true, hqueue]
    cases x with
    | event e =>
      simp only [eventCount, droppedCount]
      omega
    | dropped count =>
      -- the notice that goes counts what the notice that comes counts
      obtain rfl := h.single count (hqueue ▸ List.mem_cons_self ..)
      simp only [eventCount, droppedCount]
      omega

theorem Sound.get (h : s.Sound) : s.get.Sound := by
  rw [Subscriber.get]
  cases hqueue : s.queue with
  | nil => exact h
  | cons x queue =>
    have hbound := h.bounded
    have hsingle := h.single
    rw [hqueue] at hbound hsingle
    exact ⟨fun hpos => Nat.le_trans (Nat.le_succ _) (hbound hpos), fun count hcount =>
      hsingle count (List.mem_cons_of_mem _ hcount)⟩

theorem accounted_get (s : Subscriber ε) : s.get.accounted = s.accounted := by
  rw [Subscriber.get]
  cases hqueue : s.queue with
  | nil => rfl
  | cons x queue =>
    cases x <;> simp only [accounted, hqueue, eventCount_append, droppedCount_append, eventCount, droppedCount] <;> omega

end Subscriber

/-! ## All queues -/

open Subscriber (Sound)

variable {subscribers : List (Subscriber ε)}

theorem fanOut_fst (h : ∀ s ∈ subscribers, s.Sound) (e : ε) :
    (fanOut subscribers e).1 = subscribers.map fun s => (s.offer e).1 := by
  have hlive : ∀ r ∈ subscribers.map (fun s => s.offer e), (!r.2) = true := by
    intro r hr
    obtain ⟨s, hs, rfl⟩ := List.mem_map.1 hr
    obtain ⟨-, heq⟩ | ⟨-, _, _, -, heq⟩ := (h s hs).offer_cases e <;> rw [heq] <;> rfl
  rw [fanOut, List.filter_eq_self.2 hlive, List.map_map]
  rfl

/-- Every action keeps the queues of all subscribers sound. -/
theorem sound_nextQueues (h : ∀ s ∈ subscribers, s.Sound) (a : QueueAct ε) :
    ∀ s ∈ nextQueues subscribers a, s.Sound := by
  intro s hs
  cases a with
  | fanOut e =>
    rw [nextQueues, fanOut_fst h] at hs
    obtain ⟨t, ht, rfl⟩ := List.mem_map.1 hs
    exact (h t ht).offer e
  | get i =>
    rw [nextQueues] at hs
    obtain ⟨j, hj⟩ := List.mem_iff_getElem?.1 hs
    rw [List.getElem?_modify] at hj
    obtain ⟨t, ht, rfl⟩ := Option.map_eq_some_iff.1 hj
    have hsound := h t (List.mem_of_getElem? ht)
    split_ifs
    · exact hsound.get
    · exact hsound

theorem length_runQueues (h : ∀ s ∈ subscribers, s.Sound) (acts : List (QueueAct ε)) :
    (runQueues subscribers acts).length = subscribers.length := by
  induction acts generalizing subscribers with
  | nil => rfl
  | cons a acts ih =>
    refine (ih (sound_nextQueues h a)).trans ?_
    cases a with
    | fanOut e => rw [nextQueues, fanOut_fst h, List.length_map]
    | get i => rw [nextQueues, List.length_modify]

theorem accounted_add_overflows (h : ∀ s ∈ subscribers, s.Sound) (acts : List (QueueAct ε)) (i : ℕ)
    {s t : Subscriber ε} (hs : subscribers[i]? = some s) (ht : (runQueues subscribers acts)[i]? = some t) :
    t.accounted + overflows i subscribers acts = s.accounted + fannedOut acts := by
  induction acts generalizing subscribers s with
  | nil =>
    obtain rfl := Option.some.inj (hs.symm.trans ht)
    rfl
  | cons a acts ih =>
    have hsound := h s (List.mem_of_getElem? hs)
    cases a with
    | fanOut e =>
      have hoffer : (nextQueues subscribers (.fanOut e))[i]? = some (s.offer e).1 := by
        rw [nextQueues, fanOut_fst h, List.getElem?_map, hs, Option.map_some]
      have hrest := ih (sound_nextQueues h _) hoffer ht
      have hone := hsound.accounted_offer e
      have hfull : isFull subscribers i = s.full := by rw [isFull, hs, Option.map_some, Option.getD_some]
      rw [overflows, fannedOut, hfull]
      omega
    | get j =>
      have hget : ∃ u, (nextQueues subscribers (.get j))[i]? = some u ∧ u.accounted = s.accounted := by
        rw [nextQueues, List.getElem?_modify, hs]
        refine ⟨_, rfl, ?_⟩
        dsimp only
        split_ifs
        · exact s.accounted_get
        · rfl
      obtain ⟨u, hu, haccounted⟩ := hget
      rw [overflows, fannedOut, ih (sound_nextQueues h _) hu ht, haccounted]

theorem overflows_eq_zero_iff (i : ℕ) (acts : List (QueueAct ε)) :
    overflows i subscribers acts = 0 ↔ NeverFull i subscribers acts := by
  induction acts generalizing subscribers with
  | nil =>
    refine iff_of_true rfl fun before e after h => ?_
    exact absurd h.symm (List.append_ne_nil_of_right_ne_nil _ (List.cons_ne_nil _ _))
  | cons a acts ih =>
    have hcons : NeverFull i subscribers (a :: acts) ↔
        (∀ e, a = .fanOut e → isFull subscribers i = false) ∧ NeverFull i (nextQueues subscribers a) acts := by
      constructor
      · intro h
        refine ⟨fun e ha => h [] e acts (by rw [ha]; rfl), fun before e after hacts => ?_⟩
        exact h (a :: before) e after (by rw [hacts]; rfl)
      · rintro ⟨hfirst, hrest⟩ before e after heq
        cases before with
        | nil =>
          obtain ⟨ha, -⟩ := List.cons.inj heq
          exact hfirst e ha
        | cons b before =>
          obtain ⟨rfl, hacts⟩ := List.cons.inj heq
          exact hrest before e after hacts
    rw [hcons, ← ih]
    cases a with
    | fanOut e =>
      rw [overflows, Nat.add_eq_zero_iff, and_comm]
      refine and_congr_left fun _ => ?_
      cases hfull : isFull subscribers i <;> simp
    | get j => simp [overflows]

/-- What a subscriber has got, will get and is told to have missed adds up to what was fanned out just when its queue
was never full. -/
theorem accounted_iff_neverFull (sizes : List ℕ) (acts : List (QueueAct ε)) (i : ℕ) (s : Subscriber ε)
    (hs : (runQueues (sizes.map Subscriber.connected) acts)[i]? = some s) :
    s.accounted = fannedOut acts ↔ NeverFull i (sizes.map Subscriber.connected) acts := by
  have hsound : ∀ t ∈ sizes.map (Subscriber.connected (ε := ε)), t.Sound := by
    intro t ht
    obtain ⟨n, -, rfl⟩ := List.mem_map.1 ht
    exact Subscriber.sound_connected n
  obtain ⟨hlt, -⟩ := List.getElem?_eq_some_iff.1 hs
  rw [length_runQueues hsound, List.length_map] at hlt
  have hstart : (sizes.map (Subscriber.connected (ε := ε)))[i]? = some (.connected sizes[i]) := by
    rw [List.getElem?_map, List.getElem?_eq_getElem hlt, Option.map_some]
  have hbalance := accounted_add_overflows hsound acts i hstart hs
  have hzero : (Subscriber.connected sizes[i] : Subscriber ε).accounted = 0 := rfl
  rw [← overflows_eq_zero_iff]
  omega

/-- The fourth event finds two in a queue of two. -/
theorem accounted_iff_neverFull_overflow :
    ¬ NeverFull 0 ([2].map Subscriber.connected) [.fanOut 1, .fanOut 2, .get 0, .fanOut 3, .fanOut 4] := by
  intro h
  have haccounted := (accounted_iff_neverFull [2] [.fanOut 1, .fanOut 2, .get 0, .fanOut 3, .fanOut 4] 0
    ⟨2, [.event 3, .dropped 1], [.event 1]⟩ (by decide)).2 h
  revert haccounted
  decide

/-- One event finds the queue full: it and the one it drives out are both lost, and one notice with the count one
stands for the two. -/
theorem overflow_unaccounted : ¬ ∀ (sizes : List ℕ) (acts : List (QueueAct ℕ)) (i : ℕ) (s : Subscriber ℕ),
    (runQueues (sizes.map Subscriber.connected) acts)[i]? = some s → s.accounted = fannedOut acts := by
  intro h
  have haccounted := h [1] [.fanOut 1, .fanOut 2] 0 ⟨1, [.dropped 1], []⟩ (by decide)
  revert haccounted
  decide

end FanOut

end LlmGateway.EventStore
