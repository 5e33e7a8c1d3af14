import LlmGateway.Foundations.System
import Mathlib.Algebra.BigOperators.Group.Finset.Basic
import Mathlib.Algebra.Order.BigOperators.Group.Finset
import Mathlib.Data.Finset.Insert
import Mathlib.Data.Fintype.Basic
import Mathlib.Data.List.ReduceOption

/-!
# The write ticket

Writers of the agent-bus database are serialised inside the process: `write_connect` queues a
`threading.Event` (`enqueue_and_wait`), opens its connection when the event is set, and sets the event
of the next writer when it is done (`release_ticket`). A nested `write_connect` joins the connection of
the call around it.

The threads run in any interleaving of the blocks that `_mutex` makes atomic, and an exception can end
a call anywhere: `raise` models it, with what the `except` and `finally` clauses of `write_connect` do
at that place. While `enqueue_and_wait` has not returned, `ticket_event` is still `None` there, so
`cancel_wait` is not called and the event stays in the deque (`Stranded`).

The deque holds consecutive numbers (`Line`), which makes it a ticket lock; `Inv` says whose turn it is.
From it: at most one writer at a time (`mutual_exclusion`), grants in the order of the queue with no
gaps (`grants_in_order`), who can still be served (`canBeServed_iff`), and that a queue without
exceptions drains (`drains`).
-/

namespace LlmGateway.AgentBus.WriteTicket

/-! ## What the threads share -/

/-- `_deque`, and the events that are set. Events are numbered in the order in which they are queued. -/
structure Shared where
  deque : List ℕ
  flags : Finset ℕ
  next : ℕ

namespace Shared

/-- `_deque.append(my_event)`, for a new event. -/
def append (q : Shared) : Shared := { q with deque := q.deque ++ [q.next], next := q.next + 1 }

def set (q : Shared) (e : ℕ) : Shared := { q with flags := insert e q.flags }

/-- `_deque.popleft(); if _deque: _deque[0].set()`. -/
def advance (q : Shared) : Shared :=
  match q.deque.tail with
  | [] => { q with deque := [] }
  | f :: rest => { q with deque := f :: rest, flags := insert f q.flags }

def releaseTicket (q : Shared) (e : ℕ) : Shared :=
  if q.deque.head? = some e then q.advance else q

def cancelWait (q : Shared) (e : ℕ) : Shared :=
  if q.deque.head? = some e then q.advance else { q with deque := q.deque.erase e }

/-- How many events have left the deque. -/
def served (q : Shared) : ℕ := q.next - q.deque.length

@[simp] theorem deque_append (q : Shared) : q.append.deque = q.deque ++ [q.next] := rfl
@[simp] theorem flags_append (q : Shared) : q.append.flags = q.flags := rfl
@[simp] theorem next_append (q : Shared) : q.append.next = q.next + 1 := rfl
@[simp] theorem deque_set (q : Shared) (e : ℕ) : (q.set e).deque = q.deque := rfl
@[simp] theorem flags_set (q : Shared) (e : ℕ) : (q.set e).flags = insert e q.flags := rfl
@[simp] theorem next_set (q : Shared) (e : ℕ) : (q.set e).next = q.next := rfl
@[simp] theorem served_set (q : Shared) (e : ℕ) : (q.set e).served = q.served := rfl

@[simp] theorem served_append (q : Shared) : q.append.served = q.served := by
  simp [served]

@[simp] theorem deque_advance (q : Shared) : q.advance.deque = q.deque.tail := by
  unfold advance
  split <;> simp [*]

@[simp] theorem next_advance (q : Shared) : q.advance.next = q.next := by
  unfold advance
  split <;> rfl

theorem mem_flags_advance {q : Shared} {e : ℕ} :
    e ∈ q.advance.flags ↔ e ∈ q.flags ∨ q.deque.tail.head? = some e := by
  unfold advance
  split <;> simp [*, or_comm, eq_comm]

/-- The deque holds consecutive events, the last one queued at its end. -/
structure Line (q : Shared) : Prop where
  deque_eq : q.deque = List.range' q.served q.deque.length
  length_le : q.deque.length ≤ q.next

variable {q : Shared} {e : ℕ}

theorem Line.mem_iff (h : q.Line) : e ∈ q.deque ↔ q.served ≤ e ∧ e < q.next := by
  have hlen := h.length_le
  have hserved : q.served = q.next - q.deque.length := rfl
  rw [h.deque_eq, List.mem_range'_1]
  omega

theorem Line.head_iff (h : q.Line) : q.deque.head? = some e ↔ e ∈ q.deque ∧ e = q.served := by
  rw [h.deque_eq, List.head?_range', List.mem_range'_1]
  split <;> simp <;> omega

theorem Line.append (h : q.Line) : q.append.Line where
  deque_eq := by
    have hlen := h.length_le
    have hnext : q.next = q.served + 1 * q.deque.length := by unfold served; omega
    rw [served_append, deque_append, List.length_append, List.length_singleton, List.range'_concat,
      ← hnext, ← h.deque_eq]
  length_le := by simpa using h.length_le

theorem Line.set (h : q.Line) : (q.set e).Line := ⟨h.deque_eq, h.length_le⟩

theorem Line.served_advance (h : q.Line) (he : q.deque.head? = some e) :
    q.advance.served = q.served + 1 := by
  have hlen := h.length_le
  obtain ⟨rest, hrest⟩ := List.head?_eq_some_iff.1 he
  simp only [served, next_advance, deque_advance, hrest, List.tail_cons, List.length_cons] at hlen ⊢
  omega

theorem Line.advance (h : q.Line) (he : q.deque.head? = some e) : q.advance.Line where
  deque_eq := by
    rw [h.served_advance he, deque_advance, List.length_tail, ← List.tail_range', ← h.deque_eq]
  length_le := by
    have hlen := h.length_le
    rw [deque_advance, next_advance, List.length_tail]
    omega

end Shared

/-! ## One thread -/

/-- Where a thread stands in `write_connect`. The events are the values of `my_event`. -/
inductive Place
  /-- Not in `write_connect`. -/
  | outside
  /-- Past the first block under `_mutex`, with the value of `is_head`. -/
  | enqueued (e : ℕ) (isHead : Bool)
  /-- In `my_event.wait()`. -/
  | waiting (e : ℕ)
  /-- `ticket_event` is bound and `wait_finished` is still `False`. -/
  | returned (e : ℕ)
  /-- `wait_finished` is `True`; the connection is being opened. -/
  | granted (e : ℕ)
  /-- After `BEGIN IMMEDIATE`, inside this many nested calls. -/
  | writing (e : ℕ) (nested : ℕ)
  /-- In the outer `finally`, before `release_ticket`. -/
  | closing (e : ℕ)
  deriving DecidableEq

namespace Place

/-- The event that the thread has queued. -/
def event? : Place → Option ℕ
  | outside => none
  | enqueued e _ | waiting e | returned e | granted e | writing e _ | closing e => some e

/-- The event, once the wait for it is over. -/
def ticket? : Place → Option ℕ
  | outside | enqueued _ _ | waiting _ => none
  | returned e | granted e | writing e _ | closing e => some e

def outerDepth : Place → ℕ
  | writing _ n => n + 1
  | _ => 0

/-- A bound on the instructions that are left. -/
def weight : Place → ℕ
  | outside => 0
  | closing _ => 1
  | writing _ n => n + 2
  | granted _ => 3
  | returned _ => 4
  | waiting _ => 5
  | enqueued _ _ => 6

@[simp] theorem ticket?_outside : ticket? .outside = none := rfl

@[simp] theorem event?_outside : event? .outside = none := rfl

theorem event?_of_ticket? {p : Place} {e : ℕ} (h : p.ticket? = some e) : p.event? = some e := by
  cases p <;> simp_all [ticket?, event?]

end Place

/-- What a thread does next: it calls `write_connect`, executes its next instruction or gets an
exception. -/
inductive Kind
  | call
  | go
  | raise
  deriving DecidableEq

open Place Shared

/-- One atomic block of `write_connect`: the place after it and what it leaves of the shared state. -/
def turn (q : Shared) : Kind → Place → Option (Place × Shared)
  | .call, outside => some (enqueued q.next (q.append.deque.head? == some q.next), q.append)
  -- `outer_depth() > 0`: a nested call joins the outer connection
  | .call, writing e n => some (writing e (n + 1), q)
  | .call, _ => none
  | .go, outside => none
  | .go, enqueued e true => some (returned e, q.set e)
  | .go, enqueued e false => some (waiting e, q)
  | .go, waiting e => if e ∈ q.flags then some (returned e, q) else none
  | .go, returned e => some (granted e, q)
  | .go, granted e => some (writing e 0, q)
  | .go, writing e (n + 1) => some (writing e n, q)
  | .go, writing e 0 => some (closing e, q)
  | .go, closing e => some (outside, q.releaseTicket e)
  | .raise, outside => none
  -- `ticket_event` is `None`, so neither `cancel_wait` nor `release_ticket` is called
  | .raise, enqueued _ _ => some (outside, q)
  | .raise, waiting _ => some (outside, q)
  | .raise, returned e => some (outside, q.cancelWait e)
  | .raise, granted e => some (closing e, q)
  | .raise, writing e (n + 1) => some (writing e n, q)
  | .raise, writing e 0 => some (closing e, q)
  -- `conn.close()` raises
  | .raise, closing _ => some (outside, q)

/-- What a turn does to a line in which the tickets are at the head. -/
inductive Effect (q : Shared) : Kind → Place → Place → Shared → Prop
  | enters {b : Bool} (hb : q.deque = [] → b = true) (hb' : b = true → q.deque = []) :
    Effect q .call outside (enqueued q.next b) q.append
  | first (e : ℕ) : Effect q .go (enqueued e true) (returned e) (q.set e)
  | waits (e : ℕ) : Effect q .go (enqueued e false) (waiting e) q
  | wakes (e : ℕ) (h : e ∈ q.flags) : Effect q .go (waiting e) (returned e) q
  | keeps {k : Kind} {p p' : Place} {e : ℕ} (hp : p.ticket? = some e) (hp' : p'.ticket? = some e) :
    Effect q k p p' q
  | leaves {k : Kind} {p : Place} {e : ℕ} (hp : p.ticket? = some e) : Effect q k p outside q.advance
  | abandons {p : Place} {e : ℕ} (hp : p.event? = some e) : Effect q .raise p outside q

theorem effect_of_turn {q q' : Shared} {k : Kind} {p p' : Place} (hl : q.Line)
    (hq : ∀ e, p.ticket? = some e → q.deque.head? = some e) (h : turn q k p = some (p', q')) :
    Effect q k p p' q' := by
  cases k with
  | call =>
    cases p with
    | outside =>
      cases h
      refine .enters (fun he => by simp [he]) fun hb => ?_
      by_contra hne
      rw [deque_append, List.head?_append_of_ne_nil _ hne, beq_iff_eq, hl.head_iff, hl.mem_iff] at hb
      omega
    | writing e n => cases h; exact .keeps rfl rfl
    | _ => cases h
  | go =>
    cases p with
    | outside => cases h
    | enqueued e b =>
      cases b with
      | true => cases h; exact .first e
      | false => cases h; exact .waits e
    | waiting e =>
      obtain ⟨he, h⟩ := Option.ite_none_right_eq_some.1 h
      cases h
      exact .wakes e he
    | returned e | granted e => cases h; exact .keeps rfl rfl
    | writing e n =>
      cases n with
      | zero | succ n => cases h; exact .keeps rfl rfl
    | closing e =>
      cases h
      rw [releaseTicket, if_pos (hq e rfl)]
      exact .leaves rfl
  | raise =>
    cases p with
    | outside => cases h
    | enqueued e b | waiting e | closing e => cases h; exact .abandons rfl
    | returned e =>
      cases h
      rw [cancelWait, if_pos (hq e rfl)]
      exact .leaves rfl
    | granted e => cases h; exact .keeps rfl rfl
    | writing e n =>
      cases n with
      | zero | succ n => cases h; exact .keeps rfl rfl

/-! ## All threads -/

structure State (τ : Type*) where
  queue : Shared
  place : τ → Place

structure Action (τ : Type*) where
  kind : Kind
  thread : τ

variable {τ : Type*} [DecidableEq τ]

def step (s : State τ) (a : Action τ) : Option (State τ) :=
  (turn s.queue a.kind (s.place a.thread)).map fun r => ⟨r.2, Function.update s.place a.thread r.1⟩

def Init (s : State τ) : Prop := s.queue = ⟨[], ∅, 0⟩ ∧ s.place = fun _ => .outside

/-- The threads of the process, in any interleaving and with any exceptions. -/
def threads : System (State τ) (Action τ) := .ofFn Init step

/-- Whose turn it is. -/
structure Inv (s : State τ) : Prop where
  line : s.queue.Line
  mem : ∀ t e, (s.place t).event? = some e → e ∈ s.queue.deque
  inj : ∀ t u e, (s.place t).event? = some e → (s.place u).event? = some e → t = u
  flags_lt : ∀ e ∈ s.queue.flags, e < s.queue.next
  flags_head : ∀ e ∈ s.queue.flags, e ≤ s.queue.served
  isHead : ∀ t e, s.place t = .enqueued e true → e = s.queue.served
  held : ∀ t e, (s.place t).ticket? = some e → e ∈ s.queue.flags
  awake : ∀ t e, (s.place t).event? = some e → e = s.queue.served →
    e ∈ s.queue.flags ∨ s.place t = .enqueued e true

variable {s s' : State τ} {a : Action τ} {t : τ} {e : ℕ}

omit [DecidableEq τ] in
theorem inv_init (h : Init s) : Inv s := by
  obtain ⟨hq, hp⟩ := h
  constructor <;> simp [hq, hp, event?, ticket?]
  exact ⟨rfl, le_rfl⟩

omit [DecidableEq τ] in
theorem Inv.ticket (h : Inv s) (he : (s.place t).ticket? = some e) : e = s.queue.served := by
  have hmem := h.mem t e (event?_of_ticket? he)
  have hle := h.flags_head e (h.held t e he)
  rw [h.line.mem_iff] at hmem
  omega

omit [DecidableEq τ] in
theorem Inv.head (h : Inv s) (he : (s.place t).ticket? = some e) : s.queue.deque.head? = some e :=
  h.line.head_iff.2 ⟨h.mem t e (event?_of_ticket? he), h.ticket he⟩

omit [DecidableEq τ] in
theorem Inv.event_lt (h : Inv s) (he : (s.place t).event? = some e) : e < s.queue.next :=
  (h.line.mem_iff.1 (h.mem t e he)).2

theorem step_cases (h : Inv s) (hs : step s a = some s') :
    Effect s.queue a.kind (s.place a.thread) (s'.place a.thread) s'.queue ∧
      ∀ u, u ≠ a.thread → s'.place u = s.place u := by
  obtain ⟨⟨p, q⟩, ht, rfl⟩ := Option.map_eq_some_iff.1 hs
  refine ⟨?_, fun u hu => Function.update_of_ne hu _ _⟩
  simpa using effect_of_turn h.line (fun e he => h.head he) ht

section

variable (h : Inv s) (ho : ∀ u, u ≠ t → s'.place u = s.place u)
include h ho

omit [DecidableEq τ] in
theorem Inv.enters {b : Bool} (hp' : s'.place t = .enqueued s.queue.next b)
    (hq : s'.queue = s.queue.append) (hb : s.queue.deque = [] → b = true)
    (hb' : b = true → s.queue.deque = []) : Inv s' := by
  have hlen := h.line.length_le
  have hfresh : ∀ u f, (s.place u).event? = some f → f ≠ s.queue.next := fun u f hf =>
    (h.event_lt hf).ne
  constructor
  · rw [hq]
    exact h.line.append
  · intro u f hf
    rw [hq, deque_append, List.mem_append, List.mem_singleton]
    rcases eq_or_ne u t with rfl | hu
    · rw [hp'] at hf
      exact .inr (Option.some.inj hf).symm
    · rw [ho u hu] at hf
      exact .inl (h.mem u f hf)
  · intro u v f hu hv
    by_cases hut : u = t
    · by_cases hvt : v = t
      · rw [hut, hvt]
      · rw [hut, hp'] at hu
        rw [ho v hvt] at hv
        exact absurd (Option.some.inj hu).symm (hfresh v f hv)
    · rw [ho u hut] at hu
      by_cases hvt : v = t
      · rw [hvt, hp'] at hv
        exact absurd (Option.some.inj hv).symm (hfresh u f hu)
      · rw [ho v hvt] at hv
        exact h.inj u v f hu hv
  · intro f hf
    rw [hq, flags_append] at hf
    have hlt := h.flags_lt f hf
    rw [hq, next_append]
    omega
  · intro f hf
    rw [hq, flags_append] at hf
    rw [hq, served_append]
    exact h.flags_head f hf
  · intro u f hf
    rw [hq, served_append]
    rcases eq_or_ne u t with rfl | hu
    · rw [hp', enqueued.injEq] at hf
      simp [served, hb' hf.2, hf.1]
    · rw [ho u hu] at hf
      exact h.isHead u f hf
  · intro u f hf
    rw [hq, flags_append]
    rcases eq_or_ne u t with rfl | hu
    · rw [hp'] at hf
      cases hf
    · rw [ho u hu] at hf
      exact h.held u f hf
  · intro u f hf hserved
    rw [hq, served_append] at hserved
    rw [hq, flags_append]
    rcases eq_or_ne u t with rfl | hu
    · rw [hp'] at hf
      obtain rfl := Option.some.inj hf
      have hempty : s.queue.deque = [] := List.length_eq_zero_iff.1 (by unfold served at hserved; omega)
      exact .inr (by rw [hp', hb hempty])
    · rw [ho u hu] at hf ⊢
      exact h.awake u f hf hserved

omit [DecidableEq τ] in
theorem Inv.moves (hq : s'.queue = s.queue)
    (hev : ∀ f, (s'.place t).event? = some f → (s.place t).event? = some f ∧ s.place t ≠ .enqueued f true)
    (hnew : ∀ f, s'.place t ≠ .enqueued f true)
    (htk : ∀ f, (s'.place t).ticket? = some f → f ∈ s.queue.flags) : Inv s' := by
  have hback : ∀ u f, (s'.place u).event? = some f → (s.place u).event? = some f := by
    intro u f hf
    rcases eq_or_ne u t with rfl | hu
    · exact (hev f hf).1
    · rwa [ho u hu] at hf
  constructor
  · rw [hq]
    exact h.line
  · intro u f hf
    rw [hq]
    exact h.mem u f (hback u f hf)
  · intro u v f hu hv
    exact h.inj u v f (hback u f hu) (hback v f hv)
  · rw [hq]
    exact h.flags_lt
  · rw [hq]
    exact h.flags_head
  · intro u f hf
    rw [hq]
    rcases eq_or_ne u t with rfl | hu
    · exact absurd hf (hnew f)
    · rw [ho u hu] at hf
      exact h.isHead u f hf
  · intro u f hf
    rw [hq]
    rcases eq_or_ne u t with rfl | hu
    · exact htk f hf
    · rw [ho u hu] at hf
      exact h.held u f hf
  · intro u f hf hserved
    rw [hq] at hserved ⊢
    rcases eq_or_ne u t with rfl | hu
    · exact (h.awake u f (hev f hf).1 hserved).imp_right fun hw => absurd hw (hev f hf).2
    · rw [ho u hu] at hf ⊢
      exact h.awake u f hf hserved

omit [DecidableEq τ] in
theorem Inv.first (hp : s.place t = .enqueued e true) (hp' : s'.place t = .returned e)
    (hq : s'.queue = s.queue.set e) : Inv s' := by
  have hserved := h.isHead t e hp
  have hback : ∀ u f, (s'.place u).event? = some f → (s.place u).event? = some f := by
    intro u f hf
    rcases eq_or_ne u t with rfl | hu
    · rw [hp'] at hf
      rw [hp]
      exact hf
    · rwa [ho u hu] at hf
  constructor
  · rw [hq]
    exact h.line.set
  · intro u f hf
    rw [hq]
    exact h.mem u f (hback u f hf)
  · intro u v f hu hv
    exact h.inj u v f (hback u f hu) (hback v f hv)
  · intro f hf
    rw [hq, flags_set, Finset.mem_insert] at hf
    rw [hq, next_set]
    rcases hf with rfl | hf
    · exact h.event_lt (t := t) (by rw [hp]; rfl)
    · exact h.flags_lt f hf
  · intro f hf
    rw [hq, flags_set, Finset.mem_insert] at hf
    rw [hq, served_set]
    rcases hf with rfl | hf
    · exact hserved.le
    · exact h.flags_head f hf
  · intro u f hf
    rw [hq, served_set]
    rcases eq_or_ne u t with rfl | hu
    · rw [hp'] at hf
      cases hf
    · rw [ho u hu] at hf
      exact h.isHead u f hf
  · intro u f hf
    rw [hq, flags_set, Finset.mem_insert]
    rcases eq_or_ne u t with rfl | hu
    · rw [hp'] at hf
      exact .inl (Option.some.inj hf).symm
    · rw [ho u hu] at hf
      exact .inr (h.held u f hf)
  · intro u f hf hs
    rw [hq, served_set, ← hserved] at hs
    rw [hq, flags_set, Finset.mem_insert]
    exact .inl (.inl hs)

omit [DecidableEq τ] in
theorem Inv.leaves (hp : (s.place t).ticket? = some e) (hp' : s'.place t = .outside)
    (hq : s'.queue = s.queue.advance) : Inv s' := by
  have hhead := h.head hp
  have hserved := h.line.served_advance hhead
  have hline := h.line.advance hhead
  have hnext : s.queue.advance.deque.head? = s.queue.deque.tail.head? := by rw [deque_advance]
  have hback : ∀ u f, (s'.place u).event? = some f →
      u ≠ t ∧ (s.place u).event? = some f ∧ f ∈ s.queue.advance.deque := by
    intro u f hf
    have hu : u ≠ t := by
      rintro rfl
      rw [hp'] at hf
      cases hf
    rw [ho u hu] at hf
    have hmem := h.line.mem_iff.1 (h.mem u f hf)
    have hne : f ≠ s.queue.served := by
      rintro rfl
      exact hu (h.inj u t _ hf (h.ticket hp ▸ event?_of_ticket? hp))
    refine ⟨hu, hf, hline.mem_iff.2 ?_⟩
    rw [hserved, next_advance]
    omega
  constructor
  · rw [hq]
    exact hline
  · intro u f hf
    rw [hq]
    exact (hback u f hf).2.2
  · intro u v f hu hv
    exact h.inj u v f (hback u f hu).2.1 (hback v f hv).2.1
  · intro f hf
    rw [hq, mem_flags_advance] at hf
    rw [hq, next_advance]
    rcases hf with hf | hf
    · exact h.flags_lt f hf
    · exact (h.line.mem_iff.1 (List.mem_of_mem_tail (List.mem_of_head? hf))).2
  · intro f hf
    rw [hq, mem_flags_advance] at hf
    rw [hq, hserved]
    rcases hf with hf | hf
    · have hle := h.flags_head f hf
      omega
    · rw [← hnext, hline.head_iff, hserved] at hf
      exact hf.2.le
  · intro u f hf
    obtain ⟨hu, hold, hmem⟩ := hback u f (by rw [hf]; rfl)
    rw [ho u hu] at hf
    rw [hline.mem_iff, hserved, ← h.isHead u f hf] at hmem
    omega
  · intro u f hf
    obtain ⟨hu, -, -⟩ := hback u f (event?_of_ticket? hf)
    rw [ho u hu] at hf
    rw [hq, mem_flags_advance]
    exact .inl (h.held u f hf)
  · intro u f hf hs
    rw [hq] at hs
    rw [hq, mem_flags_advance, ← hnext, hline.head_iff]
    exact .inl (.inr ⟨(hback u f hf).2.2, hs⟩)

end

/-- Every turn of a thread keeps the invariant. -/
theorem Inv.step (h : Inv s) (hs : step s a = some s') : Inv s' := by
  obtain ⟨he, ho⟩ := step_cases h hs
  generalize a.kind = k at he
  generalize hp : s.place a.thread = p at he
  generalize hp' : s'.place a.thread = p' at he
  generalize hq : s'.queue = q' at he
  cases he with
  | enters hb hb' => exact h.enters ho hp' hq hb hb'
  | first e => exact h.first ho hp hp' hq
  | waits e => refine h.moves ho hq ?_ ?_ ?_ <;> simp [hp, hp', event?, ticket?]
  | wakes e hf => refine h.moves ho hq ?_ ?_ ?_ <;> simp [hp, hp', event?, ticket?, hf]
  | @keeps _ p p' e htk htk' =>
    subst hp hp'
    have hne : ∀ b f, s.place a.thread ≠ .enqueued f b := fun b f hf => by simp [hf, ticket?] at htk
    have hne' : ∀ f, s'.place a.thread ≠ .enqueued f true := fun f hf => by simp [hf, ticket?] at htk'
    refine h.moves ho hq (fun f hf => ⟨?_, hne true f⟩) hne' fun f hf => ?_
    · rw [event?_of_ticket? htk'] at hf
      rw [event?_of_ticket? htk, hf]
    · rw [htk'] at hf
      exact h.held _ f (htk.trans hf)
  | leaves htk => exact h.leaves ho (hp ▸ htk) hp' hq
  | abandons hev =>
    refine h.moves ho hq ?_ ?_ ?_ <;> simp [hp', event?, ticket?]

theorem inv_of_reachable (h : threads.Reachable s) : Inv s :=
  h.invariant (fun _ => inv_init) fun _ _ _ hi hs => hi.step hs

/-! ## One writer at a time -/

/-- **Mutual exclusion.** In every interleaving, with exceptions anywhere, at most one thread is past its
wait, so at most one has a connection open; its event is the head of the deque. -/
theorem mutual_exclusion (h : threads.Reachable s) {u : τ} {f : ℕ} (ht : (s.place t).ticket? = some e)
    (hu : (s.place u).ticket? = some f) : t = u ∧ e = f ∧ s.queue.deque.head? = some e := by
  have hi := inv_of_reachable h
  obtain rfl : e = f := (hi.ticket ht).trans (hi.ticket hu).symm
  exact ⟨hi.inj t u e (event?_of_ticket? ht) (event?_of_ticket? hu), rfl, hi.head ht⟩

/-- Two threads outside. -/
def idlePair : State Bool := ⟨⟨[], ∅, 0⟩, fun _ => .outside⟩

/-- The first of two threads has finished its wait, and the second is behind it. -/
theorem mutual_exclusion_idlePair : ∃ s : State Bool, threads.Reachable s ∧ s.queue.deque = [0, 1] ∧
    s.queue.deque.head? = some 0 := by
  have hexec : System.exec step idlePair
      [⟨.call, true⟩, ⟨.call, false⟩, ⟨.go, true⟩, ⟨.go, false⟩, ⟨.go, true⟩] = some _ := rfl
  have hreach : threads.Reachable _ := System.reachable_of_exec ⟨rfl, rfl⟩ hexec
  exact ⟨_, hreach, rfl, (mutual_exclusion hreach (t := true) (u := true) (e := 0) (f := 0) rfl rfl).2.2⟩

/-! ## First come, first served -/

/-- The event whose wait the action ends. -/
def granted (s : State τ) (a : Action τ) : Option ℕ :=
  if (s.place a.thread).ticket? = none then (step s a).bind fun s' => (s'.place a.thread).ticket? else none

theorem granted_eq (hs : step s a = some s') :
    granted s a = if (s.place a.thread).ticket? = none then (s'.place a.thread).ticket? else none := by
  rw [granted, hs, Option.bind_some]

/-- The first `n` events have been granted, and no others. -/
structure Granted (n : ℕ) (s : State τ) : Prop where
  le_next : n ≤ s.queue.next
  served_le : s.queue.served ≤ n
  le_served : n ≤ s.queue.served + 1
  wait : ∀ t e, (s.place t).event? = some e → (s.place t).ticket? = none → n ≤ e
  held : ∀ t e, (s.place t).ticket? = some e → e < n

omit [DecidableEq τ] in
theorem granted_init (h : Init s) : Granted 0 s := by
  obtain ⟨hq, hp⟩ := h
  constructor <;> simp [hq, hp, served, event?, ticket?]

omit [DecidableEq τ] in
theorem Granted.eq_of_wait {n : ℕ} (hg : Granted n s) (he : (s.place t).event? = some s.queue.served)
    (hw : (s.place t).ticket? = none) : n = s.queue.served :=
  le_antisymm (hg.wait t _ he hw) hg.served_le

section

variable {n : ℕ} (hg : Granted n s) (ho : ∀ u, u ≠ t → s'.place u = s.place u)
include hg ho

omit [DecidableEq τ] in
theorem Granted.moves (hnext : s.queue.next ≤ s'.queue.next)
    (hserved : s'.queue.served = s.queue.served ∨ n = s.queue.served + 1 ∧ s'.queue.served = s.queue.served + 1)
    (hw : ∀ f, (s'.place t).event? = some f → (s'.place t).ticket? = none →
      f = s.queue.next ∨ (s.place t).event? = some f ∧ (s.place t).ticket? = none)
    (hh : ∀ f, (s'.place t).ticket? = some f → (s.place t).ticket? = some f) : Granted n s' := by
  have h1 := hg.le_next
  have h2 := hg.served_le
  have h3 := hg.le_served
  refine ⟨by omega, by omega, by omega, fun u f hf hn => ?_, fun u f hf => ?_⟩
  · rcases eq_or_ne u t with rfl | hu
    · rcases hw f hf hn with rfl | ⟨hf, hn⟩
      · exact h1
      · exact hg.wait _ f hf hn
    · rw [ho u hu] at hf hn
      exact hg.wait u f hf hn
  · rcases eq_or_ne u t with rfl | hu
    · exact hg.held _ f (hh f hf)
    · rw [ho u hu] at hf
      exact hg.held u f hf

omit [DecidableEq τ] in
theorem Granted.grants (h : Inv s) (he : (s.place t).event? = some e) (hn : (s.place t).ticket? = none)
    (he' : (s'.place t).ticket? = some e) (hhead : e = s.queue.served) (hnext : s'.queue.next = s.queue.next)
    (hserved : s'.queue.served = s.queue.served) : n = e ∧ Granted (n + 1) s' := by
  obtain rfl : n = e := (hg.eq_of_wait (hhead ▸ he) hn).trans hhead.symm
  have hlt := h.event_lt he
  refine ⟨rfl, by omega, by omega, by omega, fun u f hf hn' => ?_, fun u f hf => ?_⟩
  · rcases eq_or_ne u t with rfl | hu
    · rw [he'] at hn'
      cases hn'
    · rw [ho u hu] at hf hn'
      have hle := hg.wait u f hf hn'
      have hne : f ≠ n := by
        rintro rfl
        exact hu (h.inj u t f hf he)
      omega
  · rcases eq_or_ne u t with rfl | hu
    · rw [he'] at hf
      obtain rfl := Option.some.inj hf
      exact Nat.lt_succ_self _
    · rw [ho u hu] at hf
      exact (hg.held u f hf).trans (Nat.lt_succ_self _)

end

theorem Granted.step {n : ℕ} (h : Inv s) (hg : Granted n s) (hs : step s a = some s') :
    granted s a = none ∧ Granted n s' ∨ granted s a = some n ∧ Granted (n + 1) s' := by
  obtain ⟨he, ho⟩ := step_cases h hs
  rw [granted_eq hs]
  generalize a.kind = k at he
  generalize hp : s.place a.thread = p at he
  generalize hp' : s'.place a.thread = p' at he
  generalize hq : s'.queue = q' at he
  cases he with
  | enters hb hb' =>
    refine .inl ⟨by simp [ticket?], hg.moves ho ?_ ?_ ?_ ?_⟩ <;> simp [hq, hp', event?, ticket?, eq_comm]
  | first e =>
    obtain ⟨rfl, hg⟩ := hg.grants ho h (t := a.thread) (e := e) (by simp [hp, event?]) (by simp [hp, ticket?])
      (by simp [hp', ticket?]) (h.isHead _ e hp) (by simp [hq]) (by simp [hq])
    exact .inr ⟨by simp [ticket?], hg⟩
  | waits e =>
    refine .inl ⟨by simp [ticket?], hg.moves ho ?_ ?_ ?_ ?_⟩ <;> simp [hq, hp, hp', event?, ticket?]
  | wakes e hf =>
    have hev : (s.place a.thread).event? = some e := by simp [hp, event?]
    have hhead : e = s.queue.served :=
      le_antisymm (h.flags_head e hf) (h.line.mem_iff.1 (h.mem _ e hev)).1
    obtain ⟨rfl, hg⟩ := hg.grants ho h hev (by simp [hp, ticket?]) (by simp [hp', ticket?]) hhead
      (by rw [hq]) (by rw [hq])
    exact .inr ⟨by simp [ticket?], hg⟩
  | @keeps _ _ _ e htk htk' =>
    subst hp hp'
    refine .inl ⟨by simp [htk], hg.moves ho (by rw [hq]) (.inl (by rw [hq])) ?_ ?_⟩ <;> simp [htk, htk']
  | @leaves _ _ e htk =>
    subst hp
    have hlt := hg.held _ e htk
    have hle := hg.le_served
    have hhead := h.ticket htk
    have hadv := h.line.served_advance (h.head htk)
    refine .inl ⟨by simp [htk], hg.moves ho (by rw [hq, next_advance]) (.inr ⟨by omega, by rw [hq, hadv]⟩) ?_ ?_⟩ <;>
      simp [hp', event?, ticket?]
  | abandons hev =>
    refine .inl ⟨by simp [ticket?_outside], hg.moves ho ?_ ?_ ?_ ?_⟩ <;> simp [hq, hp', event?, ticket?]

/-- **First come, first served, with no gaps.** In every run the waits end in the order of the queue, whoever
gets an exception: the events granted so far are the first ones queued, all of them up to the head of the
deque. -/
theorem grants_in_order {as : List (Action τ)} (hi : Init s) (h : threads.Run s as s') :
    ∃ n, (System.outputs step granted s as).reduceOption = List.range n ∧
      s'.queue.served ≤ n ∧ n ≤ s'.queue.served + 1 := by
  have hrun := h.restrict_of_forall (P := fun _ _ => True) fun _ _ _ => trivial
  have hstep : ∀ (s : State τ) (a : Action τ) (s' : State τ) (l : List (Option ℕ)),
      (Inv s ∧ ∃ n, l.reduceOption = List.range n ∧ Granted n s) →
      True → step s a = some s' → Inv s' ∧ ∃ n, (l ++ [granted s a]).reduceOption = List.range n ∧ Granted n s' := by
    rintro s a s' l ⟨hinv, n, hl, hg⟩ - hs
    refine ⟨hinv.step hs, ?_⟩
    rcases hg.step hinv hs with ⟨ha, hg⟩ | ⟨ha, hg⟩
    · exact ⟨n, by simp [List.reduceOption_append, ha, hl], hg⟩
    · exact ⟨n + 1, by simp [List.reduceOption_append, ha, hl, List.range_succ], hg⟩
  obtain ⟨-, n, hn, hg⟩ := hrun.outputs hstep (l := []) ⟨inv_init hi, 0, rfl, granted_init hi⟩
  exact ⟨n, hn, hg.served_le, hg.le_served⟩

/-- Two threads write one after the other. -/
theorem grants_in_order_idlePair : ∃ (as : List (Action Bool)) (s : State Bool) (n : ℕ), as.length = 8 ∧
    (System.outputs step granted idlePair as).reduceOption = List.range n ∧ s.queue.served ≤ n := by
  have hexec : System.exec step idlePair [⟨.call, true⟩, ⟨.call, false⟩, ⟨.go, true⟩, ⟨.go, true⟩, ⟨.go, true⟩,
      ⟨.go, true⟩, ⟨.go, true⟩, ⟨.go, false⟩] = some _ := rfl
  have hrun : threads.Run idlePair _ _ := System.run_of_exec hexec
  obtain ⟨n, hn, hle, -⟩ := grants_in_order ⟨rfl, rfl⟩ hrun
  exact ⟨_, _, n, rfl, hn, hle⟩

/-! ## Stranded events -/

/-- An event that is in the deque and that no thread will take out. -/
def Stranded (s : State τ) (e : ℕ) : Prop := e ∈ s.queue.deque ∧ ∀ t, (s.place t).event? ≠ some e

theorem Stranded.step (h : Inv s) (hst : Stranded s e) (hs : step s a = some s') : Stranded s' e := by
  obtain ⟨hmem, hno⟩ := hst
  obtain ⟨he, ho⟩ := step_cases h hs
  have hlt := (h.line.mem_iff.1 hmem).2
  have hthread := hno a.thread
  have hother : (s'.place a.thread).event? ≠ some e → ∀ t, (s'.place t).event? ≠ some e := by
    intro hne t
    rcases eq_or_ne t a.thread with rfl | ht
    · exact hne
    · rw [ho t ht]
      exact hno t
  generalize a.kind = k at he
  generalize hp : s.place a.thread = p at he hthread
  generalize hp' : s'.place a.thread = p' at he hother
  generalize hq : s'.queue = q' at he
  cases he with
  | enters hb hb' => exact ⟨by simp [hq, hmem], hother (by simp [event?, hlt.ne'])⟩
  | first f | waits f | wakes f hf => exact ⟨by simp [hq, hmem], hother hthread⟩
  | keeps htk htk' =>
    refine ⟨by simp [hq, hmem], hother ?_⟩
    rwa [event?_of_ticket? htk', ← event?_of_ticket? htk]
  | @leaves _ _ f htk =>
    subst hp
    have hne : e ≠ s.queue.served := by
      rintro rfl
      exact hthread (h.ticket htk ▸ event?_of_ticket? htk)
    have hle := (h.line.mem_iff.1 hmem).1
    refine ⟨?_, hother (by simp [event?])⟩
    rw [hq, (h.line.advance (h.head htk)).mem_iff, h.line.served_advance (h.head htk), next_advance]
    omega
  | abandons hev => exact ⟨by simp [hq, hmem], hother (by simp [event?])⟩

/-! ## Who can be served -/

/-- The steps that are neither a new call nor an exception. -/
def goes : System (State τ) (Action τ) := threads.restrict fun _ a => a.kind = .go

theorem path_of_goes (h : goes.Path s s') : threads.Path s s' := by
  obtain ⟨as, h⟩ := h
  exact ⟨as, h.of_restrict⟩

theorem inv_of_goes (h : Inv s) (hp : goes.Path s s') : Inv s' :=
  hp.invariant (fun _ _ _ hi hs => hi.step hs.2) h

theorem weight_of_go {q q' : Shared} {p p' : Place} (h : turn q .go p = some (p', q')) : p'.weight < p.weight := by
  cases p with
  | outside => cases h
  | enqueued e b => cases b <;> cases h <;> simp [weight]
  | waiting e =>
    obtain ⟨-, h⟩ := Option.ite_none_right_eq_some.1 h
    cases h
    simp [weight]
  | writing e n => cases n <;> cases h <;> simp [weight]
  | _ => cases h; simp [weight]

theorem go_of_head (h : Inv s) (he : (s.place t).event? = some e) (hhead : e = s.queue.served) :
    ∃ s', step s ⟨.go, t⟩ = some s' ∧ (s'.place t).weight < (s.place t).weight ∧
      (∀ u, u ≠ t → s'.place u = s.place u) ∧ s'.queue.next = s.queue.next ∧
      ((s'.place t).event? = some e ∧ s'.queue.served = s.queue.served ∨
        (s.place t).ticket? = some e ∧ s'.place t = .outside ∧ s'.queue.served = s.queue.served + 1) := by
  have hawake := h.awake t e he hhead
  obtain ⟨⟨p, q⟩, hturn⟩ : ∃ r, turn s.queue .go (s.place t) = some r := by
    cases hp : s.place t with
    | outside => rw [hp] at he; cases he
    | enqueued f b => cases b <;> exact ⟨_, rfl⟩
    | waiting f =>
      rw [hp] at he hawake
      obtain rfl := Option.some.inj he
      exact ⟨(returned f, s.queue), if_pos (hawake.resolve_right (by simp))⟩
    | writing f n => cases n <;> exact ⟨_, rfl⟩
    | _ => exact ⟨_, rfl⟩
  have hs : step s ⟨.go, t⟩ = some ⟨q, Function.update s.place t p⟩ := by simp [step, hturn]
  obtain ⟨heff, ho⟩ := step_cases h hs
  refine ⟨_, hs, by simpa using weight_of_go hturn, ho, ?_⟩
  simp only [Function.update_self] at heff ⊢
  generalize hp : s.place t = r at heff he
  cases heff with
  | first f | waits f | wakes f hf => exact ⟨rfl, .inl ⟨he, rfl⟩⟩
  | keeps htk htk' =>
    rw [event?_of_ticket? htk] at he
    exact ⟨rfl, .inl ⟨(event?_of_ticket? htk').trans he, rfl⟩⟩
  | @leaves _ _ f htk =>
    rw [event?_of_ticket? htk] at he
    exact ⟨next_advance _, .inr ⟨htk.trans he, rfl, h.line.served_advance (h.head (hp ▸ htk))⟩⟩

theorem leaves_of_head (h : Inv s) (he : (s.place t).event? = some e) (hhead : e = s.queue.served) :
    ∃ s', goes.Path s s' ∧ s'.place t = .outside ∧ (∀ u, u ≠ t → s'.place u = s.place u) ∧
      s'.queue.next = s.queue.next ∧ s'.queue.served = s.queue.served + 1 := by
  induction hw : (s.place t).weight using Nat.strong_induction_on generalizing s with
  | _ w ih =>
    obtain ⟨s₁, hs, hlt, ho, hnext, hstay | hleave⟩ := go_of_head h he hhead
    · obtain ⟨s₂, hp, hout, ho₂, hnext₂, hserved₂⟩ :=
        ih _ (hw ▸ hlt) (h.step hs) hstay.1 (hhead.trans hstay.2.symm) rfl
      exact ⟨s₂, (System.Path.single (S := goes) ⟨rfl, hs⟩).trans hp, hout, fun u hu => (ho₂ u hu).trans (ho u hu),
        hnext₂.trans hnext, by rw [hserved₂, hstay.2]⟩
    · exact ⟨s₁, .single ⟨rfl, hs⟩, hleave.2.1, ho, hnext, hleave.2.2⟩

theorem ticket_of_head (h : Inv s) (he : (s.place t).event? = some e) (hhead : e = s.queue.served) :
    ∃ s', goes.Path s s' ∧ (s'.place t).ticket? = some e := by
  induction hw : (s.place t).weight using Nat.strong_induction_on generalizing s with
  | _ w ih =>
    obtain ⟨s₁, hs, hlt, ho, hnext, hstay | hleave⟩ := go_of_head h he hhead
    · obtain ⟨s₂, hp, htk⟩ := ih _ (hw ▸ hlt) (h.step hs) hstay.1 (hhead.trans hstay.2.symm) rfl
      exact ⟨s₂, (System.Path.single (S := goes) ⟨rfl, hs⟩).trans hp, htk⟩
    · exact ⟨s, .refl s, hleave.1⟩

theorem ticket_of_forall (h : Inv s) (he : (s.place t).event? = some e) (hno : ∀ f < e, ¬ Stranded s f) :
    ∃ s', goes.Path s s' ∧ (s'.place t).ticket? = some e := by
  induction hn : e - s.queue.served generalizing s with
  | zero =>
    have hle := (h.line.mem_iff.1 (h.mem t e he)).1
    exact ticket_of_head h he (by omega)
  | succ n ih =>
    have hlt := h.event_lt he
    have hmem : s.queue.served ∈ s.queue.deque := h.line.mem_iff.2 ⟨le_rfl, by omega⟩
    obtain ⟨u, hu⟩ : ∃ u, (s.place u).event? = some s.queue.served := by
      by_contra hnone
      exact hno _ (by omega) ⟨hmem, fun u hu => hnone ⟨u, hu⟩⟩
    have hne : t ≠ u := by
      rintro rfl
      rw [hu] at he
      obtain rfl := Option.some.inj he
      omega
    obtain ⟨s₁, hp, hout, ho, hnext, hserved⟩ := leaves_of_head h hu rfl
    have h₁ := inv_of_goes h hp
    have hno₁ : ∀ f < e, ¬ Stranded s₁ f := by
      intro f hf hst
      have hf₁ := h₁.line.mem_iff.1 hst.1
      refine hno f hf ⟨h.line.mem_iff.2 (by omega), fun v hv => ?_⟩
      rcases eq_or_ne v u with rfl | hvu
      · rw [hu] at hv
        obtain rfl := Option.some.inj hv
        omega
      · exact hst.2 v (by rwa [ho v hvu])
    obtain ⟨s₂, hp₂, htk⟩ := ih h₁ (by rwa [ho t hne]) hno₁ (by omega)
    exact ⟨s₂, hp.trans hp₂, htk⟩

/-- **Who can still be served.** A writer in the queue can get its turn exactly if no event ahead of it is
stranded: behind a stranded event nobody is served again, whatever the threads do, and otherwise the threads
ahead of it need only go on. -/
theorem canBeServed_iff (h : threads.Reachable s) (he : (s.place t).event? = some e) :
    (∃ s', threads.Path s s' ∧ (s'.place t).ticket? = some e) ↔ ∀ f < e, ¬ Stranded s f := by
  have hi := inv_of_reachable h
  constructor
  · rintro ⟨s', hp, htk⟩ f hf hst
    obtain ⟨hi', hst'⟩ := hp.invariant (I := fun s => Inv s ∧ Stranded s f)
      (fun _ _ _ hI hs => ⟨hI.1.step hs, hI.2.step hI.1 hs⟩) ⟨hi, hst⟩
    have hle := (hi'.line.mem_iff.1 hst'.1).1
    rw [hi'.ticket htk] at hf
    omega
  · intro hno
    obtain ⟨s', hp, htk⟩ := ticket_of_forall hi he hno
    exact ⟨s', path_of_goes hp, htk⟩

/-- A thread behind one whose call ended in its wait is never served. -/
theorem canBeServed_idlePair : ∃ s : State Bool, threads.Reachable s ∧ (s.place false).event? = some 1 ∧
    ¬ ∃ s', threads.Path s s' ∧ (s'.place false).ticket? = some 1 := by
  have hexec : System.exec step idlePair [⟨.call, true⟩, ⟨.raise, true⟩, ⟨.call, false⟩] = some _ := rfl
  have hreach : threads.Reachable _ := System.reachable_of_exec ⟨rfl, rfl⟩ hexec
  refine ⟨_, hreach, rfl, fun hserved => ?_⟩
  refine (canBeServed_iff hreach (t := false) rfl).1 hserved 0 Nat.zero_lt_one ⟨List.mem_cons_self, fun t => ?_⟩
  cases t <;> exact fun h => by cases h

/-! ## Runs without exceptions -/

/-- The threads when nothing raises. -/
def unraised : System (State τ) (Action τ) := threads.restrict fun _ a => a.kind ≠ .raise

theorem owned_of_unraised (h : unraised.Reachable s) :
    Inv s ∧ ∀ e ∈ s.queue.deque, ∃ t, (s.place t).event? = some e := by
  refine h.invariant (I := fun s => Inv s ∧ ∀ e ∈ s.queue.deque, ∃ t, (s.place t).event? = some e)
    (fun s hi => ⟨inv_init hi, by simp [hi.1]⟩) fun s a s' hI hs => ?_
  obtain ⟨hi, hown⟩ := hI
  obtain ⟨hk, hs : step s a = some s'⟩ := hs
  refine ⟨hi.step hs, fun e he => ?_⟩
  by_contra hno
  -- an event without its thread was there before, and its thread took its turn
  have hother : ∀ t, t ≠ a.thread → (s.place t).event? ≠ some e := fun t ht hte =>
    hno ⟨t, by rwa [(step_cases hi hs).2 t ht]⟩
  have hgone : (s'.place a.thread).event? ≠ some e := fun hte => hno ⟨_, hte⟩
  have hwas : e ∈ s.queue.deque → (s.place a.thread).event? = some e := by
    intro hmem
    obtain ⟨t, ht⟩ := hown e hmem
    by_cases heq : t = a.thread
    · rwa [heq] at ht
    · exact absurd ht (hother t heq)
  obtain ⟨heff, -⟩ := step_cases hi hs
  generalize hkind : a.kind = k at heff
  generalize hp : s.place a.thread = p at heff hwas
  generalize hp' : s'.place a.thread = p' at heff hgone
  generalize hq : s'.queue = q' at heff
  rw [hq] at he
  cases heff with
  | enters hb hb' =>
    rcases List.mem_append.1 he with he | he
    · cases hwas he
    · exact hgone (by rw [List.mem_singleton.1 he]; rfl)
  | first f | waits f | wakes f hf => exact hgone (hwas he)
  | keeps htk htk' =>
    have hev := hwas he
    rw [event?_of_ticket? htk] at hev
    exact hgone ((event?_of_ticket? htk').trans hev)
  | @leaves _ _ f htk =>
    subst hp
    have hev := hwas (List.mem_of_mem_tail (by simpa using he))
    rw [event?_of_ticket? htk] at hev
    obtain rfl := Option.some.inj hev
    have hmem := (hi.line.advance (hi.head htk)).mem_iff.1 he
    rw [hi.line.served_advance (hi.head htk), ← hi.ticket htk] at hmem
    omega
  | abandons hev => exact hk hkind

omit [DecidableEq τ] in
theorem outside_of_event? {p : Place} (h : p.event? = none) : p = .outside := by
  cases p <;> first | rfl | cases h

theorem weight_of_goes [Fintype τ] (hs : goes.step s a s') :
    ∑ t, (s'.place t).weight < ∑ t, (s.place t).weight := by
  obtain ⟨hk, hs : step s a = some s'⟩ := hs
  obtain ⟨⟨p, q⟩, ht, rfl⟩ := Option.map_eq_some_iff.1 hs
  rw [hk] at ht
  refine Finset.sum_lt_sum (fun t _ => ?_) ⟨a.thread, Finset.mem_univ _, ?_⟩
  · rcases eq_or_ne t a.thread with rfl | hne
    · simpa using (weight_of_go ht).le
    · simp [hne]
  · simpa using weight_of_go ht

/-- **Draining.** When nothing has raised, the threads get through without any new call in a bounded number of
steps, and they are stuck only when the queue is empty and all of them are out of `write_connect`. -/
theorem drains [Fintype τ] {as : List (Action τ)} (h : unraised.Reachable s) (hr : goes.Run s as s') :
    as.length ≤ ∑ t, (s.place t).weight ∧
      ((∀ t, step s' ⟨.go, t⟩ = none) → s'.queue.deque = [] ∧ ∀ t, s'.place t = .outside) := by
  constructor
  · exact (Nat.le_add_right _ _).trans (hr.length_add_le (I := fun _ => True) (fun _ _ _ _ _ => trivial)
      (fun _ _ _ _ hs => weight_of_goes hs) trivial)
  · intro hstuck
    have hreach : unraised.Reachable s' := by
      induction hr with
      | nil => exact h
      | cons hs _ ih =>
        refine ih (h.step ⟨fun hk => ?_, hs.2⟩) hstuck
        cases hs.1.symm.trans hk
    obtain ⟨hi, hown⟩ := owned_of_unraised hreach
    have hempty : s'.queue.deque = [] := by
      by_contra hne
      obtain ⟨e, rest, hcons⟩ := List.exists_cons_of_ne_nil hne
      obtain ⟨hmem, hserved⟩ := hi.line.head_iff.1 (by rw [hcons]; rfl)
      obtain ⟨t, ht⟩ := hown e hmem
      obtain ⟨s'', hs, -⟩ := go_of_head hi ht hserved
      rw [hstuck t] at hs
      cases hs
    refine ⟨hempty, fun t => outside_of_event? (Option.eq_none_iff_forall_ne_some.2 fun e he => ?_)⟩
    have hmem := hi.mem t e he
    rw [hempty] at hmem
    cases hmem

/-- One of two threads is queued, and gets through in five steps. -/
theorem drains_idlePair : ∃ (s s' : State Bool) (as : List (Action Bool)), unraised.Reachable s ∧ goes.Run s as s' ∧
    as.length = 5 ∧ as.length ≤ ∑ t, (s.place t).weight ∧ s'.queue.deque = [] := by
  have hexec : System.exec (System.guarded step fun _ a => a.kind ≠ .raise) idlePair [⟨.call, true⟩] = some _ := rfl
  have hreach : unraised.Reachable _ := System.reachable_of_exec_guarded ⟨rfl, rfl⟩ hexec
  have hexec' : System.exec (System.guarded step fun _ a => a.kind = .go)
      ⟨⟨[0], ∅, 1⟩, Function.update (fun _ => .outside) true (.enqueued 0 true)⟩
      [⟨.go, true⟩, ⟨.go, true⟩, ⟨.go, true⟩, ⟨.go, true⟩, ⟨.go, true⟩] = some _ := rfl
  have hrun : goes.Run _ _ _ := System.run_of_exec_guarded hexec'
  obtain ⟨hlen, hstuck⟩ := drains hreach hrun
  exact ⟨_, _, _, hreach, hrun, rfl, hlen, (hstuck fun t => by cases t <;> rfl).1⟩

end LlmGateway.AgentBus.WriteTicket
