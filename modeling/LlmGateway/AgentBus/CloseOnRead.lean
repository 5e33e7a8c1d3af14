import LlmGateway.AgentBus.Turns

/-!
# Threads that are closed when they are read

A thread with the tag `dispatch:close_on_read` is closed once its result has been read and no later turn is unread.
Closing stamps every turn that is still unread in the thread, whoever it is to. Threads are closed one after the
other, and none is touched by the closing of another one: `closeAll_stamps` says at once what becomes of the turns.
-/

namespace LlmGateway.AgentBus

/-- The turns of a thread, in their order. -/
def threadTurns (s : Store) (thread : String) : List (ℕ × Turn) :=
  (s.turns.select fun _ t => t.thread == thread).insertionSort fun a b => a.2.turnNumber ≤ b.2.turnNumber

/-- What closing needs besides the two tables. -/
structure Closing where
  /-- `_load_thread_tags`. -/
  tags : String → List String
  /-- `_closeout_land_meter_from_turns` raises: a body counts infinitely many commits. -/
  meterRaises : List (ℕ × Turn) → Bool
  /-- The clock when the thread is closed. -/
  now : String → String

/-- `_dispatch_base_seat`. -/
def dispatchBaseSeat : List Char → List Char
  | [] => []
  | c :: cs => if ":dispatch:".toList.isPrefixOf (c :: cs) then [] else c :: dispatchBaseSeat cs

def Addresses.agentsMatch (A : Addresses) (left right : String) : Bool :=
  left != "" && right != "" && (left == right ||
    A.normalize (String.ofList (dispatchBaseSeat left.toList)) ==
      A.normalize (String.ofList (dispatchBaseSeat right.toList)))

/-- `_find_on_behalf_result_turn`: the last answer to the sender of the first turn, from the one it is to. -/
def findOnBehalfResultTurn (A : Addresses) : List (ℕ × Turn) → Option (ℕ × Turn)
  | [] => none
  | pointer :: rest =>
    if pointer.2.toAgent = "" ∨ pointer.2.fromAgent = "" then none
    else rest.reverse.find? fun e => decide (2 ≤ e.2.turnNumber) &&
      A.agentsMatch e.2.fromAgent pointer.2.toAgent && A.agentsMatch e.2.toAgent pointer.2.fromAgent

/-- `_thread_eligible_for_close_on_read`. -/
def Closing.eligible (C : Closing) (thread : String) (t : Thread) : Bool :=
  t.status != .closed && (C.tags thread).contains "dispatch:close_on_read" &&
    (C.tags thread).contains "bus_lifecycle:persistent" && t.lifecycle == some .active

/-- The checks of `maybe_close_generate_thread_on_read`, on these turns of the thread. -/
def closesOnRead (A : Addresses) (C : Closing) (s : Store) (thread : String) (turns : List (ℕ × Turn)) : Bool :=
  (s.threads.get? thread).any (C.eligible thread) &&
    (findOnBehalfResultTurn A turns).any fun result => result.2.readAt.isSome &&
      !(turns.any fun e => e.2.readAt.isNone && decide (result.2.turnNumber < e.2.turnNumber)) &&
      !C.meterRaises turns

/-- `close_thread` with `mark_all_read`. -/
def closeThread (s : Store) (thread ts : String) : Store where
  threads := s.threads.mapVal fun id t => if id = thread then
    { t with status := .closed, updatedAt := ts
             lifecycle := if t.lifecycle = some .active then some .completed else t.lifecycle } else t
  turns := s.turns.update (fun _ t => t.thread == thread && t.readAt.isNone) fun t => { t with readAt := some ts }

/-- `maybe_close_generate_thread_on_read`. -/
def closeOnRead (A : Addresses) (C : Closing) (s : Store) (thread : String) : Store :=
  if closesOnRead A C s thread (threadTurns s thread) then closeThread s thread (C.now thread) else s

/-! ## Stamped turns -/

/-- The turn with its stamp, when it is one of those that are stamped. -/
def stampWhen (p : ℕ → Turn → Bool) (stamp : ℕ → Turn → String) (id : ℕ) (t : Turn) : Turn :=
  if p id t then { t with readAt := some (stamp id t) } else t

/-- The turns are those of `s`, some of them stamped. -/
def Stamps (p : ℕ → Turn → Bool) (stamp : ℕ → Turn → String) (s s' : Store) : Prop :=
  s'.turns.rows = s.turns.rows.mapVal (stampWhen p stamp)

theorem Stamps.refl (stamp : ℕ → Turn → String) (s : Store) : Stamps (fun _ _ => false) stamp s s :=
  (Dict.mapVal_self s.turns.rows).symm

section

variable {p : ℕ → Turn → Bool} {stamp : ℕ → Turn → String} {s s' : Store} {thread : String}

@[simp] theorem stampWhen_thread (id : ℕ) (t : Turn) : (stampWhen p stamp id t).thread = t.thread := by
  unfold stampWhen
  split <;> rfl

@[simp] theorem stampWhen_turnNumber (id : ℕ) (t : Turn) : (stampWhen p stamp id t).turnNumber = t.turnNumber := by
  unfold stampWhen
  split <;> rfl

theorem Stamps.get? (h : Stamps p stamp s s') (id : ℕ) :
    s'.turns.get? id = (s.turns.get? id).map (stampWhen p stamp id) := by
  rw [Table.get?, h, Dict.get?_mapVal]
  rfl

theorem Stamps.congr (h : Stamps p stamp s s') {q : ℕ → Turn → Bool}
    (hpq : ∀ id t, s.turns.get? id = some t → p id t = q id t) : Stamps q stamp s s' := by
  refine h.trans (Dict.ext_items (List.map_congr_left fun e he => ?_))
  rw [stampWhen, stampWhen, hpq e.1 e.2 (Dict.mem_items_iff.1 he)]

/-- The turns of a thread keep their order when some are stamped. -/
theorem Stamps.threadTurns_eq (h : Stamps p stamp s s') (thread : String) :
    threadTurns s' thread = (threadTurns s thread).map fun e => (e.1, stampWhen p stamp e.1 e.2) := by
  have hselect : (s'.turns.select fun _ t => t.thread == thread) =
      (s.turns.select fun _ t => t.thread == thread).map fun e => (e.1, stampWhen p stamp e.1 e.2) := by
    have hitems : s'.turns.rows.items = s.turns.rows.items.map fun e => (e.1, stampWhen p stamp e.1 e.2) :=
      congrArg Dict.items h
    rw [Table.select, Table.select, hitems, List.filter_map]
    simp [Function.comp_def]
  rw [threadTurns, threadTurns, hselect]
  exact (List.map_insertionSort _ _ _ _ fun a _ b _ => by simp).symm

/-- A thread in which no turn is stamped has its turns as they were. -/
theorem Stamps.threadTurns_of_not (h : Stamps p stamp s s') (hp : ∀ id t, t.thread = thread → p id t = false) :
    threadTurns s' thread = threadTurns s thread := by
  refine (h.threadTurns_eq thread).trans ((List.map_congr_left fun e he => ?_).trans (List.map_id _))
  have hthread : e.2.thread = thread := by
    simpa using (Table.mem_select.1 ((List.mem_insertionSort _).1 he)).2
  rw [stampWhen, hp e.1 e.2 hthread]
  rfl

end

/-! ## What closing does to the turns -/

/-- The turns that closing `thread` stamps, when it is closed. -/
theorem closeOnRead_stamps (A : Addresses) (C : Closing) (s : Store) (thread : String) :
    Stamps (fun _ t => t.thread == thread && closesOnRead A C s thread (threadTurns s thread) && t.readAt.isNone)
      (fun _ t => C.now t.thread) s (closeOnRead A C s thread) := by
  unfold closeOnRead
  split
  · rename_i hdue
    simp only [Stamps, closeThread, Table.update]
    congr 1
    funext id t
    by_cases hthread : t.thread = thread <;> simp [stampWhen, hdue, hthread]
  · rename_i hdue
    simpa [hdue] using Stamps.refl _ s

theorem closesOnRead_closeOnRead (A : Addresses) (C : Closing) (s : Store) {thread other : String} (h : other ≠ thread) :
    closesOnRead A C (closeOnRead A C s thread) other (threadTurns (closeOnRead A C s thread) other) =
      closesOnRead A C s other (threadTurns s other) := by
  have hturns : threadTurns (closeOnRead A C s thread) other = threadTurns s other :=
    (closeOnRead_stamps A C s thread).threadTurns_of_not fun id t ht => by simp [ht, h]
  have hthread : (closeOnRead A C s thread).threads.get? other = s.threads.get? other := by
    unfold closeOnRead
    split
    · change (s.threads.mapVal _).get? other = _
      rw [Dict.get?_mapVal]
      simp [h]
    · rfl
  rw [closesOnRead, closesOnRead, hturns, hthread]

/-- **Closing thread after thread.** The turns that were unread in the threads that are due are stamped, and no others. -/
theorem closeAll_stamps (A : Addresses) (C : Closing) (s : Store) (threads : List String) :
    Stamps (fun _ t => threads.contains t.thread &&
        closesOnRead A C s t.thread (threadTurns s t.thread) && t.readAt.isNone)
      (fun _ t => C.now t.thread) s (threads.foldl (closeOnRead A C) s) := by
  induction threads generalizing s with
  | nil => simpa using Stamps.refl _ s
  | cons thread threads ih =>
    have hfirst := closeOnRead_stamps A C s thread
    have hrest := ih (closeOnRead A C s thread)
    rw [Stamps, hfirst, Dict.mapVal_mapVal] at hrest
    refine hrest.trans (congrArg s.turns.rows.mapVal (funext₂ fun id t => ?_))
    by_cases hthread : t.thread = thread
    · subst hthread
      cases hdue : closesOnRead A C s t.thread (threadTurns s t.thread) with
      | false =>
        -- It is not closed, and is not due later on either.
        have hsame : closeOnRead A C s t.thread = s := if_neg (by simp [hdue])
        simp [stampWhen, hsame, hdue]
      | true => cases hread : t.readAt <;> simp [stampWhen, hdue, hread]
    · have hdue := closesOnRead_closeOnRead A C s hthread
      simp [stampWhen, hthread, hdue]

end LlmGateway.AgentBus
