import Mathlib.Data.List.MinMax
import Mathlib.Data.List.Sort
import Mathlib.Data.String.Basic
import Mathlib.Order.Nat
import LlmGateway.Foundations.Fallible
import LlmGateway.Foundations.Table

/-!
# The turns of the agent bus

Threads and their turns. `insertTurn`, `deleteTurn` and `markTurnIdsRead` are transactions of the one
writer; an exception rolls back, so each is a function to the store it commits or to the exception.
`getTurns` is a query.

A new turn gets the number behind the highest one among the turns of its thread that are still in the
table, or the number 1 when it claims to be the first of its thread. Row ids are given out once. A call that
finds its turn in the table has opened the thread before (`insertTurn_replay_iff`).

The id that a thread with a name gets is an argument (`autoId`), as are the addresses that a seat's inbox
answers to and the normal form of an address, which the registry derives from its tables (`Addresses`). What
follows the commit of a new turn (alarms, events, mirrors) is left out.
-/

namespace LlmGateway.AgentBus

/-! ## Tables -/

/-- The `status` column of `threads`. -/
inductive ThreadStatus where
  | active
  | blocked
  | waiting
  | closed
  deriving DecidableEq

/-- The `bus_lifecycle_state` column. -/
inductive LifecycleState where
  | pending
  | admitted
  | active
  | completed
  | failed
  | abandoned
  deriving DecidableEq

/-- `TERMINAL_STATES`. -/
def LifecycleState.isTerminal : LifecycleState → Bool
  | completed | failed | abandoned => true
  | _ => false

/-- A row of `threads`. -/
structure Thread where
  slug : String
  status : ThreadStatus
  lifecycle : Option LifecycleState
  updatedAt : String

/-- The `status` column of `turns`. -/
inductive TurnStatus where
  | «open»
  | resolved
  | superseded
  | waiting
  deriving DecidableEq

/-- A row of `turns`. -/
structure Turn where
  thread : String
  turnNumber : ℕ
  fromAgent : String
  toAgent : String
  subject : String
  body : String
  status : TurnStatus
  supersedesTurn : Option ℕ
  createdAt : String
  readAt : Option String
  attestedBy : Option String
  userAgent : Option String
  noticeCloseoutKey : Option String

structure Store where
  threads : Dict String Thread
  turns : Table Turn

def Store.empty : Store := ⟨∅, ∅⟩

/-- The exceptions of the transactions. -/
inductive Error where
  | valueError (text : String)
  | unreadTurnsExist (turns : List (ℕ × Turn)) (latestTurnNumber providedAfterTurn : ℕ)
  | firstTurnAuthorConflict (thread existingFrom fromAgent : String)
  | integrityError
  | keyError (text : String)
  | turnAlreadyAcknowledged (readAt thread : String) (turnNumber : ℕ)

/-! ## Addresses -/

/-- What the registry knows of addresses, and the characters of words. -/
structure Addresses where
  /-- `_inbox_recipient_slugs`. -/
  inboxSlugs : String → List String
  /-- `normalize_bus_address`. -/
  normalize : String → String
  /-- `\w`, which is a property of Unicode characters. -/
  isWordChar : Char → Bool

/-- Seats with one address each; the words are those of ASCII. -/
def plainAddresses : Addresses := ⟨fun seat => [seat], id, fun c => c.isAlphanum || c == '_'⟩

/-- `recipient_in_clause`: the values of `to_agent` that the inbox of a seat shows. -/
def Addresses.recipients (A : Addresses) (seat : String) (includeTeam : Bool) : List String :=
  A.inboxSlugs seat ++ if includeTeam then ["all", "team"] else ["all"]

/-- `MEMO_NOTE_SUBJECT_RE.search(subject)`: one of the words, in letters of either case. -/
def Addresses.isMemoNoteSubject (A : Addresses) (subject : String) : Bool :=
  (subject.toList.splitOnP fun c => !A.isWordChar c).any fun word =>
    Json.lower (String.ofList word) == "memo" || Json.lower (String.ofList word) == "note"

/-- `is_same_seat_memo_note`, of a turn that the seat sends. -/
def Addresses.isSameSeatMemoNote (A : Addresses) (seat toAgent subject : String) : Bool :=
  (A.inboxSlugs seat).contains seat && (A.inboxSlugs seat).contains toAgent && A.isMemoNoteSubject subject

/-- The text behind `front`, letters in either case. -/
def dropFront (front : String) (text : List Char) : Option (List Char) :=
  if Sql.likeFront front.toList text then some (text.drop front.length) else none

/-- `sdk_closeout_dispatch_id`; no character of the pattern is the wildcard of `likeFront`. -/
def sdkCloseoutDispatchId (subject : String) : Option String :=
  let text := (Json.strip subject).toList
  let text := (dropFront "CLOSEOUT|" text).getD text
  (dropFront "cursor-sdk CLOSEOUT " text).bind fun rest =>
    let id := rest.takeWhile fun c => !Json.isSpace c
    if id.isEmpty then none else some (String.ofList id)

def noticeCloseoutKeyForSend (fromAgent subject : String) : Option String :=
  if fromAgent = "cursor-sdk" then (sdkCloseoutDispatchId subject).map fun id => "sdk:" ++ id else none

/-! ## A new turn -/

/-- The arguments of `insert_turn`, with the time of the call. -/
structure TurnRequest where
  thread : String
  fromAgent : String
  toAgent : String
  subject : String
  body : String
  status : TurnStatus
  threadSlug : Option String
  afterTurn : Option ℕ
  supersedesTurn : Option ℕ
  onBehalf : Bool
  idempotentFirstTurn : Bool
  attestedBy : Option String
  userAgent : Option String
  /-- What `_next_auto_id` gives. -/
  autoId : String
  ts : String

/-- `thread.isdigit()`, on ASCII. -/
def isDigits (text : String) : Bool := !text.toList.isEmpty && text.toList.all Char.isDigit

/-- The thread as a new turn leaves it: a closed one is active again, and so is its lifecycle; the first turn
of an admitted one activates it. -/
def Thread.reopen (t : Thread) (ts : String) : Thread :=
  if t.status = .closed then
    { t with status := .active, updatedAt := ts
             lifecycle := t.lifecycle.map fun l => if l.isTerminal then .active else l }
  else if t.lifecycle = some .admitted then { t with lifecycle := some .active, updatedAt := ts }
  else t

/-- The thread of the request, made when it is missing: the store, and the id of the thread. -/
def openThread (s : Store) (r : TurnRequest) : Except Error (Store × String) :=
  match s.threads.get? r.thread with
  | some t => .ok ({ s with threads := s.threads.set r.thread (t.reopen r.ts) }, r.thread)
  | none =>
    let id := if isDigits r.thread then r.thread else r.autoId
    if s.threads.contains id then .error .integrityError
    else
      let slug := (r.threadSlug.filter fun slug => slug != "").getD r.thread
      .ok ({ s with threads := s.threads.set id ⟨slug, .active, none, r.ts⟩ }, id)

/-- The check of `supersedes_turn`. -/
def checkSupersedesTurn (s : Store) (thread : String) : Option ℕ → Except Error Unit
  | none => .ok ()
  | some id =>
    match s.turns.get? id with
    | some t => if t.thread = thread then .ok () else .error (missing id)
    | none => .error (missing id)
where
  missing (id : ℕ) : Error :=
    .valueError ("supersedes_turn " ++ toString id ++ " does not exist in thread " ++ thread)

/-- Turn 1 of the thread. -/
def firstTurn (s : Store) (thread : String) : Option (ℕ × Turn) :=
  (s.turns.select fun _ t => t.thread == thread && t.turnNumber == 1).head?

/-- The turn with the closeout key of the request. -/
def closeoutTurn (s : Store) (thread fromAgent : String) (key : Option String) : Option (ℕ × Turn) :=
  key.bind fun key => (s.turns.select fun _ t =>
    t.thread == thread && t.fromAgent == fromAgent && t.noticeCloseoutKey == some key).head?

/-- What `insert_turn` returns. -/
structure Inserted where
  turnId : ℕ
  createdAt : String
  turnNumber : ℕ
  claimedExisting : Bool

def existingFirstTurn (row : ℕ × Turn) (thread fromAgent : String) : Except Error Inserted :=
  if row.2.fromAgent = fromAgent then .ok ⟨row.1, row.2.createdAt, row.2.turnNumber, true⟩
  else .error (.firstTurnAuthorConflict thread row.2.fromAgent fromAgent)

/-- `MAX(turn_number)` of the thread, `0` when it has no turn. -/
def latestTurnNumber (s : Store) (thread : String) : ℕ :=
  ((s.turns.select fun _ t => t.thread == thread).map fun e => e.2.turnNumber).foldr max 0

/-- The check for turns that the sender has not read. -/
def checkUnread (A : Addresses) (s : Store) (thread : String) (latest : ℕ) (r : TurnRequest) :
    Except Error Unit :=
  match r.afterTurn with
  | none => .ok ()
  | some afterTurn =>
    let recipients := A.recipients r.fromAgent (r.fromAgent != "kaywan")
    let unread := s.turns.select fun _ t => t.thread == thread && recipients.contains t.toAgent &&
      decide (afterTurn < t.turnNumber) && t.readAt.isNone
    if r.onBehalf || unread.isEmpty then .ok () else .error (.unreadTurnsExist unread latest afterTurn)

/-- The row of the `INSERT`. -/
def TurnRequest.row (A : Addresses) (r : TurnRequest) (thread : String) (number : ℕ) : Turn where
  thread := thread
  turnNumber := number
  fromAgent := r.fromAgent
  toAgent := r.toAgent
  subject := r.subject
  body := r.body
  status := r.status
  supersedesTurn := r.supersedesTurn
  createdAt := r.ts
  -- A turn to oneself is read, unless it is a memo for one's successor.
  readAt := if A.normalize r.fromAgent = A.normalize r.toAgent &&
    !A.isSameSeatMemoNote r.fromAgent r.toAgent r.subject then some r.ts else none
  attestedBy := r.attestedBy
  userAgent := r.userAgent
  noticeCloseoutKey := noticeCloseoutKeyForSend r.fromAgent r.subject

/-- The two unique indexes: the number in the thread, and the closeout key of a sender in the thread. -/
def clashes (row t : Turn) : Bool :=
  t.thread == row.thread && (t.turnNumber == row.turnNumber ||
    (t.fromAgent == row.fromAgent && t.noticeCloseoutKey == row.noticeCloseoutKey &&
      row.noticeCloseoutKey.isSome))

/-- The turns with the new one; the one that it supersedes is marked. -/
def storeTurn (turns : Table Turn) (row : Turn) : Table Turn :=
  (turns.insert row).update (fun id _ => row.supersedesTurn == some id) fun t => { t with status := .superseded }

/-- The thread with its new time. -/
def touchThread (threads : Dict String Thread) (thread ts : String) : Dict String Thread :=
  threads.mapVal fun id t => if id = thread then { t with updatedAt := ts } else t

/-- The statements behind the checks: store the turn, or find the one that got there first. -/
def appendTurn (A : Addresses) (s : Store) (thread : String) (number : ℕ) (r : TurnRequest) :
    Except Error (Store × Inserted) :=
  let row := r.row A thread number
  match closeoutTurn s thread r.fromAgent row.noticeCloseoutKey with
  | some existing => (existingFirstTurn existing thread r.fromAgent).map fun out => (s, out)
  | none =>
    if (s.turns.select fun _ t => clashes row t).isEmpty then
      .ok (⟨touchThread s.threads thread r.ts, storeTurn s.turns row⟩,
        ⟨s.turns.nextId, r.ts, number, false⟩)
    else if r.idempotentFirstTurn then
      match firstTurn s thread with
      | some raced => (existingFirstTurn raced thread r.fromAgent).map fun out => (s, out)
      | none => .error .integrityError
    else .error .integrityError

def insertTurn (A : Addresses) (s : Store) (r : TurnRequest) : Except Error (Store × Inserted) := do
  let (s, thread) ← openThread s r
  checkSupersedesTurn s thread r.supersedesTurn
  match if r.idempotentFirstTurn then firstTurn s thread else none with
  | some existing => (existingFirstTurn existing thread r.fromAgent).map fun out => (s, out)
  | none => do
    let latest := latestTurnNumber s thread
    checkUnread A s thread latest r
    appendTurn A s thread (if r.idempotentFirstTurn then 1 else latest + 1) r

/-! ## Deletion and reading -/

def deleteTurn (s : Store) (turnId : ℕ) (force : Bool) (ts : String) : Except Error Store :=
  match s.turns.get? turnId with
  | none => .error (.keyError ("Turn " ++ toString turnId ++ " not found"))
  | some t =>
    match if force then none else t.readAt with
    | some readAt => .error (.turnAlreadyAcknowledged readAt t.thread t.turnNumber)
    | none =>
      let cleared := s.turns.update (fun _ u => u.supersedesTurn == some turnId) fun u =>
        { u with supersedesTurn := none }
      .ok ⟨touchThread s.threads t.thread ts, cleared.delete fun id _ => id == turnId⟩

/-- The `UPDATE` of `mark_turn_ids_read_for_seat`. -/
def markTurnIdsRead (s : Store) (turnIds : List ℕ) (stamp : String) : Store :=
  { s with turns := s.turns.update (fun id t => turnIds.contains id && t.readAt.isNone) fun t =>
      { t with readAt := some stamp } }

/-- The arguments of `get_turns` that select rows. -/
structure TurnQuery where
  thread : Option String
  recipient : Option String
  unread : Bool
  status : Option TurnStatus
  includeSuperseded : Bool
  afterTurn : Option ℕ
  last : Option ℕ

/-- The `WHERE` clause. -/
def TurnQuery.selects (A : Addresses) (q : TurnQuery) (t : Turn) : Bool :=
  (q.thread.all fun thread => t.thread == thread) &&
    (q.recipient.all fun seat => (A.recipients seat (seat != "kaywan")).contains t.toAgent) &&
    (!q.unread || t.readAt.isNone) && (q.status.all fun status => t.status == status) &&
    (q.includeSuperseded || t.status != .superseded) &&
    q.afterTurn.all fun afterTurn => decide (afterTurn < t.turnNumber)

/-- `ORDER BY thread, turn_number`, ascending or descending in the number. -/
def ordered (ascending : Bool) (a b : ℕ × Turn) : Bool :=
  a.2.thread < b.2.thread || (a.2.thread == b.2.thread &&
    if ascending then decide (a.2.turnNumber ≤ b.2.turnNumber) else decide (b.2.turnNumber ≤ a.2.turnNumber))

/-- `get_turns`, without `mark_read`. A page behind a cursor is oldest first. -/
def getTurns (A : Addresses) (s : Store) (q : TurnQuery) : List (ℕ × Turn) :=
  let rows := (s.turns.select fun _ t => q.selects A t).insertionSort fun a b =>
    ordered q.afterTurn.isSome a b = true
  q.last.elim rows fun n => rows.take n

variable {A : Addresses} {s : Store} {r : TurnRequest} {thread : String}

theorem getTurns_nodup (q : TurnQuery) : ((getTurns A s q).map Prod.fst).Nodup := by
  have hselected : ((s.turns.select fun _ t => q.selects A t).map Prod.fst).Nodup :=
    (List.filter_sublist.map _).nodup s.turns.rows.nodup
  have hrows := ((List.perm_insertionSort (fun a b => ordered q.afterTurn.isSome a b = true)
    (s.turns.select fun _ t => q.selects A t)).map Prod.fst).nodup_iff.2 hselected
  unfold getTurns
  cases q.last with
  | none => exact hrows
  | some n => exact ((List.take_sublist n _).map _).nodup hrows

/-! ## What a new turn changes -/

/-- The number that a new turn of the thread gets. -/
def TurnRequest.number (r : TurnRequest) (s : Store) (thread : String) : ℕ :=
  if r.idempotentFirstTurn then 1 else latestTurnNumber s thread + 1

theorem TurnRequest.number_pos (r : TurnRequest) (s : Store) (thread : String) : 0 < r.number s thread := by
  unfold TurnRequest.number
  split <;> omega

/-- The request gets to the statement that stores its turn, in the thread. -/
structure TurnRequest.Appends (A : Addresses) (r : TurnRequest) (s : Store) (thread : String) : Prop where
  opened : ∃ s₁, openThread s r = .ok (s₁, thread)
  supersedes : checkSupersedesTurn s thread r.supersedesTurn = .ok ()
  first : r.idempotentFirstTurn = true → firstTurn s thread = none
  read : checkUnread A s thread (latestTurnNumber s thread) r = .ok ()
  closeout : closeoutTurn s thread r.fromAgent (noticeCloseoutKeyForSend r.fromAgent r.subject) = none

theorem openThread_eq {s₁ : Store} (h : openThread s r = .ok (s₁, thread)) : ∃ threads, s₁ = ⟨threads, s.turns⟩ := by
  unfold openThread at h
  split at h
  · cases h
    exact ⟨_, rfl⟩
  · by_cases hid : s.threads.contains (if isDigits r.thread then r.thread else r.autoId) = true
    · rw [if_pos hid] at h
      cases h
    · rw [if_neg hid] at h
      obtain ⟨rfl, -⟩ := Prod.mk.inj (Except.ok.inj h)
      exact ⟨_, rfl⟩

theorem le_latestTurnNumber {id : ℕ} {t : Turn} (h : s.turns.get? id = some t) :
    t.turnNumber ≤ latestTurnNumber s t.thread := by
  change t.turnNumber ≤ List.foldr max ⊥ _
  refine List.le_max_of_le ?_ le_rfl
  exact List.mem_map.2 ⟨(id, t), Table.mem_select.2 ⟨h, by simp⟩, rfl⟩

theorem exists_le_turnNumber {n : ℕ} (hn : 0 < n) (h : n ≤ latestTurnNumber s thread) :
    ∃ id t, s.turns.get? id = some t ∧ t.thread = thread ∧ n ≤ t.turnNumber := by
  by_contra hno
  have hlt : latestTurnNumber s thread ≤ n - 1 := by
    change List.foldr max ⊥ _ ≤ n - 1
    apply List.max_le_of_forall_le
    intro m hm
    obtain ⟨e, he, rfl⟩ := List.mem_map.1 hm
    obtain ⟨he, hthread⟩ := Table.mem_select.1 he
    have : ¬ n ≤ e.2.turnNumber := fun hle => hno ⟨e.1, e.2, he, by simpa using hthread, hle⟩
    omega
  omega

theorem TurnRequest.Appends.number_free (h : r.Appends A s thread) {id : ℕ} {t : Turn} (ht : s.turns.get? id = some t)
    (hthread : t.thread = thread) : t.turnNumber ≠ r.number s thread := by
  unfold TurnRequest.number
  split
  · intro hone
    have hnil := List.head?_eq_none_iff.1 (h.first ‹_›)
    have hmem : (id, t) ∈ s.turns.select fun _ t => t.thread == thread && t.turnNumber == 1 :=
      Table.mem_select.2 ⟨ht, by simp [hthread, hone]⟩
    rw [hnil] at hmem
    cases hmem
  · have := le_latestTurnNumber ht
    rw [hthread] at this
    omega

theorem TurnRequest.Appends.not_clashes (h : r.Appends A s thread) :
    (s.turns.select fun _ t => clashes (r.row A thread (r.number s thread)) t).isEmpty = true := by
  rw [List.isEmpty_iff, ← List.length_eq_zero_iff, Table.length_select_eq_zero]
  intro id t ht
  rw [Bool.eq_false_iff]
  intro hclash
  simp only [clashes, TurnRequest.row, Bool.and_eq_true, Bool.or_eq_true, beq_iff_eq] at hclash
  obtain ⟨hthread, hnumber | ⟨⟨hfrom, hkey⟩, hsome⟩⟩ := hclash
  · exact h.number_free ht hthread hnumber
  · obtain ⟨key, hkey'⟩ := Option.isSome_iff_exists.1 hsome
    have hnone := h.closeout
    rw [hkey', closeoutTurn, Option.bind_some, List.head?_eq_none_iff] at hnone
    have hmem : (id, t) ∈ s.turns.select fun _ t =>
        t.thread == thread && t.fromAgent == r.fromAgent && t.noticeCloseoutKey == some key :=
      Table.mem_select.2 ⟨ht, by simp [hthread, hfrom, hkey, hkey']⟩
    rw [hnone] at hmem
    cases hmem

theorem TurnRequest.Appends.insertTurn_eq (h : r.Appends A s thread) : ∃ threads, insertTurn A s r =
      .ok (⟨threads, storeTurn s.turns (r.row A thread (r.number s thread))⟩,
        ⟨s.turns.nextId, r.ts, r.number s thread, false⟩) := by
  obtain ⟨s₁, hopen⟩ := h.opened
  obtain ⟨threads, rfl⟩ := openThread_eq hopen
  have hsup : checkSupersedesTurn ⟨threads, s.turns⟩ thread r.supersedesTurn = .ok () := h.supersedes
  have hread : checkUnread A ⟨threads, s.turns⟩ thread (latestTurnNumber ⟨threads, s.turns⟩ thread) r =
    .ok () := h.read
  have hfirst : (if r.idempotentFirstTurn then firstTurn ⟨threads, s.turns⟩ thread else none) = none := by
    split
    · exact h.first ‹_›
    · rfl
  have hclose : closeoutTurn ⟨threads, s.turns⟩ thread r.fromAgent
    (noticeCloseoutKeyForSend r.fromAgent r.subject) = none := h.closeout
  have hfree := h.not_clashes
  refine ⟨touchThread threads thread r.ts, ?_⟩
  simp only [insertTurn, hopen, ok_bind, hsup, hfirst, hread]
  change appendTurn A ⟨threads, s.turns⟩ thread (r.number s thread) r = _
  simp only [appendTurn, TurnRequest.row] at hfree ⊢
  simp only [hclose, hfree, if_true]

/-- **What a call leaves.** The turns are as before, or the request got to the statement that stores. -/
theorem insertTurn_cases {s' : Store} {out : Inserted} (h : insertTurn A s r = .ok (s', out)) :
    s'.turns = s.turns ∨ ∃ thread, r.Appends A s thread := by
  obtain ⟨⟨s₁, thread⟩, hopen, h⟩ := bind_eq_ok.1 h
  obtain ⟨threads, rfl⟩ := openThread_eq hopen
  obtain ⟨⟨⟩, hsup, h⟩ := bind_eq_ok.1 h
  have hexisting : ∀ row, (existingFirstTurn row thread r.fromAgent).map
      (fun out => ((⟨threads, s.turns⟩ : Store), out)) = .ok (s', out) → s'.turns = s.turns := by
    intro row hrow
    unfold existingFirstTurn at hrow
    split at hrow
    · obtain ⟨rfl, -⟩ := Prod.mk.inj (Except.ok.inj hrow)
      rfl
    · cases hrow
  split at h
  · exact .inl (hexisting _ h)
  · rename_i hfirst
    obtain ⟨⟨⟩, hread, h⟩ := bind_eq_ok.1 h
    simp only [appendTurn] at h
    split at h
    · exact .inl (hexisting _ h)
    · rename_i hclose
      refine .inr ⟨thread, ⟨_, hopen⟩, hsup, ?_, hread, hclose⟩
      intro hidem
      rw [if_pos hidem] at hfirst
      exact hfirst

/-! ## A turn that was there -/

/-- The thread is there, open, and no longer waits for its first turn. -/
def Store.Settled (s : Store) (thread : String) : Prop :=
  ∃ t, s.threads.get? thread = some t ∧ t.status ≠ .closed ∧ t.lifecycle ≠ some .admitted

theorem Thread.reopen_eq_self_iff {t : Thread} {ts : String} :
    t.reopen ts = t ↔ t.status ≠ .closed ∧ t.lifecycle ≠ some .admitted := by
  unfold Thread.reopen
  split_ifs with hclosed hadmitted
  · refine iff_of_false (fun h => ?_) fun h => h.1 hclosed
    have hstatus := congrArg Thread.status h
    rw [hclosed] at hstatus
    cases hstatus
  · refine iff_of_false (fun h => ?_) fun h => h.2 hadmitted
    have hlifecycle := congrArg Thread.lifecycle h
    rw [hadmitted] at hlifecycle
    cases hlifecycle
  · exact iff_of_true rfl ⟨hclosed, hadmitted⟩

theorem openThread_eq_self_iff {s₁ : Store}
    (h : openThread s r = .ok (s₁, thread)) : s₁ = s ↔ s.Settled r.thread := by
  unfold openThread at h
  cases hget : s.threads.get? r.thread with
  | some t =>
    rw [hget] at h
    obtain ⟨rfl, -⟩ := Prod.mk.inj (Except.ok.inj h)
    have hsettled : s.Settled r.thread ↔ t.reopen r.ts = t := by
      rw [Thread.reopen_eq_self_iff, Store.Settled, hget]
      simp
    rw [hsettled]
    constructor
    · intro heq
      have hthread := congrArg (fun s => s.threads.get? r.thread) heq
      rw [Dict.get?_set_self, hget] at hthread
      exact Option.some.inj hthread
    · intro heq
      rw [heq, Dict.set_eq_self hget]
  | none =>
    rw [hget] at h
    by_cases hid : s.threads.contains (if isDigits r.thread then r.thread else r.autoId) = true
    · rw [if_pos hid] at h
      cases h
    · rw [if_neg hid] at h
      obtain ⟨rfl, -⟩ := Prod.mk.inj (Except.ok.inj h)
      refine iff_of_false (fun heq => hid ?_) fun ⟨t, ht, _⟩ => by cases hget.symm.trans ht
      -- The row that was made is in the table.
      rw [← heq, Dict.contains, Dict.get?_set_self]
      rfl

theorem openThread_of_replay {s' : Store} {out : Inserted}
    (h : insertTurn A s r = .ok (s', out)) (hreplay : out.claimedExisting = true) :
    ∃ thread, openThread s r = .ok (s', thread) := by
  obtain ⟨⟨s₁, thread⟩, hopen, h⟩ := bind_eq_ok.1 h
  obtain ⟨⟨⟩, -, h⟩ := bind_eq_ok.1 h
  have hexisting : ∀ row, (existingFirstTurn row thread r.fromAgent).map (fun out => (s₁, out)) = .ok (s', out) →
      ∃ thread, openThread s r = .ok (s', thread) := by
    intro row hrow
    obtain ⟨_, -, hout⟩ := map_eq_ok.1 hrow
    obtain ⟨rfl, -⟩ := Prod.mk.inj hout
    exact ⟨thread, hopen⟩
  split at h
  · exact hexisting _ h
  obtain ⟨⟨⟩, -, h⟩ := bind_eq_ok.1 h
  generalize (if r.idempotentFirstTurn then 1 else latestTurnNumber s₁ thread + 1) = number at h
  simp only [appendTurn] at h
  split at h
  · exact hexisting _ h
  split_ifs at h
  · obtain ⟨-, rfl⟩ := Prod.mk.inj (Except.ok.inj h)
    cases hreplay
  · split at h
    · exact hexisting _ h
    · cases h

/-- **A replayed turn.** A call that finds its turn already in the table leaves the turns as they are; the store is as
it was just when the thread was settled. -/
theorem insertTurn_replay_iff {A : Addresses} {s s' : Store} {r : TurnRequest} {out : Inserted}
    (h : insertTurn A s r = .ok (s', out)) (hreplay : out.claimedExisting = true) :
    s'.turns = s.turns ∧ (s' = s ↔ s.Settled r.thread) := by
  obtain ⟨thread, hopen⟩ := openThread_of_replay h hreplay
  obtain ⟨threads, rfl⟩ := openThread_eq hopen
  exact ⟨rfl, openThread_eq_self_iff hopen⟩

/-- A thread with its first turn. -/
def answered (status : ThreadStatus) : Store where
  threads := (∅ : Dict String Thread).set "7" ⟨"news", status, none, "t1"⟩
  turns := (∅ : Table Turn).insert
    ⟨"7", 1, "cursor", "web", "restart", "at noon", .«open», none, "t1", none, none, none, none⟩

/-- The post of that turn, once more. -/
def postAgain : TurnRequest where
  thread := "7"
  fromAgent := "cursor"
  toAgent := "web"
  subject := "restart"
  body := "at noon"
  status := .«open»
  threadSlug := none
  afterTurn := none
  supersedesTurn := none
  onBehalf := false
  idempotentFirstTurn := true
  attestedBy := none
  userAgent := none
  autoId := "8"
  ts := "t2"

/-- In a blocked thread the same post finds its turn. -/
theorem insertTurn_replay_blocked : ∃ s',
    insertTurn plainAddresses (answered .blocked) postAgain =
      .ok (s', ⟨1, "t1", 1, true⟩) ∧
    s'.turns = (answered .blocked).turns ∧ (s' = answered .blocked ↔ (answered .blocked).Settled "7") :=
  have hfound : insertTurn plainAddresses (answered .blocked) postAgain =
      .ok (answered .blocked, ⟨1, "t1", 1, true⟩) := by rfl
  ⟨_, hfound, insertTurn_replay_iff hfound rfl⟩

/-- The post of a turn that is there opens its thread again. -/
theorem insertTurn_replay_reopens : ∃ s', s' ≠ answered .closed ∧
    insertTurn plainAddresses (answered .closed) postAgain =
      .ok (s', ⟨1, "t1", 1, true⟩) := by
  refine ⟨{ answered .closed with
    threads := (∅ : Dict String Thread).set "7" ⟨"news", .active, none, "t2"⟩ }, fun h => ?_, by rfl⟩
  have hstatus := congrArg (fun s => (s.threads.get? "7").map Thread.status) h
  revert hstatus
  decide

end LlmGateway.AgentBus
