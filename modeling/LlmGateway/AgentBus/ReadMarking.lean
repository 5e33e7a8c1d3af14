import Mathlib.Data.List.Dedup
import LlmGateway.AgentBus.CloseOnRead

/-!
# Marking turns as read

Four calls of a seat stamp the column `read_at`, which all recipients of a turn share: `get_turns`, the digest
of unread threads, the post of a seat with `mark_read`, and `bulk_mark_read_state` up to a turn. A seat ought to
stamp turns to one of its own addresses only, and never one to all (`Addresses.markReadEligible`).

`get_turns` asks for that row by row. The digest stamps whatever its inbox shows, turns to all and to the team
included. The other two stamp what is addressed to the slugs of the seat, which is right as long as "all" is
none of them. Behind its commit each of them may close threads that have been read, and that stamps what is left
in them. `markRead_respects_iff` says when a call keeps to the recipients. The rows that `get_turns` returns show a
stamp for all turns when it stamped one (`getTurnsMarkRead_reported_iff`).
-/

namespace LlmGateway.AgentBus

/-! ## Recipients -/

/-- `turn_mark_read_eligible`. -/
def Addresses.markReadEligible (A : Addresses) (seat toAgent : String) : Bool :=
  toAgent != "all" && (A.inboxSlugs seat).contains toAgent

/-- `is_same_seat_memo_note`. -/
def Addresses.isMemoAmong (A : Addresses) (seat : String) (t : Turn) : Bool :=
  (A.inboxSlugs seat).contains t.fromAgent && (A.inboxSlugs seat).contains t.toAgent &&
    A.isMemoNoteSubject t.subject

/-! ## The calls -/

/-- `UPDATE turns SET read_at = ? WHERE id IN (…)`. -/
def stampIds (s : Store) (turnIds : List ℕ) (stamp : String) : Store :=
  { s with turns := s.turns.update (fun id _ => turnIds.contains id) fun t => { t with readAt := some stamp } }

/-- The rows of `mark_window` that `get_turns` stamps. -/
def markable (A : Addresses) (readSeat : Option String) (window : List (ℕ × Turn)) : List ℕ :=
  match readSeat with
  | none => []
  | some seat => (window.filter fun e => e.2.readAt.isNone && A.markReadEligible seat e.2.toAgent).map Prod.fst

/-- `get_turns` with `mark_read`: the store, and the rows as they are returned. Rows past the limit are returned
as they are; when some row is stamped, all unread rows up to the limit are returned with the stamp. -/
def getTurnsMarkRead (A : Addresses) (s : Store) (q : TurnQuery) (markReadSeat : Option String)
    (markReadLimit : Option ℤ) (ts : String) : Store × List (ℕ × Turn) :=
  let rows := getTurns A s q
  let window := markReadLimit.elim rows.length fun n => n.toNat
  let unreadIds := markable A (markReadSeat.or q.recipient) (rows.take window)
  if unreadIds.isEmpty then (s, rows)
  else (stampIds s unreadIds ts, ((rows.take window).map fun e =>
    (e.1, if e.2.readAt.isNone then { e.2 with readAt := some ts } else e.2)) ++ rows.drop window)

/-- A row of the digest. -/
structure UnreadThread where
  thread : String
  slug : String
  unreadCount : ℕ
  latestTurnNumber : ℕ
  lastSubject : Option String
  lastActivityAt : String

/-- The unread turns that the inbox of the seat shows. -/
def inboxUnread (A : Addresses) (s : Store) (seat : String) : List (ℕ × Turn) :=
  s.turns.select fun _ t => (A.recipients seat (seat != "kaywan")).contains t.toAgent && t.readAt.isNone &&
    t.status != .superseded

/-- The row of a thread, when there is such a thread. -/
def unreadThread (s : Store) (unread : List (ℕ × Turn)) (thread : String) : Option UnreadThread :=
  (s.threads.get? thread).map fun th =>
    let turns := (unread.filter fun e => e.2.thread == thread).mergeSort fun a b =>
      decide (b.2.createdAt ≤ a.2.createdAt)
    { thread := thread
      slug := th.slug
      unreadCount := turns.length
      latestTurnNumber := (turns.map fun e => e.2.turnNumber).foldr max 0
      lastSubject := turns.head?.map fun e => e.2.subject
      lastActivityAt := (turns.head?.map fun e => e.2.createdAt).getD "" }

/-- What the digest returns. -/
structure UnreadToc where
  rows : List UnreadThread
  markedRead : ℕ
  totalUnreadThreads : ℕ
  totalUnreadTurns : ℕ
  truncated : Bool

/-- The rows of the digest, before the limit. -/
def unreadThreads (s : Store) (unread : List (ℕ × Turn)) (activeSince : Option String) (allThreads : Bool) :
    List UnreadThread :=
  let rows := ((unread.map fun e => e.2.thread).dedup.filterMap (unreadThread s unread)).mergeSort
    fun a b => decide (b.lastActivityAt ≤ a.lastActivityAt)
  if allThreads then rows
  else activeSince.elim rows fun cutoff => rows.filter fun r => decide (cutoff ≤ r.lastActivityAt)

/-- `get_unread_thread_toc`. The turns are stamped thread by thread. -/
def getUnreadThreadToc (A : Addresses) (s : Store) (seat : String) (markRead : Bool)
    (activeSince : Option String) (limit : ℕ) (allThreads : Bool) (ts : String) : Store × UnreadToc :=
  let unread := inboxUnread A s seat
  let threads := (unread.map fun e => e.2.thread).dedup
  let rows := unreadThreads s unread activeSince allThreads
  (if markRead then
      threads.foldl (fun s thread =>
        markTurnIdsRead s ((unread.filter fun e => e.2.thread == thread).map Prod.fst) ts) s
    else s,
  { rows := if 0 < limit then rows.take limit else rows
    markedRead := if markRead then unread.length else 0
    totalUnreadThreads := threads.length
    totalUnreadTurns := unread.length
    truncated := decide (limit < rows.length) })

/-- The unread turns of the thread up to a number that are addressed to the slugs of the seat. -/
def unreadThrough (A : Addresses) (s : Store) (thread seat : String) (throughTurn : ℤ) : List (ℕ × Turn) :=
  s.turns.select fun _ t => t.thread == thread && (A.inboxSlugs seat).contains t.toAgent &&
    decide ((t.turnNumber : ℤ) ≤ throughTurn) && t.readAt.isNone && t.status != .superseded

/-- `mark_sender_unread_in_thread`: a memo for the seat's successor is spared. -/
def markSenderUnreadInThread (A : Addresses) (s : Store) (thread fromAgent : String) (throughTurn : ℤ)
    (ts : String) : Store × ℕ :=
  let toMark := (unreadThrough A s thread fromAgent throughTurn).filter fun e => !A.isMemoAmong fromAgent e.2
  if toMark.isEmpty then (s, 0) else (stampIds s (toMark.map Prod.fst) ts, toMark.length)

/-- `bulk_mark_read_state` with `through_turn`. -/
def bulkMarkReadThrough (A : Addresses) (s : Store) (thread : String) (throughTurn : ℤ) (agent ts : String) :
    Store × ℕ :=
  let marked := unreadThrough A s thread agent throughTurn
  if marked.isEmpty then (s, 0) else (stampIds s (marked.map Prod.fst) ts, marked.length)

/-- The rows that `get_turns` may stamp. -/
def markWindow (A : Addresses) (s : Store) (q : TurnQuery) (markReadLimit : Option ℤ) : List (ℕ × Turn) :=
  let rows := getTurns A s q
  rows.take (markReadLimit.elim rows.length fun n => n.toNat)

/-- A call that marks turns as read for a seat. -/
inductive MarkRead where
  | getTurns (q : TurnQuery) (markReadSeat : Option String) (markReadLimit : Option ℤ)
  | unreadToc (seat : String) (activeSince : Option String) (limit : ℕ) (allThreads : Bool)
  | sender (thread fromAgent : String) (throughTurn : ℤ)
  | through (thread : String) (throughTurn : ℤ) (agent : String)

namespace MarkRead

/-- The seat for which turns are marked. -/
def seat : MarkRead → Option String
  | .getTurns q markReadSeat _ => markReadSeat.or q.recipient
  | .unreadToc seat _ _ _ => some seat
  | .sender _ fromAgent _ => some fromAgent
  | .through _ _ agent => some agent

/-- The store at the commit of the call. -/
def mark (A : Addresses) (s : Store) (ts : String) : MarkRead → Store
  | .getTurns q markReadSeat markReadLimit => (getTurnsMarkRead A s q markReadSeat markReadLimit ts).1
  | .unreadToc seat activeSince limit allThreads =>
    (getUnreadThreadToc A s seat true activeSince limit allThreads ts).1
  | .sender thread fromAgent throughTurn => (markSenderUnreadInThread A s thread fromAgent throughTurn ts).1
  | .through thread throughTurn agent => (bulkMarkReadThrough A s thread throughTurn agent ts).1

/-- The turns that the call stamps before its commit. -/
def markedIds (A : Addresses) (s : Store) : MarkRead → List ℕ
  | .getTurns q markReadSeat markReadLimit =>
    markable A (markReadSeat.or q.recipient) (markWindow A s q markReadLimit)
  | .unreadToc seat _ _ _ => (inboxUnread A s seat).map Prod.fst
  | .sender thread fromAgent throughTurn =>
    ((unreadThrough A s thread fromAgent throughTurn).filter fun e => !A.isMemoAmong fromAgent e.2).map Prod.fst
  | .through thread throughTurn agent => (unreadThrough A s thread agent throughTurn).map Prod.fst

/-- `close_candidates`: the threads of the stamped turns. The digest takes the rows that it returns. -/
def closeCandidates (A : Addresses) (s : Store) (ts : String) (call : MarkRead) : List String :=
  if (call.markedIds A s).isEmpty then []
  else match call with
    | .getTurns q _ markReadLimit => (((markWindow A s q markReadLimit).filter fun e =>
        (call.markedIds A s).contains e.1).map fun e => e.2.thread).dedup
    | .unreadToc seat activeSince limit allThreads =>
      (getUnreadThreadToc A s seat true activeSince limit allThreads ts).2.rows.map UnreadThread.thread
    | .sender thread _ _ | .through thread _ _ => [thread]

/-- The store behind the call, and behind the closing of the threads that it may have been the last to read. -/
def run (A : Addresses) (C : Closing) (s : Store) (ts : String) (call : MarkRead) : Store :=
  (call.closeCandidates A s ts).foldl (closeOnRead A C) (call.mark A s ts)

end MarkRead

/-! ## Whose turns are stamped -/

/-- The seat may mark the turn. -/
def Markable (A : Addresses) (readSeat : Option String) (t : Turn) : Prop :=
  ∃ seat, readSeat = some seat ∧ A.markReadEligible seat t.toAgent = true

/-- A turn is as it was, or it was unread, the seat may mark it, and it is stamped. -/
def Respects (A : Addresses) (seat : Option String) (s s' : Store) : Prop :=
  ∀ id, s'.turns.get? id = s.turns.get? id ∨ ∃ t stamp, s.turns.get? id = some t ∧ t.readAt = none ∧
    Markable A seat t ∧ s'.turns.get? id = some { t with readAt := some stamp }

namespace MarkRead

/-- When a call stamps, before its commit, turns of the seat only. -/
def MarksOwn (A : Addresses) (s : Store) : MarkRead → Prop
  | .getTurns .. => True
  | .unreadToc seat _ _ _ => ∀ id t, s.turns.get? id = some t → t.readAt = none → t.status ≠ .superseded →
      t.toAgent ≠ "all" ∧ (t.toAgent = "team" → seat = "kaywan" ∨ "team" ∈ A.inboxSlugs seat)
  | .sender thread fromAgent throughTurn => "all" ∈ A.inboxSlugs fromAgent → ∀ id t,
      s.turns.get? id = some t → t.thread = thread → (t.turnNumber : ℤ) ≤ throughTurn → t.readAt = none →
      t.status ≠ .superseded → t.toAgent = "all" → A.isMemoAmong fromAgent t = true
  | .through thread throughTurn agent => "all" ∈ A.inboxSlugs agent → ∀ id t,
      s.turns.get? id = some t → t.thread = thread → (t.turnNumber : ℤ) ≤ throughTurn → t.readAt = none →
      t.status ≠ .superseded → t.toAgent ≠ "all"

/-- The turns of a thread, with the stamps of the call. -/
def turnsMarked (A : Addresses) (s : Store) (ts : String) (call : MarkRead) (thread : String) : List (ℕ × Turn) :=
  (threadTurns s thread).map fun e =>
    (e.1, stampWhen (fun id _ => (call.markedIds A s).contains id) (fun _ _ => ts) e.1 e.2)

/-- When a call keeps to the recipients: the turns that it stamps are the seat's, and so are those that are left
unread in a thread that is closed behind it. -/
structure Confined (A : Addresses) (C : Closing) (s : Store) (ts : String) (call : MarkRead) : Prop where
  marks : call.MarksOwn A s
  closes : ∀ thread ∈ call.closeCandidates A s ts, closesOnRead A C s thread (call.turnsMarked A s ts thread) = true →
    ∀ id t, s.turns.get? id = some t → t.thread = thread → t.readAt = none → Markable A call.seat t

end MarkRead

section

variable {A : Addresses} {C : Closing} {s s' : Store} {seat : Option String} {ts : String}

theorem Stamps.respects_iff {p : ℕ → Turn → Bool} {stamp : ℕ → Turn → String} (hs : Stamps p stamp s s')
    (hp : ∀ id t, s.turns.get? id = some t → p id t = true → t.readAt = none) :
    Respects A seat s s' ↔ ∀ id t, s.turns.get? id = some t → p id t = true → Markable A seat t := by
  constructor
  · intro h id t ht hpt
    have hget : s'.turns.get? id = some { t with readAt := some (stamp id t) } := by
      rw [hs.get?, ht, Option.map_some, stampWhen, if_pos hpt]
    obtain hsame | ⟨u, _, hu, -, hown, -⟩ := h id
    · -- The stamp shows, since the turn was unread.
      have hread := congrArg Turn.readAt (Option.some.inj (hget.symm.trans (hsame.trans ht)))
      rw [hp id t ht hpt] at hread
      cases hread
    · rw [ht] at hu
      cases hu
      exact hown
  · intro h id
    rw [hs.get?]
    rcases ht : s.turns.get? id with _ | t
    · exact .inl rfl
    · cases hpt : p id t
      · left
        rw [Option.map_some, stampWhen, hpt]
        rfl
      · refine .inr ⟨t, stamp id t, rfl, hp id t ht hpt, h id t ht hpt, ?_⟩
        rw [Option.map_some, stampWhen, if_pos hpt]

theorem stampIds_stamps (s : Store) (turnIds : List ℕ) (ts : String) :
    Stamps (fun id _ => turnIds.contains id) (fun _ _ => ts) s (stampIds s turnIds ts) := rfl

theorem Stamps.of_isEmpty {turnIds : List ℕ} (h : turnIds.isEmpty = true) (stamp : ℕ → Turn → String) :
    Stamps (fun id _ => turnIds.contains id) stamp s s := by
  rw [List.isEmpty_iff.1 h]
  exact .refl _ s

/-- The turns are stamped in rounds, each of which passes over the stamped ones. -/
theorem markTurnIdsRead_foldl_stamps {α : Type*} (turnIds : α → List ℕ) (as : List α) (s : Store) (ts : String) :
    Stamps (fun id t => (as.any fun a => (turnIds a).contains id) && t.readAt.isNone) (fun _ _ => ts) s
      (as.foldl (fun s a => markTurnIdsRead s (turnIds a) ts) s) := by
  induction as generalizing s with
  | nil => exact .refl _ s
  | cons a as ih =>
    refine ((ih _).trans (Dict.mapVal_mapVal ..)).trans (congrArg s.turns.rows.mapVal (funext₂ fun id t => ?_))
    simp only [List.any_cons]
    cases hread : t.readAt <;> by_cases hin : id ∈ turnIds a <;> simp [stampWhen, hread, hin]

theorem contains_ids_iff {rows : List (ℕ × Turn)} (hrows : ∀ e ∈ rows, s.turns.get? e.1 = some e.2) {id : ℕ} {t : Turn}
    (ht : s.turns.get? id = some t) : (rows.map Prod.fst).contains id = true ↔ (id, t) ∈ rows := by
  rw [List.contains_iff_mem, List.mem_map]
  constructor
  · rintro ⟨e, he, rfl⟩
    have heq := (hrows e he).symm.trans ht
    cases heq
    exact he
  · exact fun he => ⟨_, he, rfl⟩

variable {e : ℕ × Turn} {name : String}

theorem getTurns_get? {q : TurnQuery} (h : e ∈ getTurns A s q) : s.turns.get? e.1 = some e.2 := by
  have hsort : e ∈ (s.turns.select fun _ t => q.selects A t).insertionSort fun a b =>
      ordered q.afterTurn.isSome a b = true := by
    unfold getTurns at h
    cases hlast : q.last with
    | none => rwa [hlast] at h
    | some n =>
      rw [hlast] at h
      exact List.mem_of_mem_take h
  exact (Table.mem_select.1 ((List.mem_insertionSort _).1 hsort)).1

theorem mem_inboxUnread : e ∈ inboxUnread A s name ↔
    s.turns.get? e.1 = some e.2 ∧ e.2.toAgent ∈ A.recipients name (name != "kaywan") ∧ e.2.readAt = none ∧
      e.2.status ≠ .superseded := by
  rw [inboxUnread, Table.mem_select]
  simp [and_assoc]

theorem mem_unreadThrough {thread : String} {n : ℤ} : e ∈ unreadThrough A s thread name n ↔
    s.turns.get? e.1 = some e.2 ∧ e.2.thread = thread ∧ e.2.toAgent ∈ A.inboxSlugs name ∧
      (e.2.turnNumber : ℤ) ≤ n ∧ e.2.readAt = none ∧ e.2.status ≠ .superseded := by
  rw [unreadThrough, Table.mem_select]
  simp [and_assoc]

/-! ## Call by call -/

theorem mem_markable {readSeat : Option String} {window : List (ℕ × Turn)}
    (hwindow : ∀ e ∈ window, s.turns.get? e.1 = some e.2) (he : s.turns.get? e.1 = some e.2) :
    (markable A readSeat window).contains e.1 = true ↔
      e ∈ window ∧ e.2.readAt = none ∧ Markable A readSeat e.2 := by
  cases readSeat with
  | none => exact iff_of_false nofun fun ⟨_, _, _, h, _⟩ => nomatch h
  | some seat =>
    refine (contains_ids_iff (fun e he => hwindow e (List.mem_of_mem_filter he)) he).trans ?_
    rw [List.mem_filter, Bool.and_eq_true, Option.isNone_iff_eq_none]
    simp [Markable]

theorem mem_of_marked {thread : String} {n : ℤ} {rows : List (ℕ × Turn)}
    (hrows : ∀ e ∈ rows, e ∈ unreadThrough A s thread name n) {id : ℕ} {t : Turn} (ht : s.turns.get? id = some t) :
    (rows.map Prod.fst).contains id = true ↔ (id, t) ∈ rows :=
  contains_ids_iff (fun e he => (mem_unreadThrough.1 (hrows e he)).1) ht

theorem mem_markWindow {q : TurnQuery} {limit : Option ℤ} (h : e ∈ markWindow A s q limit) :
    s.turns.get? e.1 = some e.2 := getTurns_get? (List.mem_of_mem_take h)

theorem markReadEligible_of_recipient {toAgent : String}
    (h : toAgent ∈ A.recipients name (name != "kaywan")) : A.markReadEligible name toAgent = true ↔
      toAgent ≠ "all" ∧ (toAgent = "team" → name = "kaywan" ∨ "team" ∈ A.inboxSlugs name) := by
  simp only [Addresses.markReadEligible, Bool.and_eq_true, bne_iff_ne, List.contains_iff_mem]
  refine and_congr_right fun hall => ?_
  have hextra : toAgent ∈ A.inboxSlugs name ∨ (toAgent = "team" ∧ name ≠ "kaywan") := by
    rw [Addresses.recipients, List.mem_append] at h
    refine h.imp_right fun h => ?_
    by_cases hk : name = "kaywan"
    · simp [hk, hall] at h
    · simp only [bne_iff_ne, ne_eq, hk, not_false_iff, if_true, List.mem_cons, List.not_mem_nil, or_false] at h
      exact ⟨h.resolve_left hall, hk⟩
  obtain hmem | ⟨rfl, hk⟩ := hextra
  · exact ⟨fun _ ht => .inr (ht ▸ hmem), fun _ => hmem⟩
  · exact ⟨fun hmem _ => .inr hmem, fun h => (h rfl).resolve_left hk⟩

theorem markReadEligible_of_slug {toAgent : String} (h : toAgent ∈ A.inboxSlugs name) :
    A.markReadEligible name toAgent = true ↔ toAgent ≠ "all" := by
  simp [Addresses.markReadEligible, h]

namespace MarkRead

/-- **What a call stamps before its commit.** -/
theorem mark_stamps (call : MarkRead) :
    Stamps (fun id _ => (call.markedIds A s).contains id) (fun _ _ => ts) s (call.mark A s ts) := by
  cases call with
  | getTurns q seat limit =>
    change Stamps (fun id _ => (markable A (seat.or q.recipient) (markWindow A s q limit)).contains id) _ s
      (if (markable A (seat.or q.recipient) (markWindow A s q limit)).isEmpty then (_ : Store × List (ℕ × Turn)) else _).1
    split
    · exact .of_isEmpty ‹_› _
    · exact stampIds_stamps ..
  | unreadToc name activeSince limit allThreads =>
    refine (markTurnIdsRead_foldl_stamps (fun thread => ((inboxUnread A s name).filter fun e =>
      e.2.thread == thread).map Prod.fst) ((inboxUnread A s name).map fun e => e.2.thread).dedup s ts).congr ?_
    intro id t ht
    rw [Bool.eq_iff_iff, markedIds, contains_ids_iff (fun e he => (mem_inboxUnread.1 he).1) ht]
    simp only [Bool.and_eq_true, List.any_eq_true, List.mem_dedup, List.contains_iff_mem, List.mem_map,
      List.mem_filter, Option.isNone_iff_eq_none]
    constructor
    · rintro ⟨⟨_, -, e, ⟨he, -⟩, rfl⟩, -⟩
      have heq := (mem_inboxUnread.1 he).1.symm.trans ht
      cases heq
      exact he
    · intro he
      exact ⟨⟨t.thread, ⟨_, he, rfl⟩, _, ⟨he, beq_self_eq_true _⟩, rfl⟩, (mem_inboxUnread.1 he).2.2.1⟩
  | sender thread name n =>
    simp only [mark, markSenderUnreadInThread]
    split
    · exact .of_isEmpty (by rwa [markedIds, List.isEmpty_map]) _
    · exact stampIds_stamps ..
  | through thread n name =>
    simp only [mark, bulkMarkReadThrough]
    split
    · exact .of_isEmpty (by rwa [markedIds, List.isEmpty_map]) _
    · exact stampIds_stamps ..

theorem mark_threads (call : MarkRead) : (call.mark A s ts).threads = s.threads := by
  cases call with
  | getTurns q seat limit => simp only [mark, getTurnsMarkRead]; split <;> rfl
  | unreadToc name activeSince limit allThreads =>
    simp only [mark, getUnreadThreadToc, if_true]
    generalize ((inboxUnread A s name).map fun e => e.2.thread).dedup = threads
    generalize inboxUnread A s name = unread
    induction threads generalizing s with
    | nil => rfl
    | cons thread threads ih => exact ih
  | sender thread name n => simp only [mark, markSenderUnreadInThread]; split <;> rfl
  | through thread n name => simp only [mark, bulkMarkReadThrough]; split <;> rfl

theorem unread_of_marked {call : MarkRead} {id : ℕ} {t : Turn} (ht : s.turns.get? id = some t)
    (hin : (call.markedIds A s).contains id = true) : t.readAt = none := by
  cases call with
  | getTurns q seat limit => exact ((mem_markable (e := (id, t)) (fun e he => mem_markWindow he) ht).1 hin).2.1
  | unreadToc name activeSince limit allThreads =>
    exact (mem_inboxUnread.1 ((contains_ids_iff (fun e he => (mem_inboxUnread.1 he).1) ht).1 hin)).2.2.1
  | sender thread name n =>
    have hmem := (mem_of_marked (fun e he => List.mem_of_mem_filter he) ht).1 hin
    exact (mem_unreadThrough.1 (List.mem_of_mem_filter hmem)).2.2.2.2.1
  | through thread n name => exact (mem_unreadThrough.1 ((mem_of_marked (fun e he => he) ht).1 hin)).2.2.2.2.1

/-- The turns up to a number, but for those that are spared, are the seat's if it has no slug "all", or none of them
is to all. -/
theorem markable_unreadThrough_iff (thread name : String) (n : ℤ) (spare : Turn → Bool) :
    (∀ id t, s.turns.get? id = some t → (((unreadThrough A s thread name n).filter fun e => !spare e.2).map
        Prod.fst).contains id = true → Markable A (some name) t) ↔
      ("all" ∈ A.inboxSlugs name → ∀ id t, s.turns.get? id = some t → t.thread = thread → (t.turnNumber : ℤ) ≤ n →
        t.readAt = none → t.status ≠ .superseded → t.toAgent = "all" → spare t = true) := by
  have hmarked : ∀ {id t}, s.turns.get? id = some t → ((((unreadThrough A s thread name n).filter fun e =>
      !spare e.2).map Prod.fst).contains id = true ↔ (id, t) ∈ (unreadThrough A s thread name n).filter
        fun e => !spare e.2) := fun ht => mem_of_marked (fun e he => List.mem_of_mem_filter he) ht
  constructor
  · intro h hslug id t ht hthread hle hread hstatus hall
    by_contra hspare
    have hmem : (id, t) ∈ unreadThrough A s thread name n :=
      mem_unreadThrough.2 ⟨ht, hthread, hall ▸ hslug, hle, hread, hstatus⟩
    obtain ⟨_, hname, helig⟩ := h id t ht ((hmarked ht).2 (List.mem_filter.2 ⟨hmem, by simp [hspare]⟩))
    cases hname
    exact (markReadEligible_of_slug (hall ▸ hslug)).1 helig hall
  · intro h id t ht hin
    obtain ⟨hmem, hspared⟩ := List.mem_filter.1 ((hmarked ht).1 hin)
    obtain ⟨-, hthread, hslug, hle, hread, hstatus⟩ := mem_unreadThrough.1 hmem
    refine ⟨name, rfl, (markReadEligible_of_slug hslug).2 fun hall => ?_⟩
    rw [h (hall ▸ hslug) id t ht hthread hle hread hstatus hall] at hspared
    cases hspared

/-- The turns that a call stamps before its commit are the seat's. -/
theorem marksOwn_iff (call : MarkRead) : call.MarksOwn A s ↔ ∀ id t, s.turns.get? id = some t →
    (call.markedIds A s).contains id = true → Markable A call.seat t := by
  cases call with
  | getTurns q seat limit =>
    exact iff_of_true trivial fun id t ht hin =>
      ((mem_markable (e := (id, t)) (fun e he => mem_markWindow he) ht).1 hin).2.2
  | unreadToc name activeSince limit allThreads =>
    have hmarked : ∀ {id t}, s.turns.get? id = some t → (((inboxUnread A s name).map Prod.fst).contains id = true ↔
        (id, t) ∈ inboxUnread A s name) := fun ht => contains_ids_iff (fun e he => (mem_inboxUnread.1 he).1) ht
    constructor
    · intro h id t ht hin
      obtain ⟨-, hto, hread, hstatus⟩ := mem_inboxUnread.1 ((hmarked ht).1 hin)
      exact ⟨name, rfl, (markReadEligible_of_recipient hto).2 (h id t ht hread hstatus)⟩
    · intro h id t ht hread hstatus
      by_cases hto : t.toAgent ∈ A.recipients name (name != "kaywan")
      · obtain ⟨_, hname, helig⟩ := h id t ht ((hmarked ht).2 (mem_inboxUnread.2 ⟨ht, hto, hread, hstatus⟩))
        cases hname
        exact (markReadEligible_of_recipient hto).1 helig
      · rw [Addresses.recipients, List.mem_append, not_or] at hto
        by_cases hk : name = "kaywan"
        · refine ⟨fun hall => hto.2 (by simp [hall, hk]), fun _ => .inl hk⟩
        · have hnot : t.toAgent ≠ "all" ∧ t.toAgent ≠ "team" := by simpa [hk] using hto.2
          exact ⟨hnot.1, fun ht => (hnot.2 ht).elim⟩
  | sender thread name n => exact (markable_unreadThrough_iff thread name n (A.isMemoAmong name)).symm
  | through thread n name =>
    have h := markable_unreadThrough_iff (A := A) (s := s) thread name n fun _ => false
    simp only [Bool.not_false, List.filter_true, Bool.false_eq_true] at h
    exact h.symm

/-- **What a call stamps in all**: its own turns, and what is unread behind them in the threads that are closed. -/
theorem run_stamps (C : Closing) (call : MarkRead) : Stamps (fun id t => (call.markedIds A s).contains id ||
      ((call.closeCandidates A s ts).contains t.thread &&
        closesOnRead A C s t.thread (call.turnsMarked A s ts t.thread) && t.readAt.isNone))
    (fun id t => if (call.markedIds A s).contains id then ts else C.now t.thread) s (call.run A C s ts) := by
  have hmark : Stamps _ (fun _ _ => ts) s (call.mark A s ts) := call.mark_stamps
  have hclose := closeAll_stamps A C (call.mark A s ts) (call.closeCandidates A s ts)
  rw [Stamps, hmark, Dict.mapVal_mapVal] at hclose
  refine hclose.trans (congrArg s.turns.rows.mapVal (funext₂ fun id t => ?_))
  have hdue : closesOnRead A C (call.mark A s ts) t.thread (threadTurns (call.mark A s ts) t.thread) =
      closesOnRead A C s t.thread (call.turnsMarked A s ts t.thread) := by
    rw [closesOnRead, closesOnRead, hmark.threadTurns_eq, mark_threads]
    rfl
  by_cases hin : id ∈ call.markedIds A s <;> simp [stampWhen, hin, hdue]

end MarkRead

end

/-- **Read marking.** A call stamps unread turns to the seat's own addresses only and leaves every other turn as it
is, exactly where it is confined to such turns. Before its commit `get_turns` always is, the digest where no unread
turn is to all or to the team, and the other two where "all" is no slug of the seat; behind it, no thread may be
closed that holds an unread turn to another seat. -/
theorem markRead_respects_iff (A : Addresses) (C : Closing) (s : Store) (ts : String) (call : MarkRead) :
    Respects A call.seat s (call.run A C s ts) ↔ call.Confined A C s ts := by
  refine ((call.run_stamps C).respects_iff fun id t ht hin => ?_).trans ?_
  · obtain hin | hin := Bool.or_eq_true_iff.1 hin
    · exact MarkRead.unread_of_marked ht hin
    · exact Option.isNone_iff_eq_none.1 (Bool.and_eq_true_iff.1 hin).2
  constructor
  · intro h
    refine ⟨call.marksOwn_iff.2 fun id t ht hin => h id t ht (by simp only [hin, Bool.true_or]), ?_⟩
    rintro _ hcandidate hdue id t ht rfl hread
    exact h id t ht (by simp [hcandidate, hdue, hread])
  · intro h id t ht hin
    obtain hin | hin := Bool.or_eq_true_iff.1 hin
    · exact call.marksOwn_iff.1 h.marks id t ht hin
    · simp only [Bool.and_eq_true, List.contains_iff_mem, Option.isNone_iff_eq_none] at hin
      exact h.closes t.thread hin.1.1 hin.1.2 id t ht rfl hin.2

/-- A thread with one turn, to all. -/
def broadcast : Store where
  threads := (∅ : Dict String Thread).set "7" ⟨"news", .active, none, "t1"⟩
  turns := (∅ : Table Turn).insert
    ⟨"7", 1, "cursor", "all", "restart", "at noon", .«open», none, "t1", none, none, none, none⟩

/-- No thread is tagged. -/
def noTags : Closing := ⟨fun _ => [], fun _ => false, fun _ => "t3"⟩

/-- The digest of one seat takes the turn to all away from the others. -/
theorem unreadToc_stamps_broadcast : ¬ Respects plainAddresses (some "web") broadcast
    ((MarkRead.unreadToc "web" none 50 true).run plainAddresses noTags broadcast "t2") := by
  intro h
  have hmarked : ((MarkRead.unreadToc "web" none 50 true).markedIds plainAddresses broadcast).contains 1 = true := by
    decide
  obtain h | ⟨t, _, ht, -, ⟨name, hname, helig⟩, -⟩ := h 1
  · obtain ⟨t, ht, hread⟩ : ∃ t, broadcast.turns.get? 1 = some t ∧ t.readAt = none := ⟨_, rfl, rfl⟩
    rw [(MarkRead.run_stamps noTags _).get?, ht, Option.map_some, stampWhen, hmarked, Bool.true_or, if_pos rfl] at h
    cases hread.symm.trans (congrArg Turn.readAt (Option.some.inj h)).symm
  · cases hname
    cases ht
    revert helig
    decide

/-- A consultation that is closed when its answer is read; the question is still unread. -/
def consultation : Store where
  threads := (∅ : Dict String Thread).set "7" ⟨"ask", .active, some .active, "t1"⟩
  turns := ((∅ : Table Turn).insert
    ⟨"7", 1, "cursor", "reviewer", "ask", "is it sound?", .«open», none, "t1", none, none, none, none⟩).insert
    ⟨"7", 2, "reviewer", "cursor", "answer", "it is", .«open», none, "t2", none, none, none, none⟩

/-- The one who asked reads the answer, and the question is stamped too. -/
example : ((((MarkRead.through "7" 2 "cursor").run plainAddresses
    { noTags with tags := fun _ => ["bus_lifecycle:persistent", "dispatch:close_on_read"] } consultation
    "t2").turns.get? 1).bind Turn.readAt) = some "t3" := by decide

/-! ## What is returned -/

/-- The row as it is returned when rows are stamped. -/
def stamped (ts : String) (e : ℕ × Turn) : ℕ × Turn :=
  (e.1, if e.2.readAt.isNone then { e.2 with readAt := some ts } else e.2)

/-- The rows are returned with the stamps that the store has. -/
def Reported (out : Store × List (ℕ × Turn)) : Prop :=
  ∀ e ∈ out.2, (out.1.turns.get? e.1).map Turn.readAt = some e.2.readAt

section

variable {A : Addresses} {s : Store} {q : TurnQuery} {ts : String} {readSeat : Option String}

theorem isEmpty_markable_iff {window : List (ℕ × Turn)} :
    (markable A readSeat window).isEmpty = true ↔
      ∀ e ∈ window, e.2.readAt = none → ¬Markable A readSeat e.2 := by
  cases readSeat with
  | none => exact iff_of_true rfl fun e _ _ ⟨_, h, _⟩ => nomatch h
  | some seat =>
    rw [markable, List.isEmpty_iff, List.map_eq_nil_iff, List.filter_eq_nil_iff]
    simp [Markable]

theorem readAt_stampIds {ids : List ℕ} {id : ℕ} {t : Turn} (ht : s.turns.get? id = some t) :
    ((stampIds s ids ts).turns.get? id).map Turn.readAt =
      some (if ids.contains id then some ts else t.readAt) := by
  rw [(stampIds_stamps s ids ts).get?, ht, Option.map_some, Option.map_some, stampWhen]
  split_ifs <;> rfl

/-- **What `get_turns` returns.** The rows show the stamps of the store just when the seat may mark none of the unread
turns that are in reach, or all of them. -/
theorem getTurnsMarkRead_reported_iff (A : Addresses) (s : Store) (q : TurnQuery) (markReadSeat : Option String)
    (markReadLimit : Option ℤ) (ts : String) :
    Reported (getTurnsMarkRead A s q markReadSeat markReadLimit ts) ↔
      (∀ e ∈ markWindow A s q markReadLimit, e.2.readAt = none → ¬Markable A (markReadSeat.or q.recipient) e.2) ∨
      ∀ e ∈ markWindow A s q markReadLimit, e.2.readAt = none → Markable A (markReadSeat.or q.recipient) e.2 := by
  have hrows : ∀ e ∈ getTurns A s q, s.turns.get? e.1 = some e.2 := fun e he => getTurns_get? he
  have hwindow : ∀ e ∈ markWindow A s q markReadLimit, s.turns.get? e.1 = some e.2 :=
    fun e he => hrows e (List.mem_of_mem_take he)
  by_cases hempty : (markable A (markReadSeat.or q.recipient) (markWindow A s q markReadLimit)).isEmpty = true
  · rw [show getTurnsMarkRead A s q markReadSeat markReadLimit ts = (s, getTurns A s q) from if_pos hempty]
    refine iff_of_true (fun e he => ?_) (.inl (isEmpty_markable_iff.1 hempty))
    rw [hrows e he, Option.map_some]
  rw [or_iff_right fun hnone => hempty (isEmpty_markable_iff.2 hnone), show
    getTurnsMarkRead A s q markReadSeat markReadLimit ts = (stampIds s (markable A (markReadSeat.or q.recipient)
      (markWindow A s q markReadLimit)) ts, (markWindow A s q markReadLimit).map (stamped ts) ++
        (getTurns A s q).drop (markReadLimit.elim _ fun n => n.toNat)) from if_neg hempty]
  constructor
  · intro h e he hunread
    have hstamp := h _ (List.mem_append_left _ (List.mem_map_of_mem he))
    rw [stamped, readAt_stampIds (hwindow e he), hunread] at hstamp
    by_contra hnot
    rw [if_neg fun hin => hnot ((mem_markable hwindow (hwindow e he)).1 hin).2.2] at hstamp
    cases hstamp
  · intro h e he
    obtain he | he := List.mem_append.1 he
    · obtain ⟨e, hmem, rfl⟩ := List.mem_map.1 he
      rw [stamped, readAt_stampIds (hwindow e hmem)]
      cases hunread : e.2.readAt with
      | none =>
        rw [if_pos ((mem_markable hwindow (hwindow e hmem)).2 ⟨hmem, hunread, h e hmem hunread⟩)]
        rfl
      | some at_ =>
        rw [if_neg fun hin => nomatch hunread.symm.trans ((mem_markable hwindow (hwindow e hmem)).1 hin).2.1]
        exact congrArg some hunread.symm
    · -- A row that is out of reach is not one of those that are stamped.
      have hget := hrows e (List.mem_of_mem_drop he)
      rw [readAt_stampIds hget, if_neg fun hin => ?_]
      exact List.disjoint_take_drop (getTurns_nodup q).of_map le_rfl ((mem_markable hwindow hget).1 hin).1 he

end

/-- A thread with a turn to all, and one to a seat. -/
def mixed : Store where
  threads := broadcast.threads
  turns := broadcast.turns.insert
    ⟨"7", 2, "cursor", "web", "restart", "done", .«open», none, "t2", none, none, none, none⟩

/-- The inbox of the seat. -/
def inbox : TurnQuery := ⟨none, some "web", false, none, false, none, none⟩

/-- The turn to all is returned as read, and is unread in the store. -/
theorem getTurnsMarkRead_reports_broadcast : ¬Reported
    (getTurnsMarkRead plainAddresses mixed inbox none none "t3") := by
  intro h
  have hbroadcast := h (1, ⟨"7", 1, "cursor", "all", "restart", "at noon", .«open», none, "t1", some "t3", none, none,
    none⟩) (List.mem_of_getElem? (i := 1) rfl)
  revert hbroadcast
  decide

end LlmGateway.AgentBus
