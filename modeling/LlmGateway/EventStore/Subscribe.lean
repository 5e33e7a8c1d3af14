import LlmGateway.Foundations.System
import LlmGateway.Foundations.Json

/-!
# A subscriber's connection

The writer commits events to the table and fans them out afterwards, in their order. A connection has a queue from its
beginning, in which what is fanned out waits; its handler takes the client's messages one at a time. A `subscribe`
replays the table behind a `seq`, page by page, then cancels the push task of the `subscribe` before it and starts
another, which takes items off the queue and sends those that match the filter.

Tasks switch where they wait. So a get that the push task waits for can be over before the task resumes, a send likewise,
and the task can be cancelled in between: what it waited for is then given up, whether it is over or not
(`Push.cancel`, `resumePush`). Behind the wait it lets go of the other task it waited for; a cancellation that meets it
there is suppressed.

The runs are those of a peer that stays connected and of a queue that is never full: a fan-out to a full queue is not a
step.
-/

namespace LlmGateway.EventStore

/-- The fields of an event as texts. -/
abbrev Fields : Type := List (String × String)

/-- A stored event: its row as it is read from the table, and the event that is fanned out. -/
structure Event where
  seq : ℕ
  row : Fields
  live : Fields
  deriving DecidableEq

/-- What is fanned out: stored events, and realtime events and notices, which are not stored. -/
inductive Live where
  | stored (e : Event)
  | transient (fields : Fields)
  deriving DecidableEq

/-- The fields of what is fanned out. -/
def Live.fields : Live → Fields
  | .stored e => e.live
  | .transient fields => fields

def matchesFilter (event filt : Fields) : Bool :=
  filt.all fun e =>
    let value := (event.lookup e.1).getD ""
    if e.2.toList.getLast? == some '*' then e.2.toList.dropLast.isPrefixOf value.toList else value == e.2

/-! ## Tasks -/

/-- Where the handler is. -/
inductive Handler where
  /-- It waits for the first message. -/
  | connected
  /-- It waits for a page of the rows behind `last`. -/
  | reading (first : Bool) (last : ℕ)
  /-- It sends the rows of a page; `full` when there may be another. -/
  | replaying (first : Bool) (last : ℕ) (rest : List Event) (full : Bool)
  /-- It sends the realtime events. -/
  | snapshot
  /-- It waits for the push task that it cancelled. -/
  | cancelling
  /-- It sends the answer. -/
  | acknowledging
  /-- It waits for another message. -/
  | idle
  deriving DecidableEq

/-- Where the push task is. -/
inductive Push where
  | absent
  /-- It waits for an item, which the get may hold already. -/
  | next (held : Option Live) (cancelled : Bool)
  /-- It has an item and lets go of the wait for a disconnect. -/
  | releasing (held : Live)
  /-- It waits for a send, which may be over already. -/
  | sending (held : Live) (written cancelled : Bool)
  /-- It has sent an item and lets go of the wait for a disconnect. -/
  | settling
  | ended
  deriving DecidableEq

def Push.cancel : Push → Push
  | .next held _ => .next held true
  | .sending held written _ => .sending held written true
  | p => p

/-- What the push task has and has not sent. -/
def Push.holds : Push → Option Live
  | .next held _ => held
  | .releasing held => some held
  | .sending held written _ => if written then none else some held
  | _ => none

/-- What is given up when the push task resumes. -/
def Push.givesUp : Push → Option Live
  | .next held true => held
  | .sending held written true => if written then none else some held
  | _ => none

/-- The connection, with the tables it reads and the writer's side of it. -/
structure Connection where
  table : List Event
  /-- The events that are committed and not yet fanned out. -/
  pending : List Event
  queue : List Live
  /-- The stored events that were sent, from the table or from the queue. -/
  sent : List Event
  handler : Handler
  push : Push
  deriving DecidableEq

/-- The filter of the client, the `seq` that its first message resumes from, and the bound of the queue. -/
structure Subscription where
  filt : Fields
  resumeFrom : ℕ
  maxsize : ℕ

def replayPageSize : ℕ := 10000

/-! ## Steps -/

/-- What happens next. -/
inductive SubscribeAct where
  /-- The writer commits a batch. -/
  | commit (batch : List Event)
  /-- The writer fans out the next event that it committed. -/
  | fanOut
  /-- Something is fanned out that is not stored. -/
  | fanOutTransient (fields : Fields)
  /-- The handler takes a `subscribe`; the first one resumes from `resumeFrom`. -/
  | subscribe (resume : Option ℕ)
  /-- A page is read; a read that fails has no rows. -/
  | readPage (succeeds : Bool)
  /-- The handler comes to the next row of the page, or to the page's end. -/
  | replay
  /-- The realtime events are sent, and the push task is cancelled. -/
  | cancelPush
  /-- The cancelled push task has ended, and another starts. -/
  | startPush
  | acknowledge
  /-- The get takes the head of the queue. -/
  | take
  /-- The send is over. -/
  | write
  /-- The push task goes on behind its wait. -/
  | resumePush
  deriving DecidableEq

def Connection.full (S : Subscription) (s : Connection) : Bool :=
  decide (0 < S.maxsize) && decide (S.maxsize ≤ s.queue.length)

/-- `queue.put_nowait(x)` where the queue is not full. -/
def Connection.put (S : Subscription) (s : Connection) (x : Live) : Option Connection :=
  if s.full S then none else some { s with queue := s.queue ++ [x] }

/-- The rows behind `last`, a page at most. -/
def Connection.page (s : Connection) (last : ℕ) : List Event :=
  (s.table.filter fun e => decide (last < e.seq)).take replayPageSize

/-- The event is sent when it matches. -/
def Connection.send (S : Subscription) (s : Connection) (e : Event) (fields : Fields) : Connection :=
  if matchesFilter fields S.filt then { s with sent := s.sent ++ [e] } else s

/-- A `subscribe` without a `seq` replays nothing. -/
def beginReplay (first : Bool) : Option ℕ → Handler
  | some last => .reading first last
  | none => .snapshot

/-- The push task behind its wait. -/
def resumePush (S : Subscription) : Push → Option Push
  | .next _ true => some .ended
  | .next (some x) false => some (.releasing x)
  | .releasing x => some (if matchesFilter x.fields S.filt then .sending x false false else .next none false)
  | .sending _ _ true => some .ended
  | .sending _ true false => some .settling
  | .settling => some (.next none false)
  | _ => none

/-- The rows of `batch` come behind those of the table. -/
def appendable (table batch : List Event) : Bool :=
  decide ((table ++ batch).Pairwise fun e e' => e.seq < e'.seq)

/-- The connection after an act. -/
def subscribeStep (S : Subscription) (s : Connection) : SubscribeAct → Option Connection
  | .commit batch =>
    if appendable s.table batch then some { s with table := s.table ++ batch, pending := s.pending ++ batch } else none
  | .fanOut =>
    match s.pending with
    | [] => none
    | e :: pending => { s with pending := pending }.put S (.stored e)
  | .fanOutTransient fields => s.put S (.transient fields)
  | .subscribe resume =>
    match s.handler with
    | .connected => some { s with handler := .reading true S.resumeFrom }
    | .idle => some { s with handler := beginReplay false resume }
    | _ => none
  | .readPage succeeds =>
    match s.handler with
    | .reading first last =>
      let rows := if succeeds then s.page last else []
      some { s with handler := .replaying first last rows (decide (replayPageSize ≤ rows.length)) }
    | _ => none
  | .replay =>
    match s.handler with
    | .replaying first _ (e :: rest) full => some { s.send S e e.row with handler := .replaying first e.seq rest full }
    | .replaying first last [] full => some { s with handler := if full then .reading first last else .snapshot }
    | _ => none
  | .cancelPush =>
    match s.handler with
    | .snapshot => some { s with handler := .cancelling, push := s.push.cancel }
    | _ => none
  | .startPush =>
    match s.handler, s.push with
    | .cancelling, .absent => some { s with handler := .acknowledging, push := .next none false }
    | .cancelling, .ended => some { s with handler := .acknowledging, push := .next none false }
    | _, _ => none
  | .acknowledge =>
    match s.handler with
    | .acknowledging => some { s with handler := .idle }
    | _ => none
  | .take =>
    match s.push, s.queue with
    | .next none cancelled, x :: queue => some { s with queue := queue, push := .next (some x) cancelled }
    | _, _ => none
  | .write =>
    match s.push with
    | .sending (.stored e) false cancelled =>
      some { s with sent := s.sent ++ [e], push := .sending (.stored e) true cancelled }
    | .sending (.transient fields) false cancelled => some { s with push := .sending (.transient fields) true cancelled }
    | _ => none
  | .resumePush => (resumePush S s.push).map fun p => { s with push := p }

/-- A connection that was just made, before its first message. -/
structure Connection.Fresh (s : Connection) : Prop where
  ascending : s.table.Pairwise fun e e' => e.seq < e'.seq
  queue : s.queue = []
  sent : s.sent = []
  handler : s.handler = .connected
  push : s.push = .absent

/-- The runs of a connection. -/
def subscription (S : Subscription) : System Connection SubscribeAct := .ofFn Connection.Fresh (subscribeStep S)

/-! ## Events under way -/

/-- An event that the first replay comes to. -/
def Handler.replays (e : Event) : Handler → Prop
  | .connected => True
  | .reading true last => last < e.seq
  | .replaying true last rest full => e ∈ rest ∨ full = true ∧ last < e.seq ∧ ∀ r ∈ rest, r.seq < e.seq
  | _ => False

/-- An event that is neither sent nor queued yet, but will be: the writer is to fan it out, the first replay comes to
it, or the push task has it in hand. -/
inductive UnderWay (s : Connection) (e : Event) : Prop
  | pending (h : e ∈ s.pending)
  | replay (h : s.handler.replays e)
  | held (h : s.push.holds = some (.stored e))

/-- Nothing is under way: what was committed has been fanned out, the first replay is over, and the push task has
nothing in hand. -/
structure AtRest (s : Connection) : Prop where
  pending : s.pending = []
  replay : ∀ e, ¬ s.handler.replays e
  held : s.push.holds = none

theorem AtRest.not_underWay {s : Connection} (h : AtRest s) (e : Event) : ¬ UnderWay s e := by
  rintro (hp | hr | hh)
  · rw [h.pending] at hp
    cases hp
  · exact h.replay e hr
  · rw [h.held] at hh
    cases hh

/-- The step loses no event that matches: no page of the first replay fails to be read, an event whose row matches is
fanned out as one that matches, and the push task, when it is cancelled, gives up none whose row matches. -/
def careful (S : Subscription) (s : Connection) : SubscribeAct → Bool
  | .readPage succeeds =>
    match s.handler with
    | .reading true _ => succeeds
    | _ => true
  | .fanOut => s.pending.head?.all fun e => !matchesFilter e.row S.filt || matchesFilter e.live S.filt
  | .resumePush =>
    match s.push.givesUp with
    | some (.stored e) => !matchesFilter e.row S.filt
    | _ => true
  | _ => true

end LlmGateway.EventStore
