import Mathlib.Data.Rat.Defs
import LlmGateway.Foundations.Dict

/-!
# The correlation registry of the message pump

`correlation_registry.py`. Each registered correlation has a queue, metadata and a task that sleeps for its timeout
and then unregisters it, if there was no activity in the meantime. An activity, and a second registration, put a new
task in the place of the old one.

Time is what `time.time()` returns, exact. A queue has a number, which tells the queues of successive registrations
of one id from each other; a call of `get_message` that waits holds on to the queue that it found.
-/

namespace LlmGateway.MessagePump

/-- A queue of a correlation. -/
structure CorrelationQueue (Message : Type*) where
  number : ℕ
  messages : List Message

/-- The metadata of a correlation. -/
structure Metadata where
  createdAt : ℚ
  lastActivity : ℚ
  messageCount : ℕ
  timeout : ℚ

/-- A task that expires a correlation, asleep until `wakeAt`. -/
structure ExpirationTask where
  timeout : ℚ
  wakeAt : ℚ

/-- A call of `get_message` that waits on a queue, until `deadline` if it has a timeout. -/
structure Waiter where
  queue : ℕ
  deadline : Option ℚ
  deriving DecidableEq

/-- `CorrelationRegistry`, with the clock, the calls that wait, and the number of the next queue. Of the tasks, those
that have ended are left out. -/
structure CorrelationRegistry (Message : Type*) where
  queues : Dict String (CorrelationQueue Message)
  metadata : Dict String Metadata
  tasks : Dict String ExpirationTask
  waiters : List Waiter
  nextQueue : ℕ
  now : ℚ

namespace CorrelationRegistry

variable {Message : Type*} (s : CorrelationRegistry Message)

/-- A registry without correlations. -/
def start (now : ℚ) : CorrelationRegistry Message := ⟨∅, ∅, ∅, [], 0, now⟩

def isRegistered (id : String) : Bool := s.queues.contains id

/-- `_schedule_correlation_expiration`: the task that was there is cancelled. -/
def scheduleExpiration (id : String) (timeout : ℚ) : CorrelationRegistry Message :=
  { s with tasks := s.tasks.set id ⟨timeout, s.now + timeout⟩ }

/-- `_refresh_correlation_expiration`. -/
def refreshExpiration (id : String) (timeout : Option ℚ) : CorrelationRegistry Message :=
  match s.metadata.get? id with
  | none => s
  | some metadata =>
    { s with metadata := s.metadata.set id { metadata with lastActivity := s.now } }.scheduleExpiration id
      (timeout.getD metadata.timeout)

def register (id : String) (timeout : ℚ) : CorrelationRegistry Message :=
  if s.isRegistered id then s.refreshExpiration id (some timeout)
  else
    { s with
      queues := s.queues.set id ⟨s.nextQueue, []⟩
      metadata := s.metadata.set id ⟨s.now, s.now, 0, timeout⟩
      nextQueue := s.nextQueue + 1 }.scheduleExpiration id timeout

def unregister (id : String) : CorrelationRegistry Message :=
  let s := { s with tasks := s.tasks.erase id }
  if s.isRegistered id then { s with queues := s.queues.erase id, metadata := s.metadata.erase id } else s

def clear : CorrelationRegistry Message := { s with queues := ∅, metadata := ∅, tasks := ∅ }

def routeMessage (id : String) (message : Message) : CorrelationRegistry Message :=
  match s.queues.get? id with
  | none => s
  | some queue =>
    let s := { s with queues := s.queues.set id { queue with messages := queue.messages ++ [message] } }
    match s.metadata.get? id with
    | none => s
    | some metadata =>
      { s with
        metadata := s.metadata.set id
          { metadata with lastActivity := s.now, messageCount := metadata.messageCount + 1 } }.refreshExpiration id none

/-- `get_message`, up to where it waits: a message of the queue that is there, or the call waits. It raises where the
correlation is not registered. -/
def getMessage (id : String) (timeout : Option ℚ) : Option (CorrelationRegistry Message) :=
  (s.queues.get? id).map fun queue =>
    match queue.messages with
    | _ :: rest => { s with queues := s.queues.set id { queue with messages := rest } }
    | [] => { s with waiters := s.waiters ++ [⟨queue.number, timeout.map (s.now + ·)⟩] }

/-- `_expire_correlation`, when its sleep is over. -/
def expire (id : String) (task : ExpirationTask) : CorrelationRegistry Message :=
  match s.metadata.get? id with
  | none => { s with tasks := s.tasks.erase id }
  | some metadata =>
    if task.timeout ≤ s.now - metadata.lastActivity then s.unregister id
    else { s with tasks := s.tasks.erase id }

/-- A call that waits takes a message of its queue, if the queue is still there. -/
def resume (w : Waiter) : Option (CorrelationRegistry Message) :=
  (s.queues.items.find? fun e => e.2.number = w.queue).bind fun e =>
    match e.2.messages with
    | [] => none
    | _ :: rest =>
      some { s with
        queues := s.queues.set e.1 { e.2 with messages := rest }
        waiters := s.waiters.erase w }

end CorrelationRegistry

/-- What happens to a registry. -/
inductive RegistryEvent (Message : Type*)
  /-- The clock goes on. -/
  | advance (t : ℚ)
  | register (id : String) (timeout : ℚ)
  | unregister (id : String)
  | clear
  | route (id : String) (message : Message)
  | getMessage (id : String) (timeout : Option ℚ)
  /-- The sleep of the task of a correlation is over. -/
  | expire (id : String)
  /-- A call that waits takes a message. -/
  | resume (w : Waiter)
  /-- A call that waits is cancelled, or its time is over. -/
  | giveUp (w : Waiter)

/-- The registry after an event, if the event can happen. -/
def CorrelationRegistry.step {Message : Type*} (s : CorrelationRegistry Message) :
    RegistryEvent Message → Option (CorrelationRegistry Message)
  | .advance t => if s.now ≤ t then some { s with now := t } else none
  | .register id timeout => some (s.register id timeout)
  | .unregister id => some (s.unregister id)
  | .clear => some s.clear
  | .route id message => some (s.routeMessage id message)
  | .getMessage id timeout => s.getMessage id timeout
  | .expire id => (s.tasks.get? id).bind fun task => if task.wakeAt ≤ s.now then some (s.expire id task) else none
  | .resume w => if w ∈ s.waiters then s.resume w else none
  | .giveUp w => if w ∈ s.waiters then some { s with waiters := s.waiters.erase w } else none

end LlmGateway.MessagePump
