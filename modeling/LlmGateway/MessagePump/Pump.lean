import Mathlib.Data.List.Basic
import LlmGateway.Foundations.Json
import LlmGateway.MessagePump.CorrelationRegistry

/-!
# The message pump

`pump.py` and `pump_receive_loop.py`. A call of `send_request` registers a future under its correlation id and waits
for it; the receive loop is the only reader of the transport, and routes each message to the queue of its correlation,
to the future that is registered under its id, or to the general queue. The pump is a system of the events between which
its tasks wait: a step of the loop goes from one await to the next, and back to the head of the loop where that is on
the way (`head`).
-/

namespace LlmGateway.MessagePump

/-- What the pump reads of a message: the correlation id and the signal. -/
structure MessageFormat (Message : Type*) where
  getCorrelationId : Message → Option String
  signal : Message → Option String

/-- What became of a future. -/
inductive Outcome (Message : Type*)
  | pending
  | result (message : Message)
  | failed (error : String)
  | cancelled

/-- `not future.done()`. -/
def Outcome.isPending {Message : Type*} : Outcome Message → Bool
  | .pending => true
  | _ => false

/-- The future of a call of `send_request`, and whether the call still waits for it. -/
structure RequestFuture (Message : Type*) where
  correlationId : String
  outcome : Outcome Message
  awaited : Bool

/-- The task of the receive loop. Where it has ended, the number of futures that had been made by then. -/
inductive ReceiveLoop
  | notStarted
  | starting
  | receiving
  /-- It sleeps after an error. -/
  | sleeping
  /-- `stop` has cancelled it. -/
  | cancelled
  | ended (made : ℕ)
  deriving DecidableEq

/-- `MessagePump`, with the transport's state, the number of calls of `stop` that have still to clean up, and all the
futures that were made: one is known by its place among them. -/
structure Pump (Message : Type*) where
  running : Bool
  connected : Bool
  loop : ReceiveLoop
  stopping : ℕ
  pendingRequests : Dict String ℕ
  requestSignals : Dict String String
  futures : List (RequestFuture Message)
  correlations : CorrelationRegistry Message
  messageQueue : List Message
  messagesReceived : ℕ
  receiveTimeouts : ℕ

/-- An exception as the loop looks at it. -/
structure ReceiveError where
  typeName : String
  text : String

/-- `phrase in text`. -/
def occursIn (phrase text : String) : Bool := text.toList.tails.any phrase.toList.isPrefixOf

/-- `_is_disconnection_error`. -/
def ReceiveError.isDisconnection (e : ReceiveError) : Bool :=
  ["connection closed", "not connected", "session not connected", "connection lost", "connection reset",
      "broken pipe"].any (fun phrase => occursIn phrase (Json.lower e.text)) ||
    ["IncompleteReadError", "ConnectionResetError", "BrokenPipeError"].contains e.typeName

namespace Pump

variable {Message : Type*} (format : MessageFormat Message) (s : Pump Message)

/-- A pump that was not started. -/
def new (connected : Bool) (now : ℚ) : Pump Message where
  running := false
  connected := connected
  loop := .notStarted
  stopping := 0
  pendingRequests := ∅
  requestSignals := ∅
  futures := []
  correlations := .start now
  messageQueue := []
  messagesReceived := 0
  receiveTimeouts := 0

/-- A future is completed, if it is not done. -/
def settle (f : ℕ) (outcome : Outcome Message) (futures : List (RequestFuture Message)) :
    List (RequestFuture Message) :=
  futures.modify f fun future => if future.outcome.isPending then { future with outcome } else future

/-- All registered futures are completed and taken out. -/
def settleAll (outcome : Outcome Message) : Pump Message :=
  { s with
    futures := s.pendingRequests.items.foldl (fun futures e => settle e.2 outcome futures) s.futures
    pendingRequests := ∅
    requestSignals := s.requestSignals.filter fun id _ => !s.pendingRequests.contains id }

/-! ## The receive loop -/

/-- The head of the loop: it ends when the pump does not run or the transport is not connected, and else waits for
the next message. -/
def head : Pump Message :=
  { s with loop := if s.running && s.connected then .receiving else .ended s.futures.length }

/-- The correlation id of a message, when there is one. -/
def correlationOf (message : Message) : Option String := (format.getCorrelationId message).filter (· ≠ "")

/-- The id of the pending request that a message answers. -/
def answers (message : Message) : Option String :=
  (correlationOf format message).filter fun id =>
    !s.correlations.isRegistered id && s.pendingRequests.contains id &&
      s.requestSignals.get? id ≠ some ((format.signal message).getD "")

/-- Where a message goes: to the queue of its correlation, to a pending request, unless it is the echo of that
request, or to the general queue. -/
def routeMessage (message : Message) : Pump Message :=
  match correlationOf format message with
  | none => { s with messageQueue := s.messageQueue ++ [message] }
  | some id =>
    if s.correlations.isRegistered id then { s with correlations := s.correlations.routeMessage id message }
    else
      match s.pendingRequests.get? id with
      | none => { s with messageQueue := s.messageQueue ++ [message] }
      | some f =>
        if s.requestSignals.get? id = some ((format.signal message).getD "") then s
        else { s with futures := settle f (.result message) s.futures }

/-- A message is received. -/
def receive (message : Message) : Pump Message :=
  (routeMessage format { s with messagesReceived := s.messagesReceived + 1 } message).head

/-- `receive` raises: for a permanent disconnection all pending requests fail and the pump stops; after any other
error the loop sleeps and goes on. -/
def raise (e : ReceiveError) : Pump Message :=
  if !s.running then { s with loop := .ended s.futures.length }
  else if e.isDisconnection then
    { s.settleAll (.failed ("Connection closed: " ++ e.text)) with
      running := false
      loop := .ended s.futures.length }
  else { s with loop := .sleeping }

/-! ## The calls -/

/-- `start`. It raises where the transport is not connected. -/
def start : Option (Pump Message) :=
  if s.running then some s
  else if s.connected then some { s with running := true, loop := .starting }
  else none

/-- `send_request`, up to where it waits. `generated` is the id it makes where the request has none. -/
def sendRequest (request : Message) (generated : String) : Option (Pump Message) :=
  s.start.map fun s =>
    let id := (correlationOf format request).getD generated
    { s with
      pendingRequests := s.pendingRequests.set id s.futures.length
      requestSignals := s.requestSignals.set id ((format.signal request).getD "")
      futures := s.futures ++ [⟨id, .pending, true⟩] }

/-- A call of `send_request` comes to its end, with its response, after its timeout, which cancels the future, or
because the transport could not send. It takes out what is registered under its id. -/
def finishRequest (f : ℕ) (cancels : Bool) : Option (Pump Message) :=
  (s.futures[f]?).bind fun future =>
    if future.awaited then
      let futures := if cancels then settle f .cancelled s.futures else s.futures
      some { s with
        futures := futures.modify f fun future => { future with awaited := false }
        pendingRequests := s.pendingRequests.erase future.correlationId
        requestSignals := s.requestSignals.erase future.correlationId }
    else none

/-- A task that has not ended is cancelled. -/
def cancelLoop : ReceiveLoop → ReceiveLoop
  | .starting | .receiving | .sleeping | .cancelled => .cancelled
  | loop => loop

/-- `stop`, up to where it waits for the loop. -/
def stop : Pump Message :=
  if s.running then
    { s with
      running := false
      correlations := s.correlations.clear
      loop := cancelLoop s.loop
      stopping := s.stopping + 1 }
  else s

/-- The rest of `stop`. -/
def cleanUp : Pump Message :=
  { s.settleAll .cancelled with requestSignals := ∅, messageQueue := [], stopping := s.stopping - 1 }

end Pump

/-- What happens to a pump. -/
inductive PumpEvent (Message : Type*)
  /-- The transport is connected, or is so no more. -/
  | connection (connected : Bool)
  | start
  | sendRequest (request : Message) (generated : String)
  | finishRequest (f : ℕ) (cancels : Bool)
  | stop
  | cleanUp
  /-- The loop comes to its head for the first time. -/
  | begin
  | receive (message : Message)
  | receiveTimeout
  | raise (e : ReceiveError)
  /-- The sleep after an error is over. -/
  | wake
  /-- The loop that `stop` has cancelled ends. -/
  | exit
  /-- The task of the loop is cancelled by another than `stop`. -/
  | cancel
  | correlation (e : RegistryEvent Message)
  /-- A worker takes the next message of the general queue. -/
  | takeMessage
  | publish (message : Message)

/-- The pump after an event, if the event can happen. -/
def Pump.step {Message : Type*} (format : MessageFormat Message) (s : Pump Message) :
    PumpEvent Message → Option (Pump Message)
  | .connection connected => some { s with connected }
  | .start => s.start
  | .sendRequest request generated => s.sendRequest format request generated
  | .finishRequest f cancels => s.finishRequest f cancels
  | .stop => some s.stop
  | .cleanUp => if 0 < s.stopping then some s.cleanUp else none
  | .begin => if s.loop = .starting then some s.head else none
  | .receive message => if s.loop = .receiving then some (s.receive format message) else none
  | .receiveTimeout =>
    if s.loop = .receiving then some { s with receiveTimeouts := s.receiveTimeouts + 1 }.head else none
  | .raise e => if s.loop = .receiving then some (s.raise e) else none
  | .wake => if s.loop = .sleeping then some s.head else none
  | .exit => if s.loop = .cancelled then some { s with loop := .ended s.futures.length } else none
  | .cancel =>
    if s.loop = .starting ∨ s.loop = .receiving ∨ s.loop = .sleeping then
      some { s with loop := .ended s.futures.length }
    else none
  | .correlation e => (s.correlations.step e).map fun correlations => { s with correlations }
  | .takeMessage => if s.running then some { s with messageQueue := s.messageQueue.tail } else none
  | .publish message => if s.running then some { s with messageQueue := s.messageQueue ++ [message] } else none

end LlmGateway.MessagePump
