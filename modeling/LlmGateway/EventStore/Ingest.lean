import LlmGateway.Foundations.Binary64
import LlmGateway.Foundations.Decimal

/-!
# The ingest of events

Publishers send lines of JSON, which are queued as they are. One writer takes what is in the queue, up to a
hundred lines at once: it keeps realtime events in memory, inserts the others into the events table, keeps
snapshots in a table of their own, and hands to the subscribers what it kept.

An entry of the queue is a line with what SQLite will answer for its row. Beside that the answers to the statement
that inserts a whole batch, and to the rollback behind it, are an argument of the batch.
-/

namespace LlmGateway.EventStore

/-! ## Values -/

/-- The exceptions that are raised. -/
inductive Raised where
  | attributeError (typeName attr : String)
  | typeError
  | valueError
  | overflowError
  | sqliteError
  deriving DecidableEq

/-- `type(v).__name__`. -/
def typeName : Json → String
  | .null => "NoneType"
  | .bool _ => "bool"
  | .int _ => "int"
  | .float _ => "float"
  | .str _ => "str"
  | .arr _ => "list"
  | .obj _ => "dict"

/-- The number that digits, a point and digits stand for. -/
def mantissaOfText (s : List Char) : ℚ :=
  let whole := s.takeWhile fun c => c != '.'
  let fraction := (s.dropWhile fun c => c != '.').drop 1
  Nat.ofDigitChars 10 (whole ++ fraction) 0 / 10 ^ fraction.length

/-- The number that the text of a finite float stands for. -/
def finiteOfText (s : List Char) : ℚ :=
  let mantissa := mantissaOfText (s.takeWhile fun c => c != 'e')
  let exponent := (Decimal.signedOfText ((s.dropWhile fun c => c != 'e').drop 1)).getD 0
  mantissa * 10 ^ exponent

/-- The float with the text. -/
def floatOfText (s : String) : Binary64 :=
  if s = "inf" then .infinite false
  else if s = "-inf" then .infinite true
  else if s = "nan" then .nan
  else
    match s.toList with
    | '-' :: digits => .ofRat (-finiteOfText digits)
    | digits => .ofRat (finiteOfText digits)

/-- `int(v)`. -/
def intOf : Json → Except Raised ℤ
  | .bool b => .ok (if b then 1 else 0)
  | .int n => .ok n
  | .float r =>
    match (floatOfText r).toInt with
    | .ok n => .ok n
    | .error .overflowError => .error .overflowError
    | .error .valueError => .error .valueError
  | .str s =>
    match Decimal.ofText s.toList with
    | some n => .ok n
    | none => .error .valueError
  | _ => .error .typeError

/-! ## Rows -/

/-- A row for `_INSERT_EVENT`. -/
structure Row where
  eventId : Option ℤ
  signal : Json
  role : Json
  scope : Json
  tsMs : Json
  timestamp : Json
  source : Json
  payload : Option String

def ingestStringField (items : List (String × Json)) (field default : String) : Json :=
  match Json.get items field with
  | .null => .str default
  | .str s => .str (if s = "" then default else s)
  | raw => raw

/-- `iso.replace("Z", "+00:00")`. -/
def replaceZulu (s : String) : String :=
  String.ofList (s.toList.flatMap fun c => if c = 'Z' then ['+', '0', '0', ':', '0', '0'] else [c])

/-- `_ts_ms_from_iso`: `iso` reads a time stamp, and where it does not, or there is no text, it is `now`. -/
def tsMsFromIso (iso : String → Option ℤ) (now : ℤ) : Json → ℤ
  | .str s => (iso (replaceZulu s)).getD now
  | _ => now

def maxPayloadBytes : ℕ := 64 * 1024

/-- `json.dumps` of the payload, unless there is none. -/
def payloadText (items : List (String × Json)) : Option String :=
  match Json.get items "payload" with
  | .null => none
  | payload => some (Json.dumps payload)

/-- The payload is too long. -/
def oversized (items : List (String × Json)) : Bool :=
  (payloadText items).any fun text => decide (maxPayloadBytes < text.utf8ByteSize)

/-- The column `event_id`: no number is no id, but what `int` raises of an infinite float is not caught. -/
def eventId (items : List (String × Json)) : Except Raised (Option ℤ) :=
  match Json.get items "id" with
  | .null => .ok none
  | v =>
    match intOf v with
    | .ok n => .ok (some n)
    | .error .typeError => .ok none
    | .error .valueError => .ok none
    | .error r => .error r

def prepareInsertRow (iso : String → Option ℤ) (now : ℤ) (items : List (String × Json)) :
    Except Raised (Option Row) :=
  if oversized items then .ok none
  else
    let timestamp := Json.get items "timestamp"
    let tsIso := if timestamp.truthy then timestamp else .str ""
    let tsUnixMs := Json.get items "ts_unix_ms"
    let tsMs := if tsUnixMs.truthy then tsUnixMs
      else .int (if tsIso.truthy then tsMsFromIso iso now tsIso else now)
    match eventId items with
    | .error r => .error r
    | .ok id => .ok (some ⟨id, ingestStringField items "signal" "unknown",
        ingestStringField items "role" "observation", ingestStringField items "scope" "global", tsMs, tsIso,
        ingestStringField items "source" "unknown", payloadText items⟩)

/-- A row for `_INSERT_SNAPSHOT`. -/
structure SnapshotRow where
  requestId : Json
  phase : Json
  tsUnixMs : ℤ
  modelId : Json
  gatewayId : Json
  payload : String

/-- The payload of a snapshot event, which is asked for its keys. -/
def snapshotPayload (items : List (String × Json)) : Except Raised (List (String × Json)) :=
  match Json.lookup "payload" items with
  | none => .ok []
  | some (.obj payload) => .ok payload
  | some v => .error (.attributeError (typeName v) "get")

/-- The row of a snapshot. -/
def snapshotRow (now : ℤ) (payload : List (String × Json)) : SnapshotRow :=
  ⟨(Json.lookup "request_id" payload).getD (.str ""), (Json.lookup "phase" payload).getD (.str ""), now,
    Json.get payload "model_id", Json.get payload "gateway_id", Json.dumps (.obj payload)⟩

/-! ## The queue -/

/-- A line of the queue, with what SQLite answers: whether its row is inserted and committed, whether the rollback
succeeds when it is not, and whether its snapshot is. -/
structure Entry where
  line : Json
  accepted : Bool
  undone : Bool
  snapshotAccepted : Bool

namespace Entry

/-- What `e.get` raises of a line that is no object. -/
def notObject (e : Entry) : Option Raised :=
  match e.line with
  | .obj _ => none
  | v => some (.attributeError (typeName v) "get")

/-- The items of a line that is an object. -/
def items (e : Entry) : List (String × Json) :=
  match e.line with
  | .obj items => items
  | _ => []

/-- `e.get("role") == "realtime"`. -/
def isRealtime (e : Entry) : Bool :=
  match Json.get e.items "role" with
  | .str s => s == "realtime"
  | _ => false

/-- `str(e.get("signal", "")).startswith("request.snapshot.")`. -/
def isSnapshot (e : Entry) : Bool :=
  Json.startsWith (((Json.lookup "signal" e.items).getD (.str "")).text) "request.snapshot."

end Entry

/-! ## The store -/

/-- The rows of a batch; the first row that cannot be prepared ends it. -/
def prepareRows (iso : String → Option ℤ) (now : ℤ) : List Entry → Except Raised (List (Row × Entry))
  | [] => .ok []
  | e :: entries =>
    match prepareInsertRow iso now e.items with
    | .error r => .error r
    | .ok row => (prepareRows iso now entries).map fun prepared => (row.toList.map fun row => (row, e)) ++ prepared

/-- `_insert_prepared_rows`: what is committed, and what is raised when a rollback is. -/
def insertPreparedRows : List (Row × Entry) → List (Row × Entry) × Option Raised
  | [] => ([], none)
  | p :: prepared =>
    if p.2.accepted then (p :: (insertPreparedRows prepared).1, (insertPreparedRows prepared).2)
    else if p.2.undone then insertPreparedRows prepared
    else ([], some .sqliteError)

/-- `insert_events`: what is committed and returned, and what is raised. All rows go in with one statement, when
`together` says so and none is refused; else, behind a rollback, one by one. -/
def insertEvents (iso : String → Option ℤ) (now : ℤ) (together undone : Bool) (entries : List Entry) :
    List (Row × Entry) × Option Raised :=
  match prepareRows iso now entries with
  | .error r => ([], some r)
  | .ok prepared =>
    if prepared.isEmpty then ([], none)
    else if together && prepared.all fun p => p.2.accepted then (prepared, none)
    else if undone then insertPreparedRows prepared
    else ([], some .sqliteError)

/-- The loop over the snapshots. `insert_snapshot` itself raises nothing. -/
def insertSnapshots (now : ℤ) : List Entry → List SnapshotRow × Option Raised
  | [] => ([], none)
  | e :: entries =>
    match snapshotPayload e.items with
    | .error r => ([], some r)
    | .ok payload =>
      let rest := insertSnapshots now entries
      (if e.snapshotAccepted then snapshotRow now payload :: rest.1 else rest.1, rest.2)

/-! ## The writer -/

/-- The length of the ring of realtime events. -/
def realtimeBufferSize : ℕ := 10000

def batchSize : ℕ := 100

/-- The ingest server with its store. `taken` are the lines that the writer has taken from the queue, `published`
those it has handed to the subscribers, and `failure` is what has ended it. -/
structure Ingest where
  queue : List Entry
  ingested : ℕ
  dropped : ℕ
  realtime : List (List (String × Json))
  events : List (Row × Entry)
  snapshots : List SnapshotRow
  taken : List Entry
  published : List Entry
  failure : Option Raised

def Ingest.start : Ingest := ⟨[], 0, 0, [], [], [], [], [], none⟩

namespace Ingest

/-- `put_nowait`; a queue of size 0 has no bound. -/
def receive (maxsize : ℕ) (x : Ingest) (e : Entry) : Ingest :=
  if maxsize = 0 ∨ x.queue.length < maxsize then { x with queue := x.queue ++ [e], ingested := x.ingested + 1 }
  else { x with dropped := x.dropped + 1 }

/-- The realtime events of a batch. -/
def pushRealtime (x : Ingest) (entries : List Entry) : Ingest :=
  { x with
    realtime := ((x.realtime ++ entries.map Entry.items).reverse.take realtimeBufferSize).reverse
    published := x.published ++ entries }

/-- The other events of a batch. -/
def store (iso : String → Option ℤ) (now : ℤ) (together undone : Bool) (x : Ingest) (regular snapshots : List Entry) :
    Ingest :=
  let inserted := insertEvents iso now together undone (regular ++ snapshots)
  let x := { x with events := x.events ++ inserted.1 }
  match inserted.2 with
  | some r => { x with failure := some r }
  | none =>
    let kept := insertSnapshots now snapshots
    let x := { x with snapshots := x.snapshots ++ kept.1 }
    match kept.2 with
    | some r => { x with failure := some r }
    | none => { x with published := x.published ++ inserted.1.map Prod.snd }

/-- `_db_writer_loop` with a batch. -/
def process (iso : String → Option ℤ) (now : ℤ) (together undone : Bool) (x : Ingest) (batch : List Entry) : Ingest :=
  match batch.findSome? Entry.notObject with
  | some r => { x with failure := some r }
  | none =>
    let persistent := batch.filter fun e => !e.isRealtime
    (x.pushRealtime (batch.filter Entry.isRealtime)).store iso now together undone
      (persistent.filter fun e => !e.isSnapshot) (persistent.filter Entry.isSnapshot)

/-- The lines that the writer takes next. -/
def batch (x : Ingest) : List Entry := x.queue.take batchSize

/-- The lines are taken. -/
def takeBatch (x : Ingest) : Ingest := { x with queue := x.queue.drop batchSize, taken := x.taken ++ x.batch }

end Ingest

/-- What happens next: a line comes in, or the writer takes a batch. -/
inductive Act where
  | receive (e : Entry)
  | write (now : ℤ) (together undone : Bool)

/-- A step, while the service runs. A writer that has ended takes nothing any more. -/
def Ingest.next (maxsize : ℕ) (iso : String → Option ℤ) (x : Ingest) : Act → Ingest
  | .receive e => x.receive maxsize e
  | .write now together undone =>
    if x.failure.isSome ∨ x.queue.isEmpty then x
    else x.takeBatch.process iso now together undone x.batch

end LlmGateway.EventStore
