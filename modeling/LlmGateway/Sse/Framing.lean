import LlmGateway.Foundations.Framing
import LlmGateway.Foundations.Utf8
import LlmGateway.Foundations.Decimal

/-!
# Server-sent events

`format_sse_message` writes a message as `event:`, `id:`, `retry:` and `data:` lines and an empty line;
`iter_sse_events` reads a stream of bytes that arrives in chunks, cuts it at the empty lines and parses
every event (`_parse_event`). A text is the list of its characters.

An event without a `data:` line is not dispatched. A `retry:` line that is no integer raises
`SSEParseError`, after the messages before it have been yielded; the exception's text quotes the value
that `nonIntegerRetry` carries.
-/

namespace LlmGateway.Sse

/-- `JSONData`: a text or a JSON object. -/
inductive JsonData
  | text (s : List Char)
  | dict (items : List (String × Json))

structure SSEMessage where
  data : JsonData
  event : Option (List Char) := none
  id : Option (List Char) := none
  retry : Option ℤ := none

/-- The exceptions of this module. -/
inductive SSEParseError
  /-- `non-integer retry value: …` -/
  | nonIntegerRetry (value : List Char)
  deriving DecidableEq

/-! ## Writing -/

/-- The lines of the optional text field `name`; an empty value counts as absent. -/
def textLines (name : String) : Option (List Char) → List (List Char)
  | none => []
  | some s => if s = [] then [] else [name.toList ++ ": ".toList ++ s]

/-- The lines of the `retry` field; `none` when the number has too many digits for `str`. -/
def retryLines : Option ℤ → Option (List (List Char))
  | none => some []
  | some n => (Decimal.toText n).map fun s => ["retry: ".toList ++ s]

/-- The `data:` lines. -/
def dataLines : JsonData → List (List Char)
  | .text s => (s.splitOn '\n').map ("data: ".toList ++ ·)
  | .dict items => ["data: ".toList ++ (Json.dumpsCompact (.obj items)).toList]

/-- `format_sse_message`; `none` is the `ValueError` of a `retry` that `str` refuses. -/
def formatSseMessage (msg : SSEMessage) : Option (List Char) :=
  (retryLines msg.retry).map fun retry =>
    ['\n'].intercalate (textLines "event" msg.event ++ textLines "id" msg.id ++ retry ++ dataLines msg.data) ++
      "\n\n".toList

/-! ## Reading -/

/-- The fields of an event while its lines are read. -/
structure Fields where
  event : Option (List Char) := none
  dataLines : List (List Char) := []
  msgId : Option (List Char) := none
  retry : Option ℤ := none

def rstrip (line : List Char) : List Char := (line.reverse.dropWhile Json.isSpace).reverse

/-- The name and the value of a line: without a colon the whole line is the name, and one space behind
the colon does not belong to the value. -/
def splitField (line : List Char) : List Char × List Char :=
  match line.dropWhile (· != ':') with
  | [] => (rstrip line, [])
  | _ :: value =>
    (line.takeWhile (· != ':'), if value.head? = some ' ' then value.tail else value)

/-- One line of an event. -/
def parseLine (f : Fields) (line : List Char) : Except SSEParseError Fields :=
  if line = [] ∨ line.head? = some ':' then .ok f
  else
    let (name, value) := splitField line
    if name = "event".toList then .ok { f with event := some value }
    else if name = "data".toList then .ok { f with dataLines := f.dataLines ++ [value] }
    else if name = "id".toList then .ok { f with msgId := some value }
    else if name = "retry".toList then
      match Decimal.ofText value with
      | some n => .ok { f with retry := some n }
      | none => .error (.nonIntegerRetry value)
    else .ok f

/-- What is dispatched when all lines of an event have been read. -/
def Fields.message (f : Fields) : Option SSEMessage :=
  if f.dataLines = [] then none
  else some
    { data := .text (['\n'].intercalate f.dataLines), event := f.event, id := f.msgId, retry := f.retry }

def parseEvent (raw : List UInt8) : Except SSEParseError (Option SSEMessage) := do
  let f ← ((Utf8.decode raw).splitOn '\n').foldlM parseLine {}
  return f.message

/-- `not raw.strip()`. -/
def isBlank (raw : List UInt8) : Bool := raw.all fun b => b = 32 || (9 ≤ b && b ≤ 13)

/-- `buffer.split(b"\n\n", 1)`, when the boundary is in the buffer. -/
def cutEvent : List UInt8 → Option (List UInt8 × List UInt8)
  | [] => none
  | b :: bs =>
    if b = 10 ∧ bs.head? = some 10 then some ([], bs.tail)
    else (cutEvent bs).map fun r => (b :: r.1, r.2)

theorem cutEvent_eq_some {b e r : List UInt8} (h : cutEvent b = some (e, r)) : b = e ++ 10 :: 10 :: r := by
  induction b generalizing e with
  | nil => cases h
  | cons a b ih =>
    rw [cutEvent] at h
    split at h
    · next hb =>
      obtain ⟨rfl, hb⟩ := hb
      rw [Option.some.injEq, Prod.mk.injEq] at h
      obtain ⟨rfl, rfl⟩ := h
      obtain ⟨b', rfl⟩ := List.head?_eq_some_iff.mp hb
      rfl
    · obtain ⟨⟨e', r'⟩, h', heq⟩ := Option.map_eq_some_iff.mp h
      rw [Prod.mk.injEq] at heq
      obtain ⟨rfl, rfl⟩ := heq
      rw [List.cons_append, ← ih h']

theorem length_lt_of_cutEvent {b e r : List UInt8} (h : cutEvent b = some (e, r)) : r.length < b.length := by
  rw [cutEvent_eq_some h, List.length_append, List.length_cons, List.length_cons]
  omega

theorem cutEvent_extend {b e r : List UInt8} (c : List UInt8) (h : cutEvent b = some (e, r)) :
    cutEvent (b ++ c) = some (e, r ++ c) := by
  induction b generalizing e with
  | nil => cases h
  | cons a b ih =>
    rw [List.cons_append, cutEvent]
    rw [cutEvent] at h
    split at h
    · next hb =>
      obtain ⟨rfl, hb⟩ := hb
      rw [Option.some.injEq, Prod.mk.injEq] at h
      obtain ⟨rfl, rfl⟩ := h
      obtain ⟨b', rfl⟩ := List.head?_eq_some_iff.mp hb
      rfl
    · next hb =>
      obtain ⟨⟨e', r'⟩, h', heq⟩ := Option.map_eq_some_iff.mp h
      rw [Prod.mk.injEq] at heq
      obtain ⟨rfl, rfl⟩ := heq
      have hb' : ¬ (a = 10 ∧ (b ++ c).head? = some 10) := by
        cases b with
        | nil => cases h'
        | cons b₀ b => exact hb
      rw [if_neg hb', ih h', Option.map_some]

/-- The events of a stream. -/
def framing : Framing UInt8 (List UInt8) where
  cut := cutEvent
  length_lt := length_lt_of_cutEvent
  cut_append := cutEvent_extend

/-- What the event `raw` of the stream gives: an event of white space only is skipped. -/
def readEvent (raw : List UInt8) : Except SSEParseError (Option SSEMessage) :=
  if isBlank raw then .ok none else parseEvent raw

/-- The inner loop of `iter_sse_events`: dispatch every complete event of the buffer. It gives the messages
yielded and the buffer left, or the exception raised after them. -/
def drain (buffer : List UInt8) : List SSEMessage × Except SSEParseError (List UInt8) :=
  match _h : framing.cut buffer with
  | none => ([], .ok buffer)
  | some (raw, rest) =>
    match readEvent raw with
    | .error e => ([], .error e)
    | .ok none => drain rest
    | .ok (some m) => (m :: (drain rest).1, (drain rest).2)
  termination_by buffer.length
  decreasing_by all_goals exact framing.length_lt _h

/-- What is left at the end of the stream is an event, too. -/
def flush (buffer : List UInt8) : List SSEMessage × Option SSEParseError :=
  match readEvent buffer with
  | .error e => ([], some e)
  | .ok none => ([], none)
  | .ok (some m) => ([m], none)

/-- `iter_sse_events` with `buffer` left over: the messages it yields, and the exception that ends it. -/
def iterFrom (buffer : List UInt8) : List (List UInt8) → List SSEMessage × Option SSEParseError
  | [] => flush buffer
  | chunk :: chunks =>
    if chunk = [] then iterFrom buffer chunks
    else
      match drain (buffer ++ chunk) with
      | (ms, .error e) => (ms, some e)
      | (ms, .ok buffer) => (ms ++ (iterFrom buffer chunks).1, (iterFrom buffer chunks).2)

def iterSseEvents (chunks : List (List UInt8)) : List SSEMessage × Option SSEParseError :=
  iterFrom [] chunks

end LlmGateway.Sse
