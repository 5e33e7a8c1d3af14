import LlmGateway.EventStore.Ingest
import LlmGateway.Sse.Core

/-!
# The Anthropic reducer

`reduce` folds the events of a stream into an `AnthropicState`; `toTerminalDict` reads the message off it. A block is
collected in the scratch fields between its start and its stop, both of which reset them: here they are the record
`Scratch`. The events of the message itself write the other fields.

An event is a JSON object or the text of one; what `json.loads` does is a parameter.
-/

namespace LlmGateway.Sse

/-- A JSON object. -/
abbrev Payload := List (String × Json)

/-- `str(v or "")`. -/
def orEmpty (v : Json) : String := if v.truthy then v.text else ""

/-- `None` or a text. -/
def optText : Option String → Json
  | none => .null
  | some s => .str s

/-! ## The state -/

/-- The counts of `usage`. -/
inductive UsageKey where
  | inputTokens
  | outputTokens
  | thinkingTokens
  | cacheReadInputTokens
  | cacheCreationInputTokens
  deriving DecidableEq

def UsageKey.name : UsageKey → String
  | inputTokens => "input_tokens"
  | outputTokens => "output_tokens"
  | thinkingTokens => "thinking_tokens"
  | cacheReadInputTokens => "cache_read_input_tokens"
  | cacheCreationInputTokens => "cache_creation_input_tokens"

/-- The fields of a block under way. -/
structure Scratch where
  blockType : Option String := none
  textBuf : String := ""
  partialJson : String := ""
  thinkingBuf : String := ""
  thinkingSignature : Option String := none
  toolId : Option String := none
  toolName : Option String := none
  mcpServerName : Option String := none
  mcpResultToolUseId : Option String := none
  mcpResultIsError : Bool := false
  mcpResultContent : Option Json := none
  redactedData : Option String := none

structure AnthropicState where
  content : List Json := []
  usage : UsageKey → ℤ := fun _ => 0
  model : String := ""
  id : String := ""
  stopReason : Json := .null
  scratch : Scratch := {}
  container : Option Payload := none

/-- The exceptions of `reduce`. -/
inductive ReduceError where
  | loads
  | int (raised : EventStore.Raised)

def initialState : AnthropicState := {}

/-! ## Blocks -/

/-- `json.dumps(input)` for an `input` that is an object with items. -/
def dumpsInput : Json → String
  | .obj (item :: items) => (Json.obj (item :: items)).dumps
  | _ => ""

def onContentBlockStart (s : Scratch) (payload : Payload) : Scratch :=
  match Json.get payload "content_block" with
  | .obj block =>
    let blockType := orEmpty (Json.get block "type")
    let s : Scratch := { blockType := if blockType = "" then none else some blockType }
    if blockType = "tool_use" then
      { s with
        toolId := some (orEmpty (Json.get block "id"))
        toolName := some (orEmpty (Json.get block "name")) }
    else if blockType = "mcp_tool_use" then
      let server := Json.get block "server_name"
      { s with
        toolId := some (orEmpty (Json.get block "id"))
        toolName := some (orEmpty (Json.get block "name"))
        mcpServerName := if server.truthy then some server.text else none
        partialJson := dumpsInput (Json.get block "input") }
    else if blockType = "mcp_tool_result" then
      let s := { s with
        mcpResultToolUseId := some (orEmpty (Json.get block "tool_use_id"))
        mcpResultIsError := (Json.get block "is_error").truthy }
      match Json.get block "content" with
      | .null => s
      | .str text => { s with mcpResultContent := some (.str text), textBuf := text }
      | content => { s with mcpResultContent := some content }
    else if blockType = "thinking" then
      match Json.get block "signature" with
      | .str signature => { s with thinkingSignature := some signature }
      | _ => s
    else if blockType = "redacted_thinking" then
      match Json.get block "data" with
      | .str data => { s with redactedData := some data }
      | _ => s
    else s
  | _ => s

/-- A delta is added to its buffer. -/
def addDelta (s : Scratch) (delta : Payload) : Scratch :=
  let deltaType := orEmpty (Json.get delta "type")
  if deltaType = "text_delta" then { s with textBuf := s.textBuf ++ orEmpty (Json.get delta "text") }
  else if deltaType = "input_json_delta" then
    { s with partialJson := s.partialJson ++ orEmpty (Json.get delta "partial_json") }
  else if deltaType = "thinking_delta" then
    { s with thinkingBuf := s.thinkingBuf ++ orEmpty (Json.get delta "thinking") }
  else if deltaType = "signature_delta" then
    match Json.get delta "signature" with
    | .str signature => { s with thinkingSignature := some signature }
    | _ => { s with thinkingSignature := none }
  else s

def onContentBlockDelta (s : Scratch) (payload : Payload) : Scratch :=
  match Json.get payload "delta" with
  | .obj delta => addDelta s delta
  | _ => s

section Loads

variable (loads : List Char → Loaded)

/-- The `assembled_input` of a tool block. -/
def assembleInput (partialJson : String) : Except ReduceError Payload :=
  let text := Json.strip partialJson
  if text = "" then .ok []
  else
    match loads text.toList with
    | .value (.obj items) => .ok items
    | .value _ => .ok []
    | .decodeError => .ok []
    | .raised => .error .loads

def finalizeBlock (s : Scratch) : Except ReduceError (Option Json) :=
  if s.blockType = some "text" then .ok (some (.obj [("type", .str "text"), ("text", .str s.textBuf)]))
  else if s.blockType = some "tool_use" || s.blockType = some "mcp_tool_use" then
    (assembleInput loads s.partialJson).map fun input =>
      let block : Payload := [("type", optText s.blockType), ("id", optText s.toolId), ("name", optText s.toolName),
        ("input", .obj input)]
      some (.obj (if s.blockType = some "mcp_tool_use" && s.mcpServerName.any (· != "") then
        block ++ [("server_name", optText s.mcpServerName)] else block))
  else if s.blockType = some "mcp_tool_result" then
    .ok (some (.obj [("type", .str "mcp_tool_result"), ("tool_use_id", optText s.mcpResultToolUseId),
      ("is_error", .bool s.mcpResultIsError), ("content", s.mcpResultContent.getD (.str s.textBuf))]))
  else if s.blockType = some "thinking" then
    .ok (some (.obj [("type", .str "thinking"), ("thinking", .str s.thinkingBuf),
      ("signature", optText s.thinkingSignature)]))
  else if s.blockType = some "redacted_thinking" then
    .ok (some (.obj [("type", .str "redacted_thinking"), ("data", .str (s.redactedData.getD ""))]))
  else .ok none

def onContentBlockStop (state : AnthropicState) : Except ReduceError AnthropicState :=
  (finalizeBlock loads state.scratch).map fun block =>
    { state with content := state.content ++ block.toList, scratch := {} }

/-! ## The message -/

/-- `int(v or 0)`. -/
def countOf (v : Json) : Except ReduceError ℤ :=
  if v.truthy then (EventStore.intOf v).mapError .int else .ok 0

/-- A count is overwritten when its key is present. -/
def overwriteUsage (usage : Payload) (counts : UsageKey → ℤ) (key : UsageKey) : Except ReduceError (UsageKey → ℤ) :=
  match Json.lookup key.name usage with
  | none => .ok counts
  | some v => (countOf v).map fun n => Function.update counts key n

/-- The counts under the keys are taken over, in order, when `usage` is an object. -/
def takeUsage (keys : List UsageKey) (usage : Json) (state : AnthropicState) : Except ReduceError AnthropicState :=
  match usage with
  | .obj usage => (keys.foldlM (overwriteUsage usage) state.usage).map fun counts => { state with usage := counts }
  | _ => .ok state

/-- The keys of `_overwrite_usage_fields`. -/
def inputKeys : List UsageKey := [.inputTokens, .cacheReadInputTokens, .cacheCreationInputTokens]

/-- The keys that `_on_message_delta` overwrites, in order. -/
def deltaKeys : List UsageKey := [.outputTokens, .thinkingTokens] ++ inputKeys

/-- The `message` of a `message_start`, but for its usage. -/
def takeMessage (state : AnthropicState) (message : Payload) : AnthropicState :=
  { state with
    id := orEmpty (Json.get message "id")
    model := orEmpty (Json.get message "model")
    stopReason := Json.get message "stop_reason"
    container := match Json.get message "container" with
      | .obj container => some container
      | _ => state.container }

def onMessageStart (state : AnthropicState) (payload : Payload) : Except ReduceError AnthropicState :=
  match Json.get payload "message" with
  | .obj message => takeUsage inputKeys (Json.get message "usage") (takeMessage state message)
  | _ => .ok state

/-- The `delta` of a `message_delta`. -/
def takeDelta (state : AnthropicState) : Json → AnthropicState
  | .obj delta => { state with
      stopReason := match Json.get delta "stop_reason" with
        | .null => .null
        | reason => .str reason.text
      container := match Json.get delta "container" with
        | .obj container => some (container.foldl (fun merged item => Json.set item.1 item.2 merged)
            (state.container.getD []))
        | _ => state.container }
  | _ => state

def onMessageDelta (state : AnthropicState) (payload : Payload) : Except ReduceError AnthropicState :=
  takeUsage deltaKeys (Json.get payload "usage") (takeDelta state (Json.get payload "delta"))

/-! ## The fold -/

def parsePayload : JsonData → Except ReduceError Payload
  | .dict items => .ok items
  | .text text =>
    match loads text with
    | .value (.obj items) => .ok items
    | .value _ => .ok []
    | .decodeError => .ok []
    | .raised => .error .loads

/-- The `type` of an event. -/
def eventType (payload : Payload) : String := orEmpty (Json.get payload "type")

/-- `reduce`, behind `_parse_payload`. -/
def reducePayload (state : AnthropicState) (payload : Payload) : Except ReduceError AnthropicState :=
  if eventType payload = "message_start" then onMessageStart state payload
  else if eventType payload = "content_block_start" then
    .ok { state with scratch := onContentBlockStart state.scratch payload }
  else if eventType payload = "content_block_delta" then
    .ok { state with scratch := onContentBlockDelta state.scratch payload }
  else if eventType payload = "content_block_stop" then onContentBlockStop loads state
  else if eventType payload = "message_delta" then onMessageDelta state payload
  else .ok state

/-- `reduce`: the state, and whether the message is over. -/
def reduce (state : AnthropicState) (event : SSEMessage) : Except ReduceError (AnthropicState × Bool) := do
  let payload ← parsePayload loads event.data
  let state ← reducePayload loads state payload
  return (state, eventType payload == "message_stop")

/-- The state after the events. -/
def reduceAll (events : List SSEMessage) : Except ReduceError AnthropicState :=
  events.foldlM (fun state event => (reduce loads state event).map Prod.fst) initialState

end Loads

/-- `usage` of the terminal dictionary. -/
def usageDict (counts : UsageKey → ℤ) : Json :=
  .obj ([UsageKey.inputTokens, .outputTokens, .thinkingTokens, .cacheReadInputTokens, .cacheCreationInputTokens].map
    fun key => (key.name, .int (counts key)))

def toTerminalDict (state : AnthropicState) : Payload :=
  let payload : Payload := [("id", .str state.id), ("model", .str state.model), ("stop_reason", state.stopReason),
    ("type", .str "message"), ("content", .arr state.content), ("usage", usageDict state.usage)]
  match state.container with
  | some (item :: items) => payload ++ [("container", .obj (item :: items))]
  | _ => payload

end LlmGateway.Sse
