import LlmGateway.Foundations.Fallible
import LlmGateway.Sse.AnthropicReducer

/-!
# The reducer and the cut of its blocks

A stream carries blocks (`Carries`) when its block events are, one block after another, a start, deltas and a stop
between which anything but block events may come. `Block.Sends` says what a start and the deltas of a block are:
a text, thinking or the JSON of an input is the concatenation of its pieces, cut anyhow.

The state splits into the message and the blocks: an event writes one of them. So the terminal dictionary is that of
the stream's other events with the blocks as its content (`reduceAll_carries`), whatever the cut.
-/

namespace LlmGateway.Sse

/-! ## Blocks as they are sent -/

/-- A content block. A tool block without a server has the server `""`. -/
inductive Block where
  | text (text : String)
  | toolUse (id name : String) (input : Payload)
  | mcpToolUse (id name server : String) (input : Payload)
  | mcpToolResult (toolUseId : String) (isError : Bool) (content : Json)
  | thinking (thinking : String) (signature : Option String)
  | redactedThinking (data : String)

/-- The block in the message. -/
def Block.dict : Block → Json
  | .text s => .obj [("type", .str "text"), ("text", .str s)]
  | .toolUse id name input =>
    .obj [("type", .str "tool_use"), ("id", .str id), ("name", .str name), ("input", .obj input)]
  | .mcpToolUse id name server input =>
    .obj ([("type", .str "mcp_tool_use"), ("id", .str id), ("name", .str name), ("input", .obj input)] ++
      if server = "" then [] else [("server_name", .str server)])
  | .mcpToolResult toolUseId isError content =>
    .obj [("type", .str "mcp_tool_result"), ("tool_use_id", .str toolUseId), ("is_error", .bool isError),
      ("content", content)]
  | .thinking s signature => .obj [("type", .str "thinking"), ("thinking", .str s), ("signature", optText signature)]
  | .redactedThinking data => .obj [("type", .str "redacted_thinking"), ("data", .str data)]

/-- The pieces of one type, joined. -/
def pieces (type key : String) : List Payload → String
  | [] => ""
  | delta :: deltas =>
    (if orEmpty (Json.get delta "type") = type then orEmpty (Json.get delta key) else "") ++ pieces type key deltas

/-- The signature behind the deltas: the last one that comes. -/
def signatureOf (signature : Option String) : List Payload → Option String
  | [] => signature
  | delta :: deltas =>
    signatureOf
      (if orEmpty (Json.get delta "type") = "signature_delta" then
        match Json.get delta "signature" with
        | .str signature => some signature
        | _ => none
      else signature) deltas

/-- The text of a JSON value, `None` for another one. -/
def strOf? : Json → Option String
  | .str s => some s
  | _ => none

section Loads

variable (loads : List Char → Loaded)

/-- A text is the JSON of an input; no text at all stands for the empty one. -/
def Reads (text : String) (input : Payload) : Prop :=
  if Json.strip text = "" then input = [] else loads (Json.strip text).toList = .value (.obj input)

/-- A start and deltas send the block. The pieces are in the deltas, but for the input of an `mcp_tool_use`, which may
begin with the one in its start, and the content of an `mcp_tool_result`, which is in its start or in text deltas: the
code drops text deltas behind a start with content, also an empty text or list, and such a block is left out here. -/
def Block.Sends (start : Payload) (deltas : List Payload) : Block → Prop
  | .text s => Json.get start "type" = .str "text" ∧ orEmpty (Json.get start "text") = "" ∧
    pieces "text_delta" "text" deltas = s
  | .toolUse id name input => Json.get start "type" = .str "tool_use" ∧ Json.get start "id" = .str id ∧
    Json.get start "name" = .str name ∧ dumpsInput (Json.get start "input") = "" ∧
    Reads loads (pieces "input_json_delta" "partial_json" deltas) input
  | .mcpToolUse id name server input => Json.get start "type" = .str "mcp_tool_use" ∧
    Json.get start "id" = .str id ∧ Json.get start "name" = .str name ∧
    orEmpty (Json.get start "server_name") = server ∧
    Reads loads (dumpsInput (Json.get start "input") ++ pieces "input_json_delta" "partial_json" deltas) input
  | .mcpToolResult toolUseId isError content => Json.get start "type" = .str "mcp_tool_result" ∧
    Json.get start "tool_use_id" = .str toolUseId ∧ (Json.get start "is_error").truthy = isError ∧
    match Json.get start "content" with
    | .null => content = .str (pieces "text_delta" "text" deltas)
    | given => content = given ∧ pieces "text_delta" "text" deltas = ""
  | .thinking s signature => Json.get start "type" = .str "thinking" ∧
    orEmpty (Json.get start "thinking") = "" ∧ pieces "thinking_delta" "thinking" deltas = s ∧
    signatureOf (strOf? (Json.get start "signature")) deltas = signature
  | .redactedThinking data => Json.get start "type" = .str "redacted_thinking" ∧ Json.get start "data" = .str data

/-- The events of blocks. -/
def blockEvents : List String := ["content_block_start", "content_block_delta", "content_block_stop"]

/-- Whether an event is about a block. -/
def isBlockEvent (payload : Payload) : Bool := blockEvents.contains (eventType payload)

/-- The delta of an event. -/
def deltaOf? (payload : Payload) : Option Payload :=
  if eventType payload = "content_block_delta" then
    match Json.get payload "delta" with
    | .obj delta => some delta
    | _ => none
  else none

/-- A stream carries the blocks. -/
inductive Carries : List Payload → List Block → Prop
  | nil : Carries [] []
  | other {payload : Payload} {payloads : List Payload} {blocks : List Block} (h : isBlockEvent payload = false)
      (hrest : Carries payloads blocks) : Carries (payload :: payloads) blocks
  | block {first last start : Payload} {body payloads : List Payload} {b : Block} {blocks : List Block}
      (hfirst : eventType first = "content_block_start") (hstart : Json.get first "content_block" = .obj start)
      (hbody : ∀ payload ∈ body, isBlockEvent payload = true → eventType payload = "content_block_delta")
      (hsends : b.Sends loads start (body.filterMap deltaOf?)) (hlast : eventType last = "content_block_stop")
      (hrest : Carries payloads blocks) : Carries (first :: (body ++ last :: payloads)) (b :: blocks)

end Loads

/-- The events that are not about blocks. -/
def messages (payloads : List Payload) : List Payload := payloads.filter fun payload => !isBlockEvent payload

/-! ## One block -/

theorem foldl_addDelta (deltas : List Payload) (s : Scratch) :
    deltas.foldl addDelta s = { s with
      textBuf := s.textBuf ++ pieces "text_delta" "text" deltas
      partialJson := s.partialJson ++ pieces "input_json_delta" "partial_json" deltas
      thinkingBuf := s.thinkingBuf ++ pieces "thinking_delta" "thinking" deltas
      thinkingSignature := signatureOf s.thinkingSignature deltas } := by
  induction deltas generalizing s with
  | nil => simp [pieces, signatureOf]
  | cons delta deltas ih =>
    rw [List.foldl_cons, ih]
    generalize htype : orEmpty (Json.get delta "type") = type
    by_cases htext : type = "text_delta"
    · subst htext
      simp [addDelta, pieces, signatureOf, htype, String.append_assoc]
    · by_cases hjson : type = "input_json_delta"
      · subst hjson
        simp [addDelta, pieces, signatureOf, htype, String.append_assoc]
      · by_cases hthinking : type = "thinking_delta"
        · subst hthinking
          simp [addDelta, pieces, signatureOf, htype, String.append_assoc]
        · by_cases hsignature : type = "signature_delta"
          · subst hsignature
            simp only [addDelta, pieces, signatureOf, htype]
            cases Json.get delta "signature" <;> simp
          · simp [addDelta, pieces, signatureOf, htype, htext, hjson, hthinking, hsignature]

@[simp] theorem orEmpty_str (s : String) : orEmpty (.str s) = s := by
  unfold orEmpty
  split
  · rfl
  · rename_i h
    simp only [Json.truthy, bne_iff_ne, ne_eq, not_not] at h
    exact h.symm

section Loads

variable {loads : List Char → Loaded}

theorem assembleInput_of_reads {text : String} {input : Payload} (h : Reads loads text input) :
    assembleInput loads text = .ok input := by
  unfold Reads at h
  unfold assembleInput
  simp only
  split at h
  · rename_i hempty
    rw [if_pos hempty, h]
  · rename_i hne
    rw [if_neg hne, h]

/-- **A block that was sent is the block that is built**, however it was cut. -/
theorem finalizeBlock_of_sends {b : Block} {first start : Payload} {deltas : List Payload}
    (hstart : Json.get first "content_block" = .obj start) (h : b.Sends loads start deltas) (s : Scratch) :
    finalizeBlock loads (deltas.foldl addDelta (onContentBlockStart s first)) = .ok (some b.dict) := by
  rw [foldl_addDelta]
  unfold onContentBlockStart
  rw [hstart]
  cases b with
  | text t =>
    obtain ⟨htype, -, rfl⟩ := h
    simp [finalizeBlock, htype, Block.dict]
  | toolUse id name input =>
    obtain ⟨htype, hid, hname, -, hinput⟩ := h
    simp [finalizeBlock, htype, hid, hname, assembleInput_of_reads hinput, Block.dict, optText, Except.map]
  | mcpToolUse id name server input =>
    obtain ⟨htype, hid, hname, rfl, hinput⟩ := h
    simp only [htype, hid, hname, orEmpty_str]
    by_cases htruthy : (Json.get start "server_name").truthy = true
    · by_cases htext : (Json.get start "server_name").text = "" <;>
        simp [finalizeBlock, assembleInput_of_reads hinput, Block.dict, optText, Except.map, orEmpty, htruthy, htext]
    · simp [finalizeBlock, assembleInput_of_reads hinput, Block.dict, optText, Except.map, orEmpty, htruthy]
  | mcpToolResult toolUseId isError content =>
    obtain ⟨htype, hid, herror, hcontent⟩ := h
    simp only [htype, hid, herror, orEmpty_str]
    generalize Json.get start "content" = given at hcontent
    cases given with
    | null => simp [finalizeBlock, Block.dict, optText, hcontent]
    | _ => simp [finalizeBlock, Block.dict, optText, hcontent.1]
  | thinking t signature =>
    obtain ⟨htype, -, rfl, rfl⟩ := h
    simp only [htype, orEmpty_str]
    cases Json.get start "signature" <;> simp [finalizeBlock, Block.dict, strOf?]
  | redactedThinking data =>
    obtain ⟨htype, hdata⟩ := h
    simp [finalizeBlock, htype, hdata, Block.dict]

/-! ## The message and the blocks apart -/

/-- The state with other blocks. -/
def AnthropicState.withBlocks (m : AnthropicState) (content : List Json) (scratch : Scratch) : AnthropicState :=
  { m with content, scratch }

theorem takeUsage_withBlocks (keys : List UsageKey) (usage : Json) (m : AnthropicState) (content : List Json)
    (scratch : Scratch) :
    takeUsage keys usage (m.withBlocks content scratch) =
      (takeUsage keys usage m).map fun m => m.withBlocks content scratch := by
  unfold takeUsage
  split
  · rename_i usage
    simp only [AnthropicState.withBlocks]
    cases List.foldlM (overwriteUsage usage) m.usage keys <;> rfl
  · rfl

theorem onMessageStart_withBlocks (m : AnthropicState) (payload : Payload) (content : List Json) (scratch : Scratch) :
    onMessageStart (m.withBlocks content scratch) payload =
      (onMessageStart m payload).map fun m => m.withBlocks content scratch := by
  unfold onMessageStart
  split
  · rename_i message _
    exact takeUsage_withBlocks inputKeys _ (takeMessage m message) content scratch
  · rfl

theorem onMessageDelta_withBlocks (m : AnthropicState) (payload : Payload) (content : List Json) (scratch : Scratch) :
    onMessageDelta (m.withBlocks content scratch) payload =
      (onMessageDelta m payload).map fun m => m.withBlocks content scratch := by
  have hdelta : takeDelta (m.withBlocks content scratch) (Json.get payload "delta") =
      (takeDelta m (Json.get payload "delta")).withBlocks content scratch := by
    cases Json.get payload "delta" <;> rfl
  rw [onMessageDelta, hdelta, takeUsage_withBlocks]
  rfl

theorem reducePayload_message {payload : Payload} (h : isBlockEvent payload = false) (m : AnthropicState)
    (content : List Json) (scratch : Scratch) :
    reducePayload loads (m.withBlocks content scratch) payload =
      (reducePayload loads m payload).map fun m => m.withBlocks content scratch := by
  simp only [isBlockEvent, blockEvents, List.contains_cons, List.contains_nil, Bool.or_false, Bool.or_eq_false_iff,
    beq_eq_false_iff_ne] at h
  obtain ⟨hstart, hdelta, hstop⟩ := h
  unfold reducePayload
  rw [if_neg hstart, if_neg hdelta, if_neg hstop, if_neg hstart, if_neg hdelta, if_neg hstop]
  split
  · exact onMessageStart_withBlocks m payload content scratch
  · split
    · exact onMessageDelta_withBlocks m payload content scratch
    · rfl

theorem foldlM_body {body : List Payload}
    (hbody : ∀ payload ∈ body, isBlockEvent payload = true → eventType payload = "content_block_delta")
    {m m' : AnthropicState} (hm : (messages body).foldlM (reducePayload loads) m = .ok m') (content : List Json)
    (scratch : Scratch) :
    body.foldlM (reducePayload loads) (m.withBlocks content scratch) =
      .ok (m'.withBlocks content ((body.filterMap deltaOf?).foldl addDelta scratch)) := by
  induction body generalizing m scratch with
  | nil =>
    cases hm
    rfl
  | cons payload body ih =>
    rw [List.forall_mem_cons] at hbody
    rw [List.foldlM_cons]
    cases hblock : isBlockEvent payload with
    | true =>
      have htype := hbody.1 hblock
      rw [messages, List.filter_cons_of_neg (by simp [hblock])] at hm
      have hstep : reducePayload loads (m.withBlocks content scratch) payload =
          .ok (m.withBlocks content (onContentBlockDelta scratch payload)) := by
        simp [reducePayload, htype, AnthropicState.withBlocks]
      rw [hstep, ok_bind, ih hbody.2 hm, onContentBlockDelta]
      cases hget : Json.get payload "delta" <;> simp [deltaOf?, htype, hget]
    | false =>
      rw [messages, List.filter_cons_of_pos (by simp [hblock]), List.foldlM_cons, bind_eq_ok] at hm
      obtain ⟨m₁, h₁, hm⟩ := hm
      have hdelta : deltaOf? payload = none := by
        refine if_neg fun htype => ?_
        rw [isBlockEvent, htype] at hblock
        exact absurd hblock (by decide)
      rw [reducePayload_message hblock, h₁, List.filterMap_cons_none hdelta]
      exact ih hbody.2 hm scratch

theorem messages_block {first last : Payload} (hfirst : eventType first = "content_block_start")
    (hlast : eventType last = "content_block_stop") (body payloads : List Payload) :
    messages (first :: (body ++ last :: payloads)) = messages body ++ messages payloads := by
  have h₁ : isBlockEvent first = true := by simp [isBlockEvent, blockEvents, hfirst]
  have h₂ : isBlockEvent last = true := by simp [isBlockEvent, blockEvents, hlast]
  simp [messages, h₁, h₂]

/-- **The blocks of a stream** are appended to the content, and the message is what the other events make it. -/
theorem foldlM_carries {payloads : List Payload} {blocks : List Block} (hc : Carries loads payloads blocks)
    {m m' : AnthropicState} (hm : (messages payloads).foldlM (reducePayload loads) m = .ok m') (content : List Json) :
    payloads.foldlM (reducePayload loads) (m.withBlocks content {}) =
      .ok (m'.withBlocks (content ++ blocks.map Block.dict) {}) := by
  induction hc generalizing m content with
  | nil =>
    cases hm
    rw [List.map_nil, List.append_nil]
    rfl
  | other hother hrest ih =>
    rw [messages, List.filter_cons_of_pos (by simp [hother]), List.foldlM_cons, bind_eq_ok] at hm
    obtain ⟨m₁, h₁, hm⟩ := hm
    rw [List.foldlM_cons, reducePayload_message hother, h₁]
    exact ih hm content
  | @block first last start body payloads b blocks hfirst hstart hbody hsends hlast hrest ih =>
    rw [messages_block hfirst hlast, List.foldlM_append, bind_eq_ok] at hm
    obtain ⟨m₁, h₁, hm⟩ := hm
    have hopen : reducePayload loads (m.withBlocks content {}) first =
        .ok (m.withBlocks content (onContentBlockStart {} first)) := by
      simp [reducePayload, hfirst, AnthropicState.withBlocks]
    have hclose : ∀ scratch : Scratch, finalizeBlock loads scratch = .ok (some b.dict) →
        reducePayload loads (m₁.withBlocks content scratch) last =
          .ok (m₁.withBlocks (content ++ [b.dict]) {}) := by
      intro scratch h
      simp [reducePayload, hlast, AnthropicState.withBlocks, onContentBlockStop, h, Except.map]
    rw [List.foldlM_cons, hopen, ok_bind, List.foldlM_append, foldlM_body hbody h₁, ok_bind, List.foldlM_cons,
      hclose _ (finalizeBlock_of_sends hstart hsends _), ok_bind, ih hm, List.map_cons, List.append_assoc,
      List.singleton_append]

end Loads

/-! ## The message -/

/-- The items of an object. -/
def objOf : Json → Payload
  | .obj items => items
  | _ => []

/-- The `usage` of an event. -/
def usageOf (payload : Payload) : Payload :=
  if eventType payload = "message_start" then objOf (Json.get (objOf (Json.get payload "message")) "usage")
  else if eventType payload = "message_delta" then objOf (Json.get payload "usage")
  else []

/-- The object of an event that may hold a stop reason. -/
def stopHolder? (payload : Payload) : Option Payload :=
  if eventType payload = "message_start" then
    match Json.get payload "message" with
    | .obj message => some message
    | _ => none
  else if eventType payload = "message_delta" then
    match Json.get payload "delta" with
    | .obj delta => some delta
    | _ => none
  else none

variable {payload : Payload}

theorem usageOf_other (h₁ : ¬ eventType payload = "message_start")
    (h₂ : ¬ eventType payload = "message_delta") : usageOf payload = [] ∧ stopHolder? payload = none :=
  ⟨(if_neg h₁).trans (if_neg h₂), (if_neg h₁).trans (if_neg h₂)⟩

/-- The count that an event carries. -/
def carriedCount (key : UsageKey) (payload : Payload) : Option Json := Json.lookup key.name (usageOf payload)

/-- The stop reason that an event carries. -/
def carriedStop (payload : Payload) : Option Json := (stopHolder? payload).bind (Json.lookup "stop_reason")

/-- The counts that are read off a `message_start`, too. -/
def readCount (key : UsageKey) (payload : Payload) : Option Json :=
  if eventType payload = "message_start" ∧ key ∉ inputKeys then none else carriedCount key payload

/-- A count, or none. -/
def IsCount (v : Json) : Prop := v = .null ∨ ∃ n, v = .int n

def countValue : Json → ℤ
  | .int n => n
  | _ => 0

/-- The counts of an event are counts, and its stop reason is a text, or none. -/
structure WellFormed (payload : Payload) : Prop where
  counts : ∀ key, ∀ v ∈ carriedCount key payload, IsCount v
  stop : ∀ v ∈ carriedStop payload, v = .null ∨ ∃ s, v = .str s

theorem mem_deltaKeys (key : UsageKey) : key ∈ deltaKeys := by
  cases key <;> decide

/-- The stop reason that an event leaves: none when its object has none. -/
def leftStop (payload : Payload) : Option Json :=
  (stopHolder? payload).map fun holder => Json.get holder "stop_reason"

/-- What the last event that carries it carries. -/
def lastOf (f : Payload → Option Json) (payloads : List Payload) : Option Json := (payloads.filterMap f).getLast?

theorem lastOf_cons (f : Payload → Option Json) (payload : Payload) (payloads : List Payload) :
    lastOf f (payload :: payloads) = (lastOf f payloads).or (f payload) := by
  cases h : f payload with
  | none => rw [lastOf, List.filterMap_cons_none h, lastOf, Option.or_none]
  | some v =>
    rw [lastOf, List.filterMap_cons_some h, List.getLast?_cons, lastOf]
    cases (payloads.filterMap f).getLast? <;> rfl

theorem lastOf_messages {f : Payload → Option Json} (hf : ∀ payload, isBlockEvent payload = true → f payload = none)
    (payloads : List Payload) : lastOf f (messages payloads) = lastOf f payloads := by
  rw [lastOf, lastOf, messages, List.filterMap_filter]
  refine congrArg List.getLast? (List.filterMap_congr fun payload _ => ?_)
  cases h : isBlockEvent payload with
  | true => exact (hf payload h).symm
  | false => rfl

theorem countOf_eq {v : Json} (h : IsCount v) : countOf v = .ok (countValue v) := by
  rcases h with rfl | ⟨n, rfl⟩
  · rfl
  · unfold countOf
    split
    · rfl
    · rename_i h
      simp only [Json.truthy, bne_iff_ne, ne_eq, not_not] at h
      rw [h]
      rfl

theorem foldlM_overwriteUsage {usage : Payload} (hcount : ∀ key : UsageKey, ∀ v ∈ Json.lookup key.name usage, IsCount v)
    (keys : List UsageKey) (counts : UsageKey → ℤ) :
    keys.foldlM (overwriteUsage usage) counts = .ok fun key =>
      if key ∈ keys then ((Json.lookup key.name usage).map countValue).getD (counts key) else counts key := by
  induction keys generalizing counts with
  | nil => rfl
  | cons k keys ih =>
    have hstep : overwriteUsage usage counts k =
        .ok (Function.update counts k (((Json.lookup k.name usage).map countValue).getD (counts k))) := by
      unfold overwriteUsage
      cases h : Json.lookup k.name usage with
      | none => simp
      | some v =>
        simp only [countOf_eq (hcount k v h)]
        rfl
    rw [List.foldlM_cons, hstep, ok_bind, ih]
    refine congrArg Except.ok (funext fun key => ?_)
    by_cases hk : key = k
    · subst hk
      by_cases hmem : key ∈ keys
      · cases Json.lookup key.name usage <;> simp [hmem]
      · simp [hmem]
    · simp [hk]

theorem takeUsage_eq {usage : Json}
    (hcount : ∀ key : UsageKey, ∀ v ∈ Json.lookup key.name (objOf usage), IsCount v) (keys : List UsageKey)
    (m : AnthropicState) :
    takeUsage keys usage m = .ok { m with usage := fun key =>
      if key ∈ keys then ((Json.lookup key.name (objOf usage)).map countValue).getD (m.usage key) else m.usage key } := by
  cases usage with
  | obj usage => exact congrArg (Except.map _) (foldlM_overwriteUsage hcount keys m.usage)
  | _ => simp [takeUsage, objOf, Json.lookup]

/-- What an event of the message makes of the counts and the stop reason. -/
structure Follows (m m' : AnthropicState) (payload : Payload) : Prop where
  usage : ∀ key, m'.usage key = ((readCount key payload).map countValue).getD (m.usage key)
  stop : m'.stopReason = (leftStop payload).getD m.stopReason

theorem onMessageStart_of_wellFormed (htype : eventType payload = "message_start")
    (hwf : WellFormed payload) (m : AnthropicState) : ∃ m', onMessageStart m payload = .ok m' ∧ Follows m m' payload := by
  have hcounts := hwf.counts
  simp only [carriedCount, usageOf, if_pos htype] at hcounts
  have hread : ∀ key, readCount key payload = if key ∈ inputKeys then carriedCount key payload else none := by
    intro key
    rw [readCount]
    simp only [htype, true_and]
    exact ite_not ..
  simp only [carriedCount, usageOf, if_pos htype] at hread
  unfold onMessageStart
  cases hmessage : Json.get payload "message" with
  | obj message =>
    rw [hmessage] at hcounts hread
    refine ⟨_, takeUsage_eq hcounts inputKeys _, fun key => ?_, ?_⟩
    · rw [hread]
      by_cases hkey : key ∈ inputKeys
      · rw [if_pos hkey]
        exact if_pos hkey
      · rw [if_neg hkey]
        exact if_neg hkey
    · rw [leftStop, stopHolder?, if_pos htype, hmessage]
      rfl
  | _ =>
    refine ⟨m, rfl, fun key => ?_, ?_⟩
    · rw [hread, hmessage]
      simp [objOf, Json.get, Json.lookup]
    · rw [leftStop, stopHolder?, if_pos htype, hmessage]
      rfl

theorem takeDelta_of_wellFormed (htype : eventType payload = "message_delta")
    (hwf : WellFormed payload) (m : AnthropicState) :
    (takeDelta m (Json.get payload "delta")).stopReason =
      (leftStop payload).getD m.stopReason := by
  have hne : ¬ eventType payload = "message_start" := by
    rw [htype]
    decide
  have hstop := hwf.stop
  simp only [carriedStop, leftStop, stopHolder?, if_neg hne, if_pos htype] at hstop ⊢
  cases hdelta : Json.get payload "delta" with
  | obj delta =>
    rw [hdelta] at hstop
    simp only [Option.bind_some] at hstop
    simp only [takeDelta, Option.map_some, Option.getD_some, Json.get]
    cases h : Json.lookup "stop_reason" delta with
    | none => rfl
    | some v =>
      rcases hstop v h with rfl | ⟨s, rfl⟩ <;> rfl
  | _ => rfl

theorem onMessageDelta_of_wellFormed (htype : eventType payload = "message_delta")
    (hwf : WellFormed payload) (m : AnthropicState) : ∃ m', onMessageDelta m payload = .ok m' ∧ Follows m m' payload := by
  have hne : ¬ eventType payload = "message_start" := by
    rw [htype]
    decide
  have hcounts := hwf.counts
  simp only [carriedCount, usageOf, if_neg hne, if_pos htype] at hcounts
  have husage : (takeDelta m (Json.get payload "delta")).usage = m.usage := by
    cases Json.get payload "delta" <;> rfl
  refine ⟨_, takeUsage_eq hcounts deltaKeys _, fun key => ?_, takeDelta_of_wellFormed htype hwf m⟩
  simp only [readCount, hne, false_and, if_false, carriedCount, usageOf, if_pos htype, if_pos (mem_deltaKeys key), husage]

section Loads

variable {loads : List Char → Loaded}

theorem reducePayload_of_wellFormed (loads : List Char → Loaded) {payload : Payload}
    (hmsg : isBlockEvent payload = false) (hwf : WellFormed payload) (m : AnthropicState) :
    ∃ m', reducePayload loads m payload = .ok m' ∧ Follows m m' payload := by
  simp only [isBlockEvent, blockEvents, List.contains_cons, List.contains_nil, Bool.or_false, Bool.or_eq_false_iff,
    beq_eq_false_iff_ne] at hmsg
  obtain ⟨hstart, hdelta, hstop⟩ := hmsg
  unfold reducePayload
  rw [if_neg hstart, if_neg hdelta, if_neg hstop]
  split
  · exact onMessageStart_of_wellFormed ‹_› hwf m
  · split
    · exact onMessageDelta_of_wellFormed ‹_› hwf m
    · rename_i h₁ h₂
      obtain ⟨husage, hholder⟩ := usageOf_other h₁ h₂
      refine ⟨m, rfl, fun key => ?_, ?_⟩
      · simp [readCount, carriedCount, husage, Json.lookup]
      · rw [leftStop, hholder]
        rfl

theorem foldlM_messages (loads : List Char → Loaded) (payloads : List Payload)
    (hmsg : ∀ payload ∈ payloads, isBlockEvent payload = false)
    (hwf : ∀ payload ∈ payloads, WellFormed payload) (m : AnthropicState) :
    ∃ m', payloads.foldlM (reducePayload loads) m = .ok m' ∧
      (∀ key, m'.usage key = ((lastOf (readCount key) payloads).map countValue).getD (m.usage key)) ∧
      m'.stopReason = (lastOf leftStop payloads).getD m.stopReason := by
  induction payloads generalizing m with
  | nil => exact ⟨m, rfl, fun _ => rfl, rfl⟩
  | cons payload payloads ih =>
    rw [List.forall_mem_cons] at hmsg hwf
    obtain ⟨m₁, h₁, husage₁, hstop₁⟩ := reducePayload_of_wellFormed loads hmsg.1 hwf.1 m
    obtain ⟨m', h', husage, hstop⟩ := ih hmsg.2 hwf.2 m₁
    refine ⟨m', ?_, fun key => ?_, ?_⟩
    · rw [List.foldlM_cons, h₁]
      exact h'
    · rw [husage, husage₁, lastOf_cons, Option.map_or, Option.getD_or]
    · rw [hstop, hstop₁, lastOf_cons, Option.getD_or]

end Loads

/-! ## The terminal dictionary -/

theorem get_toTerminalDict (s : AnthropicState) : Json.get (toTerminalDict s) "content" = .arr s.content ∧
    Json.get (toTerminalDict s) "usage" = usageDict s.usage ∧
      Json.get (toTerminalDict s) "stop_reason" = s.stopReason := by
  unfold toTerminalDict
  simp only
  split <;> exact ⟨rfl, rfl, rfl⟩

/-- The terminal dictionary has the blocks of the stream, and every count and the stop reason as the last event that
carried it. -/
structure Claimed (payloads : List Payload) (blocks : List Block) (terminal : Payload) : Prop where
  content : Json.get terminal "content" = .arr (blocks.map Block.dict)
  usage : Json.get terminal "usage" =
    usageDict fun key => ((lastOf (carriedCount key) payloads).map countValue).getD 0
  stop : Json.get terminal "stop_reason" = (lastOf carriedStop payloads).getD .null

/-- The same, with the output and thinking counts as the last `message_delta` that carried them, and the stop reason
for streams whose `message` and `delta` objects all carry one. -/
structure Reduced (payloads : List Payload) (blocks : List Block) (terminal : Payload) : Prop where
  content : Json.get terminal "content" = .arr (blocks.map Block.dict)
  usage : Json.get terminal "usage" =
    usageDict fun key => ((lastOf (readCount key) payloads).map countValue).getD 0
  stop : (∀ payload ∈ payloads, ∀ holder ∈ stopHolder? payload, (Json.lookup "stop_reason" holder).isSome) →
    Json.get terminal "stop_reason" = (lastOf carriedStop payloads).getD .null

section Loads

variable {loads : List Char → Loaded}

/-- The events are messages with these payloads. -/
def Parses (loads : List Char → Loaded) (events : List SSEMessage) (payloads : List Payload) : Prop :=
  events.map (fun event => parsePayload loads event.data) = payloads.map .ok

theorem foldlM_reduce {events : List SSEMessage} {payloads : List Payload} (h : Parses loads events payloads)
    (s : AnthropicState) : events.foldlM (fun s event => (reduce loads s event).map Prod.fst) s =
      payloads.foldlM (reducePayload loads) s := by
  induction events generalizing payloads s with
  | nil =>
    cases payloads with
    | nil => rfl
    | cons => cases h
  | cons event events ih =>
    cases payloads with
    | nil => cases h
    | cons payload payloads =>
      obtain ⟨hhead, htail⟩ := List.cons.inj h
      have hstep : (reduce loads s event).map Prod.fst = reducePayload loads s payload := by
        have hread : parsePayload loads event.data = .ok payload := hhead
        rw [reduce, hread, ok_bind]
        cases reducePayload loads s payload <;> rfl
      rw [List.foldlM_cons, List.foldlM_cons, hstep]
      cases reducePayload loads s payload with
      | error e => rfl
      | ok s' => exact ih htail s'

theorem reduceAll_carries {events : List SSEMessage} {payloads : List Payload} {blocks : List Block}
    (hparse : Parses loads events payloads) (hc : Carries loads payloads blocks) {m : AnthropicState}
    (hm : (messages payloads).foldlM (reducePayload loads) initialState = .ok m) :
    reduceAll loads events = .ok (m.withBlocks (blocks.map Block.dict) {}) :=
  (foldlM_reduce hparse initialState).trans (foldlM_carries hc hm [])

theorem carried_of_isBlockEvent {payload : Payload} (h : isBlockEvent payload = true) :
    (∀ key, readCount key payload = none) ∧ leftStop payload = none := by
  have hne : ∀ type, blockEvents.contains type = false → ¬ eventType payload = type := by
    intro type htype he
    rw [isBlockEvent, he, htype] at h
    cases h
  obtain ⟨husage, hholder⟩ := usageOf_other (hne _ (by decide)) (hne _ (by decide))
  refine ⟨fun key => ?_, ?_⟩
  · simp [readCount, carriedCount, husage, Json.lookup]
  · rw [leftStop, hholder]
    rfl

theorem leftStop_eq {payload : Payload}
    (h : ∀ holder ∈ stopHolder? payload, (Json.lookup "stop_reason" holder).isSome) :
    leftStop payload = carriedStop payload := by
  unfold leftStop carriedStop
  cases hholder : stopHolder? payload with
  | none => rfl
  | some holder =>
    obtain ⟨v, hv⟩ := Option.isSome_iff_exists.1 (h holder hholder)
    rw [Option.map_some, Option.bind_some, hv, Json.get, hv, Option.getD_some]

end Loads

/-! ### Streams -/

/-- `json.loads`, on the input of the tool block below. -/
def loadsInput (text : List Char) : Loaded :=
  if text = "\x7b\"q\": 1\x7d".toList then .value (.obj [("q", .int 1)]) else .decodeError

/-- An event. -/
def eventPayload (type : String) (items : Payload) : Payload := ("type", .str type) :: items

/-- A piece of a block. -/
def deltaEvent (type key piece : String) : Payload :=
  eventPayload "content_block_delta" [("delta", .obj [("type", .str type), (key, .str piece)])]

def messageStart : Payload :=
  eventPayload "message_start" [("message", .obj [("id", .str "m1"), ("stop_reason", .null),
    ("usage", .obj [("input_tokens", .int 3), ("output_tokens", .int 1)])])]

def messageDelta : Payload :=
  eventPayload "message_delta" [("delta", .obj [("stop_reason", .str "tool_use")]),
    ("usage", .obj [("output_tokens", .int 8)])]

/-- A text and a tool block, each in two pieces. -/
def cutStream : List Payload :=
  [messageStart,
    eventPayload "content_block_start" [("content_block", .obj [("type", .str "text"), ("text", .str "")])],
    deltaEvent "text_delta" "text" "Hel", eventPayload "ping" [], deltaEvent "text_delta" "text" "lo",
    eventPayload "content_block_stop" [],
    eventPayload "content_block_start" [("content_block", .obj [("type", .str "tool_use"), ("id", .str "t1"),
      ("name", .str "search"), ("input", .obj [])])],
    deltaEvent "input_json_delta" "partial_json" "\x7b\"q\"", deltaEvent "input_json_delta" "partial_json" ": 1\x7d",
    eventPayload "content_block_stop" [], messageDelta]

def cutBlocks : List Block := [.text "Hello", .toolUse "t1" "search" [("q", .int 1)]]

theorem carries_cutStream : Carries loadsInput cutStream cutBlocks := by
  refine .other rfl ?_
  refine @Carries.block loadsInput _ _ [("type", .str "text"), ("text", .str "")]
    [deltaEvent "text_delta" "text" "Hel", eventPayload "ping" [], deltaEvent "text_delta" "text" "lo"] _ _ _
    rfl rfl ?_ ⟨rfl, rfl, rfl⟩ rfl ?_
  · simp only [List.forall_mem_cons, List.not_mem_nil, false_imp_iff, implies_true, and_true]
    decide
  refine @Carries.block loadsInput _ _
    [("type", .str "tool_use"), ("id", .str "t1"), ("name", .str "search"), ("input", .obj [])]
    [deltaEvent "input_json_delta" "partial_json" "\x7b\"q\"",
      deltaEvent "input_json_delta" "partial_json" ": 1\x7d"] _ _ _
    rfl rfl ?_ ⟨rfl, rfl, rfl, rfl, rfl⟩ rfl (.other rfl .nil)
  simp only [List.forall_mem_cons, List.not_mem_nil, false_imp_iff, implies_true, and_true]
  decide

theorem wellFormed_other (h₁ : ¬ eventType payload = "message_start")
    (h₂ : ¬ eventType payload = "message_delta") : WellFormed payload := by
  obtain ⟨husage, hholder⟩ := usageOf_other h₁ h₂
  refine ⟨fun key v h => ?_, fun v h => ?_⟩
  · rw [carriedCount, husage] at h
    cases h
  · rw [carriedStop, hholder] at h
    cases h

theorem wellFormed_messageStart : WellFormed messageStart := by
  refine ⟨fun key v h => ?_, fun v h => ?_⟩
  · cases key <;> cases h <;> exact .inr ⟨_, rfl⟩
  · cases h
    exact .inl rfl

theorem wellFormed_messageDelta : WellFormed messageDelta := by
  refine ⟨fun key v h => ?_, fun v h => ?_⟩
  · cases key <;> cases h
    exact .inr ⟨_, rfl⟩
  · cases h
    exact .inr ⟨_, rfl⟩

theorem wellFormed_cutStream : ∀ payload ∈ cutStream, WellFormed payload := by
  have hother : ∀ type items, type ≠ "message_start" → type ≠ "message_delta" → WellFormed (eventPayload type items) := by
    intro type items h₁ h₂
    have htype : eventType (eventPayload type items) = type := orEmpty_str type
    exact wellFormed_other (by rwa [htype]) (by rwa [htype])
  simp only [cutStream, deltaEvent, List.forall_mem_cons, List.not_mem_nil, false_imp_iff, implies_true, and_true]
  refine ⟨wellFormed_messageStart, ?_, ?_, ?_, ?_, ?_, ?_, ?_, ?_, ?_, wellFormed_messageDelta⟩ <;>
    exact hother _ _ (by decide) (by decide)

end LlmGateway.Sse
