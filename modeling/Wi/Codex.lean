import Wi.Replays

/-! The transcript of one Codex connection: what a request sends on either transport, what a
terminal response settles, and the transcript compiled from a stored replay. -/
namespace Wi.Codex
open Utf8 Codec

def formatName : Text := "responses-input-v1".toList

def capabilityReport : ProviderCapabilities :=
  ⟨[.nativeSteering, .toolSearch, .programmaticTools, .asyncTools].map fun feature => (feature, false)⟩

def nativeInput : InputItem → Json
  | .user text => .build [("role", .string "user".toList), ("content", .array [
      .build [("type", .string "input_text".toList), ("text", .string text)]])]
  | .toolResult callId output => .build [("type", .string "function_call_output".toList),
      ("call_id", .string callId), ("output", .string output)]

def checkHistory [JsonPrint] (history : List Json) : GatewayResult Unit :=
  demand (decide (history.length ≤ 2048) && decide ((Json.array history).size ≤ maxHistoryBytes))
    (.invalidRequest "session context limit reached; this milestone has no automatic compaction")

structure Conversation where
  history : List Json
  lastResponse : Option Text
  pendingCalls : Finset Text
  advancedOutput : Bool
  settledIds : Finset Text
  deriving DecidableEq

namespace Conversation

def empty : Conversation := ⟨[], none, ∅, false, ∅⟩

/-- A tool result has to answer an outstanding call that no earlier item answered. -/
def supply (pending supplied : Finset Text) : InputItem → GatewayResult (Finset Text)
  | .user _ => .ok supplied
  | .toolResult callId _ => do
    demand (decide (callId ∈ pending) && decide (callId ∉ supplied))
      (.invalidRequest "unknown or duplicate tool result")
    return insert callId supplied

def nativeTool (tool : ToolDefinition) : Json := .build [
  ("type", .string "function".toList), ("name", .string tool.name),
  ("description", .string tool.description), ("parameters", tool.parameters),
  ("strict", .bool tool.strict)]

def baseBody (options : SessionOptions) (fullInput : List Json) : Json := .build [
  ("model", .string options.model),
  ("instructions", .string options.instructions),
  ("store", .bool false),
  ("tools", .array (options.tools.map nativeTool)),
  ("tool_choice", .string (if options.tools.isEmpty then "none".toList else "auto".toList)),
  ("parallel_tool_calls", .bool true),
  ("include", .array [.string "reasoning.encrypted_content".toList]),
  ("input", .array fullInput)]

/-- The request body. WebSocket names the parent response and sends only the new items. -/
def body (conversation : Conversation) (options : SessionOptions) (delta fullInput : List Json) : Json :=
  let base := baseBody options fullInput
  match options.transport with
  | .webSocket =>
    let base := base.set "type".toList (.string "response.create".toList)
    match conversation.lastResponse with
    | some id => (base.set "previous_response_id".toList (.string id)).set "input".toList (.array delta)
    | none => base
  | .sse => base.set "stream".toList (.bool true)

/-- The body of the next request and the full input it stands for. -/
def prepare [JsonPrint] (conversation : Conversation) (options : SessionOptions) (input : List InputItem) :
    GatewayResult (Json × List Json) := do
  validateInput input
  demand (!conversation.advancedOutput) .unsupportedOutput
  let supplied ← input.foldlM (supply conversation.pendingCalls) ∅
  demand (decide (supplied = conversation.pendingCalls))
    (.invalidRequest "supply exactly the outstanding tool results before continuing")
  let delta := input.map nativeInput
  let fullInput := conversation.history ++ delta
  checkHistory fullInput
  return (conversation.body options delta fullInput, fullInput)

/-- Whether a complete call asks for more than a direct ordinary execution. -/
def advancedCall (native : Json) : Bool :=
  (native.get "caller".toList).any (fun caller =>
      !caller.isNull && stringMember caller "type" != some "direct".toList) ||
    (native.get "namespace".toList).any fun value => !value.isNull

/-- The outstanding calls and the advanced mark after one more output item. -/
def scan (state : Finset Text × Bool) (item : OutputItem) : GatewayResult (Finset Text × Bool) :=
  match item.kind with
  | .message | .reasoning => .ok state
  | .functionCall =>
    -- a completed response can still contain an unfinished call
    if item.functionCall.any (·.complete) then do
      let id ← obtained ((stringMember item.native "call_id").filter (!·.isEmpty))
        (.protocol "function call has no call_id")
      demand (decide (id ∉ state.1)) (.protocol "duplicate call_id")
      return (insert id state.1, state.2 || advancedCall item.native)
    else .ok (state.1, true)
  | _ => .ok (state.1, true)

def natives (response : ModelResponse) : List Json := response.output.map (·.native)

def settle [JsonPrint] (conversation : Conversation) (fullInput : List Json) (response : ModelResponse) :
    GatewayResult Conversation := do
  if response.outcome ≠ .completed then return conversation
  demand (decide (response.id ∉ conversation.settledIds)) (.protocol "response ID reused")
  let (pending, advanced) ← response.output.foldlM scan (∅, false)
  let history := fullInput ++ natives response
  checkHistory history
  return ⟨history, some response.id, pending, advanced, insert response.id conversation.settledIds⟩

end Conversation

section Restoring
variable [JsonText]
open Codex.Conversation (natives)

def inconsistent : GatewayError := .protocol "inconsistent native replay response"

/-- The response decoded once more from its native terminal. -/
def reparse (response : ModelResponse) : GatewayResult ModelResponse := do
  let parsed ← parseResponse response.native
  if response.outputProvenance = .validatedOutputItemDone then
    demand (parsed.output.isEmpty && !response.output.isEmpty) inconsistent
    demand (response.output.all fun item => complete item.native) inconsistent
    -- the effective output is decoded, but the original empty terminal is kept
    let effective ← parseResponse (withOutput response.native (natives response))
    return { effective with native := response.native, outputProvenance := .validatedOutputItemDone }
  else return parsed

/-- An ordinary item whose identity, if it has one, is a new nonempty string. -/
def checkItem (ids : List Text) (item : OutputItem) : GatewayResult (List Text) := do
  demand (ordinaryItem item.native) inconsistent
  match item.native.get "id".toList with
  | none => return ids
  | some value =>
    let id ← obtained (value.asStr.filter (!·.isEmpty)) inconsistent
    demand (!ids.contains id) inconsistent
    return id :: ids

def validateResponse (response : ModelResponse) : GatewayResult Unit := do
  let parsed ← reparse response
  discard (parsed.output.foldlM checkItem [])
  Replay.validateResponse parsed
  demand (parsed == response) inconsistent

/-- The history so far and the response ids of the run. -/
def compileExchange (state : List Json × List Text) (exchange : ReplayExchange) :
    GatewayResult (List Json × List Text) := do
  let response := exchange.response
  demand (!state.2.contains response.id) (.protocol "response ID reused")
  validateResponse response
  return (state.1 ++ natives response ++ exchange.toolResults.map nativeInput, response.id :: state.2)

def compileRun (history : List Json) (run : ReplayRun) : GatewayResult (List Json) := do
  let (history, _) ← run.exchanges.foldlM compileExchange (history ++ [nativeInput (.user run.preparedPrompt)], [])
  return history

/-- Whether the replay was recorded for this adapter, its input format and the model. -/
def compatible (options : SessionOptions) (replay : ConversationReplay) : Bool :=
  replay.version == 1 && replay.providerId == openaiCodex && replay.requestedModel == options.model &&
    replay.expectedIdentity.all fun identity => identity.providerId == openaiCodex && identity.format == formatName

def compile (options : SessionOptions) (replay : ConversationReplay) : GatewayResult (List Json) := do
  options.validate
  capabilityReport.require options.requiredFeatures
  demand (compatible options replay) (.invalidRequest "incompatible conversation replay")
  let history ← replay.runs.foldlM compileRun []
  checkHistory history
  return history

/-- A restored conversation has no parent on its new connection. -/
def Conversation.fromReplay (options : SessionOptions) (replay : ConversationReplay) : GatewayResult Conversation := do
  return { Conversation.empty with history := ← compile options replay }

end Restoring
end Wi.Codex
