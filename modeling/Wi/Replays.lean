import Wi.Codec
import Wi.Records

/-! The stored conversation handed to a provider: closed exchanges grouped into runs. -/
namespace Wi
open Utf8

namespace Replay

def refusal : GatewayError := .invalidRequest "invalid conversation replay"

def callAllowed [JsonText] (native : Json) (call : FunctionCall) : Bool :=
  call.complete && call.origin == .direct && call.callNamespace.isNone &&
    (native.get "namespace".toList).all Json.isNull && !call.callId.isEmpty &&
    decide (bytes call.callId ≤ 512) && !call.name.isEmpty && decide (bytes call.arguments ≤ 64 * 1024) &&
    Codec.objectText call.arguments

/-- One output item of the ordinary-call contract; `ids` are the call ids seen before it. -/
def validateItem [JsonText] (ids : List Text) (item : OutputItem) : GatewayResult (List Text) :=
  match item.kind, item.functionCall with
  | .message, none | .reasoning, none => .ok ids
  | .functionCall, some call => do
    demand (callAllowed item.native call && !ids.contains call.callId) refusal
    return call.callId :: ids
  | _, _ => .error refusal

def validateResponse [JsonText] (response : ModelResponse) : GatewayResult Unit := do
  demand (!response.id.isEmpty && response.outcome == .completed) refusal
  discard (response.output.foldlM validateItem [])

end Replay

def ModelResponse.calls (response : ModelResponse) : List FunctionCall :=
  response.output.filterMap (·.functionCall)

/-- One result for each call, in call order, and no further result. -/
def matchResults : List FunctionCall → List InputItem → Bool
  | [], results => results.isEmpty
  | call :: calls, .toolResult callId _ :: results => callId == call.callId && matchResults calls results
  | _ :: _, _ => false

structure ReplayExchange [JsonText] where
  response : ModelResponse
  toolResults : List InputItem
  valid : Replay.validateResponse response = .ok ()
  matched : matchResults response.calls toolResults = true

/-- Every exchange but the last was continued with tool results. -/
def continued [JsonText] (exchanges : List ReplayExchange) : Bool :=
  exchanges.dropLast.all fun exchange => !exchange.toolResults.isEmpty

structure ReplayRun [JsonText] where
  sourceRunId : Text
  preparedPrompt : Text
  exchanges : List ReplayExchange
  valid : (!blank sourceRunId && !blank preparedPrompt && !exchanges.isEmpty && continued exchanges) = true

/-- The rules of a replay: a named provider and model, the identity of what is replayed, and
no run twice. -/
def conversationAllowed [JsonText] (providerId requestedModel : Text) (expectedIdentity : Option ReplayIdentity)
    (runs : List ReplayRun) : Bool :=
  !blank providerId && !blank requestedModel && decide (bytes requestedModel ≤ 256) &&
    expectedIdentity.all (fun identity => identity.providerId == providerId) &&
    (runs.isEmpty || expectedIdentity.isSome) && decide (runs.map (·.sourceRunId)).Nodup

structure ConversationReplay [JsonText] where
  version : Nat
  providerId : Text
  requestedModel : Text
  expectedIdentity : Option ReplayIdentity
  runs : List ReplayRun
  versioned : version = 1
  valid : conversationAllowed providerId requestedModel expectedIdentity runs = true

end Wi
