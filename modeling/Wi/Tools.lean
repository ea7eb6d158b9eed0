import Wi.Acting
import Wi.Codec

/-! The tool scope of a run: every call of a response is checked before any of them runs, and
a call that ran once answers later repetitions from its saved result. -/
namespace Wi
open Utf8

structure Tool where
  definition : ToolDefinition
  validate : Json → GatewayResult Unit

structure CachedResult where
  name : Text
  arguments : Json
  output : Text
  deriving DecidableEq

structure ToolRegistry where
  tools : List (Text × Tool)
  results : List (Text × CachedResult)

namespace ToolRegistry

def saved (registry : ToolRegistry) (callId : Text) : Option CachedResult := registry.results.lookup callId

def save (registry : ToolRegistry) (callId : Text) (result : CachedResult) : ToolRegistry :=
  { registry with results := (callId, result) :: registry.results }

end ToolRegistry

/-- A call that passed its checks, with its parsed arguments. -/
abbrev PreparedCall := FunctionCall × Json

section
variable [JsonText]

/-- The call of an output item, unless the item or its caller is unsupported. The native
namespace is read as well, for normalization drops one that is not a string. -/
def executableCall (item : OutputItem) : GatewayResult FunctionCall := do
  let call ← obtained item.functionCall .unsupportedOutput
  demand (call.complete && call.origin == .direct && call.callNamespace.isNone &&
    (item.native.get "namespace".toList).all Json.isNull) .unsupportedOutput
  return call

def ToolRegistry.prepareCall (registry : ToolRegistry) (calls : List PreparedCall) (call : FunctionCall) :
    GatewayResult (List PreparedCall) := do
  demand (!call.callId.isEmpty && decide (bytes call.callId ≤ 512) &&
      !calls.any fun earlier => earlier.1.callId == call.callId)
    (.protocol "empty, oversized, or duplicate tool call identity")
  demand (decide (bytes call.arguments ≤ 64 * 1024)) .invalidToolArguments
  let arguments ← obtained (JsonText.parse call.arguments) .invalidToolArguments
  demand arguments.isObject .invalidToolArguments
  let tool ← obtained (registry.tools.lookup call.name) .unknownTool
  tool.validate arguments
  demand ((registry.saved call.callId).all fun saved => saved.name == call.name && saved.arguments == arguments)
    (.protocol "call identity reused with different arguments")
  return calls ++ [(call, arguments)]

def ToolRegistry.prepareItem (registry : ToolRegistry) (calls : List PreparedCall) (item : OutputItem) :
    GatewayResult (List PreparedCall) :=
  match item.kind with
  | .message | .reasoning => .ok calls
  | .functionCall => executableCall item >>= registry.prepareCall calls
  | _ => .error .unsupportedOutput

/-- The calls of a response, all of them or none. -/
def ToolRegistry.preflight (registry : ToolRegistry) (response : ModelResponse) :
    GatewayResult (List PreparedCall) := do
  demand (response.outcome == .completed) .notCompleted
  let calls ← response.output.foldlM registry.prepareItem []
  demand (decide (calls.length ≤ maxInputItems)) (.invalidRequest "tool results exceed input item capacity")
  return calls

end

/-- What a batch does, in order. `failed` marks the point where a check of the caller, its
stop future or its observer returned an error. -/
inductive ToolStep where
  | event (event : ToolExecutionEvent)
  | executing (call : FunctionCall) (arguments : Json)
  | executed (call : FunctionCall) (arguments : Json) (value : GatewayResult Json)
  | result (callId output : Text) (isError : Bool)
  | returned (item : InputItem)
  | failed
  deriving DecidableEq

/-- The caller of a batch: its state is `τ`, its errors are `ε`. `race` is the selection
between its stop future and the tool; `admitted` and `prepared` are what it does after the
checks and after each result. -/
structure ToolCaller (τ ε : Type) where
  admitted : Act τ ε Unit
  checkpoint : Act τ ε Unit
  race : FunctionCall → Json → Act τ ε (GatewayResult Json)
  event : ToolExecutionEvent → Act τ ε Unit
  result : Text → Text → Bool → Act τ ε Unit
  prepared : Act τ ε Unit

structure PreparedBatch (τ : Type) where
  registry : ToolRegistry
  calls : List PreparedCall
  steps : List ToolStep
  caller : τ

/-- `{"error":{"code":code}}` -/
def errorValue (code : Text) : Json :=
  .object [("error".toList, .object [("code".toList, .string code)])]

/-- The text of a tool's outcome, and whether it reports an error. Serializing a JSON value
does not fail. -/
def settledOutput [JsonPrint] (executed : GatewayResult Json) : Text × Bool :=
  let (value, isError) := match executed with
    | .ok value => (value, false)
    | .error error => (errorValue error.code.toList, true)
  if bytes (render value) > 64 * 1024 then (render (errorValue "tool_output_limit".toList), true)
  else (render value, isError)

namespace PreparedBatch
variable {τ ε : Type}

def note (step : ToolStep) : Act (PreparedBatch τ) ε Unit :=
  .update fun batch => { batch with steps := batch.steps ++ [step] }

/-- A question to the caller. Its error ends the batch. -/
def ask (question : Act τ ε α) : Act (PreparedBatch τ) ε α := fun batch =>
  match question batch.caller with
  | (.ok value, caller) => (.ok value, { batch with caller := caller })
  | (.error error, caller) => (.error error, { batch with caller := caller, steps := batch.steps ++ [.failed] })
  | (.pending, caller) => (.pending, { batch with caller := caller })

def observe (caller : ToolCaller τ ε) (event : ToolExecutionEvent) : Act (PreparedBatch τ) ε Unit := do
  note (.event event)
  ask (caller.event event)

def reuse (caller : ToolCaller τ ε) (call : FunctionCall) (saved : CachedResult) :
    Act (PreparedBatch τ) ε InputItem := do
  observe caller (.toolResultReused call.callId call.name)
  return .toolResult call.callId saved.output

def keep [JsonPrint] (call : FunctionCall) (arguments : Json) (executed : GatewayResult Json) : Act (PreparedBatch τ) ε Unit :=
  .update fun batch =>
    { batch with
      registry := batch.registry.save call.callId ⟨call.name, arguments, (settledOutput executed).1⟩
      steps := batch.steps ++ [.executed call arguments executed] }

/-- The observation of a saved result: its output and whether that is an error. -/
def publish (caller : ToolCaller τ ε) (call : FunctionCall) (settled : Text × Bool) :
    Act (PreparedBatch τ) ε InputItem := do
  note (.result call.callId settled.1 settled.2)
  ask (caller.result call.callId settled.1 settled.2)
  observe caller (.toolExecutionFinished call.callId call.name settled.2)
  return .toolResult call.callId settled.1

/-- The effect and the saved result stay real even when their observation fails. -/
def dispatch [JsonPrint] (caller : ToolCaller τ ε) (call : FunctionCall) (arguments : Json) :
    Act (PreparedBatch τ) ε InputItem := do
  observe caller (.toolExecutionStarted call.callId call.name)
  ask caller.checkpoint
  note (.executing call arguments)
  let executed ← ask (caller.race call arguments)
  keep call arguments executed
  publish caller call (settledOutput executed)

def perform [JsonPrint] (caller : ToolCaller τ ε) (call : FunctionCall) (arguments : Json) :
    Act (PreparedBatch τ) ε InputItem := do
  ask caller.checkpoint
  let batch ← .read
  match batch.registry.saved call.callId with
  | some saved => reuse caller call saved
  | none => dispatch caller call arguments

/-- A failed call discards the rest of the batch. -/
def settle (action : Act (PreparedBatch τ) ε InputItem) : Act (PreparedBatch τ) ε InputItem := fun batch =>
  match action batch with
  | (.ok item, batch) => (.ok item, { batch with steps := batch.steps ++ [.returned item] })
  | (.error error, batch) => (.error error, { batch with calls := [] })
  | (.pending, batch) => (.pending, batch)

def executeNext [JsonPrint] (caller : ToolCaller τ ε) : Act (PreparedBatch τ) ε (Option InputItem) := do
  let batch ← .read
  match batch.calls with
  | [] => return none
  | (call, arguments) :: calls =>
    .update fun batch => { batch with calls := calls }
    return some (← settle (perform caller call arguments))

/-- The loop over the batch. Each round takes one call, so as many rounds as there are calls
end it. -/
def drain [JsonPrint] (caller : ToolCaller τ ε) : Nat → Act (PreparedBatch τ) ε (List InputItem)
  | 0 => return []
  | rounds + 1 => do
    match ← executeNext caller with
    | none => return []
    | some item =>
      ask caller.prepared
      return item :: (← drain caller rounds)

def execute [JsonPrint] (caller : ToolCaller τ ε) : Act (PreparedBatch τ) ε (List InputItem) := do
  ask caller.admitted
  let batch ← .read
  drain caller batch.calls.length

end PreparedBatch

/-- What one response made of its scope: the verdict of the checks, the steps taken, and how
the batch ended if there was one. -/
structure BatchRecord (ε : Type) where
  response : ModelResponse
  verdict : GatewayResult (List PreparedCall)
  steps : List ToolStep
  reply : Option (Reply ε (List InputItem))

namespace ToolRegistry
variable {τ ε : Type} [JsonText]

/-- One response in the scope. A response refused by the checks starts no batch. -/
def process (registry : ToolRegistry) (caller : ToolCaller τ ε) (state : τ) (response : ModelResponse) :
    BatchRecord ε × ToolRegistry × τ :=
  match registry.preflight response with
  | .error error => (⟨response, .error error, [], none⟩, registry, state)
  | .ok calls =>
    let (reply, batch) := PreparedBatch.execute caller ⟨registry, calls, [], state⟩
    (⟨response, .ok calls, batch.steps, some reply⟩, batch.registry, batch.caller)

end ToolRegistry
end Wi
