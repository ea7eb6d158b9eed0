import Wi.Ids
import Wi.Json

/-! The provider and run events that storage records, with the data they carry. -/
namespace Wi

inductive ItemKind where
  | message | reasoning | functionCall | customToolCall | toolSearchCall | toolSearchOutput
  | program | programOutput | unknown
  deriving DecidableEq, Repr

inductive CallOrigin where
  | direct | programmatic | unknown
  deriving DecidableEq, Repr

structure FunctionCall where
  callId : Text
  name : Text
  arguments : Text
  origin : CallOrigin
  callNamespace : Option Text
  complete : Bool
  deriving DecidableEq

structure OutputItem where
  id : Option Text
  kind : ItemKind
  nativeType : Text
  functionCall : Option FunctionCall
  native : Json
  deriving DecidableEq

def OutputItem.shape (item : OutputItem) : OutputItem := { item with native := item.native.shape }

inductive ResponseOutcome where
  | completed
  | incomplete (reason : Option Text)
  | failed
  | cancelled
  deriving DecidableEq

structure Usage where
  inputTokens : UInt64
  outputTokens : UInt64
  totalTokens : UInt64
  cachedInputTokens : Option UInt64
  reasoningTokens : Option UInt64
  deriving DecidableEq

inductive OutputProvenance where
  | nativeTerminal | validatedOutputItemDone
  deriving DecidableEq, Repr

structure ModelResponse where
  outputProvenance : OutputProvenance
  id : Text
  model : Option Text
  outcome : ResponseOutcome
  output : List OutputItem
  text : Text
  usage : Option Usage
  native : Json
  deriving DecidableEq

def ModelResponse.shape (response : ModelResponse) : ModelResponse :=
  { response with output := response.output.map OutputItem.shape, native := response.native.shape }

inductive DeltaKind where
  | text | refusal | reasoningSummary | reasoningText | functionArguments | customToolInput
  deriving DecidableEq, Repr

inductive UpstreamOutcome where
  | notSubmitted | unknown | terminalReceived
  deriving DecidableEq, Repr

inductive ProviderEvent where
  | sessionClosed (reason : Text)
  | responseStarted (responseId : Text)
  | responseStatus (responseId status : Text)
  | outputItemStarted (responseId : Text) (outputIndex : UInt64) (item : OutputItem)
  | outputItemUpdated (responseId itemId : Text) (outputIndex : UInt64)
      (contentIndex summaryIndex : Option UInt64) (kind : DeltaKind) (delta : Text)
  | outputItemFinished (responseId : Text) (outputIndex : UInt64) (item : OutputItem)
  | responseFinished (response : ModelResponse)
  | requestFailed (code message : Text) (upstreamOutcome : UpstreamOutcome)
  | providerExtension (eventType : Text) (payload : Json)
  deriving DecidableEq

def ProviderEvent.shape : ProviderEvent → ProviderEvent
  | .outputItemStarted response index item => .outputItemStarted response index item.shape
  | .outputItemFinished response index item => .outputItemFinished response index item.shape
  | .responseFinished response => .responseFinished response.shape
  | .providerExtension eventType payload => .providerExtension eventType payload.shape
  | other => other

structure EventEnvelope where
  schemaVersion : Nat
  sequence : UInt64
  eventId : Text
  sessionId : Text
  requestId : Option Text
  provider : Text
  providerSequence : Option UInt64
  event : ProviderEvent
  deriving DecidableEq

inductive ToolExecutionEvent where
  | toolExecutionStarted (callId toolName : Text)
  | toolExecutionFinished (callId toolName : Text) (isError : Bool)
  | toolResultReused (callId toolName : Text)
  deriving DecidableEq

def ToolExecutionEvent.callId : ToolExecutionEvent → Text
  | .toolExecutionStarted call _ | .toolExecutionFinished call _ _ | .toolResultReused call _ => call

def ToolExecutionEvent.toolName : ToolExecutionEvent → Text
  | .toolExecutionStarted _ name | .toolExecutionFinished _ name _ | .toolResultReused _ name => name

inductive RunOutcome where
  | completed
  | failed (code : Text)
  | cancelledLocally
  deriving DecidableEq

structure RunSummary where
  turnsStarted : UInt64
  turnsFinished : UInt64
  modelRequestsAttempted : UInt64
  modelRequestsAdmitted : UInt64
  newToolDispatches : UInt64
  toolResultsPrepared : UInt64
  reusedResults : UInt64
  lastRequestId : Option Text
  lastUpstreamOutcome : Option UpstreamOutcome
  deriving DecidableEq

inductive TurnOutcome where
  | modelCompleted
  | toolsPrepared
  | stopped (reason : RunOutcome)
  deriving DecidableEq

inductive RunEvent where
  | runStarted
  | turnStarted (number : UInt64)
  | providerEvent (event : EventEnvelope)
  | toolEvent (event : ToolExecutionEvent)
  | turnFinished (number : UInt64) (responseId : Option Text) (outcome : TurnOutcome)
      (upstreamOutcome : Option UpstreamOutcome)
  | runFinished (outcome : RunOutcome) (summary : RunSummary)
  deriving DecidableEq

def RunEvent.shape : RunEvent → RunEvent
  | .providerEvent provider => .providerEvent { provider with event := provider.event.shape }
  | other => other

structure RunEventEnvelope where
  schemaVersion : Nat
  sequence : Nat
  eventId : Text
  runId : Text
  turnId : Option Text
  sessionId : Option Text
  requestId : Option Text
  event : RunEvent
  deriving DecidableEq

def RunEventEnvelope.shape (envelope : RunEventEnvelope) : RunEventEnvelope :=
  { envelope with event := envelope.event.shape }

inductive RunSinkError where
  | full | closed | failed
  deriving DecidableEq, Repr

structure RunResult where
  runId : Text
  sessionId : Option Text
  outcome : RunOutcome
  summary : RunSummary
  lastResponse : Option ModelResponse
  eventsComplete : Bool
  sinkError : Option RunSinkError
  deriving DecidableEq

def RunResult.shape (result : RunResult) : RunResult :=
  { result with lastResponse := result.lastResponse.map ModelResponse.shape }

end Wi
