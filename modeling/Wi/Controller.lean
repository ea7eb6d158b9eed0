import Wi.Tools
import Wi.Replays

/-! One provider-neutral run: the loop over turns, the collection of each response, the
preparation of its tool results, and the events it delivers to its observer. -/
namespace Wi.Controller

/-- The counters of a run summary. -/
inductive Counter where
  | turnsStarted | turnsFinished | modelRequestsAttempted | modelRequestsAdmitted
  | newToolDispatches | toolResultsPrepared | reusedResults
  deriving DecidableEq, Repr

def Counter.value (summary : RunSummary) : Counter → UInt64
  | .turnsStarted => summary.turnsStarted
  | .turnsFinished => summary.turnsFinished
  | .modelRequestsAttempted => summary.modelRequestsAttempted
  | .modelRequestsAdmitted => summary.modelRequestsAdmitted
  | .newToolDispatches => summary.newToolDispatches
  | .toolResultsPrepared => summary.toolResultsPrepared
  | .reusedResults => summary.reusedResults

def Counter.put (summary : RunSummary) (value : UInt64) : Counter → RunSummary
  | .turnsStarted => { summary with turnsStarted := value }
  | .turnsFinished => { summary with turnsFinished := value }
  | .modelRequestsAttempted => { summary with modelRequestsAttempted := value }
  | .modelRequestsAdmitted => { summary with modelRequestsAdmitted := value }
  | .newToolDispatches => { summary with newToolDispatches := value }
  | .toolResultsPrepared => { summary with toolResultsPrepared := value }
  | .reusedResults => { summary with reusedResults := value }

/-- What a run does, in order: an event handed to `send`, the provider asked to generate, the
identity of a request taken over, a tool result put in the next input, a batch of tool calls
begun and ended, the observer called, and the observer's answer if it was an error. -/
inductive RunStep where
  | sent (event : RunEvent)
  | generate (input : List InputItem)
  | admitted (requestId : Text)
  | prepared
  | batch
  | batchDone
  | delivered (envelope : RunEventEnvelope)
  | sinkFailed (error : RunSinkError)
  deriving DecidableEq

structure Collector where
  responseId : Option Text
  started : Bool
  terminal : Bool
  deriving DecidableEq

def Collector.new : Collector := ⟨none, false, false⟩

/-- The state of a run, with the tool scope and the locals of its loop. -/
structure State (ω : Type) where
  world : ω
  steps : List RunStep
  sequence : UInt64
  runId : Text
  sessionId : Option Text
  turnId : Option Text
  requestId : Option Text
  sinkError : Option RunSinkError
  summary : RunSummary
  lastResponse : Option ModelResponse
  scope : ToolRegistry
  collector : Collector
  providerSequence : Option UInt64

abbrev Run (ω : Type) := Act (State ω) RunOutcome

def failed (code : String) : RunOutcome := .failed code.toList

def RunSummary.default : RunSummary := ⟨0, 0, 0, 0, 0, 0, 0, none, none⟩

/-- Everything outside the run: the cancellation token, the provider session, the tools, the
observer and the source of identifiers. A request that the run abandons on cancellation ends
with the error `()`; any request may stay unanswered. -/
structure World [JsonText] (ω : Type) where
  cancelled : ω → Bool × ω
  newUuid : ω → Text × ω
  openSession : Text → SessionOptions → Act ω Unit (GatewayResult Text)
  replayIdentity : ω → Option ReplayIdentity × ω
  installReplay : ConversationReplay → Act ω Unit (GatewayResult Unit)
  generate : List InputItem → Act ω Unit (GatewayResult Text)
  next : Act ω Unit (Option EventEnvelope)
  execute : FunctionCall → Json → Act ω Unit (GatewayResult Json)
  event : RunEventEnvelope → Act ω RunSinkError Unit
  providerOpened : Text → Text → ReplayIdentity → Act ω RunSinkError Unit
  toolResult : Text → Text → Text → Bool → Act ω RunSinkError Unit
  close : ω → ω

section
variable {ω α : Type}

def note (step : RunStep) : Run ω Unit := .update fun s => { s with steps := s.steps ++ [step] }

/-- A future that is never ready, and the end of a run that the source would not reach. -/
def hang : Run ω α := fun s => (.pending, s)

def consult (question : ω → α × ω) : Run ω α := fun s =>
  (.ok (question s.world).1, { s with world := (question s.world).2 })

/-- The stop future wins, or the other one ends. -/
def cancellable (request : Act ω Unit α) : Run ω α := fun s =>
  match request s.world with
  | (.ok value, world) => (.ok value, { s with world := world })
  | (.error _, world) => (.error .cancelledLocally, { s with world := world })
  | (.pending, world) => (.pending, { s with world := world })

/-- A call of the observer. Its first error is kept. -/
def observing (request : Act ω RunSinkError Unit) : Run ω Unit := fun s =>
  match request s.world with
  | (.ok _, world) => (.ok (), { s with world := world })
  | (.error error, world) => (.error (failed "event_sink"),
      { s with world := world, sinkError := some error, steps := s.steps ++ [.sinkFailed error] })
  | (.pending, world) => (.pending, { s with world := world })

/-- Counters describe work; one that cannot hold the number fails. -/
def checkedIncrement (value : UInt64) : Except RunOutcome UInt64 :=
  if value.toNat + 1 < 2 ^ 64 then .ok (value + 1) else .error (failed "counter_overflow")

def increment (counter : Counter) : Run ω Unit := fun s =>
  match checkedIncrement (counter.value s.summary) with
  | .ok value => (.ok (), { s with summary := counter.put s.summary value })
  | .error outcome => (.error outcome, s)

def incrementSequence : Run ω Unit := fun s =>
  match checkedIncrement s.sequence with
  | .ok value => (.ok (), { s with sequence := value })
  | .error outcome => (.error outcome, s)

def setUpstream (outcome : UpstreamOutcome) : Run ω Unit :=
  .update fun s => { s with summary := { s.summary with lastUpstreamOutcome := some outcome } }

end

section
variable [JsonText] {ω : Type} (world : World ω)

def checkpoint : Run ω Unit := do
  if ← consult world.cancelled then .throw .cancelledLocally else pure ()

def deliver (event : RunEvent) : Run ω Unit := do
  let eventId ← consult world.newUuid
  let s ← .read
  let envelope : RunEventEnvelope :=
    ⟨2, s.sequence.toNat, eventId, s.runId, s.turnId, s.sessionId, s.requestId, event⟩
  note (.delivered envelope)
  observing (world.event envelope)

/-- Nothing is delivered once the observer failed. -/
def transmit (event : RunEvent) : Run ω Unit := do
  let s ← .read
  if s.sinkError.isSome then .throw (failed "event_sink")
  else do
    incrementSequence
    deliver world event

def send (event : RunEvent) : Run ω Unit := do
  note (.sent event)
  transmit world event

namespace Collector

/-- The envelope belongs to this request and comes after the events before it. -/
def correlates (collector : Collector) (envelope : EventEnvelope) (session provider request : Text)
    (sequence : Option UInt64) : Bool :=
  envelope.sessionId == session && envelope.provider == provider && envelope.requestId == some request &&
    sequence.all (fun previous => decide (previous < envelope.sequence)) && !collector.terminal &&
    (provider != openaiCodex || isLocalEventId envelope.eventId envelope.sessionId envelope.sequence.toNat)

/-- The response that an event names, and the collector after it. -/
def mark (collector : Collector) : ProviderEvent → Except RunOutcome (Collector × Option Text)
  | .sessionClosed _ => .error (failed "session_closed")
  | .responseStarted responseId =>
    if collector.started then .error (failed "provider_correlation")
    else .ok ({ collector with started := true }, some responseId)
  | .responseStatus responseId _ | .outputItemStarted responseId _ _
  | .outputItemUpdated responseId _ _ _ _ _ _ | .outputItemFinished responseId _ _ => .ok (collector, some responseId)
  | .responseFinished response => .ok ({ collector with terminal := true }, some response.id)
  | .requestFailed .. => .ok ({ collector with terminal := true }, none)
  | .providerExtension .. => .ok (collector, none)

/-- The events of one turn name one response. -/
def identify (collector : Collector) : Option Text → Except RunOutcome Collector
  | none => .ok collector
  | some id =>
    if id.isEmpty || collector.responseId.any (· != id) then .error (failed "provider_correlation")
    else .ok { collector with responseId := some id }

end Collector

/-- A failed observation keeps what it changed before it failed. -/
def observe (envelope : EventEnvelope) (session provider : Text) : Run ω Unit := do
  let s ← .read
  if s.collector.correlates envelope session provider (s.requestId.getD []) s.providerSequence then do
    .update fun s => { s with providerSequence := some envelope.sequence }
    let (collector, id) ← .lift (s.collector.mark envelope.event)
    .update fun s => { s with collector := collector }
    let collector ← .lift (collector.identify id)
    .update fun s => { s with collector := collector }
  else .throw (failed "provider_correlation")

/-- A terminal event: its result, after its upstream outcome is noted. -/
def terminal (event : ProviderEvent) : Run ω (Option (Except RunOutcome Unit)) :=
  match event with
  | .responseFinished response => do
    setUpstream .terminalReceived
    .update fun s => { s with lastResponse := some response }
    return some (.ok ())
  | .requestFailed _ _ upstreamOutcome => do
    setUpstream upstreamOutcome
    return some (.error (failed "provider_request_failed"))
  | _ => return none

def collectResponse (session provider : Text) : Nat → Run ω Unit
  | 0 => hang
  | fuel + 1 => do
    checkpoint world
    match ← cancellable world.next with
    | none => .throw (failed "provider_eof")
    | some event =>
      observe event session provider
      let ended ← terminal event.event
      send world (.providerEvent event)
      match ended with
      | some result => .lift result
      | none => collectResponse session provider fuel

def countTool : ToolExecutionEvent → Run ω Unit
  | .toolExecutionStarted .. => increment .newToolDispatches
  | .toolResultReused .. => increment .reusedResults
  | .toolExecutionFinished .. => pure ()

/-- The run as the observer of its tools. -/
def toolEvent (event : ToolExecutionEvent) : Run ω Unit := do
  countTool event
  send world (.toolEvent event)

def toolResult (callId output : Text) (isError : Bool) : Run ω Unit := do
  let s ← .read
  if s.sinkError.isSome then .throw (failed "event_sink")
  else observing (world.toolResult (s.requestId.getD []) callId output isError)

def caller : ToolCaller (State ω) RunOutcome where
  admitted := checkpoint world
  checkpoint := checkpoint world
  race call arguments := cancellable (world.execute call arguments)
  event := toolEvent world
  result := toolResult world
  prepared := do
    increment .toolResultsPrepared
    note .prepared

/-- The batch borrows the tool scope of the run. -/
def runBatch (calls : List PreparedCall) : Run ω (List InputItem) := fun s =>
  let (reply, batch) := PreparedBatch.execute (caller world) ⟨s.scope, calls, [], s⟩
  (reply, { batch.caller with scope := batch.registry })

def ordinary (kind : ItemKind) : Bool := kind == .message || kind == .reasoning || kind == .functionCall

def completion : ResponseOutcome → Except RunOutcome Unit
  | .completed => .ok ()
  | .incomplete _ => .error (failed "model_incomplete")
  | .failed => .error (failed "model_failed")
  | .cancelled => .error (failed "model_cancelled")

def runTools (response : ModelResponse) : Run ω (List InputItem) := do
  checkpoint world
  let s ← .read
  let calls ← .lift ((s.scope.preflight response).mapError fun _ => failed "tool_preflight")
  note .batch
  let results ← runBatch world calls
  note .batchDone
  checkpoint world
  .lift ((validateInput results).mapError fun _ => failed "tool_result_input")
  return results

def prepareTools : Run ω (Option (List InputItem)) := do
  let s ← .read
  match s.lastResponse with
  | none => hang
  | some response =>
    .lift (completion response.outcome)
    if response.output.any fun item => !ordinary item.kind then .throw (failed "unsupported_output")
    else if response.output.any fun item => item.kind == .functionCall then return some (← runTools world response)
    else return none

/-- The request counts only when it is polled, which it is unless the stop future is ready. -/
def request (input : List InputItem) : Run ω Text := do
  checkpoint world
  increment .modelRequestsAttempted
  setUpstream .unknown
  note (.generate input)
  match ← cancellable (world.generate input) with
  | .ok requestId => return requestId
  | .error _ =>
    setUpstream .notSubmitted
    .throw (failed "generate_rejected")

def admitRequest (requestId : Text) : Run ω Unit := do
  if isCanonicalUuid requestId then do
    increment .modelRequestsAdmitted
    note (.admitted requestId)
    .update fun s => { s with
      requestId := some requestId, summary := { s.summary with lastRequestId := some requestId } }
  else .throw (failed "provider_correlation")

def turn (session provider : Text) (limit : Nat) (input : List InputItem) : Run ω (Option (List InputItem)) := do
  let s ← .read
  send world (.turnStarted s.summary.turnsStarted)
  checkpoint world
  let requestId ← request world input
  admitRequest requestId
  collectResponse world session provider limit
  prepareTools world

def turnOutcome : Except RunOutcome (Option (List InputItem)) → TurnOutcome
  | .ok (some _) => .toolsPrepared
  | .ok none => .modelCompleted
  | .error reason => .stopped reason

def finishTurn (outcome : TurnOutcome) : Run ω Unit := do
  let s ← .read
  if s.sinkError.isSome then pure ()
  else do
    increment .turnsFinished
    send world (.turnFinished s.summary.turnsStarted s.collector.responseId outcome s.summary.lastUpstreamOutcome)

def startTurn : Run ω Unit := do
  checkpoint world
  let turnId ← consult world.newUuid
  .update fun s => { s with turnId := some turnId, requestId := none }
  increment .turnsStarted
  setUpstream .notSubmitted
  .update fun s => { s with collector := .new }

/-- The loop over turns. `limit` bounds the events that one response is collected from; a run
that needs more turns or events is still pending. -/
def drive (session provider : Text) (limit : Nat) : Nat → List InputItem → Run ω Unit
  | 0, _ => hang
  | fuel + 1, input => do
    startTurn world
    let result ← .attempt (turn world session provider limit input)
    finishTurn world (turnOutcome result)
    match ← .lift result with
    | some results => drive session provider limit fuel results
    | none => pure ()

structure AdmittedRun where
  providerId : Text
  options : SessionOptions
  input : List InputItem
  scope : ToolRegistry
  replay : Option ConversationReplay

/-- The actual binding is saved even when this account cannot receive the old history. -/
def restore (session model : Text) (replay : ConversationReplay) : Run ω Unit := do
  match ← consult world.replayIdentity with
  | none => .throw (failed "history_identity")
  | some identity =>
    observing (world.providerOpened session model identity)
    if !replay.runs.isEmpty && replay.expectedIdentity != some identity then .throw (failed "history_identity")
    else do
      checkpoint world
      let installed ← cancellable (world.installReplay replay)
      .lift (installed.mapError fun _ => failed "history_restore")

def openSession (admitted : AdmittedRun) : Run ω Text := do
  checkpoint world
  let opened ← cancellable (world.openSession admitted.providerId admitted.options)
  let session ← .lift (opened.mapError fun _ => failed "session_open")
  if admitted.providerId == openaiCodex && !isCanonicalUuid session then .throw (failed "provider_correlation")
  else do
    .update fun s => { s with sessionId := some session }
    return session

def restoring (admitted : AdmittedRun) (session : Text) : Run ω Unit :=
  match admitted.replay with
  | some replay => restore world session admitted.options.model replay
  | none => pure ()

def execution (admitted : AdmittedRun) (turns limit : Nat) : Run ω Unit := do
  send world .runStarted
  let session ← openSession world admitted
  restoring world admitted session
  drive world session admitted.providerId limit turns admitted.input

def outcomeOf : Except RunOutcome Unit → RunOutcome
  | .ok _ => .completed
  | .error reason => reason

/-- Final delivery cannot change the outcome of the execution. -/
def finishRun (outcome : RunOutcome) : Run ω RunResult := do
  .update fun s => { s with world := world.close s.world, turnId := none }
  let s ← .read
  let delivered ← .attempt (send world (.runFinished outcome s.summary))
  let s ← .read
  return ⟨s.runId, s.sessionId, outcome, s.summary, s.lastResponse, delivered.toBool, s.sinkError⟩

def State.new (initial : ω) (runId : Text) (scope : ToolRegistry) : State ω where
  world := initial
  steps := []
  sequence := 0
  runId := runId
  sessionId := none
  turnId := none
  requestId := none
  sinkError := none
  summary := RunSummary.default
  lastResponse := none
  scope := scope
  collector := .new
  providerSequence := none

def runAdmitted (admitted : AdmittedRun) (turns limit : Nat) : Run ω RunResult := do
  let result ← .attempt (execution world admitted turns limit)
  finishRun world (outcomeOf result)

end
end Wi.Controller
