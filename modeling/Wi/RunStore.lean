import Wi.History

/-! Reading recorded runs and tool results back from the canonical tables, the session
checks that precede every write, and the correlation of a run's next runtime event. -/
namespace Wi
variable [JsonHash]

structure RecordedRun where
  runId : RunId
  acceptedSequence : Nat
  input : RecordedRunInput
  state : RecordedRunState
  lastRuntimeSequence : Nat
  ownerInstanceId : StoredEventId
  providerSessionId : Option Text
  terminal : Option StoredEvent
  resultSequence : Option Nat

namespace RunStore

def isInterrupted : StoredEventPayload → Bool
  | .runInterrupted _ => true
  | _ => false

/-- The terminal event, checked against the row's state, provider session and copy. -/
def terminalEvent (db : Db) (id : ApplicationSessionId) (row : RunRow) (sequence : Nat) :
    Result StoredEvent := do
  let event ← History.event db.events id sequence
  require (row.acceptedSequence < sequence && event.runId = some row.runId) .integrity
  if row.state = .interrupted then
    require (isInterrupted event.payload) .integrity
  else
    let (outcome, provider) ← present (History.terminalOutcome event) .integrity
    require (outcomeState outcome = row.state && provider = row.providerSessionId) .integrity
  require (row.terminal.bind StoredEventPayload.once = some event.payload) .integrity
  return event

/-- The result event must agree with the terminal one. -/
def resultEvent (db : Db) (id : ApplicationSessionId) (row : RunRow) (terminal : Option StoredEvent)
    (sequence : Nat) : Result Unit := do
  let event ← History.event db.events id sequence
  match event.payload with
  | .runResultRecorded result =>
    let terminal ← present terminal .integrity
    let (outcome, provider) ← present (History.terminalOutcome terminal) .integrity
    require (event.runId = some row.runId && result.outcome = outcome && result.sessionId = provider &&
      terminal.sequence ≤ sequence) .integrity
  | _ => integrity

def recordedResult (db : Db) (id : ApplicationSessionId) (row : RunRow) (terminal : Option StoredEvent) : Result Unit :=
  match row.resultSequence with
  | some sequence => do
    require (sequence ≠ 0) .integrity
    resultEvent db id row terminal sequence
  | none => .ok ()

def runRecord (db : Db) (id : ApplicationSessionId) (run : RunId) : Result (Option RecordedRun) :=
  match db.runs.find? fun row => row.runId = run with
  | none => .ok none
  | some row => do
    require (row.acceptedSequence ≠ 0) .integrity
    let accepted ← History.event db.events id row.acceptedSequence
    match accepted.payload with
    | .runAccepted acceptedRun input owner =>
      require (acceptedRun = run && owner = row.ownerInstanceId) .integrity
      require (row.terminalSequence.isSome == row.terminal.isSome &&
        active row.state != row.terminalSequence.isSome && row.terminalSequence != some 0) .integrity
      let terminal ← match row.terminalSequence with
        | some sequence => do pure (some (← terminalEvent db id row sequence))
        | none => pure none
      recordedResult db id row terminal
      return some ⟨run, row.acceptedSequence, input, row.state, row.lastRuntimeSequence, owner,
        row.providerSessionId, terminal, row.resultSequence⟩
    | _ => integrity

/-- The tool event recorded at a sequence, if it is one of this run. -/
def toolEventOf (event : StoredEvent) (run : RunId) : Option (Option Text × ToolExecutionEvent) :=
  match event.payload with
  | .runtimeObserved runtime =>
    match runtime.event with
    | .toolEvent tool => if event.runId = some run then some (runtime.requestId, tool) else none
    | _ => none
  | _ => none

def toolResult (db : Db) (id : ApplicationSessionId) (run : RunId) (call : Text) :
    Result (Option ToolRow) :=
  match db.tools.find? fun row => row.runId = run && row.callId = call with
  | none => .ok none
  | some row => do
    require (row.startedSequence ≠ 0 && row.finishedSequence ≠ some 0 && row.resultSequence ≠ some 0)
      .integrity
    require (row.resultSequence.isSome == row.output.isSome &&
      (row.resultSequence.isSome || row.finishedSequence.isSome) == row.isError.isSome) .integrity
    let started ← History.event db.events id row.startedSequence
    require (toolEventOf started run = some (row.requestId, .toolExecutionStarted call row.toolName))
      .integrity
    match row.finishedSequence with
    | some sequence =>
      let finished ← History.event db.events id sequence
      require (row.startedSequence < sequence && row.isError.any fun isError =>
        toolEventOf finished run = some (row.requestId, .toolExecutionFinished call row.toolName isError))
        .integrity
    | none => pure ()
    match row.resultSequence with
    | some sequence =>
      let result ← History.event db.events id sequence
      match result.payload with
      | .toolResultRecorded requestId callId output isError =>
        require (row.startedSequence < sequence && result.runId = some run && callId = call &&
          requestId = row.requestId && some output = row.output && some isError = row.isError) .integrity
      | _ => integrity
    | none => pure ()
    return some row

/-- `SELECT .. ORDER BY sequence DESC LIMIT 1` over the run's runtime events of a kind. -/
def latestRuntime (db : Db) (id : ApplicationSessionId) (run : RunId) (kind : RunEvent → Bool) :
    Result (Option RunEventEnvelope) :=
  let rows := db.events.filter fun event => event.runId = some run &&
    match event.payload with
    | .runtimeObserved runtime => kind runtime.event
    | _ => false
  match (Table.orderByDesc (·.sequence) rows).head? with
  | none => .ok none
  | some row => do
    let stored ← History.decode id row
    match stored.payload with
    | .runtimeObserved event => return some event
    | _ => integrity

end RunStore

structure Command where
  method : Method
  payloadHash : Digest
  receipt : CommitReceipt

namespace Session

def command (db : Db) (id : ApplicationSessionId) (operation : OperationId) : Result (Option Command) :=
  match db.commands.find? fun row => row.operationId = operation with
  | none => .ok none
  | some row => do
    let receipt ← CommitReceipt.new row.receipt
    require (receipt.operationId = operation && receipt.sessionId = id && 1 < row.firstSequence &&
      receipt.firstSequence = row.firstSequence && receipt.lastSequence = row.lastSequence &&
      row.lastSequence ≤ db.manifest.headSequence) .integrity
    return some ⟨row.method, row.payloadHash, receipt⟩

def nextSequence (head : Nat) : Result Nat :=
  if head + 1 ≤ maxInteger then .ok (head + 1) else invalid

/-- The latest event outside any run names the projection's metadata revision. -/
def projection (db : Db) : Result Unit := do
  let head ← present db.conversation.projection .integrity
  require (head.formatVersion = 1 && head.appliedSequence = db.manifest.headSequence &&
    1 ≤ head.metadataSequence && head.metadataSequence ≤ db.manifest.headSequence) .integrity
  let rows := db.events.filter fun event => event.runId.isNone && event.sequence ≤ db.manifest.headSequence
  let row ← present (Table.orderByDesc (·.sequence) rows).head? .integrity
  require (row.sequence = head.metadataSequence) .integrity
  match row.payload with
  | .sessionCreated .. => require (head.metadataSequence = 1) .integrity
  | .sessionRenamed _ => require (1 < head.metadataSequence) .integrity
  | _ => integrity

/-- `session_schema::validate` without its comparison of the table definitions. -/
def validate (db : Db) (id : ApplicationSessionId) (expected : CreationProvenance) :
    Result SessionManifest := do
  let row := db.manifest
  require (row.schemaVersion = 2 || row.schemaVersion = 3) .unsupportedVersion
  require (row.sessionId = id && 1 ≤ row.headSequence) .integrity
  require ((db.events.map (·.sequence)).max? = some row.headSequence) .integrity
  let input ← row.provenance.checkedRequest
  require (validateWorkspace row.workspace).isOk .integrity
  require (row.provenance.sessionId = id && row.createdAtMs = row.provenance.createdAtMs &&
    row.workspace = input.workspace && expected = row.provenance) .integrity
  let created ← present (db.events.find? fun event => event.sequence = 1) .integrity
  match created.payload with
  | .sessionCreated title workspace provenance =>
    require (created.eventId = row.provenance.creationEventId &&
      created.createdAtMs = row.provenance.createdAtMs && created.runId.isNone &&
      created.sourceEventId.isNone && created.sourceSequence.isNone && provenance = row.provenance &&
      title = input.title && workspace = input.workspace) .integrity
  | _ => integrity
  let last ← present (db.events.find? fun event => event.sequence = row.headSequence) .notFound
  require (last.createdAtMs = row.updatedAtMs) .integrity
  require (row.headSequence ≠ 1 || row.title = input.title) .integrity
  match last.payload with
  | .sessionRenamed title => require (title = row.title) .integrity
  | _ => pure ()
  if row.schemaVersion = 3 then projection db
  return ⟨id, row.title, row.workspace, row.createdAtMs, row.updatedAtMs, row.headSequence⟩

end Session

/-- The latest correlation evidence of a run. -/
structure Correlation where
  session : Option Text
  turn : Option (Text × UInt64)
  request : Option Text
  providerSequence : Option UInt64

namespace Correlation
open RunStore

def endsTurn : RunEvent → Bool
  | .runStarted | .turnFinished .. | .runFinished .. => true
  | _ => false

def isTurnStarted : RunEvent → Bool
  | .turnStarted _ => true
  | _ => false

def isProviderEvent : RunEvent → Bool
  | .providerEvent _ => true
  | _ => false

/-- The turn that is open after the latest runtime event, if it did not end one. -/
def loadTurn (db : Db) (id : ApplicationSessionId) (run : RunId) (latest : RunEventEnvelope) :
    Result (Option (Text × UInt64)) :=
  if endsTurn latest.event then .ok none
  else do
    let started ← present (← latestRuntime db id run isTurnStarted) .integrity
    match started.event with
    | .turnStarted number =>
      require (latest.turnId = started.turnId) .integrity
      return some (← present started.turnId .integrity, number)
    | _ => integrity

def load (db : Db) (id : ApplicationSessionId) (run : RecordedRun) : Result Correlation := do
  if run.lastRuntimeSequence = 0 then return ⟨run.providerSessionId, none, none, none⟩
  let latest ← present (← latestRuntime db id run.runId fun _ => true) .integrity
  require (latest.sequence = run.lastRuntimeSequence) .integrity
  let turn ← loadTurn db id run.runId latest
  let providerSequence ← match ← latestRuntime db id run.runId isProviderEvent with
    | some provider =>
      match provider.event with
      | .providerEvent event => pure (some event.sequence)
      | _ => integrity
    | none => pure none
  return ⟨run.providerSessionId, turn, latest.requestId, providerSequence⟩

/-- A turn id of this run that an earlier event already started. -/
def turnKnown (events : List StoredEvent) (run : RunId) (beforeSequence : Nat) (turn : Option Text) : Bool :=
  events.any fun event => event.runId = some run && event.sequence < beforeSequence &&
    match event.payload with
    | .runtimeObserved runtime => isTurnStarted runtime.event && turn.isSome && runtime.turnId = turn
    | _ => false

/-- A provider, tool or turn-finished event belongs to the open turn and its one request. -/
def observeInTurn (state : Correlation) (run : RecordedRun) (event : RunEventEnvelope) :
    Result Correlation := do
  let (turn, number) ← present state.turn .invalidTransition
  require (event.turnId = some turn && (state.request.isNone || state.request = event.requestId))
    .invalidTransition
  let state := { state with request := event.requestId }
  match event.event with
  | .providerEvent provider =>
    require (provider.provider = run.input.providerId &&
      state.providerSequence.all (· < provider.sequence)) .invalidTransition
    return { state with providerSequence := some provider.sequence }
  | .turnFinished finished .. =>
    require (finished = number) .invalidTransition
    return { state with turn := none }
  | _ => return state

def observe (state : Correlation) (events : List StoredEvent) (run : RecordedRun)
    (event : RunEventEnvelope) (beforeSequence : Nat) : Result Correlation := do
  require (event.runId = run.runId.text) .invalidInput
  require (run.lastRuntimeSequence < event.sequence && !(events.any fun old =>
    old.sourceEventId = some event.eventId && old.sequence < beforeSequence)) .commandConflict
  require (match event.event with
    | .runStarted => run.state = .accepted
    | _ => run.state = .running) .invalidTransition
  require (state.session.isNone || state.session = event.sessionId) .invalidTransition
  let state ← match event.event with
    | .runStarted => pure state
    | .turnStarted number => do
      require (state.turn.isNone && !turnKnown events run.runId beforeSequence event.turnId)
        .invalidTransition
      let turn ← present event.turnId .invalidTransition
      pure { state with turn := some (turn, number), request := none }
    | .runFinished .. => do
      require (state.turn.isNone && state.request = event.requestId) .invalidTransition
      pure state
    | _ => state.observeInTurn run event
  return { state with session := event.sessionId }

end Correlation
end Wi
