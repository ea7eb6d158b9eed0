import Wi.RunStore

/-! The session writer: run mutations, renames, interruption repair and the projection
backfill, each as one transaction. -/
namespace Wi
variable [JsonHash]

/-- Where a transaction failed: in a canonical check, or in the display projector. The
store reports both kinds the same way; the distinction only serves statements about it. -/
inductive Fault where
  | canonical (kind : StorageErrorKind)
  | display (kind : StorageErrorKind)
  deriving DecidableEq, Repr

def Fault.kind : Fault → StorageErrorKind
  | .canonical kind | .display kind => kind

abbrev Tx := Except Fault

def check (result : Result α) : Tx α := result.mapError .canonical
def project (result : Result α) : Tx α := result.mapError .display

/-- What a transaction takes from its surroundings: the clock and the fresh event ids. -/
structure Env where
  now : Option Nat
  eventId : Nat → StoredEventId

namespace Writer
open RunStore

def commandHash (id : ApplicationSessionId) (run : RunId) (mutation : Mutation) : Digest :=
  digest (.mutation id run mutation)

def isHistorySelected : StoredEventPayload → Bool
  | .runHistorySelected .. => true
  | _ => false

def isProviderBound : StoredEventPayload → Bool
  | .runProviderBound _ => true
  | _ => false

/-- The one event of a kind that a run may have. -/
def metadataEvent (db : Db) (id : ApplicationSessionId) (run : RunId)
    (kind : StoredEventPayload → Bool) : Result (Option StoredEvent) :=
  match Table.orderBy (fun row : StoredEvent => row.sequence)
      (db.events.filter fun event => event.runId = some run && kind event.payload) with
  | [] => .ok none
  | [row] => do return some (← History.decode id row)
  | _ => integrity

def historySelection (db : Db) (id : ApplicationSessionId) (run : RunId) :
    Result (Option StoredHistorySelection) := do
  match ← metadataEvent db id run isHistorySelected with
  | none => return none
  | some event =>
    match event.payload with
    | .runHistorySelected _ selection =>
      let recorded ← present (← runRecord db id run) .integrity
      require (event.sequence = recorded.acceptedSequence + 1 &&
        selection.throughSequence = recorded.acceptedSequence - 1 &&
        selection.matchesInput recorded.input) .integrity
      -- Acceptance and selection belong to one command, whose hash is recomputed here.
      match db.commands.filter fun row => row.firstSequence ≤ event.sequence &&
          recorded.acceptedSequence ≤ row.lastSequence with
      | [row] =>
        let command ← present (← Session.command db id row.operationId) .integrity
        let mutation := Mutation.acceptHistory recorded.input selection
        require (command.method = mutation.method && command.receipt.runId = some run &&
          command.receipt.firstSequence = recorded.acceptedSequence &&
          command.receipt.lastSequence = event.sequence &&
          command.payloadHash = commandHash id run mutation) .integrity
        return some selection
      | _ => integrity
    | _ => integrity

def isRunStarted : StoredEventPayload → Bool
  | .runtimeObserved event => event.event = .runStarted
  | _ => false

/-- Only acceptance, its adjacent selection and one run start may precede a binding. -/
def validateBinding (db : Db) (id : ApplicationSessionId) (run : RecordedRun)
    (binding : RecordedProviderBinding) (sequence : Nat) : Result Unit := do
  require (binding.runId = run.runId && binding.matchesInput run.input) .invalidTransition
  require (← historySelection db id run.runId).isSome .invalidTransition
  let rows := Table.orderBy (fun row : StoredEvent => row.sequence) (db.events.filter fun event =>
    event.runId = some run.runId && run.acceptedSequence + 1 < event.sequence && event.sequence < sequence)
  match rows with
  | [row] =>
    let started ← History.decode id row
    require (isRunStarted started.payload) .invalidTransition
  | _ => transition

def providerBinding (db : Db) (id : ApplicationSessionId) (run : RunId) :
    Result (Option RecordedProviderBinding) := do
  match ← metadataEvent db id run isProviderBound with
  | none => return none
  | some event =>
    match event.payload with
    | .runProviderBound binding =>
      let recorded ← present (← runRecord db id run) .integrity
      (validateBinding db id recorded binding event.sequence).mapError fun kind =>
        if kind = .invalidTransition then .integrity else kind
      require (recorded.providerSessionId = some binding.providerSessionId) .integrity
      return some binding
    | _ => integrity

def noActivity (summary : RunSummary) : Bool :=
  summary.turnsStarted = 0 && summary.turnsFinished = 0 && summary.modelRequestsAttempted = 0 &&
    summary.modelRequestsAdmitted = 0 && summary.newToolDispatches = 0 &&
    summary.toolResultsPrepared = 0 && summary.reusedResults = 0 && summary.lastRequestId.isNone &&
    summary.lastUpstreamOutcome.isNone

/-- What may be recorded for a history run before its provider session is bound. -/
def validateUnbound : AppendRunRecord → Result Unit
  | .runtime event =>
    match event.event with
    | .runStarted => .ok ()
    | .runFinished _ summary => require (noActivity summary && event.requestId.isNone) .invalidTransition
    | _ => transition
  | .result result => require (noActivity result.summary && result.lastResponse.isNone) .invalidTransition
  | .toolResult .. => transition
  | .providerBinding _ => .ok ()

def requireOutputs (db : Db) (run : RunId) (outcome : RunOutcome) : Result Unit :=
  require (outcome ≠ .completed || !(db.tools.any fun row => row.runId = run && row.resultSequence.isNone))
    .invalidTransition

def updateRun (db : Db) (run : RunId) (set : RunRow → RunRow) : Db :=
  { db with runs := Table.update (fun row => row.runId = run) set db.runs }

def updateTool (db : Db) (run : RunId) (call : Text) (set : ToolRow → ToolRow) : Db :=
  { db with tools := Table.update (fun row => row.runId = run && row.callId = call) set db.tools }

def terminalize (db : Db) (run : RecordedRun) (sequence : Nat) (outcome : RunOutcome)
    (payload : StoredEventPayload) : Db × RecordedRun :=
  (updateRun db run.runId fun row =>
      { row with terminalSequence := some sequence, terminal := some payload },
    { run with state := outcomeState outcome })

def recordToolEvent (db : Db) (id : ApplicationSessionId) (run : RecordedRun) (sequence : Nat)
    (envelope : RunEventEnvelope) (event : ToolExecutionEvent) : Result Db := do
  let request ← present envelope.requestId .invalidTransition
  match event with
  | .toolExecutionStarted callId toolName =>
    let existing ← toolResult db id run.runId callId
    require existing.isNone .invalidTransition
    return { db with tools := db.tools ++
      [⟨run.runId, callId, toolName, some request, sequence, none, none, none, none⟩] }
  | .toolExecutionFinished callId toolName isError =>
    let saved ← present (← toolResult db id run.runId callId) .invalidTransition
    require (saved.toolName = toolName && saved.requestId = some request &&
      saved.finishedSequence.isNone && saved.isError.all (· = isError)) .invalidTransition
    let started ← History.event db.events id saved.startedSequence
    match started.payload with
    | .runtimeObserved started => require (started.turnId = envelope.turnId) .invalidTransition
    | _ => integrity
    return updateTool db run.runId callId fun row =>
      { row with finishedSequence := some sequence, isError := some isError }
  | .toolResultReused callId toolName =>
    let saved ← present (← toolResult db id run.runId callId) .invalidTransition
    require (saved.toolName = toolName && saved.requestId.isSome && saved.resultSequence.isSome)
      .invalidTransition
    return db

/-- The payload a record is stored with, and the checks made before it is inserted. -/
def recordPayload (db : Db) (id : ApplicationSessionId) (run : RecordedRun) (sequence : Nat) :
    AppendRunRecord → Result StoredEventPayload
  | .providerBinding binding => do
    require (run.state = .running) .invalidTransition
    validateBinding db id run binding sequence
    return .runProviderBound binding
  | .runtime event => .ok (.runtimeObserved event)
  | .toolResult requestId callId output isError => .ok (.toolResultRecorded requestId callId output isError)
  | .result result => .ok (.runResultRecorded result)

def isResult : AppendRunRecord → Bool
  | .result _ => true
  | _ => false

/-- The source columns of an event row. -/
def sourceColumns : AppendRunRecord → Option Text × Option Nat
  | .runtime event => (some event.eventId, some event.sequence)
  | _ => (none, none)

def recordRuntime (db : Db) (id : ApplicationSessionId) (run : RecordedRun) (sequence : Nat)
    (event : RunEventEnvelope) : Result (Db × RecordedRun) := do
  let (db, run) ← match event.event with
    | .runStarted => pure (db, { run with state := .running })
    | .runFinished outcome _ => do
      requireOutputs db run.runId outcome
      pure (terminalize db run sequence outcome (.runtimeObserved event))
    | .toolEvent tool => do
      let db ← recordToolEvent db id run sequence event tool
      pure (db, run)
    | _ => pure (db, run)
  return (db, { run with lastRuntimeSequence := event.sequence, providerSessionId := event.sessionId })

def recordToolResult (db : Db) (id : ApplicationSessionId) (run : RecordedRun) (sequence : Nat)
    (requestId : Option Text) (callId output : Text) (isError : Bool) : Result Db := do
  require (run.state = .running) .invalidTransition
  let saved ← present (← toolResult db id run.runId callId) .invalidTransition
  require (saved.requestId = requestId && saved.resultSequence.isNone &&
    saved.isError.all (· = isError)) .invalidTransition
  return updateTool db run.runId callId fun row =>
    { row with resultSequence := some sequence, output := some output, isError := some isError }

def recordResult (db : Db) (id : ApplicationSessionId) (run : RecordedRun) (sequence : Nat)
    (result : RunResult) : Result (Db × RecordedRun) := do
  require (result.runId = run.runId.text && run.resultSequence.isNone) .invalidTransition
  if active run.state then
    -- A result replaces missing final delivery, not a second runtime lifecycle.
    require (!result.eventsComplete &&
      (run.providerSessionId.isNone || run.providerSessionId = result.sessionId)) .invalidTransition
    requireOutputs db run.runId result.outcome
    let (db, run) := terminalize db run sequence result.outcome (.runResultRecorded result)
    return (db, { run with providerSessionId := result.sessionId, resultSequence := some sequence })
  let terminal ← present (run.terminal.map (·.sequence)) .integrity
  let terminal ← History.event db.events id terminal
  let (outcome, provider) ← present (History.terminalOutcome terminal) .invalidTransition
  require (outcome = result.outcome && provider = result.sessionId) .invalidTransition
  return (db, { run with resultSequence := some sequence })

/-- The canonical effect of a record on the run and tool rows. -/
def recordEffect (db : Db) (id : ApplicationSessionId) (run : RecordedRun) (sequence : Nat) :
    AppendRunRecord → Result (Db × RecordedRun)
  | .providerBinding binding =>
    .ok (db, { run with providerSessionId := some binding.providerSessionId })
  | .runtime event => recordRuntime db id run sequence event
  | .toolResult requestId callId output isError => do
    return (← recordToolResult db id run sequence requestId callId output isError, run)
  | .result result => recordResult db id run sequence result

/-- Every canonical step of one record: insertion, row updates, terminal identity. -/
def appendCanonical (env : Env) (db : Db) (id : ApplicationSessionId) (run : RecordedRun)
    (sequence timestamp : Nat) (record : AppendRunRecord) : Result (Db × RecordedRun) := do
  let payload ← recordPayload db id run sequence record
  require (run.state ≠ .interrupted && (active run.state || isResult record)) .invalidTransition
  let (sourceEventId, sourceSequence) := sourceColumns record
  let events ← insertEvent db.events
    ⟨sequence, env.eventId sequence, timestamp, some run.runId, sourceEventId, sourceSequence, payload⟩
  let (db, run) ← recordEffect { db with events } id run sequence record
  let db := updateRun db run.runId fun row => { row with
    state := run.state
    lastRuntimeSequence := run.lastRuntimeSequence
    providerSessionId := run.providerSessionId
    resultSequence := run.resultSequence }
  if !active run.state && run.terminal.isNone then
    let terminal ← History.event db.events id sequence
    return (db, { run with terminal := some terminal })
  return (db, run)

def append (env : Env) (db : Db) (id : ApplicationSessionId) (run : RecordedRun)
    (sequence timestamp : Nat) (record : AppendRunRecord) : Tx (Db × RecordedRun) := do
  let (db, run) ← check (appendCanonical env db id run sequence timestamp record)
  let conversation ← project do
    Projector.apply db.conversation (← Event.record sequence run.runId record)
  return ({ db with conversation }, run)

structure Batch where
  db : Db
  run : RecordedRun
  correlation : Correlation
  unbound : Bool
  sequence : Nat

/-- One record of an append batch. -/
def appendNext (env : Env) (id : ApplicationSessionId) (timestamp : Nat) (batch : Batch)
    (record : AppendRunRecord) : Tx Batch := do
  if batch.unbound then check (validateUnbound record)
  let correlation ← check <| match record with
    | .runtime event => batch.correlation.observe batch.db.events batch.run event batch.sequence
    | _ => .ok batch.correlation
  let (db, run) ← append env batch.db id batch.run batch.sequence timestamp record
  match record with
  | .providerBinding binding =>
    return ⟨db, run, { correlation with session := some binding.providerSessionId }, false, batch.sequence + 1⟩
  | _ => return ⟨db, run, correlation, batch.unbound, batch.sequence + 1⟩

def appendRecords (env : Env) (db : Db) (id : ApplicationSessionId) (run : RunId) (first timestamp : Nat)
    (records : List AppendRunRecord) : Tx Db := do
  let recorded ← check do present (← runRecord db id run) .invalidTransition
  let correlation ← check (Correlation.load db id recorded)
  let selected ← check (historySelection db id run)
  let unbound ← match selected with
    | some _ => do pure (← check (providerBinding db id run)).isNone
    | none => pure false
  let batch ← records.foldlM (appendNext env id timestamp) ⟨db, recorded, correlation, unbound, first⟩
  return batch.db

/-- Uniqueness of `runs`: one row a run, one acceptance a sequence, one unfinished run. -/
def insertRun (db : Db) (row : RunRow) : Result Db := do
  require (db.runs.all fun old => !(old.runId = row.runId ||
    old.acceptedSequence = row.acceptedSequence || (active old.state && active row.state))) .integrity
  return { db with runs := db.runs ++ [row] }

def acceptRun (env : Env) (db : Db) (owner : StoredEventId) (run : RunId) (first timestamp : Nat)
    (input : RecordedRunInput) : Tx Db := do
  check (require (!(db.runs.any fun row => row.runId = run)) .invalidTransition)
  check (require (!(db.runs.any fun row => active row.state)) .activeRunExists)
  let events ← check (insertEvent db.events ⟨first, env.eventId first, timestamp, some run, none, none,
    .runAccepted run input owner⟩)
  let db ← check (insertRun { db with events } ⟨run, first, .accepted, 0, owner, none, none, none, none⟩)
  let conversation ← project (Projector.apply db.conversation ⟨first, some run, .accepted input⟩)
  return { db with conversation }

def selectHistory (env : Env) (db : Db) (run : RunId) (last timestamp : Nat)
    (selection : StoredHistorySelection) : Tx Db := do
  let events ← check (insertEvent db.events ⟨last, env.eventId last, timestamp, some run, none, none,
    .runHistorySelected run selection⟩)
  let conversation ← project (Projector.apply db.conversation ⟨last, some run, .historySelected⟩)
  return { db with events, conversation }

/-- The checks of a novel mutation that precede sequence allocation. -/
def preflight (db : Db) (id : ApplicationSessionId) (manifest : SessionManifest) (run : RunId) :
    Mutation → Result Unit
  | .accept _ => .ok ()
  | .acceptHistory input selection => do
    require (manifest.headSequence = selection.throughSequence) .staleHistory
    require (selection.matchesInput input) .invalidInput
  | .append records => do
    records.forM AppendRunRecord.validateAdmission
    let recorded ← present (← runRecord db id run) .invalidTransition
    records.forM fun record => record.validateProviderAdmission recorded.input.providerId

def recordCount : Mutation → Nat
  | .accept _ => 1
  | .acceptHistory .. => 2
  | .append records => records.length

def sequenceRange (head count : Nat) : Result (Nat × Nat) := do
  require (count ≠ 0) .invalidInput
  let first ← Session.nextSequence head
  require (count ≤ maxInteger && first + (count - 1) ≤ maxInteger) .invalidInput
  return (first, first + (count - 1))

/-- The canonical rows and the display projection of a novel mutation. -/
def perform (env : Env) (db : Db) (id : ApplicationSessionId) (owner : StoredEventId) (run : RunId)
    (first last timestamp : Nat) : Mutation → Tx Db
  | .accept input => acceptRun env db owner run first timestamp input
  | .acceptHistory input selection => do
    let db ← acceptRun env db owner run first timestamp input
    selectHistory env db run last timestamp selection
  | .append records => appendRecords env db id run first timestamp records

/-- The uniqueness of operation ids in `commands`. -/
def insertCommand (db : Db) (row : CommandRow) : Result Db := do
  require (!(db.commands.any fun old => old.operationId = row.operationId)) .integrity
  return { db with commands := db.commands ++ [row] }

def finish (db : Db) (id : ApplicationSessionId) (operation : OperationId) (run : RunId)
    (mutation : Mutation) (first last timestamp : Nat) : Result (Db × CommitReceipt) := do
  let receipt ← CommitReceipt.runBatch operation id run first last
  let db := { db with manifest := { db.manifest with headSequence := last, updatedAtMs := timestamp } }
  let db ← insertCommand db ⟨operation, mutation.method, commandHash id run mutation, first, last, receipt⟩
  return (db, receipt)

/-- A committed operation returns its original receipt, even after the run is terminal. -/
def retry (db : Db) (id : ApplicationSessionId) (run : RunId) (mutation : Mutation) (command : Command) :
    Result CommitReceipt := do
  require (command.method = mutation.method && command.payloadHash = commandHash id run mutation)
    .commandConflict
  require (command.receipt.runId = some run) .integrity
  match mutation with
  | .acceptHistory _ selection =>
    require ((← historySelection db id run) = some selection) .integrity
  | _ => pure ()
  return command.receipt

def mutateTx (env : Env) (db : Db) (provenance : CreationProvenance) (owner : StoredEventId)
    (operation : OperationId) (run : RunId) (mutation : Mutation) : Tx (Db × CommitReceipt × Bool) := do
  let id := provenance.sessionId
  match ← check (Session.command db id operation) with
  | some command =>
    let receipt ← check (retry db id run mutation command)
    return (db, receipt, true)
  | none =>
    let manifest ← check (Session.validate db id provenance)
    check (preflight db id manifest run mutation)
    let (first, last) ← check (sequenceRange manifest.headSequence (recordCount mutation))
    let timestamp ← check (present env.now .invalidInput)
    let db ← perform env db id owner run first last timestamp mutation
    let (db, receipt) ← check (finish db id operation run mutation first last timestamp)
    return (db, receipt, false)

def renameTx (env : Env) (db : Db) (provenance : CreationProvenance) (operation : OperationId)
    (title : Text) : Tx (Db × CommitReceipt × Bool) := do
  let id := provenance.sessionId
  let payloadHash := digest (.rename id title)
  match ← check (Session.command db id operation) with
  | some command =>
    check (require (command.method = .rename && command.payloadHash = payloadHash) .commandConflict)
    check (require (command.receipt.runId.isNone &&
      command.receipt.firstSequence = command.receipt.lastSequence) .integrity)
    return (db, command.receipt, true)
  | none =>
    let manifest ← check (Session.validate db id provenance)
    let sequence ← check (Session.nextSequence manifest.headSequence)
    let receipt ← check (CommitReceipt.single operation id sequence)
    let timestamp ← check (present env.now .invalidInput)
    let events ← check (insertEvent db.events
      ⟨sequence, env.eventId sequence, timestamp, none, none, none, .sessionRenamed title⟩)
    let manifest := { db.manifest with title, updatedAtMs := timestamp, headSequence := sequence }
    let conversation ← project (Projector.apply db.conversation ⟨sequence, none, .renamed⟩)
    let db ← check (insertCommand { db with events, manifest, conversation }
      ⟨operation, .rename, payloadHash, sequence, sequence, receipt⟩)
    return (db, receipt, false)

/-- Opening a session interrupts the unfinished run of another process. -/
def reconcileTx (env : Env) (db : Db) (provenance : CreationProvenance) (owner : StoredEventId) : Tx Db := do
  let id := provenance.sessionId
  let manifest ← check (Session.validate db id provenance)
  match db.runs.find? fun row => active row.state && row.ownerInstanceId ≠ owner with
  | none => return db
  | some row =>
    discard (check do present (← runRecord db id row.runId) .integrity)
    let sequence ← check (Session.nextSequence manifest.headSequence)
    let timestamp ← check (present env.now .invalidInput)
    let payload := StoredEventPayload.runInterrupted row.runId
    let events ← check (insertEvent db.events
      ⟨sequence, env.eventId sequence, timestamp, some row.runId, none, none, payload⟩)
    let db := updateRun { db with events } row.runId fun row => { row with
      state := .interrupted
      terminalSequence := some sequence
      terminal := some payload }
    let manifest := { db.manifest with headSequence := sequence, updatedAtMs := timestamp }
    let conversation ← project (Projector.apply db.conversation ⟨sequence, some row.runId, .interrupted⟩)
    return { db with manifest, conversation }

end Writer
end Wi
