import Wi.Projector

/-! The canonical tables of a session and the checks every stored event passes when it
is read back. The payload column stands for the canonical text of the typed payload it holds,
which also fixes the event type; a read goes through the parser. -/
namespace Wi
open Utf8
variable [JsonHash]

structure CreationProvenance where
  operationId : OperationId
  method : Text
  request : CreationRequest
  payloadHash : Digest
  sessionId : ApplicationSessionId
  creationEventId : StoredEventId
  createdAtMs : Nat
  receipt : CommitReceipt
  deriving DecidableEq

def createSession : Text := "create_session".toList

/-- The recorded creation request, if the provenance is consistent with it. -/
def CreationProvenance.checkedRequest (provenance : CreationProvenance) : Result CreationRequest := do
  let expected ← CommitReceipt.single provenance.operationId provenance.sessionId 1
  require (provenance.method = createSession && provenance.request.method = provenance.method &&
    provenance.payloadHash = digest (.creation provenance.request) && provenance.receipt = expected)
    .integrity
  require (validateWorkspace provenance.request.workspace).isOk .integrity
  return provenance.request

inductive StoredEventPayload where
  | sessionCreated (title : Text) (workspace : Option Text) (provenance : CreationProvenance)
  | sessionRenamed (title : Text)
  | runAccepted (runId : RunId) (input : RecordedRunInput) (owner : StoredEventId)
  | runHistorySelected (runId : RunId) (selection : StoredHistorySelection)
  | runProviderBound (binding : RecordedProviderBinding)
  | runtimeObserved (event : RunEventEnvelope)
  | toolResultRecorded (requestId : Option Text) (callId output : Text) (isError : Bool)
  | runResultRecorded (result : RunResult)
  | runInterrupted (runId : RunId)
  deriving DecidableEq

namespace StoredEventPayload

/-- The payload with the numbers of its embedded JSON left open. -/
def shape : StoredEventPayload → StoredEventPayload
  | .runAccepted run input owner => .runAccepted run input.shape owner
  | .runtimeObserved event => .runtimeObserved event.shape
  | .runResultRecorded result => .runResultRecorded result.shape
  | other => other

/-- One pass of the parser over the payload's text. -/
def once : StoredEventPayload → Option StoredEventPayload
  | .runAccepted run input owner => (JsonRead.input input).map (.runAccepted run · owner)
  | .runtimeObserved event => (JsonRead.runtime event).map .runtimeObserved
  | .runResultRecorded result => (JsonRead.result result).map .runResultRecorded
  | other => some other

/-- The column is parsed into a JSON value, whose canonical text is parsed into the payload. -/
def read (payload : StoredEventPayload) : Option StoredEventPayload := payload.once.bind once

theorem shape_once {payload parsed : StoredEventPayload} (h : payload.once = some parsed) :
    parsed.shape = payload.shape := by
  cases payload with
  | runAccepted run input owner =>
    obtain ⟨other, same, rfl⟩ := Option.map_eq_some_iff.1 h
    simp only [shape, JsonRead.input_shape _ _ same]
  | runtimeObserved event =>
    obtain ⟨other, same, rfl⟩ := Option.map_eq_some_iff.1 h
    simp only [shape, JsonRead.runtime_shape _ _ same]
  | runResultRecorded result =>
    obtain ⟨other, same, rfl⟩ := Option.map_eq_some_iff.1 h
    simp only [shape, JsonRead.result_shape _ _ same]
  | _ =>
    cases h
    rfl

theorem shape_read {payload parsed : StoredEventPayload} (h : payload.read = some parsed) :
    parsed.shape = payload.shape := by
  obtain ⟨value, first, second⟩ := Option.bind_eq_some_iff.1 h
  rw [shape_once second, shape_once first]

theorem read_of_once {payload : StoredEventPayload} (h : payload.once = some payload) :
    payload.read = some payload := by
  rw [read, h, Option.bind_some, h]

end StoredEventPayload

structure StoredEvent where
  sequence : Nat
  eventId : StoredEventId
  createdAtMs : Nat
  runId : Option RunId
  sourceEventId : Option Text
  sourceSequence : Option Nat
  payload : StoredEventPayload
  deriving DecidableEq

namespace StoredEvent

def shape (event : StoredEvent) : StoredEvent := { event with payload := event.payload.shape }

def read (event : StoredEvent) : Option StoredEvent :=
  event.payload.read.map fun payload => { event with payload }

theorem shape_read {event parsed : StoredEvent} (h : event.read = some parsed) : parsed.shape = event.shape := by
  obtain ⟨payload, same, rfl⟩ := Option.map_eq_some_iff.1 h
  simp only [shape, StoredEventPayload.shape_read same]

theorem read_of_once {event : StoredEvent} (h : event.payload.once = some event.payload) : event.read = some event := by
  rw [read, StoredEventPayload.read_of_once h]
  rfl

end StoredEvent

structure ManifestRow where
  sessionId : ApplicationSessionId
  schemaVersion : Nat
  title : Text
  workspace : Option Text
  createdAtMs : Nat
  updatedAtMs : Nat
  headSequence : Nat
  provenance : CreationProvenance

structure CommandRow where
  operationId : OperationId
  method : Method
  payloadHash : Digest
  firstSequence : Nat
  lastSequence : Nat
  receipt : CommitReceipt

structure RunRow where
  runId : RunId
  acceptedSequence : Nat
  state : RecordedRunState
  lastRuntimeSequence : Nat
  ownerInstanceId : StoredEventId
  providerSessionId : Option Text
  terminalSequence : Option Nat
  terminal : Option StoredEventPayload
  resultSequence : Option Nat

structure ToolRow where
  runId : RunId
  callId : Text
  toolName : Text
  requestId : Option Text
  startedSequence : Nat
  finishedSequence : Option Nat
  resultSequence : Option Nat
  isError : Option Bool
  output : Option Text

structure Db where
  manifest : ManifestRow
  events : List StoredEvent
  commands : List CommandRow
  runs : List RunRow
  tools : List ToolRow
  conversation : Conversation

section Weight

def OutputItem.weight (item : OutputItem) : Nat :=
  item.native.weight + (match item.functionCall with
    | some call => bytes call.name + bytes call.arguments
    | none => 0) + 1

def ModelResponse.weight (response : ModelResponse) : Nat :=
  (response.output.map OutputItem.weight).sum + bytes response.text + 1

def ProviderEvent.weight : ProviderEvent → Nat
  | .outputItemStarted _ _ item | .outputItemFinished _ _ item => item.weight
  | .outputItemUpdated _ _ _ _ _ _ delta => bytes delta
  | .responseFinished response => response.weight
  | _ => 0

def RunEvent.weight : RunEvent → Nat
  | .providerEvent provider => provider.event.weight
  | .toolEvent tool => bytes tool.toolName
  | _ => 0

/-- A lower bound for the bytes a stored payload takes. -/
def StoredEventPayload.weight : StoredEventPayload → Nat
  | .runAccepted _ input _ => bytes input.userText + 1
  | .runtimeObserved event => event.event.weight + 1
  | .toolResultRecorded _ _ output _ => bytes output + 1
  | _ => 1

end Weight

def eventsWeight (events : List StoredEvent) : Nat := (events.map fun event => event.payload.weight).sum

/-- SQLite's largest database: 4294967294 pages of 65536 bytes. -/
def databaseLimit : Nat := 4294967294 * 65536

/-- `INSERT INTO events`: primary key, unique columns and the database's size limit. -/
def insertEvent (events : List StoredEvent) (event : StoredEvent) : Result (List StoredEvent) := do
  require (events.all fun old => !(old.sequence = event.sequence || old.eventId = event.eventId ||
    (event.sourceEventId.isSome && old.sourceEventId = event.sourceEventId) ||
    (event.sourceSequence.isSome && old.runId = event.runId &&
      old.sourceSequence = event.sourceSequence))) .integrity
  require (eventsWeight (events ++ [event]) ≤ databaseLimit) .io
  return events ++ [event]

namespace History

def isCreated : StoredEventPayload → Bool
  | .sessionCreated .. => true
  | _ => false

/-- The rules of `StoredEvent::try_from` for one payload. -/
def payloadValid (id : ApplicationSessionId) (event : StoredEvent) : Result Unit :=
  match event.payload with
  | .sessionCreated title workspace provenance => do
    let original ← provenance.checkedRequest
    require (event.runId.isNone && provenance.sessionId = id && provenance.creationEventId = event.eventId &&
      provenance.createdAtMs = event.createdAtMs && original.title = title &&
      original.workspace = workspace) .integrity
  | .sessionRenamed _ => require event.runId.isNone .integrity
  | .runAccepted run _ _ => require (event.runId = some run) .integrity
  | .runHistorySelected run selection =>
    require (event.runId = some run && selection.throughSequence + 2 = event.sequence) .integrity
  | .runProviderBound binding => require (event.runId = some binding.runId) .integrity
  | .runtimeObserved runtime => do
    require (validateRuntime runtime).isOk .integrity
    require (event.runId.map (·.text) = some runtime.runId) .integrity
  | .toolResultRecorded .. => require event.runId.isSome .integrity
  | .runResultRecorded result => require (event.runId.map (·.text) = some result.runId) .integrity
  | .runInterrupted run => require (event.runId = some run) .integrity

def sourceValid (event : StoredEvent) : Bool :=
  match event.payload with
  | .runtimeObserved runtime =>
    event.sourceEventId = some runtime.eventId && event.sourceSequence = some runtime.sequence
  | _ => event.sourceEventId.isNone && event.sourceSequence.isNone

/-- The checks on a row whose payload has been read. -/
def valid (id : ApplicationSessionId) (row : StoredEvent) : Result Unit := do
  require (row.sequence ≠ 0 && row.sequence ≤ maxInteger &&
    (row.sequence == 1) == isCreated row.payload) .integrity
  payloadValid id row
  require (sourceValid row) .integrity

def decode (id : ApplicationSessionId) (row : StoredEvent) : Result StoredEvent := do
  let row ← present row.read .integrity
  valid id row
  return row

def event (events : List StoredEvent) (id : ApplicationSessionId) (sequence : Nat) : Result StoredEvent := do
  discard (integer sequence)
  let row ← present (events.find? fun row => row.sequence = sequence) .integrity
  decode id row

def terminalOutcome (event : StoredEvent) : Option (RunOutcome × Option Text) :=
  match event.payload with
  | .runtimeObserved runtime =>
    match runtime.event with
    | .runFinished outcome _ => some (outcome, runtime.sessionId)
    | _ => none
  | .runResultRecorded result => some (result.outcome, result.sessionId)
  | _ => none

end History

/-- The projector's view of a stored event, as the backfill builds it. -/
def Event.ofStored (event : StoredEvent) : Result Event := do
  let input ← match event.payload with
    | .sessionCreated .. => pure Input.created
    | .sessionRenamed _ => pure .renamed
    | .runAccepted run input _ => do
      require (event.runId = some run) .integrity
      pure (.accepted input)
    | .runHistorySelected run _ => do
      require (event.runId = some run) .integrity
      pure .historySelected
    | .runProviderBound binding => do
      require (event.runId = some binding.runId) .integrity
      pure .providerBound
    | .runtimeObserved runtime => pure (.runtime runtime)
    | .toolResultRecorded request call output isError => pure (.toolResult request call output isError)
    | .runResultRecorded result => pure (.result result)
    | .runInterrupted run => do
      require (event.runId = some run) .integrity
      pure .interrupted
  return ⟨event.sequence, event.runId, input⟩

end Wi
