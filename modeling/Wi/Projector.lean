import Wi.Content

/-! The display projector: what one canonical event does to the conversation tables. -/
namespace Wi

inductive Input where
  | created
  | renamed
  | accepted (input : RecordedRunInput)
  | historySelected
  | providerBound
  | runtime (event : RunEventEnvelope)
  | toolResult (requestId : Option Text) (callId output : Text) (isError : Bool)
  | result (result : RunResult)
  | interrupted

def Input.shape : Input → Input
  | .accepted input => .accepted input.shape
  | .runtime event => .runtime event.shape
  | .result final => .result final.shape
  | other => other

structure Event where
  sequence : Nat
  run : Option RunId
  input : Input

/-- The writer's own view of a record it has just inserted. -/
def Event.record (sequence : Nat) (run : RunId) (record : AppendRunRecord) : Result Event := do
  let input ← match record with
    | .providerBinding binding => do
      require (binding.runId = run) .integrity
      pure Input.providerBound
    | .runtime event => pure (.runtime event)
    | .toolResult requestId callId output isError => pure (.toolResult requestId callId output isError)
    | .result result => pure (.result result)
  return ⟨sequence, some run, input⟩

namespace Projector
open Fields Content Rows
variable [JsonHash]

def currentTurn (header : BlockHeader) (event : RunEventEnvelope) : Result Text := do
  let turn ← present header.currentTurn .integrity
  require (event.turnId = some turn) .integrity
  return turn

def unsettled (state : State) : Bool := state = .accepted || state = .inProgress || state = .unknown

/-- What `settle` does to the state of a provisional assistant or tool entry. -/
def settledState (state : State) (metadata : EntryMetadata) : State :=
  match metadata.source with
  | .tool _ => .unknown
  | _ => if unsettled metadata.state then state else metadata.state

def settleable (run : RunId) (after : Nat × Nat) (row : EntryRow) : Bool :=
  row.runId = run &&
    (after.1 < row.firstSequence || (after.1 = row.firstSequence && after.2 < row.positionSlot)) &&
    (row.kind = .assistant || row.kind = .tool) && row.metadata.provisional

/-- One provisional row at a time, in position order. The fuel bounds the number of rows. -/
def settleFrom (run : RunId) (sequence : Nat) (state : State) :
    Nat → Conversation → Nat × Nat → Result Conversation
  | 0, _, _ => integrity
  | fuel + 1, sql, after => do
    let rows := sql.entries.filter (settleable run after)
    match (Table.orderBy (fun row : EntryRow => toLex (row.firstSequence, row.positionSlot)) rows).head? with
    | none => return sql
    | some row =>
      let entry ← entryRow row run sequence
      let metadata := { entry.metadata with state := settledState state entry.metadata }
      let sql ← save sql run sequence { entry with metadata }
      let first ← integer entry.id.sequence
      let slot ← integer entry.id.slot
      settleFrom run sequence state fuel sql (first, slot)

def settle (sql : Conversation) (run : RunId) (sequence : Nat) (state : State) : Result Conversation :=
  settleFrom run sequence state (sql.entries.length + 1) sql (0, 0)

def assistantMetadata (turn responseId : Text) : EntryMetadata :=
  { EntryMetadata.new (.assistant turn) .inProgress true with responseId := some responseId }

def assistant (sql : Conversation) (run : RunId) (sequence : Nat) (turn responseId : Text)
    (expected : Option EntryId) : Result (Conversation × Entry) := do
  let source := Source.assistant turn
  match ← lookup sql run sequence source with
  | some entry =>
    require (expected = some entry.id) .integrity
    return (sql, entry)
  | none =>
    require expected.isNone .integrity
    create sql run sequence (assistantMetadata turn responseId)

/-- The metadata of the entry that shows a failure or closing notice. -/
def observed (failure : Option (Text × UpstreamOutcome)) (closed : Bool) (metadata : EntryMetadata) :
    EntryMetadata :=
  let metadata := match failure with
    | some (code, upstream) =>
      { metadata with
        failure := some code
        upstreamOutcome := some upstream
        state := if metadata.provisional || isNotice metadata.source then .failed else metadata.state }
    | none => metadata
  if closed then
    { metadata with
      closed := true
      state := if metadata.provisional && metadata.failure.isNone then .unknown else metadata.state }
  else metadata

/-- An entry of its own for a notice without a response. -/
def noticeMetadata (sequence : Nat) : EntryMetadata := EntryMetadata.new (.notice sequence 0) .unknown false

def extension : Part := ⟨⟨none, .unsupported, none, none⟩, .unsupported, unsupportedContent⟩

def notice (sequence : Nat) (closed : Bool) : Part :=
  ⟨⟨none, .notice, none, some (UInt64.ofNat sequence)⟩, .notice,
    if closed then "Response closed".toList else "Request failed".toList⟩

/-- The failure or closing notice of a request, shown in the turn's response if there is one. -/
def observation (sql : Conversation) (run : RunId) (sequence : Nat) (header : BlockHeader)
    (envelope : RunEventEnvelope) (failure : Option (Text × UpstreamOutcome)) (closed : Bool) :
    Result Conversation := do
  -- A missing or different current turn never selects an earlier response.
  let current ← match currentTurn header envelope with
    | .ok turn => do
      let entry ← lookup sql run sequence (.assistant turn)
      require (entry.map (·.id) = header.currentAssistant) .integrity
      pure entry
    | .error _ => pure none
  let (sql, entry) ← match current with
    | some entry => pure (sql, entry)
    | none => create sql run sequence (noticeMetadata sequence)
  let (sql, entry) ← delta sql run { entry with metadata := observed failure closed entry.metadata } sequence
    (notice sequence closed)
  save sql run sequence entry

def itemParts (outputIndex : UInt64) (item : OutputItem) : Result (List Part) :=
  (projectItem item).mapM fun part => do
    return ⟨← partOrder outputIndex part.source, part.kind, part.text⟩

def responseParts (response : ModelResponse) : Result (List Part) :=
  (projectResponse response).mapM fun field => do
    let output ← index64 field.outputIndex
    return ⟨← partOrder output field.part.source, field.part.kind, field.part.text⟩

/-- The response an event belongs to; failure, closing and extension events have none. -/
def responseId : ProviderEvent → Option Text
  | .responseStarted id | .responseStatus id _ | .outputItemStarted id _ _
  | .outputItemUpdated id .. | .outputItemFinished id _ _ => some id
  | .responseFinished response => some response.id
  | .requestFailed .. | .sessionClosed _ | .providerExtension .. => none

def isContent : ProviderEvent → Bool
  | .outputItemUpdated .. | .outputItemStarted .. | .outputItemFinished .. => true
  | _ => false

/-- The metadata a response event starts from. The turn fixes the display identity, so a
different response id only replaces the label. -/
def opened (response : Text) (event : ProviderEvent) (metadata : EntryMetadata) : EntryMetadata :=
  let metadata := { metadata with responseId := some response }
  if isContent event then { metadata with provisional := true, state := .inProgress } else metadata

def finished (response : ModelResponse) (metadata : EntryMetadata) : EntryMetadata :=
  { metadata with
    state := .response response.outcome
    provisional := false
    provenance := some response.outputProvenance }

/-- The field a delta of an output item adds to. -/
def updated (outputIndex : UInt64) (contentIndex summaryIndex : Option UInt64) (kind : DeltaKind) (text : Text) :
    Part :=
  let (order, fieldKind) := deltaField outputIndex summaryIndex contentIndex kind
  ⟨order, fieldKind, if fieldKind = .unsupported then unsupportedContent else text⟩

/-- The content and final metadata of a response event, once its entry is found. -/
def responseContent (sql : Conversation) (run : RunId) (sequence : Nat) (entry : Entry) :
    ProviderEvent → Result (Conversation × Entry)
  | .responseStarted _ => .ok (sql, entry)
  | .responseStatus _ status =>
    .ok (sql, { entry with metadata := { entry.metadata with state := .status status } })
  | .outputItemUpdated _ _ outputIndex contentIndex summaryIndex kind text =>
    delta sql run entry sequence (updated outputIndex contentIndex summaryIndex kind text)
  | .outputItemStarted _ outputIndex item | .outputItemFinished _ outputIndex item => do
    let parts ← itemParts outputIndex item
    snapshot sql run entry sequence (some outputIndex) parts
  | .responseFinished response => do
    let parts ← responseParts response
    let (sql, entry) ← snapshot sql run entry sequence none parts
    return (sql, { entry with metadata := finished response entry.metadata })
  | .requestFailed .. | .sessionClosed _ | .providerExtension .. => integrity

def providerEvent (sql : Conversation) (run : RunId) (sequence : Nat) (header : BlockHeader)
    (envelope : RunEventEnvelope) (event : ProviderEvent) : Result (Conversation × BlockHeader) := do
  match event with
  | .requestFailed code _ upstream =>
    return (← observation sql run sequence header envelope (some (safeCode code, upstream)) false, header)
  | .sessionClosed _ =>
    return (← observation sql run sequence header envelope none true, header)
  | .providerExtension .. =>
    let (sql, entry) ← create sql run sequence (noticeMetadata sequence)
    let (sql, _) ← delta sql run entry sequence extension
    return (sql, header)
  | event =>
    let response ← present (responseId event) .integrity
    let turn ← currentTurn header envelope
    let (sql, entry) ← assistant sql run sequence turn response header.currentAssistant
    let header := { header with currentAssistant := some entry.id }
    let metadata := opened response event entry.metadata
    let (sql, entry) ← responseContent sql run sequence { entry with metadata } event
    return (← save sql run sequence entry, header)

def toolOrder (rank : FieldRank) : OrderKey := ⟨none, rank, none, none⟩

def startedMetadata (envelope : RunEventEnvelope) (callId : Text) : EntryMetadata :=
  { EntryMetadata.new (.tool callId) .inProgress true with
    turnId := envelope.turnId
    requestId := envelope.requestId
    resultRecorded := some false
    finishRecorded := some false }

def toolNamePart (toolName : Text) : Part := ⟨toolOrder .toolName, .toolName, toolName⟩

/-- A finish without a recorded result leaves the outcome of the call unknown. -/
def finishedMetadata (isError : Bool) (metadata : EntryMetadata) : EntryMetadata :=
  let metadata := { metadata with
    finishRecorded := some true
    finishIsError := some isError }
  if metadata.resultRecorded = some false then { metadata with isError := some isError, state := .unknown }
  else metadata

/-- A reuse entry repeats the facts of the result it refers to. -/
def reusedMetadata (sequence : Nat) (envelope : RunEventEnvelope) (entry : Entry) : EntryMetadata :=
  { EntryMetadata.new (.reuse sequence 0) entry.metadata.state false with
    reference := some entry.id
    turnId := envelope.turnId
    requestId := envelope.requestId
    resultRecorded := entry.metadata.resultRecorded
    finishRecorded := entry.metadata.finishRecorded
    isError := entry.metadata.isError
    finishIsError := entry.metadata.finishIsError }

def resultMetadata (isError : Bool) (metadata : EntryMetadata) : EntryMetadata :=
  { metadata with
    resultRecorded := some true
    isError := some isError
    provisional := false
    state := if isError then .failed else .completed }

def toolEvent (sql : Conversation) (run : RunId) (sequence : Nat) (envelope : RunEventEnvelope)
    (event : ToolExecutionEvent) : Result Conversation := do
  let source := Source.tool event.callId
  match event with
  | .toolExecutionStarted _ toolName =>
    let (sql, entry) ← create sql run sequence (startedMetadata envelope event.callId)
    let (sql, _) ← delta sql run entry sequence (toolNamePart toolName)
    return sql
  | event =>
    let entry ← present (← lookup sql run sequence source) .integrity
    let key ← FieldKey.new run entry.id (.indexed (toolOrder .toolName)) .toolName
    require (← sameText sql key entry event.toolName) .integrity
    match event with
    | .toolExecutionFinished _ _ isError =>
      require (entry.metadata.finishRecorded = some false && entry.metadata.turnId = envelope.turnId &&
        entry.metadata.requestId = envelope.requestId) .integrity
      save sql run sequence { entry with metadata := finishedMetadata isError entry.metadata }
    | .toolResultReused .. =>
      require (entry.metadata.resultRecorded = some true) .integrity
      let (sql, _) ← create sql run sequence (reusedMetadata sequence envelope entry)
      return sql
    | .toolExecutionStarted .. => integrity

def toolResult (sql : Conversation) (run : RunId) (sequence : Nat) (request : Option Text)
    (call output : Text) (isError : Bool) : Result Conversation := do
  let header ← block sql run sequence
  require (header.state = .running) .integrity
  let entry ← present (← lookup sql run sequence (.tool call)) .integrity
  require (entry.metadata.resultRecorded = some false && entry.metadata.requestId = request) .integrity
  let key ← FieldKey.new run entry.id (.indexed (toolOrder .toolOutput)) .toolResult
  let (sql, _) ← insert sql key sequence output
  save sql run sequence { entry with metadata := resultMetadata isError entry.metadata }

/-- An unsettled response of a stopped turn takes the state of the run's end. -/
def turnMetadata (outcome : TurnOutcome) (upstream : Option UpstreamOutcome) (metadata : EntryMetadata) :
    EntryMetadata :=
  let state := match outcome with
    | .stopped reason => if unsettled metadata.state then .unfinished reason else metadata.state
    | _ => metadata.state
  { metadata with state, upstreamOutcome := upstream }

def turnFinished (sql : Conversation) (run : RunId) (sequence : Nat) (header : BlockHeader)
    (event : RunEventEnvelope) (outcome : TurnOutcome) (upstream : Option UpstreamOutcome) :
    Result Conversation := do
  let turn ← currentTurn header event
  let entry ← lookup sql run sequence (.assistant turn)
  require (entry.map (·.id) = header.currentAssistant) .integrity
  match entry with
  | none => return sql
  | some entry =>
    if !entry.metadata.provisional then return sql
    save sql run sequence { entry with metadata := turnMetadata outcome upstream entry.metadata }

def observe (sql : Conversation) (run : RunId) (sequence : Nat) (event : RunEventEnvelope) :
    Result Conversation := do
  require (event.runId = run.text && event.schemaVersion = 2) .integrity
  let header ← block sql run sequence
  require (active header.state) .integrity
  let (sql, header) ← match event.event with
    | .runStarted => do
      require (header.state = .accepted) .integrity
      pure (sql, { header with state := .running })
    | .turnStarted _ => do
      require header.currentTurn.isNone .integrity
      let turn ← present event.turnId .integrity
      pure (sql, { header with currentTurn := some turn, currentAssistant := none })
    | .turnFinished _ _ outcome upstream => do
      let sql ← turnFinished sql run sequence header event outcome upstream
      pure (sql, { header with currentTurn := none, currentAssistant := none })
    | .runFinished outcome summary => do
      let header := { header with
        state := outcomeState outcome
        outcome := some (displayOutcome outcome)
        summary := some summary
        currentTurn := none
        currentAssistant := none }
      let sql ← settle sql run sequence (.unfinished outcome)
      pure (sql, header)
    | .providerEvent provider => do
      require (provider.schemaVersion = 1) .integrity
      providerEvent sql run sequence header event provider.event
    | .toolEvent tool => do
      discard (currentTurn header event)
      let sql ← toolEvent sql run sequence event tool
      pure (sql, header)
  saveBlock sql run sequence header

def recordResult (sql : Conversation) (run : RunId) (sequence : Nat) (result : RunResult) :
    Result Conversation := do
  require (result.runId = run.text) .integrity
  let header ← block sql run sequence
  require (!header.resultRecorded && header.state ≠ .interrupted) .integrity
  let outcome := displayOutcome result.outcome
  require (header.outcome.all (· = outcome) && (header.outcome.isSome || !result.eventsComplete)) .integrity
  let header := { header with
    state := outcomeState result.outcome
    outcome := some outcome
    summary := some result.summary
    resultRecorded := true
    eventsComplete := some result.eventsComplete
    sinkError := result.sinkError
    currentTurn := none
    currentAssistant := none }
  let sql ← settle sql run sequence (.unfinished result.outcome)
  saveBlock sql run sequence header

def interrupt (sql : Conversation) (run : RunId) (sequence : Nat) : Result Conversation := do
  let header ← block sql run sequence
  require (active header.state) .integrity
  let header := { header with state := .interrupted, currentTurn := none, currentAssistant := none }
  let sql ← settle sql run sequence .interrupted
  saveBlock sql run sequence header

/-- Primary key and `UNIQUE(accepted_sequence)` of `conversation_blocks`. -/
def insertBlock (sql : Conversation) (row : BlockRow) : Result Conversation := do
  require (sql.blocks.all fun old =>
    !(old.runId = row.runId || old.acceptedSequence = row.acceptedSequence)) .integrity
  return { sql with blocks := sql.blocks ++ [row] }

def accept (sql : Conversation) (run : RunId) (sequence : Nat) (input : RecordedRunInput) :
    Result Conversation := do
  let id ← EntryId.new sequence 0
  let header : BlockHeader := ⟨id, .accepted, false, none, none, none, none, none, none⟩
  let changed ← integer sequence
  let sql ← insertBlock sql ⟨run, changed, changed, header⟩
  let (sql, entry) ← create sql run sequence (EntryMetadata.new .human .accepted false)
  let key ← FieldKey.new run entry.id .human .text
  let (sql, _) ← insert sql key sequence input.userText
  return sql

def applyRun (sql : Conversation) (run : RunId) (sequence : Nat) : Input → Result Conversation
  | .accepted input => accept sql run sequence input
  | .historySelected | .providerBound => do
    discard (block sql run sequence)
    return sql
  | .runtime event => observe sql run sequence event
  | .toolResult request call output isError => toolResult sql run sequence request call output isError
  | .result result => recordResult sql run sequence result
  | .interrupted => interrupt sql run sequence
  | .created | .renamed => integrity

def apply (sql : Conversation) (event : Event) : Result Conversation := do
  let sequence ← integer event.sequence
  match event.input with
  | .created =>
    require (sequence = 1 && event.run.isNone && sql.projection.isNone) .integrity
    return { sql with projection := some ⟨1, 1, 1⟩ }
  | input =>
    let head ← present sql.projection .integrity
    require (head.formatVersion = 1 && head.appliedSequence + 1 = sequence &&
      head.metadataSequence ≠ 0 && head.metadataSequence ≤ head.appliedSequence) .integrity
    match input with
    | .renamed =>
      require event.run.isNone .integrity
      return { sql with projection := some { head with metadataSequence := sequence, appliedSequence := sequence } }
    | input =>
      let run ← present event.run .integrity
      let sql ← applyRun sql run sequence input
      return { sql with projection := sql.projection.map fun head => { head with appliedSequence := sequence } }

theorem providerEvent_shape (sql : Conversation) (run : RunId) (sequence : Nat) (header : BlockHeader)
    (envelope : RunEventEnvelope) (event : ProviderEvent) :
    providerEvent sql run sequence header envelope.shape event.shape = providerEvent sql run sequence header envelope event := by
  cases event with
  | outputItemStarted response index item | outputItemFinished response index item =>
    simp only [providerEvent, ProviderEvent.shape, responseContent, itemParts, projectItem_shape]
    rfl
  | responseFinished response =>
    simp only [providerEvent, ProviderEvent.shape, responseContent, responseParts, projectResponse_shape]
    rfl
  | _ => rfl

theorem observe_shape (sql : Conversation) (run : RunId) (sequence : Nat) (envelope : RunEventEnvelope) :
    observe sql run sequence envelope.shape = observe sql run sequence envelope := by
  obtain ⟨version, number, eventId, runId, turnId, sessionId, requestId, event⟩ := envelope
  cases event with
  | providerEvent provider =>
    have same (header : BlockHeader) := providerEvent_shape sql run sequence header
      ⟨version, number, eventId, runId, turnId, sessionId, requestId, .providerEvent provider⟩ provider.event
    simp only [RunEventEnvelope.shape, RunEvent.shape] at same
    simp only [observe, RunEventEnvelope.shape, RunEvent.shape, same]
    rfl
  | _ => rfl

/-- The display shows no number of embedded JSON. -/
theorem apply_shape (sql : Conversation) (event : Event) :
    apply sql { event with input := event.input.shape } = apply sql event := by
  obtain ⟨_, _, input⟩ := event
  cases input with
  | runtime envelope => simp only [apply, Input.shape, applyRun, observe_shape]
  | _ => rfl

end Projector
end Wi
