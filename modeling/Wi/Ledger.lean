import Wi.Advance
import Wi.RunStore

/-! The run and tool rows as a function of the event log, and which event may follow a log.
The writer's checks are stated here on the log alone, apart from the tables that carry it. -/
namespace Wi
open Utf8
variable [JsonHash]

/-- What a stored event shows the projector. -/
def StoredEventPayload.input : StoredEventPayload → Input
  | .sessionCreated .. => .created
  | .sessionRenamed _ => .renamed
  | .runAccepted _ input _ => .accepted input
  | .runHistorySelected .. => .historySelected
  | .runProviderBound _ => .providerBound
  | .runtimeObserved envelope => .runtime envelope
  | .toolResultRecorded request callId output isError => .toolResult request callId output isError
  | .runResultRecorded result => .result result
  | .runInterrupted _ => .interrupted

def StoredEvent.shown (event : StoredEvent) : Event := ⟨event.sequence, event.runId, event.payload.input⟩

theorem StoredEvent.shown_shape (event : StoredEvent) :
    event.shape.shown = { event.shown with input := event.shown.input.shape } := by
  obtain ⟨_, _, _, _, _, _, payload⟩ := event
  cases payload <;> rfl

/-- How a run ended, if the payload ends one by itself. -/
def StoredEventPayload.outcome : StoredEventPayload → Option (RunOutcome × Option Text)
  | .runtimeObserved envelope =>
    match envelope.event with
    | .runFinished outcome _ => some (outcome, envelope.sessionId)
    | _ => none
  | .runResultRecorded result => some (result.outcome, result.sessionId)
  | _ => none

theorem StoredEventPayload.outcome_eq (event : StoredEvent) : History.terminalOutcome event = event.payload.outcome := rfl

/-- The envelope of a runtime event of the run. -/
def StoredEvent.runtime (run : RunId) (event : StoredEvent) : Option RunEventEnvelope :=
  match event.payload with
  | .runtimeObserved envelope => if event.runId = some run then some envelope else none
  | _ => none

/-- The runtime events of a run, oldest first. -/
def runtimes (run : RunId) (log : List StoredEvent) : List RunEventEnvelope := log.filterMap (StoredEvent.runtime run)

def turnAfter (turn : Option Text) (envelope : RunEventEnvelope) : Option Text :=
  match envelope.event with
  | .turnStarted _ => envelope.turnId
  | .runStarted | .turnFinished .. | .runFinished .. => none
  | .providerEvent _ | .toolEvent _ => turn

/-- The turn that the events of a run leave open. -/
def openTurn (log : List StoredEvent) (run : RunId) : Option Text := (runtimes run log).foldl turnAfter none

/-- A turn that some event of the run started. -/
def StartedTurn (log : List StoredEvent) (run : RunId) (turn : Option Text) : Prop :=
  ∃ envelope ∈ runtimes run log, Correlation.isTurnStarted envelope.event = true ∧ envelope.turnId = turn

/-- The state of a run after a runtime event. -/
def stateAfter (state : RecordedRunState) : RunEvent → RecordedRunState
  | .runStarted => .running
  | .runFinished outcome _ => outcomeState outcome
  | .turnStarted _ | .providerEvent _ | .toolEvent _ | .turnFinished .. => state

namespace RunRow

def opened (run : RunId) (sequence : Nat) (owner : StoredEventId) : RunRow :=
  ⟨run, sequence, .accepted, 0, owner, none, none, none, none⟩

def observed (sequence : Nat) (envelope : RunEventEnvelope) (row : RunRow) : RunRow :=
  let row := { row with lastRuntimeSequence := envelope.sequence, providerSessionId := envelope.sessionId }
  match envelope.event with
  | .runStarted => { row with state := .running }
  | .runFinished outcome _ =>
    { row with
      state := outcomeState outcome
      terminalSequence := some sequence
      terminal := some (.runtimeObserved envelope) }
  | _ => row

/-- A result ends a run that is still open, and only joins one that has ended. -/
def concluded (sequence : Nat) (result : RunResult) (row : RunRow) : RunRow :=
  if active row.state then
    { row with
      state := outcomeState result.outcome
      providerSessionId := result.sessionId
      terminalSequence := some sequence
      terminal := some (.runResultRecorded result)
      resultSequence := some sequence }
  else { row with resultSequence := some sequence }

def interrupted (run : RunId) (sequence : Nat) (row : RunRow) : RunRow :=
  { row with
    state := .interrupted
    terminalSequence := some sequence
    terminal := some (.runInterrupted run) }

end RunRow

namespace ToolRow

def started (run : RunId) (sequence : Nat) (request : Option Text) (callId toolName : Text) : ToolRow :=
  ⟨run, callId, toolName, request, sequence, none, none, none, none⟩

def finished (sequence : Nat) (isError : Bool) (row : ToolRow) : ToolRow :=
  { row with finishedSequence := some sequence, isError := some isError }

def recorded (sequence : Nat) (output : Text) (isError : Bool) (row : ToolRow) : ToolRow :=
  { row with resultSequence := some sequence, output := some output, isError := some isError }

end ToolRow

/-- The run and tool rows that a log leaves. -/
@[ext] structure Ledger where
  runs : List RunRow
  tools : List ToolRow

namespace Ledger

def run (ledger : Ledger) (run : RunId) : Option RunRow := ledger.runs.find? fun row => row.runId = run

def tool (ledger : Ledger) (run : RunId) (callId : Text) : Option ToolRow :=
  ledger.tools.find? fun row => row.runId = run && row.callId = callId

def updateRun (ledger : Ledger) (run : RunId) (set : RunRow → RunRow) : Ledger :=
  { ledger with runs := Table.update (fun row => row.runId = run) set ledger.runs }

def updateTool (ledger : Ledger) (run : RunId) (callId : Text) (set : ToolRow → ToolRow) : Ledger :=
  { ledger with tools := Table.update (fun row => row.runId = run && row.callId = callId) set ledger.tools }

def observeTool (ledger : Ledger) (run : RunId) (sequence : Nat) (request : Option Text) : ToolExecutionEvent → Ledger
  | .toolExecutionStarted callId toolName =>
    { ledger with tools := ledger.tools ++ [ToolRow.started run sequence request callId toolName] }
  | .toolExecutionFinished callId _ isError => ledger.updateTool run callId (ToolRow.finished sequence isError)
  | .toolResultReused .. => ledger

def observe (ledger : Ledger) (run : RunId) (sequence : Nat) (envelope : RunEventEnvelope) : Ledger :=
  let ledger := ledger.updateRun run (RunRow.observed sequence envelope)
  match envelope.event with
  | .toolEvent event => ledger.observeTool run sequence envelope.requestId event
  | _ => ledger

def applyRun (ledger : Ledger) (run : RunId) (sequence : Nat) : StoredEventPayload → Ledger
  | .runAccepted _ _ owner => { ledger with runs := ledger.runs ++ [RunRow.opened run sequence owner] }
  | .runProviderBound binding =>
    ledger.updateRun run fun row => { row with providerSessionId := some binding.providerSessionId }
  | .runtimeObserved envelope => ledger.observe run sequence envelope
  | .toolResultRecorded _ callId output isError => ledger.updateTool run callId (ToolRow.recorded sequence output isError)
  | .runResultRecorded result => ledger.updateRun run (RunRow.concluded sequence result)
  | .runInterrupted _ => ledger.updateRun run (RunRow.interrupted run sequence)
  | .sessionCreated .. | .sessionRenamed _ | .runHistorySelected .. => ledger

def apply (ledger : Ledger) (event : StoredEvent) : Ledger :=
  match event.runId with
  | none => ledger
  | some run => ledger.applyRun run event.sequence event.payload

def ofLog (log : List StoredEvent) : Ledger := log.foldl apply ⟨[], []⟩

@[simp] theorem ofLog_append (log : List StoredEvent) (event : StoredEvent) :
    ofLog (log ++ [event]) = (ofLog log).apply event := by
  rw [ofLog, List.foldl_append]
  rfl

end Ledger

/-- The display that a log leaves. Its first event creates the session. -/
def Display.ofLog (log : List StoredEvent) : Display := (log.tail.map StoredEvent.shown).foldl Display.apply .created

theorem Display.ofLog_append {log : List StoredEvent} (started : log ≠ []) (event : StoredEvent) :
    Display.ofLog (log ++ [event]) = (Display.ofLog log).apply event.shown := by
  rw [Display.ofLog, List.tail_append_of_ne_nil started, List.map_append, List.foldl_append]
  rfl

section Admission
variable (log : List StoredEvent) (run : RunId)

/-- The event that started the tool call belongs to the turn. -/
def StartedIn (row : ToolRow) (turn : Option Text) : Prop :=
  ∃ event ∈ log, event.sequence = row.startedSequence ∧ ∃ envelope, event.payload = .runtimeObserved envelope ∧
    envelope.turnId = turn

def AllowsTool (envelope : RunEventEnvelope) : ToolExecutionEvent → Prop
  | .toolExecutionStarted callId _ => (Ledger.ofLog log).tool run callId = none
  | .toolExecutionFinished callId toolName isError => ∃ row, (Ledger.ofLog log).tool run callId = some row ∧
      row.toolName = toolName ∧ row.requestId = envelope.requestId ∧ row.finishedSequence = none ∧
      (∀ known, row.isError = some known → known = isError) ∧ StartedIn log row envelope.turnId
  | .toolResultReused callId toolName => ∃ row, (Ledger.ofLog log).tool run callId = some row ∧
      row.toolName = toolName ∧ row.resultSequence.isSome = true

/-- A run completes only with a result for each of its tool calls. -/
def OutputsRecorded (outcome : RunOutcome) : Prop :=
  outcome = .completed → ∀ row ∈ (Ledger.ofLog log).tools, row.runId = run → row.resultSequence.isSome = true

/-- A runtime event that the run may record next. -/
def AllowsRuntime (state : RecordedRunState) (envelope : RunEventEnvelope) : Prop :=
  match envelope.event with
  | .runStarted => state = .accepted
  | .turnStarted _ => state = .running ∧ openTurn log run = none ∧ ¬StartedTurn log run envelope.turnId
  | .runFinished outcome _ => state = .running ∧ OutputsRecorded log run outcome
  | .turnFinished .. | .providerEvent _ => state = .running ∧ openTurn log run = envelope.turnId
  | .toolEvent event => state = .running ∧ openTurn log run = envelope.turnId ∧ AllowsTool log run envelope event

def AllowsResult (result : RunResult) (row : RunRow) : Prop :=
  result.runId = run.text ∧ row.resultSequence = none ∧ row.state ≠ .interrupted ∧
    (active row.state = true ∧ result.eventsComplete = false ∧ OutputsRecorded log run result.outcome ∨
      active row.state = false ∧ row.terminal.bind StoredEventPayload.outcome = some (result.outcome, result.sessionId))

/-- A payload that the run may record next. -/
def Allows : StoredEventPayload → Prop
  | .sessionCreated .. | .sessionRenamed _ => False
  | .runAccepted .. => (Ledger.ofLog log).run run = none ∧ ∀ row ∈ (Ledger.ofLog log).runs, active row.state = false
  | .runHistorySelected _ selection => (∃ row, (Ledger.ofLog log).run run = some row) ∧
      ∃ event input owner, log.getLast? = some event ∧ event.payload = .runAccepted run input owner ∧
        selection.matchesInput input = true
  | .runProviderBound _ => ∃ row, (Ledger.ofLog log).run run = some row ∧ row.state = .running
  | .runtimeObserved envelope => ∃ row, (Ledger.ofLog log).run run = some row ∧
      AllowsRuntime log run row.state envelope
  | .toolResultRecorded request callId _ isError => ∃ row, (Ledger.ofLog log).run run = some row ∧
      row.state = .running ∧ ∃ call, (Ledger.ofLog log).tool run callId = some call ∧ call.requestId = request ∧
        call.resultSequence = none ∧ ∀ known, call.isError = some known → known = isError
  | .runResultRecorded result => ∃ row, (Ledger.ofLog log).run run = some row ∧ AllowsResult log run result row
  | .runInterrupted _ => ∃ row, (Ledger.ofLog log).run run = some row ∧ active row.state = true

/-- An event that the writer may add to a log. -/
structure Follows (id : ApplicationSessionId) (event : StoredEvent) : Prop where
  next : event.sequence = log.length + 1
  valid : History.valid id event = .ok ()
  room : eventsWeight (log ++ [event]) ≤ databaseLimit
  allowed : match event.runId with
    | none => ∃ title, event.payload = .sessionRenamed title
    | some run => Allows log run event.payload

end Admission

/-- The event that creates the session. -/
def CreationProvenance.event (provenance : CreationProvenance) (request : CreationRequest) : StoredEvent :=
  ⟨1, provenance.creationEventId, provenance.createdAtMs, none, none, none,
    .sessionCreated request.title request.workspace provenance⟩

/-- A log that the writer may have written. -/
inductive Lawful (provenance : CreationProvenance) : List StoredEvent → Prop where
  | created {request : CreationRequest} (checked : provenance.checkedRequest = .ok request) :
      Lawful provenance [provenance.event request]
  | follows {log : List StoredEvent} {event : StoredEvent} (lawful : Lawful provenance log)
      (follows : Follows log provenance.sessionId event) : Lawful provenance (log ++ [event])

section Numbering
variable {provenance : CreationProvenance} {log : List StoredEvent} {event : StoredEvent}

theorem valid_eq_ok {id : ApplicationSessionId} {row : StoredEvent} :
    History.valid id row = .ok () ↔ row.sequence ≠ 0 ∧ row.sequence ≤ maxInteger ∧
      ((row.sequence == 1) = History.isCreated row.payload) ∧ History.payloadValid id row = .ok () ∧
      History.sourceValid row = true := by
  rw [History.valid]
  constructor
  · intro done
    obtain ⟨_, checked, done⟩ := bind_eq_ok.1 done
    obtain ⟨_, valid, sourced⟩ := bind_eq_ok.1 done
    rw [require_eq_ok] at checked sourced
    simp only [Bool.and_eq_true, decide_eq_true_eq, beq_iff_eq] at checked
    exact ⟨checked.1.1, checked.1.2, checked.2, valid, sourced⟩
  · rintro ⟨positive, fits, created, valid, sourced⟩
    simp [positive, fits, created, valid, sourced]

theorem CreationProvenance.valid_event {request : CreationRequest} (checked : provenance.checkedRequest = .ok request) :
    History.valid provenance.sessionId (provenance.event request) = .ok () := by
  have fits : 1 ≤ maxInteger := by decide
  rw [valid_eq_ok]
  refine ⟨Nat.one_ne_zero, fits, rfl, ?_, rfl⟩
  simp [History.payloadValid, CreationProvenance.event, checked]

theorem Lawful.ne_nil (lawful : Lawful provenance log) : log ≠ [] := by
  cases lawful <;> simp

theorem Lawful.numbered (lawful : Lawful provenance log) :
    log.map StoredEvent.sequence = List.range' 1 log.length := by
  induction lawful with
  | created => rfl
  | follows _ follows ih =>
    rw [List.map_append, ih, List.length_append, List.length_singleton, List.range'_concat, List.map_singleton,
      follows.next]
    simp [Nat.add_comm]

theorem Lawful.ascending (lawful : Lawful provenance log) : Keyed.Ascending StoredEvent.sequence log := by
  have sorted := List.pairwise_lt_range' (s := 1) (n := log.length)
  rw [← lawful.numbered, List.pairwise_map] at sorted
  exact sorted

theorem Lawful.mem_sequence (lawful : Lawful provenance log) (member : event ∈ log) :
    1 ≤ event.sequence ∧ event.sequence ≤ log.length := by
  have listed := List.mem_map_of_mem (f := StoredEvent.sequence) member
  rw [lawful.numbered, List.mem_range'_1] at listed
  omega

theorem Lawful.valid (lawful : Lawful provenance log) (member : event ∈ log) :
    History.valid provenance.sessionId event = .ok () := by
  induction lawful with
  | created checked =>
    rw [List.mem_singleton.1 member]
    exact CreationProvenance.valid_event checked
  | follows _ follows ih =>
    rcases List.mem_append.1 member with old | new
    · exact ih old
    · rw [List.mem_singleton.1 new]
      exact follows.valid

theorem Lawful.room (lawful : Lawful provenance log) : eventsWeight log ≤ databaseLimit := by
  cases lawful with
  | created => exact show 1 ≤ databaseLimit by decide
  | follows _ follows => exact follows.room

theorem Lawful.find (lawful : Lawful provenance log) (member : event ∈ log) :
    log.find? (fun row => row.sequence = event.sequence) = some event :=
  (Keyed.find_eq_some lawful.ascending.unique).2 ⟨member, rfl⟩

theorem valid_shape (id : ApplicationSessionId) (event : StoredEvent) :
    History.valid id event.shape = History.valid id event := by
  obtain ⟨_, _, _, _, _, _, payload⟩ := event
  cases payload with
  | runtimeObserved envelope =>
    simp only [History.valid, History.payloadValid, StoredEvent.shape, StoredEventPayload.shape, validateRuntime_shape]
    rfl
  | _ => rfl

/-- A row that passed its checks passes them again: no check depends on an embedded number. -/
theorem Lawful.decode_eq (lawful : Lawful provenance log) (member : event ∈ log) :
    History.decode provenance.sessionId event = present event.read .integrity := by
  cases read : event.read with
  | none =>
    rw [History.decode, read]
    rfl
  | some parsed =>
    have same : History.valid provenance.sessionId parsed = .ok () := by
      rw [← valid_shape, StoredEvent.shape_read read, valid_shape, lawful.valid member]
    rw [History.decode, read, present_some, ok_bind, same]
    rfl

theorem Lawful.read_event (lawful : Lawful provenance log) (member : event ∈ log) :
    History.event log provenance.sessionId event.sequence = present event.read .integrity := by
  have fits := (valid_eq_ok.1 (lawful.valid member)).2.1
  rw [History.event, integer_ok fits, discard_ok, ok_bind, lawful.find member, present_some, ok_bind, lawful.decode_eq member]

theorem Lawful.exists_event (lawful : Lawful provenance log) {sequence : Nat} (positive : 1 ≤ sequence)
    (bound : sequence ≤ log.length) : ∃ event ∈ log, event.sequence = sequence := by
  have listed : sequence ∈ log.map StoredEvent.sequence := by
    rw [lawful.numbered, List.mem_range'_1]
    omega
  exact List.mem_map.1 listed

theorem Event.ofStored_eq {id : ApplicationSessionId} (valid : History.valid id event = .ok ()) :
    Event.ofStored event = .ok event.shown := by
  replace valid := (valid_eq_ok.1 valid).2.2.2.1
  rw [History.payloadValid.eq_def] at valid
  rw [Event.ofStored, StoredEvent.shown]
  cases is_payload : event.payload with
  | runAccepted | runHistorySelected | runProviderBound | runInterrupted =>
    rw [is_payload] at valid
    have own := require_eq_ok.1 valid
    simp only [Bool.and_eq_true, decide_eq_true_eq] at own
    simp [own, StoredEventPayload.input]
  | _ => rfl

end Numbering

end Wi
