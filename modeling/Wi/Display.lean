import Wi.Evolution
import Wi.Projector

/-! The conversation as a reader understands it: blocks and entries with whole texts, and
what each event means for them. No row, chunk or digest occurs here. -/
namespace Wi
open Utf8 Content

/-- An entry with its content. Its position is the sequence of the event that created it. -/
structure Item where
  run : RunId
  first : Nat
  epoch : Nat
  changed : Nat
  metadata : EntryMetadata
  fields : Layout.Fields

namespace Item

def id (item : Item) : EntryId := ⟨item.first, 0⟩

def source (item : Item) : Source := item.metadata.source

def entry (item : Item) : Entry := ⟨item.id, item.epoch, item.changed, item.metadata⟩

def new (run : RunId) (sequence : Nat) (metadata : EntryMetadata) : Item :=
  ⟨run, sequence, sequence, sequence, metadata, []⟩

def human (run : RunId) (sequence : Nat) (text : Text) : Item :=
  ⟨run, sequence, sequence, sequence, EntryMetadata.new .human .accepted false, [⟨.human, .text, sequence, text⟩]⟩

/-- The item with new metadata, seen at a sequence. -/
def write (sequence : Nat) (metadata : EntryMetadata) (item : Item) : Item :=
  { item with changed := sequence, metadata }

def delta (sequence : Nat) (part : Part) (item : Item) : Item :=
  { item with
    changed := sequence
    epoch := if Layout.deltaMoves part item.fields then sequence else item.epoch
    fields := Layout.delta sequence part item.fields }

def snapshot (sequence : Nat) (output : Option UInt64) (parts : List Part) (item : Item) : Item :=
  { item with
    changed := sequence
    epoch := if Layout.snapshotMoves sequence output parts item.fields then sequence else item.epoch
    fields := Layout.snapshot sequence output parts item.fields }

/-- A field placed where the layout has no later one. -/
def extend (sequence : Nat) (part : Part) (item : Item) : Item :=
  { item with changed := sequence, fields := Layout.add (Layout.created part sequence) item.fields }

/-- What an event of a response does to its entry. -/
def respond (sequence : Nat) (response : Text) (event : ProviderEvent) (item : Item) : Item :=
  let item := item.write sequence (Projector.opened response event item.metadata)
  match event with
  | .responseStatus _ status => item.write sequence { item.metadata with state := .status status }
  | .outputItemUpdated _ _ outputIndex contentIndex summaryIndex kind text =>
    item.delta sequence (Projector.updated outputIndex contentIndex summaryIndex kind text)
  | .outputItemStarted _ outputIndex output | .outputItemFinished _ outputIndex output =>
    item.snapshot sequence (some outputIndex) (Layout.itemParts outputIndex output)
  | .responseFinished response =>
    (item.snapshot sequence none (Layout.responseParts response)).write sequence
      (Projector.finished response item.metadata)
  | _ => item

/-- A failure or closing notice shown in the entry. -/
def observe (sequence : Nat) (failure : Option (Text × UpstreamOutcome)) (closed : Bool) (item : Item) : Item :=
  (item.write sequence (Projector.observed failure closed item.metadata)).delta sequence
    (Projector.notice sequence closed)

def settle (sequence : Nat) (state : State) (item : Item) : Item :=
  item.write sequence { item.metadata with state := Projector.settledState state item.metadata }

/-- An assistant or tool entry that the end of its run settles. -/
def unfinished (item : Item) : Bool :=
  (item.source.kind = .assistant || item.source.kind = .tool) && item.metadata.provisional

def finishTurn (sequence : Nat) (outcome : TurnOutcome) (upstream : Option UpstreamOutcome) (item : Item) : Item :=
  if item.metadata.provisional then item.write sequence (Projector.turnMetadata outcome upstream item.metadata)
  else item

def finishTool (sequence : Nat) (isError : Bool) (item : Item) : Item :=
  item.write sequence (Projector.finishedMetadata isError item.metadata)

def toolOutput (output : Text) : Part := ⟨Projector.toolOrder .toolOutput, .toolResult, output⟩

def recordResult (sequence : Nat) (output : Text) (isError : Bool) (item : Item) : Item :=
  (item.extend sequence (toolOutput output)).write sequence (Projector.resultMetadata isError item.metadata)

def ShowsTool (item : Item) (toolName : Text) : Prop :=
  ∃ field ∈ item.fields, field.order = .indexed (Projector.toolOrder .toolName) ∧ field.kind = .toolName ∧
    field.text = toolName

end Item

/-- The whole display after some events: the last one applied, the last one that named the
session, the blocks in order of acceptance and the entries in order of creation. -/
@[ext] structure Display where
  applied : Nat
  titled : Nat
  blocks : List BlockRow
  items : List Item

namespace Display

def created : Display := ⟨1, 1, [], []⟩

def block (display : Display) (run : RunId) : Option BlockRow := display.blocks.find? fun row => row.runId = run

def find (display : Display) (run : RunId) (source : Source) : Option Item :=
  display.items.find? fun item => item.run = run && item.source = source

def add (display : Display) (item : Item) : Display := { display with items := display.items ++ [item] }

def editWhere (display : Display) (selected : Item → Bool) (change : Item → Item) : Display :=
  { display with items := Table.update selected change display.items }

def edit (display : Display) (run : RunId) (source : Source) (change : Item → Item) : Display :=
  display.editWhere (fun item => item.run = run && item.source = source) change

def settle (display : Display) (run : RunId) (sequence : Nat) (state : State) : Display :=
  display.editWhere (fun item => item.run = run && item.unfinished) (Item.settle sequence state)

def head (display : Display) (run : RunId) (sequence : Nat) (change : BlockHeader → BlockHeader) : Display :=
  let touched (row : BlockRow) : BlockRow := { row with changedSequence := sequence, header := change row.header }
  { display with blocks := Table.update (fun row => row.runId = run) touched display.blocks }

/-- The block of a run that has just been accepted. -/
def opening (run : RunId) (sequence : Nat) : BlockRow :=
  ⟨run, sequence, sequence, ⟨⟨sequence, 0⟩, .accepted, false, none, none, none, none, none, none⟩⟩

def accept (display : Display) (run : RunId) (sequence : Nat) (input : RecordedRunInput) : Display :=
  { display with
    blocks := display.blocks ++ [opening run sequence]
    items := display.items ++ [Item.human run sequence input.userText] }

/-- The display with an entry for the turn's response. -/
def withResponse (display : Display) (run : RunId) (sequence : Nat) (turn response : Text) : Display :=
  match display.find run (.assistant turn) with
  | some _ => display
  | none => display.add (Item.new run sequence (Projector.assistantMetadata turn response))

/-- What an event of the turn's response does. The first one creates the entry. -/
def respond (display : Display) (run : RunId) (sequence : Nat) (turn response : Text) (event : ProviderEvent) :
    Display :=
  let found := display.withResponse run sequence turn response
  (found.edit run (.assistant turn) (Item.respond sequence response event)).head run sequence fun header =>
    { header with currentAssistant := (found.find run (.assistant turn)).map Item.id }

/-- A notice of the turn's response, or an entry of its own where there is none yet. -/
def observe (display : Display) (run : RunId) (sequence : Nat) (turn : Text)
    (failure : Option (Text × UpstreamOutcome)) (closed : Bool) : Display :=
  match display.find run (.assistant turn) with
  | some _ => display.edit run (.assistant turn) (Item.observe sequence failure closed)
  | none => display.add ((Item.new run sequence (Projector.noticeMetadata sequence)).observe sequence failure closed)

def provider (display : Display) (run : RunId) (sequence : Nat) (turn : Text) (event : ProviderEvent) : Display :=
  match event with
  | .requestFailed code _ upstream =>
    (display.observe run sequence turn (some (safeCode code, upstream)) false).head run sequence id
  | .sessionClosed _ => (display.observe run sequence turn none true).head run sequence id
  | .providerExtension .. =>
    (display.add ((Item.new run sequence (Projector.noticeMetadata sequence)).delta sequence
      Projector.extension)).head run sequence id
  | event =>
    match Projector.responseId event with
    | some response => display.respond run sequence turn response event
    | none => display

def tool (display : Display) (run : RunId) (sequence : Nat) (envelope : RunEventEnvelope) :
    ToolExecutionEvent → Display
  | .toolExecutionStarted callId toolName =>
    display.add ((Item.new run sequence (Projector.startedMetadata envelope callId)).delta sequence
      (Projector.toolNamePart toolName))
  | .toolExecutionFinished callId _ isError => display.edit run (.tool callId) (Item.finishTool sequence isError)
  | .toolResultReused callId _ =>
    match display.find run (.tool callId) with
    | some item => display.add (Item.new run sequence (Projector.reusedMetadata sequence envelope item.entry))
    | none => display

theorem tool_reused (display : Display) (run : RunId) (sequence : Nat) (envelope : RunEventEnvelope) (callId toolName : Text) :
    display.tool run sequence envelope (.toolResultReused callId toolName) = (display.find run (.tool callId)).elim display
      fun item => display.add (Item.new run sequence (Projector.reusedMetadata sequence envelope item.entry)) := by
  rw [tool]
  cases display.find run (.tool callId) <;> rfl

def runtime (display : Display) (run : RunId) (sequence : Nat) (envelope : RunEventEnvelope) : Display :=
  match envelope.event, envelope.turnId with
  | .runStarted, _ => display.head run sequence fun header => { header with state := .running }
  | .turnStarted _, some turn =>
    display.head run sequence fun header => { header with currentTurn := some turn, currentAssistant := none }
  | .turnFinished _ _ outcome upstream, some turn =>
    (display.edit run (.assistant turn) (Item.finishTurn sequence outcome upstream)).head run sequence fun header =>
      { header with currentTurn := none, currentAssistant := none }
  | .runFinished outcome summary, _ =>
    (display.settle run sequence (.unfinished outcome)).head run sequence fun header =>
      { header with
        state := outcomeState outcome
        outcome := some (displayOutcome outcome)
        summary := some summary
        currentTurn := none
        currentAssistant := none }
  | .providerEvent provided, some turn => display.provider run sequence turn provided.event
  | .toolEvent event, some _ => (display.tool run sequence envelope event).head run sequence id
  | _, none => display

/-- The header of a run whose result is recorded. -/
def concluded (result : RunResult) (header : BlockHeader) : BlockHeader :=
  { header with
    state := outcomeState result.outcome
    outcome := some (displayOutcome result.outcome)
    summary := some result.summary
    resultRecorded := true
    eventsComplete := some result.eventsComplete
    sinkError := result.sinkError
    currentTurn := none
    currentAssistant := none }

def applyRun (display : Display) (run : RunId) (sequence : Nat) : Input → Display
  | .accepted input => display.accept run sequence input
  | .historySelected | .providerBound => display
  | .runtime envelope => display.runtime run sequence envelope
  | .toolResult _ callId output isError =>
    display.edit run (.tool callId) (Item.recordResult sequence output isError)
  | .result result =>
    (display.settle run sequence (.unfinished result.outcome)).head run sequence (concluded result)
  | .interrupted =>
    (display.settle run sequence .interrupted).head run sequence fun header =>
      { header with state := .interrupted, currentTurn := none, currentAssistant := none }
  | .created | .renamed => display

/-- The display with an event marked as applied. -/
def upTo (display : Display) (sequence : Nat) : Display := { display with applied := sequence }

/-- The display after one more event. -/
def apply (display : Display) (event : Event) : Display :=
  match event.run with
  | none => { display with applied := event.sequence, titled := event.sequence }
  | some run => (display.applyRun run event.sequence event.input).upTo event.sequence

/-- The event belongs to the open turn of its block. -/
def InTurn (header : BlockHeader) (envelope : RunEventEnvelope) (turn : Text) : Prop :=
  header.currentTurn = some turn ∧ envelope.turnId = some turn

def AdmitsTool (display : Display) (run : RunId) (envelope : RunEventEnvelope) : ToolExecutionEvent → Prop
  | .toolExecutionStarted callId _ => display.find run (.tool callId) = none
  | .toolExecutionFinished callId toolName _ => ∃ item, display.find run (.tool callId) = some item ∧
      item.ShowsTool toolName ∧ item.metadata.finishRecorded = some false ∧
      item.metadata.turnId = envelope.turnId ∧ item.metadata.requestId = envelope.requestId
  | .toolResultReused callId toolName => ∃ item, display.find run (.tool callId) = some item ∧
      item.ShowsTool toolName ∧ item.metadata.resultRecorded = some true

def AdmitsRuntime (display : Display) (run : RunId) (header : BlockHeader) (envelope : RunEventEnvelope) : Prop :=
  match envelope.event with
  | .runStarted => header.state = .accepted
  | .turnStarted _ => header.currentTurn = none ∧
      ∃ turn, envelope.turnId = some turn ∧ display.find run (.assistant turn) = none
  | .turnFinished .. => ∃ turn, InTurn header envelope turn
  | .runFinished .. => True
  | .providerEvent provided => provided.schemaVersion = 1 ∧ ∃ turn, InTurn header envelope turn
  | .toolEvent event => (∃ turn, InTurn header envelope turn) ∧ display.AdmitsTool run envelope event

def AdmitsRun (display : Display) (run : RunId) : Input → Prop
  | .accepted _ => display.block run = none
  | .historySelected | .providerBound => ∃ row, display.block run = some row
  | .runtime envelope => envelope.runId = run.text ∧ envelope.schemaVersion = 2 ∧
      ∃ row, display.block run = some row ∧ active row.header.state = true ∧
        display.AdmitsRuntime run row.header envelope
  | .toolResult request callId _ _ => ∃ row, display.block run = some row ∧ row.header.state = .running ∧
      ∃ item, display.find run (.tool callId) = some item ∧ item.metadata.resultRecorded = some false ∧
        item.metadata.requestId = request
  | .result result => result.runId = run.text ∧ ∃ row, display.block run = some row ∧
      row.header.resultRecorded = false ∧ row.header.state ≠ .interrupted ∧
      (row.header.outcome = none ∧ result.eventsComplete = false ∨
        row.header.outcome = some (displayOutcome result.outcome))
  | .interrupted => ∃ row, display.block run = some row ∧ active row.header.state = true
  | .created | .renamed => False

/-- An event that the display can follow with. -/
structure Admits (display : Display) (event : Event) : Prop where
  next : event.sequence = display.applied + 1
  lawful : match event.run with
    | none => event.input = .renamed
    | some run => display.AdmitsRun run event.input

end Display
end Wi
