import Wi.Chunks
import Wi.Records
import Wi.Table

/-! The five conversation tables and the operations on a field's descriptor and chunk rows.
JSON columns hold typed values; an `INSERT` that violates a uniqueness constraint is an
integrity error, as the driver reports it. -/
namespace Wi
open Utf8

inductive FieldOrder where
  | human
  | indexed (order : OrderKey)
  deriving DecidableEq

/-- The text stored in the `order_key` column. -/
def FieldOrder.encode : FieldOrder → Text
  | .human => ['0']
  | .indexed order => order.spelling

inductive EntryKind where
  | human | assistant | tool | reuse | notice
  deriving DecidableEq, Repr

def Source.kind : Source → EntryKind
  | .human => .human
  | .assistant _ => .assistant
  | .tool _ => .tool
  | .reuse .. => .reuse
  | .notice .. => .notice

/-- The outcome as displayed: a failure keeps only its safe code. -/
def displayOutcome : RunOutcome → RunOutcome
  | .completed => .completed
  | .failed code => .failed (safeCode code)
  | .cancelledLocally => .cancelledLocally

structure BlockHeader where
  human : EntryId
  state : RecordedRunState
  resultRecorded : Bool
  outcome : Option RunOutcome
  summary : Option RunSummary
  eventsComplete : Option Bool
  sinkError : Option RunSinkError
  currentTurn : Option Text
  currentAssistant : Option EntryId

structure EntryMetadata where
  source : Source
  state : State
  provisional : Bool
  responseId : Option Text
  provenance : Option OutputProvenance
  turnId : Option Text
  requestId : Option Text
  reference : Option EntryId
  resultRecorded : Option Bool
  finishRecorded : Option Bool
  isError : Option Bool
  finishIsError : Option Bool
  failure : Option Text
  upstreamOutcome : Option UpstreamOutcome
  closed : Bool

def EntryMetadata.new (source : Source) (state : State) (provisional : Bool) : EntryMetadata :=
  ⟨source, state, provisional, none, none, none, none, none, none, none, none, none, none, none, false⟩

structure ProjectionHead where
  formatVersion : Nat
  appliedSequence : Nat
  metadataSequence : Nat

structure BlockRow where
  runId : RunId
  acceptedSequence : Nat
  changedSequence : Nat
  header : BlockHeader

section Tables
variable [JsonHash]

/-- Digest of an entry's source within its run. -/
def Source.key (source : Source) (run : RunId) : Digest := digest (.entry run source)

structure EntryRow where
  runId : RunId
  entryId : EntryId
  sourceKey : Digest
  firstSequence : Nat
  positionSlot : Nat
  changedSequence : Nat
  contentEpoch : Nat
  kind : EntryKind
  metadata : EntryMetadata

inductive FieldId where
  | text
  | hash (value : Digest)

instance : DecidableEq FieldId
  | .text, .text => isTrue rfl
  | .text, .hash _ | .hash _, .text => isFalse (fun e => by cases e)
  | .hash a, .hash b =>
    if h : a = b then isTrue (h ▸ rfl) else isFalse (fun e => h (FieldId.hash.inj e))

def FieldId.spelling : FieldId → Text
  | .text => "text".toList
  | .hash value => JsonHash.hex value

structure FieldRow where
  runId : RunId
  entryId : EntryId
  fieldId : FieldId
  orderKey : FieldOrder
  generation : Nat
  byteLength : Nat
  kind : FieldKind

structure ChunkRow where
  runId : RunId
  entryId : EntryId
  fieldId : FieldId
  startByte : Nat
  bytes : Text

structure Conversation where
  projection : Option ProjectionHead
  blocks : List BlockRow
  entries : List EntryRow
  fields : List FieldRow
  chunks : List ChunkRow

def Conversation.empty : Conversation := ⟨none, [], [], [], []⟩

end Tables

def chunkBytes : Nat := 8192

namespace Fields
variable [JsonHash]

structure FieldKey where
  run : RunId
  entry : EntryId
  fieldId : FieldId
  order : FieldOrder
  kind : FieldKind

/-- The field's identity within its run: the human text, or a digest of its source. -/
def fieldIdOf (run : RunId) (entry : EntryId) : FieldOrder → FieldId
  | .human => .text
  | .indexed order => .hash (digest (.field run entry order.sourceSpelling))

namespace FieldKey

def new (run : RunId) (entry : EntryId) (order : FieldOrder) (kind : FieldKind) : Result FieldKey := do
  discard (integer entry.sequence)
  discard (integer entry.slot)
  require (order ≠ .human || kind = .text) .integrity
  return ⟨run, entry, fieldIdOf run entry order, order, kind⟩

def generation (key : FieldKey) (generation : Nat) : Result Nat := do
  require (key.entry.sequence ≤ generation) .integrity
  integer generation

def addressesField (key : FieldKey) (row : FieldRow) : Bool :=
  row.runId = key.run && row.entryId = key.entry && row.fieldId = key.fieldId

def addressesChunk (key : FieldKey) (row : ChunkRow) : Bool :=
  row.runId = key.run && row.entryId = key.entry && row.fieldId = key.fieldId

def validateEntry (key : FieldKey) (sql : Conversation) : Result Unit := do
  let row ← present (sql.entries.find? fun row => row.runId = key.run && row.entryId = key.entry)
    .integrity
  require (row.firstSequence = key.entry.sequence && row.positionSlot = key.entry.slot &&
    decide ((row.kind = .human) ↔ (key.order = .human))) .integrity

end FieldKey

structure FieldDescriptor where
  generation : Nat
  byteLength : Nat

def load (sql : Conversation) (key : FieldKey) : Result FieldDescriptor := do
  key.validateEntry sql
  let row ← present (sql.fields.find? key.addressesField) .integrity
  discard (key.generation row.generation)
  require (row.orderKey = key.order && row.kind = key.kind) .integrity
  return ⟨row.generation, row.byteLength⟩

structure Tail where
  start : Nat
  text : Text

/-- The last chunk, checked against the descriptor's length and the chunk before it. -/
def tail (sql : Conversation) (key : FieldKey) (total : Nat) : Result (Option Tail) := do
  let rows := sql.chunks.filter key.addressesChunk
  match (Table.orderByDesc (·.startByte) rows).head? with
  | none =>
    require (total = 0) .integrity
    return none
  | some row =>
    require (row.bytes ≠ [] && bytes row.bytes ≤ chunkBytes) .integrity
    require (row.startByte + (← length row.bytes) = total) .integrity
    let earlier := rows.filter fun other => other.startByte < row.startByte
    let previousEnd ← match (Table.orderByDesc (·.startByte) earlier).head? with
      | none => pure 0
      | some previous => do
        require (bytes previous.bytes ≠ 0 && bytes previous.bytes ≤ chunkBytes) .integrity
        pure (previous.startByte + bytes previous.bytes)
    require (previousEnd = row.startByte) .integrity
    return some ⟨row.startByte, row.bytes⟩

/-- Primary key and length constraints of `conversation_chunks`. -/
def insertChunk (sql : Conversation) (row : ChunkRow) : Result Conversation := do
  require (sql.chunks.all fun old => !(old.runId = row.runId && old.entryId = row.entryId &&
    old.fieldId = row.fieldId && old.startByte = row.startByte)) .integrity
  require (row.bytes ≠ [] && bytes row.bytes ≤ chunkBytes) .integrity
  return { sql with chunks := sql.chunks ++ [row] }

def insertChunks (sql : Conversation) (key : FieldKey) (text : Text) (start : Nat) :
    Result Conversation := do
  discard (integer (start + (← length text)))
  (Chunks.locate start (Chunks.pieces chunkBytes text)).foldlM (fun sql chunk => do
    let startByte ← integer chunk.1
    insertChunk sql ⟨key.run, key.entry, key.fieldId, startByte, chunk.2⟩) sql

/-- Primary key and `UNIQUE(run_id,entry_id,order_key)` of `conversation_fields`. -/
def insertField (sql : Conversation) (row : FieldRow) : Result Conversation := do
  require (sql.fields.all fun old => !(old.runId = row.runId && old.entryId = row.entryId &&
    (old.fieldId = row.fieldId || old.orderKey.encode = row.orderKey.encode))) .integrity
  return { sql with fields := sql.fields ++ [row] }

def insert (sql : Conversation) (key : FieldKey) (generation : Nat) (text : Text) :
    Result (Conversation × FieldDescriptor) := do
  let generationSql ← key.generation generation
  let byteLength ← length text
  key.validateEntry sql
  let sql ← insertField sql ⟨key.run, key.entry, key.fieldId, key.order, generationSql, byteLength, key.kind⟩
  let sql ← insertChunks sql key text 0
  return (sql, ⟨generation, byteLength⟩)

/-- `UPDATE conversation_fields SET .. WHERE run_id=? AND entry_id=? AND field_id=?` -/
def updateField (sql : Conversation) (key : FieldKey) (set : FieldRow → FieldRow) : Conversation :=
  { sql with fields := Table.update key.addressesField set sql.fields }

def updateChunk (sql : Conversation) (key : FieldKey) (start : Nat) (text : Text) : Conversation :=
  let addressed := fun row => key.addressesChunk row && row.startByte = start
  { sql with chunks := Table.update addressed (fun row => { row with bytes := text }) sql.chunks }

def append (sql : Conversation) (key : FieldKey) (delta : Text) :
    Result (Conversation × FieldDescriptor) := do
  let field ← load sql key
  let newLength ← integer (field.byteLength + (← length delta))
  let last ← tail sql key field.byteLength
  if delta = [] then return (sql, field)
  let consumed := match last with
    | none => 0
    | some last => floorBoundary delta (min (chunkBytes - bytes last.text) (bytes delta))
  let sql := match last with
    | some last =>
      if consumed > 0 then updateChunk sql key last.start (last.text ++ take consumed delta) else sql
    | none => sql
  let sql ← insertChunks sql key (drop consumed delta) (field.byteLength + consumed)
  let sql := updateField sql key fun row => { row with byteLength := newLength }
  return (sql, { field with byteLength := newLength })

def deleteChunks (sql : Conversation) (key : FieldKey) : Conversation :=
  { sql with chunks := Table.delete key.addressesChunk sql.chunks }

def replace (sql : Conversation) (key : FieldKey) (generation : Nat) (text : Text) :
    Result (Conversation × FieldDescriptor) := do
  let generationSql ← key.generation generation
  let byteLength ← length text
  let field ← load sql key
  require (field.generation < generation) .integrity
  discard (tail sql key field.byteLength)
  let sql := deleteChunks sql key
  let sql := updateField sql key fun row => { row with generation := generationSql, byteLength }
  let sql ← insertChunks sql key text 0
  return (sql, ⟨generation, byteLength⟩)

end Fields
end Wi
