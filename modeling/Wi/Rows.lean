import Wi.Fields

/-! Reading, creating and saving block and entry rows. Every read re-checks the row. -/
namespace Wi
variable [JsonHash]

structure Entry where
  id : EntryId
  epoch : Nat
  revision : Nat
  metadata : EntryMetadata

namespace Rows

/-- A displayed outcome carries a code of the fixed list only. -/
def safeOutcome : Option RunOutcome → Bool
  | some (.failed code) => safeCode code == code
  | _ => true

def blockValid (row : BlockRow) (sequence : Nat) : Bool :=
  row.acceptedSequence ≠ 0 && row.header.human.sequence = row.acceptedSequence &&
    row.header.human.slot = 0 && row.acceptedSequence ≤ row.changedSequence &&
    row.changedSequence < sequence && safeOutcome row.header.outcome

def block (sql : Conversation) (run : RunId) (sequence : Nat) : Result BlockHeader := do
  let row ← present (sql.blocks.find? fun row => row.runId = run) .integrity
  require (blockValid row sequence) .integrity
  return row.header

def saveBlock (sql : Conversation) (run : RunId) (sequence : Nat) (header : BlockHeader) :
    Result Conversation := do
  let changedSequence ← integer sequence
  require (sql.blocks.countP (fun row => row.runId = run) = 1) .integrity
  let saved := Table.update (fun row => row.runId = run)
    (fun row => { row with changedSequence, header }) sql.blocks
  return { sql with blocks := saved }

def isTool : Source → Bool
  | .tool _ | .reuse .. => true
  | _ => false

def isReuse : Source → Bool
  | .reuse .. => true
  | _ => false

def isNotice : Source → Bool
  | .notice .. => true
  | _ => false

/-- A reuse or notice entry names its own position. -/
def positionMatches (source : Source) (id : EntryId) : Bool :=
  match source with
  | .reuse sequence slot | .notice sequence slot => sequence = id.sequence && slot = id.slot
  | _ => true

def metadataValid (metadata : EntryMetadata) (id : EntryId) : Bool :=
  let tool := isTool metadata.source
  let reuse := isReuse metadata.source
  metadata.failure.all (fun code => safeCode code == code) &&
    positionMatches metadata.source id &&
    tool == metadata.resultRecorded.isSome && tool == metadata.finishRecorded.isSome &&
    (!reuse || metadata.resultRecorded == some true) &&
    !(tool && metadata.resultRecorded == some true && metadata.isError.isNone) &&
    reuse == metadata.reference.isSome &&
    (tool || (metadata.isError.isNone && metadata.finishIsError.isNone)) &&
    metadata.reference.all (fun target => target.before id)

def entryRow (row : EntryRow) (run : RunId) (sequence : Nat) : Result Entry := do
  require (row.entryId.sequence = row.firstSequence && row.entryId.slot = row.positionSlot &&
    row.firstSequence ≤ row.contentEpoch && row.contentEpoch ≤ row.changedSequence &&
    row.changedSequence ≤ sequence && row.sourceKey = row.metadata.source.key run &&
    row.kind = row.metadata.source.kind && metadataValid row.metadata row.entryId) .integrity
  return ⟨row.entryId, row.contentEpoch, row.changedSequence, row.metadata⟩

def lookup (sql : Conversation) (run : RunId) (sequence : Nat) (source : Source) :
    Result (Option Entry) :=
  match sql.entries.find? fun row => row.runId = run && row.sourceKey = source.key run with
  | none => .ok none
  | some row => do
    let entry ← entryRow row run sequence
    require (entry.metadata.source = source) .integrity
    return some entry

/-- Primary key and the two uniqueness constraints of `conversation_entries`. -/
def insertEntry (sql : Conversation) (row : EntryRow) : Result Conversation := do
  require (sql.entries.all fun old => !(old.runId = row.runId && (old.entryId = row.entryId ||
    old.sourceKey = row.sourceKey ||
    (old.firstSequence = row.firstSequence && old.positionSlot = row.positionSlot)))) .integrity
  return { sql with entries := sql.entries ++ [row] }

def create (sql : Conversation) (run : RunId) (sequence : Nat) (metadata : EntryMetadata) :
    Result (Conversation × Entry) := do
  let existing ← lookup sql run sequence metadata.source
  require existing.isNone .integrity
  let id ← EntryId.new sequence 0
  let first ← integer sequence
  let sql ← insertEntry sql
    ⟨run, id, metadata.source.key run, first, 0, first, first, metadata.source.kind, metadata⟩
  return (sql, ⟨id, sequence, sequence, metadata⟩)

def addresses (run : RunId) (entry : Entry) (row : EntryRow) : Bool :=
  row.runId = run && row.entryId = entry.id && row.sourceKey = entry.metadata.source.key run

def save (sql : Conversation) (run : RunId) (sequence : Nat) (entry : Entry) : Result Conversation := do
  let changedSequence ← integer sequence
  let contentEpoch ← integer entry.epoch
  require (sql.entries.countP (addresses run entry) = 1) .integrity
  let saved := Table.update (addresses run entry)
    (fun row => { row with changedSequence, contentEpoch, metadata := entry.metadata }) sql.entries
  return { sql with entries := saved }

end Rows
end Wi
