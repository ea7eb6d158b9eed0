import Wi.Rows

/-! Content of one entry: a delta of one field, and the snapshot of an output item or of a
whole response that replaces the provisional fields in its range. -/
namespace Wi.Content
open Utf8 Fields
variable [JsonHash]

structure Part where
  order : OrderKey
  kind : FieldKind
  text : Text

/-- The stored row, if any, that a field key addresses. -/
def stored (sql : Conversation) (key : FieldKey) : Option FieldRow := sql.fields.find? key.addressesField

def remove (sql : Conversation) (key : FieldKey) : Result Conversation := do
  -- A damaged descriptor or tail must not be hidden by removing it.
  let (sql, _) ← append sql key []
  let sql := deleteChunks sql key
  return { sql with fields := Table.delete key.addressesField sql.fields }

def delta (sql : Conversation) (run : RunId) (entry : Entry) (sequence : Nat) (part : Part) :
    Result (Conversation × Entry) := do
  let key ← FieldKey.new run entry.id (.indexed part.order) part.kind
  match (stored sql key).map (·.kind) with
  | some oldKind =>
    if oldKind ≠ part.kind then
      -- One position changes kind: only this provisional field is replaced.
      let oldKey ← FieldKey.new run entry.id (.indexed part.order) oldKind
      let old ← load sql oldKey
      require (old.generation ≤ entry.revision) .integrity
      let sql ← remove sql oldKey
      let (sql, _) ← insert sql key sequence part.text
      return (sql, { entry with epoch := sequence })
    let text := if part.kind = .unsupported then [] else part.text
    let (sql, field) ← append sql key text
    require (field.generation ≤ entry.revision) .integrity
    return (sql, entry)
  | none =>
    let later := sql.fields.any fun row =>
      row.runId = run && row.entryId = entry.id && part.order.spelling < row.orderKey.encode
    let (sql, _) ← insert sql key sequence part.text
    return (sql, if later then { entry with epoch := sequence } else entry)

/-- `text.as_bytes()[offset..end] == bytes`. A nonempty valid chunk starts with a leading
byte, so the slices agree only where `offset` is a boundary of the text. -/
def sliceMatches (text : Text) (offset : Nat) (chunk : Text) : Bool :=
  isBoundary offset text && chunk.isPrefixOf (drop offset text)

/-- One stored chunk after another, starting at `offset`. -/
def sameChunks (rows : List ChunkRow) (total : Nat) (text : Text) : Nat → Nat → Result Bool
  | 0, _ => integrity
  | fuel + 1, offset => do
    let after := rows.filter fun row => offset ≤ row.startByte
    match (Table.orderBy (·.startByte) after).head? with
    | none =>
      require (offset = total) .integrity
      return true
    | some row =>
      require (row.startByte = offset && row.bytes ≠ [] && bytes row.bytes ≤ chunkBytes) .integrity
      let stop := offset + bytes row.bytes
      require (stop ≤ total) .integrity
      if sliceMatches text offset row.bytes then sameChunks rows total text fuel stop
      else return false

def sameText (sql : Conversation) (key : FieldKey) (entry : Entry) (text : Text) : Result Bool := do
  let descriptor ← load sql key
  require (descriptor.generation ≤ entry.revision) .integrity
  if descriptor.byteLength ≠ bytes text then return false
  let rows := sql.chunks.filter key.addressesChunk
  sameChunks rows descriptor.byteLength text (rows.length + 1) 0

def range (output : Option UInt64) : Text × Text :=
  match output with
  | some index => OrderKey.outputRange index
  | none => ([], ['~'])

structure Progress where
  sql : Conversation
  layoutChanged : Bool
  retained : List OrderKey

/-- Keep, rewrite or remove one descriptor that the snapshot's range holds. -/
def settleOld (run : RunId) (entry : Entry) (sequence : Nat) (parts : List Part) (state : Progress)
    (row : FieldRow) : Result Progress := do
  let key ← FieldKey.new run entry.id row.orderKey row.kind
  require (key.fieldId = row.fieldId) .integrity
  let old ← load state.sql key
  require (old.generation ≤ entry.revision) .integrity
  match parts.find? fun part => FieldOrder.indexed part.order = row.orderKey && part.kind = row.kind with
  | some part =>
    let same ← sameText state.sql key entry part.text
    if same then return { state with retained := part.order :: state.retained }
    let (sql, _) ← replace state.sql key sequence part.text
    return { state with sql, retained := part.order :: state.retained }
  | none =>
    let sql ← remove state.sql key
    return { state with sql, layoutChanged := true }

structure Insertion where
  sql : Conversation
  layoutChanged : Bool
  unique : List OrderKey

def insertNew (run : RunId) (entry : Entry) (sequence : Nat) (retained : List OrderKey)
    (state : Insertion) (part : Part) : Result Insertion := do
  require (part.order ∉ state.unique) .integrity
  let unique := part.order :: state.unique
  if part.order ∈ retained then return { state with unique }
  let key ← FieldKey.new run entry.id (.indexed part.order) part.kind
  let (sql, _) ← insert state.sql key sequence part.text
  return ⟨sql, true, unique⟩

def snapshot (sql : Conversation) (run : RunId) (entry : Entry) (sequence : Nat)
    (output : Option UInt64) (parts : List Part) : Result (Conversation × Entry) := do
  let (lower, upper) := range output
  let old := Table.orderBy (fun row : FieldRow => row.orderKey.encode) (sql.fields.filter fun row =>
    row.runId = run && row.entryId = entry.id && lower ≤ row.orderKey.encode &&
      row.orderKey.encode < upper)
  let settled ← old.foldlM (settleOld run entry sequence parts) ⟨sql, false, []⟩
  let inserted ← parts.foldlM (insertNew run entry sequence settled.retained)
    ⟨settled.sql, settled.layoutChanged, []⟩
  return (inserted.sql, if inserted.layoutChanged then { entry with epoch := sequence } else entry)

end Wi.Content
