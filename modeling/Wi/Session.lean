import Wi.Writer

/-! A session from its creation on: commands, reopening and migration, each one atomic
transaction on the session's database, and the states they reach. -/
namespace Wi
variable [JsonHash]

/-- `finish_transaction`: commit, or roll back and report the cause as not committed. -/
def finishTransaction (db : Db) : Tx (Db × α) → Db × Except StorageError α
  | .ok (next, value) => (next, .ok value)
  | .error fault => (db, .error (StorageError.new fault.kind).notCommitted)

namespace Session

/-- `session_schema::initialize`: the manifest, the creation event and its projection. -/
def initializeSession (provenance : CreationProvenance) : Result Db := do
  let input ← provenance.checkedRequest
  let manifest : ManifestRow := ⟨provenance.sessionId, 3, input.title, input.workspace,
    provenance.createdAtMs, provenance.createdAtMs, 1, provenance⟩
  let events ← insertEvent [] ⟨1, provenance.creationEventId, provenance.createdAtMs, none, none, none,
    .sessionCreated input.title input.workspace provenance⟩
  let conversation ← Projector.apply .empty ⟨1, none, .created⟩
  let db : Db := ⟨manifest, events, [], [], [], conversation⟩
  discard (validate db provenance.sessionId provenance)
  return db

inductive Request where
  | record (operation : OperationId) (run : RunId) (mutation : Mutation)
  | rename (operation : OperationId) (title : Text)

def Request.operation : Request → OperationId
  | .record operation .. | .rename operation _ => operation

/-- The process that executes a command: its instance id, clock and fresh ids. -/
structure Process where
  instanceId : StoredEventId
  env : Env

def transaction (process : Process) (provenance : CreationProvenance) (db : Db) :
    Request → Tx (Db × CommitReceipt × Bool)
  | .record operation run mutation =>
    Writer.mutateTx process.env db provenance process.instanceId operation run mutation
  | .rename operation title => Writer.renameTx process.env db provenance operation title

/-- `SessionHandle::record` and `rename`: the connection is validated before the
transaction starts. -/
def execute (process : Process) (provenance : CreationProvenance) (db : Db) (request : Request) :
    Db × Except StorageError (CommitReceipt × Bool) :=
  match validate db provenance.sessionId provenance with
  | .error kind => (db, .error (StorageError.new kind).notCommitted)
  | .ok _ => finishTransaction db (transaction process provenance db request)

/-- `interruption::reconcile`, as opening a session runs it. -/
def reconcile (process : Process) (provenance : CreationProvenance) (db : Db) :
    Db × Except StorageError Unit :=
  finishTransaction db do
    return (← Writer.reconcileTx process.env db provenance process.instanceId, ())

end Session

namespace Migration
open Session

/-- A database of the previous format: the canonical tables without a projection. -/
def previousFormat (db : Db) : Db :=
  { db with manifest := { db.manifest with schemaVersion := 2 }, conversation := .empty }

def replayEvent (id : ApplicationSessionId) (state : Conversation × Nat) (row : StoredEvent) :
    Result (Conversation × Nat) := do
  let event ← History.decode id row
  require (state.2 + 1 = event.sequence) .integrity
  let conversation ← Projector.apply state.1 (← Event.ofStored event)
  return (conversation, event.sequence)

/-- `SELECT .. WHERE sequence>? AND sequence<=? ORDER BY sequence LIMIT ?` -/
def replayPage (events : List StoredEvent) (after head limit : Nat) : List StoredEvent :=
  (Table.orderBy (fun row : StoredEvent => row.sequence)
    (events.filter fun event => after < event.sequence && event.sequence ≤ head)).take limit

/-- Batch after batch until the head. The fuel bounds the number of batches. -/
def replay (id : ApplicationSessionId) (events : List StoredEvent) (head : Nat) (limit : Nat → Nat) :
    Nat → Conversation × Nat → Result Conversation
  | 0, _ => integrity
  | fuel + 1, state =>
    if state.2 < head then do
      let rows := replayPage events state.2 head (limit state.2)
      require (!rows.isEmpty) .integrity
      replay id events head limit fuel (← rows.foldlM (replayEvent id) state)
    else .ok state.1

/-- The replay with a batch size for each position it starts a batch from. -/
def backfillWith (limit : Nat → Nat) (db : Db) (provenance : CreationProvenance) : Result Db := do
  let id := provenance.sessionId
  let manifest ← validate db id provenance
  require (db.manifest.schemaVersion = 2) .integrity
  let conversation ← replay id db.events manifest.headSequence limit (manifest.headSequence + 1) (.empty, 0)
  let db := { db with manifest := { db.manifest with schemaVersion := 3 }, conversation }
  let migrated ← validate db id provenance
  require (migrated = manifest) .integrity
  return db

def batchLimit : Nat := 256

def backfill (db : Db) (provenance : CreationProvenance) : Result Db :=
  backfillWith (fun _ => batchLimit) db provenance

end Migration

/-- One committed or failed activity on the session. -/
inductive Step (provenance : CreationProvenance) : Db → Db → Prop where
  | request (process : Session.Process) (db : Db) (request : Session.Request) :
      Step provenance db (Session.execute process provenance db request).1
  | reopened (process : Session.Process) (db : Db) :
      Step provenance db (Session.reconcile process provenance db).1
  | migrated (db next : Db) (done : Migration.backfill (Migration.previousFormat db) provenance = .ok next) :
      Step provenance db next

/-- A later state of the same session. -/
def Later (provenance : CreationProvenance) : Db → Db → Prop :=
  Relation.ReflTransGen (Step provenance)

/-- The states of a session created with this provenance. -/
def Reachable (provenance : CreationProvenance) (db : Db) : Prop :=
  ∃ start, Session.initializeSession provenance = .ok start ∧ Later provenance start db

end Wi
