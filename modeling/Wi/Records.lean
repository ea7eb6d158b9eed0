import Wi.Projection

/-! Run inputs, run records and session requests, with the admission rules a novel
record has to pass before it is appended. -/
namespace Wi
open Utf8

/-- The captured input of a run. `captured` holds the rest of the prepared request, the
tool definitions and the skill lists; no modelled function reads them. -/
structure RecordedRunInput where
  userText : Text
  providerId : Text
  prompt : Text
  model : Text
  captured : Json
  deriving DecidableEq

def RecordedRunInput.shape (input : RecordedRunInput) : RecordedRunInput :=
  { input with captured := input.captured.shape }

structure ReplayIdentity where
  providerId : Text
  format : Text
  principalDigest : Text
  deriving DecidableEq

structure StoredHistorySelection where
  throughSequence : Nat
  historyDigest : Text
  providerId : Text
  requestedModel : Text
  expectedIdentity : Option ReplayIdentity
  positive : 0 < throughSequence
  bounded : throughSequence ≤ maxInteger
  deriving DecidableEq

def StoredHistorySelection.matchesInput (selection : StoredHistorySelection)
    (input : RecordedRunInput) : Bool :=
  selection.providerId == input.providerId && selection.requestedModel == input.model

structure RecordedProviderBinding where
  runId : RunId
  providerSessionId : Text
  requestedModel : Text
  identity : ReplayIdentity
  deriving DecidableEq

def RecordedProviderBinding.matchesInput (binding : RecordedProviderBinding)
    (input : RecordedRunInput) : Bool :=
  binding.identity.providerId == input.providerId && binding.requestedModel == input.model

inductive AppendRunRecord where
  | providerBinding (binding : RecordedProviderBinding)
  | runtime (event : RunEventEnvelope)
  | toolResult (requestId : Option Text) (callId output : Text) (isError : Bool)
  | result (result : RunResult)
  deriving DecidableEq

def optionalUuid (value : Option Text) : Bool := value.all isCanonicalUuid

def callValid (callId : Text) : Bool := !callId.isEmpty && decide (bytes callId ≤ 512)

def identitiesValid (event : RunEventEnvelope) : Bool :=
  match event.event with
  | .runStarted => event.turnId.isNone && event.sessionId.isNone && event.requestId.isNone
  | .turnStarted _ => event.turnId.isSome && event.sessionId.isSome && event.requestId.isNone
  | .providerEvent provider =>
    event.turnId.isSome && event.sessionId == some provider.sessionId && event.requestId.isSome &&
      event.requestId == provider.requestId
  | .toolEvent _ => event.turnId.isSome && event.sessionId.isSome && event.requestId.isSome
  | .turnFinished .. => event.turnId.isSome && event.sessionId.isSome
  | .runFinished .. => event.turnId.isNone

def versionsSupported (event : RunEventEnvelope) : Bool :=
  event.schemaVersion == 2 &&
    match event.event with
    | .providerEvent provider => provider.schemaVersion == 1
    | _ => true

def validateRuntime (event : RunEventEnvelope) : Result Unit := do
  require (versionsSupported event) .unsupportedVersion
  discard (Uuid.parse event.runId)
  require (event.sequence != 0 && decide (event.sequence ≤ maxInteger) && !event.eventId.isEmpty)
    .invalidInput
  require (identitiesValid event) .invalidTransition

theorem validateRuntime_shape (envelope : RunEventEnvelope) : validateRuntime envelope.shape = validateRuntime envelope := by
  obtain ⟨_, _, _, _, _, _, _, event⟩ := envelope
  cases event <;> rfl

def nestedValid : RunEvent → Bool
  | .providerEvent event => optionalUuid event.requestId
  | .runFinished _ summary => optionalUuid summary.lastRequestId
  | .toolEvent event => callValid event.callId
  | _ => true

namespace AppendRunRecord

def validate : AppendRunRecord → Result Unit
  | .runtime event => validateRuntime event
  | .result final => discard (Uuid.parse final.runId)
  | .toolResult .. | .providerBinding _ => .ok ()

/-- The identity and size bounds of a novel append. -/
def validateAdmission (record : AppendRunRecord) : Result Unit := do
  record.validate
  let valid := match record with
    | .runtime event =>
      isCanonicalUuid event.runId && isCanonicalUuid event.eventId && optionalUuid event.turnId &&
        optionalUuid event.requestId && nestedValid event.event
    | .toolResult requestId callId _ _ => optionalUuid requestId && callValid callId
    | .result final => isCanonicalUuid final.runId && optionalUuid final.summary.lastRequestId
    | .providerBinding _ => true
  require valid .invalidInput

end AppendRunRecord

def openaiCodex : Text := "openai-codex".toList

/-- The extra rules of the one provider whose adapter numbers its own events. -/
def AppendRunRecord.validateProviderAdmission (record : AppendRunRecord) (provider : Text) :
    Result Unit :=
  if provider ≠ openaiCodex then .ok ()
  else match record with
    | .runtime event => do
      match event.event with
      | .providerEvent nested =>
        require (nested.provider == provider) .invalidTransition
        require (isLocalEventId nested.eventId nested.sessionId nested.sequence.toNat) .invalidInput
      | _ => pure ()
      require (optionalUuid event.sessionId) .invalidInput
    | .result final => require (optionalUuid final.sessionId) .invalidInput
    | .providerBinding binding => require (isCanonicalUuid binding.providerSessionId) .invalidInput
    | .toolResult .. => .ok ()

inductive Mutation where
  | accept (input : RecordedRunInput)
  | acceptHistory (input : RecordedRunInput) (selection : StoredHistorySelection)
  | append (records : List AppendRunRecord)
  deriving DecidableEq

inductive Method where
  | acceptRun | acceptHistoryRun | appendRunRecords | rename
  deriving DecidableEq, Repr

def Mutation.method : Mutation → Method
  | .accept _ => .acceptRun
  | .acceptHistory .. => .acceptHistoryRun
  | .append _ => .appendRunRecords

structure CommitReceipt where
  operationId : OperationId
  sessionId : ApplicationSessionId
  runId : Option RunId
  firstSequence : Nat
  lastSequence : Nat
  deriving DecidableEq

/-- `ReceiptFields::try_into`. -/
def CommitReceipt.new (receipt : CommitReceipt) : Result CommitReceipt := do
  require (receipt.firstSequence != 0 && decide (receipt.firstSequence ≤ receipt.lastSequence) &&
    decide (receipt.lastSequence ≤ maxInteger)) .invalidInput
  return receipt

def CommitReceipt.single (operation : OperationId) (session : ApplicationSessionId)
    (sequence : Nat) : Result CommitReceipt :=
  CommitReceipt.new ⟨operation, session, none, sequence, sequence⟩

def CommitReceipt.runBatch (operation : OperationId) (session : ApplicationSessionId)
    (run : RunId) (first last : Nat) : Result CommitReceipt :=
  CommitReceipt.new ⟨operation, session, some run, first, last⟩

structure CreationRequest where
  method : Text
  title : Text
  workspace : Option Text
  deriving DecidableEq

/-- An absolute path without a NUL character. -/
def validateWorkspace (workspace : Option Text) : Result Unit :=
  require (workspace.all fun path => path.head? == some '/' && path.all (· != '\x00')) .invalidInput

structure SessionManifest where
  sessionId : ApplicationSessionId
  title : Text
  workspace : Option Text
  createdAtMs : Nat
  updatedAtMs : Nat
  headSequence : Nat
  deriving DecidableEq

inductive RecordedRunState where
  | accepted | running | completed | failed | cancelledLocally | interrupted
  deriving DecidableEq, Repr

def active (state : RecordedRunState) : Bool := state = .accepted || state = .running

def outcomeState : RunOutcome → RecordedRunState
  | .completed => .completed
  | .failed _ => .failed
  | .cancelledLocally => .cancelledLocally

/-- Identity of a display entry within its run. -/
inductive Source where
  | human
  | assistant (turnId : Text)
  | tool (callId : Text)
  | reuse (sequence slot : Nat)
  | notice (sequence slot : Nat)
  deriving DecidableEq

/-- Every value whose canonical JSON is hashed with SHA-256. -/
inductive HashInput where
  | entry (run : RunId) (source : Source)
  | field (run : RunId) (entry : EntryId) (sourceSpelling : Text)
  | creation (request : CreationRequest)
  | rename (session : ApplicationSessionId) (title : Text)
  | mutation (session : ApplicationSessionId) (run : RunId) (mutation : Mutation)
  deriving DecidableEq

/-- `serde_json::from_str` on the canonical text of a value that embeds arbitrary JSON. A number
may come back as another one, deep nesting is refused, and everything else is read as written. -/
class JsonRead where
  input : RecordedRunInput → Option RecordedRunInput
  runtime : RunEventEnvelope → Option RunEventEnvelope
  result : RunResult → Option RunResult
  input_shape : ∀ written read, input written = some read → read.shape = written.shape
  runtime_shape : ∀ written read, runtime written = some read → read.shape = written.shape
  result_shape : ∀ written read, result written = some read → read.shape = written.shape

/-- The parser on values whose numbers and nesting it keeps. -/
@[reducible] def JsonRead.exact : JsonRead where
  input := some
  runtime := some
  result := some
  input_shape _ _ same := by rw [Option.some.inj same]
  runtime_shape _ _ same := by rw [Option.some.inj same]
  result_shape _ _ same := by rw [Option.some.inj same]

/-- The encodings the store relies on: SHA-256 of the canonical JSON of a value with the digest's
lowercase hexadecimal, the JSON parser and printer, and base 64. -/
class JsonHash extends JsonRead, JsonPrint, Spelling.Base64 where
  Digest : Type
  decEq : DecidableEq Digest
  digest : HashInput → Digest
  hex : Digest → Text
  hex_length : ∀ value, (hex value).length = 64
  hex_lower : ∀ value, (hex value).all lowerHex = true

export JsonHash (Digest digest)

instance [JsonHash] : DecidableEq Digest := JsonHash.decEq

/-- No two hashed values share a digest. -/
def CollisionFree [JsonHash] : Prop := Function.Injective digest

/-- An ideal hash: the digest is the value. -/
@[reducible] def JsonHash.ideal : JsonHash where
  toJsonRead := .exact
  toJsonPrint := Json.written
  toBase64 := .written
  Digest := HashInput
  decEq := inferInstance
  digest := id
  hex _ := List.replicate 64 '0'
  hex_length _ := List.length_replicate
  hex_lower _ := by decide

theorem JsonHash.ideal_collisionFree : @CollisionFree JsonHash.ideal := fun _ _ same => same

end Wi
