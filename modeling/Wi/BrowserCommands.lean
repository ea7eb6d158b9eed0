import Wi.BrowserSse
import Wi.Ids
import Wi.Maps
import Wi.Steps

/-! The commands of the display client: captured once, sent, sent again and looked up, while
subscribers may call any action whenever the client publishes.

A call that waits, for a reply or for its own publication to end, is a task; any task may go on
at any time, which allows every order the event loop and nested publications can produce.
Aborting a waiter only lets its request end as aborted, which may happen at any time. -/
namespace Wi.Browser

structure ReceiptView where
  operationId : Uuid
  sessionId : Uuid
  runId : Option Uuid
  firstSequence : Nat
  lastSequence : Nat
  deriving DecidableEq

inductive NoticeScope where
  | global | project
  deriving DecidableEq

inductive NoticeKind where
  | skippedSymlink | directoryNameMismatch | unsupportedBehavioralMetadata | invalidRoot | readFailed
  | invalidFrontmatter | duplicateSkill | invalidSkillId | unknownSkill | contextChanged | invalidBody
  | invalidRequest | inputTooLarge
  deriving DecidableEq

structure NoticeView where
  scope : NoticeScope
  sourceLabel : Text
  kind : NoticeKind
  deriving DecidableEq

inductive Certainty where
  | notApplicable | notCommitted | unknown
  deriving DecidableEq

/-- The codes the client looks at; every other one by its spelling. -/
inductive ErrorCode where
  | commandConflict | cursorStale | unauthorized
  | other (spelling : Text)
  deriving DecidableEq

structure ServerError where
  code : ErrorCode
  certainty : Certainty
  acceptance : Option ReceiptView
  notices : List NoticeView
  deriving DecidableEq

inductive ClientError where
  | authentication | invalidToken | network | aborted | unsupportedClient | notConnected | invalidAction
  | workspaceForbidden | conflict
  | protocol (detail : ProtocolErrorCategory)
  | http (status : Nat) (server : ServerError)
  deriving DecidableEq

inductive CommandBody where
  | create (title workspace : Text)
  | rename (sessionId : Uuid) (title : Text)
  | task (sessionId runId : Uuid) (text : Text)
  | refresh (sessionId : Uuid)
  deriving DecidableEq

/-- The identity is the operation the body names. -/
structure CapturedCommand where
  id : Uuid
  body : CommandBody
  deriving DecidableEq

inductive Phase where
  | sending | uncertain | rejected | accepted | conflict | reconciling
  deriving DecidableEq

inductive Reply where
  | create (receipt : ReceiptView) (duplicate : Bool) (sessionId : Uuid)
  | rename (receipt : ReceiptView) (duplicate : Bool)
  | refresh (sessionId : Uuid)
  | task (receipt : ReceiptView) (duplicate : Bool) (notices : List NoticeView)
  deriving DecidableEq

inductive Reconciled where
  | notFound | accepted
  deriving DecidableEq

structure DisplayPendingCommand where
  command : CapturedCommand
  phase : Phase
  receipt : Option ReceiptView
  reply : Option Reply
  notices : List NoticeView
  error : Option ClientError
  reconciliation : Option Reconciled
  deriving DecidableEq

/-- The fields of a run that reconciliation compares. -/
structure RunView where
  runId : Uuid
  userText : Text
  deriving DecidableEq

inductive TaskReconciliation where
  | accepted (acceptance : ReceiptView) (run : RunView)
  | notFound
  deriving DecidableEq

/-! ### Validation of replies -/

def validateReceiptView (receipt : ReceiptView) : Except ProtocolErrorCategory ReceiptView :=
  if receipt.firstSequence = 0 ∨ receipt.lastSequence = 0 ∨ receipt.lastSequence < receipt.firstSequence then
    .error .invalidDecimal
  else .ok receipt

def validateReceiptIdentity (receipt : ReceiptView) (sessionId operationId : Uuid) (runId : Option Uuid) :
    Except ProtocolErrorCategory ReceiptView := do
  let receipt ← validateReceiptView receipt
  if receipt.sessionId ≠ sessionId ∨ receipt.operationId ≠ operationId ∨ receipt.runId ≠ runId then
    .error .identityMismatch
  else return receipt

def metadataReceipt (receipt : ReceiptView) : Except ProtocolErrorCategory ReceiptView := do
  let receipt ← validateReceiptView receipt
  if receipt.runId ≠ none ∨ receipt.firstSequence ≠ receipt.lastSequence then .error .identityMismatch
  else return receipt

/-- What `execute` takes from a reply: the receipt, the notices and the session. -/
structure Acknowledgement where
  receipt : Option ReceiptView
  notices : List NoticeView
  sessionId : Uuid

/-- The validators `execute` passes for each kind, and its own checks after them. -/
def readReply (command : CapturedCommand) (status : Nat) (reply : Reply) : Except ClientError Acknowledgement :=
  match command.body, reply with
  | .create .., .create receipt duplicate sessionId => do
    if status ≠ 200 ∧ status ≠ 201 then .error (.protocol .invalidSchema)
    else
      let receipt ← (metadataReceipt receipt).mapError .protocol
      if sessionId ≠ receipt.sessionId then .error (.protocol .identityMismatch)
      else if duplicate ≠ decide (status = 200) ∨ receipt.operationId ≠ command.id ∨ receipt.firstSequence ≠ 1 then
        .error .conflict
      else return ⟨some receipt, [], sessionId⟩
  | .rename sessionId _, .rename receipt _ => do
    if status ≠ 200 then .error (.protocol .invalidSchema)
    else
      let receipt ← (metadataReceipt receipt).mapError .protocol
      return ⟨some (← (validateReceiptIdentity receipt sessionId command.id none).mapError .protocol), [], sessionId⟩
  | .refresh sessionId, .refresh replied =>
    if status ≠ 200 then .error (.protocol .invalidSchema)
    else if replied ≠ sessionId then .error .conflict
    else .ok ⟨none, [], sessionId⟩
  | .task sessionId runId _, .task receipt _ notices => do
    if status ≠ 202 then .error (.protocol .invalidSchema)
    else
      let receipt ← (validateReceiptIdentity receipt sessionId command.id (some runId)).mapError .protocol
      return ⟨some receipt, notices, sessionId⟩
  | _, _ => .error (.protocol .invalidSchema)

def validateTaskReconciliation (command : CapturedCommand) (result : TaskReconciliation) :
    Except ClientError TaskReconciliation :=
  match command.body, result with
  | .task sessionId runId text, .accepted acceptance run => do
    let acceptance ← (validateReceiptView acceptance).mapError .protocol
    if acceptance.sessionId ≠ sessionId ∨ acceptance.operationId ≠ command.id ∨ acceptance.runId ≠ some runId ∨
        run.runId ≠ runId ∨ run.userText ≠ text then .error (.protocol .identityMismatch)
    else return .accepted acceptance run
  | _, .notFound => .ok .notFound
  | _, .accepted .. => .error (.protocol .invalidSchema)

/-! ### One pending command -/

def mergeNotices (previous incoming : List NoticeView) : List NoticeView :=
  incoming.foldl (fun result notice => if notice ∈ result then result else result ++ [notice]) previous

namespace ClientError

/-- A server error that says whether the command was committed. -/
def definite : ClientError → Bool
  | .http _ server => server.certainty ≠ .unknown
  | _ => false

def commandConflict : ClientError → Bool
  | .http _ server => server.code = .commandConflict
  | _ => false

def incoming : ClientError → List NoticeView
  | .http _ server => server.notices
  | _ => []

end ClientError

namespace DisplayPendingCommand

/-- The receipt an error reply to a task may carry, and the failure it leaves. -/
def acceptanceOf (item : DisplayPendingCommand) (cause : ClientError) : ClientError × Option ReceiptView :=
  match cause, item.command.body with
  | .http _ server, .task sessionId runId _ =>
    match server.acceptance with
    | none => (cause, item.receipt)
    | some acceptance =>
      match validateReceiptIdentity acceptance sessionId item.command.id (some runId) with
      | .error _ => (.conflict, item.receipt)
      | .ok actual =>
        if item.receipt ≠ none ∧ item.receipt ≠ some actual then (.conflict, item.receipt) else (cause, some actual)
  | _, _ => (cause, item.receipt)

def commandFailure (item : DisplayPendingCommand) (cause : ClientError) (readOnlyPhase : Option Phase)
    (uncertainBefore : Bool) : DisplayPendingCommand :=
  let (failure, receipt) := item.acceptanceOf cause
  -- A failed read changes diagnostics, not what we know about the original write.
  let phase :=
    if item.phase = .accepted ∨ receipt ≠ none then .accepted
    else if readOnlyPhase = none ∧ failure.definite ∧ !uncertainBefore then .rejected
    else readOnlyPhase.getD .uncertain
  { item with
    phase := if item.phase = .conflict ∨ failure = .conflict ∨ failure.commandConflict then .conflict else phase
    receipt := receipt
    notices := mergeNotices item.notices cause.incoming
    error := some failure }

/-- The item once accepted, or the conflict `accepted` throws. -/
def accepted (item : DisplayPendingCommand) (receipt : Option ReceiptView) (reply : Option Reply)
    (incoming : List NoticeView) : Except ClientError DisplayPendingCommand :=
  if item.phase = .conflict ∨ (item.receipt ≠ none ∧ item.receipt ≠ receipt) then .error .conflict
  else .ok { item with
    phase := .accepted, receipt := receipt, reply := reply, notices := mergeNotices item.notices incoming, error := none }

end DisplayPendingCommand

/-- A request for the same thing that is not decided yet stops another one. -/
def CommandBody.sameRequest : CommandBody → CommandBody → Bool
  | .task sessionId .., .task other .. => sessionId = other
  | .refresh sessionId, .refresh other => sessionId = other
  | .create title workspace, .create other place => title = other && workspace = place
  | .rename sessionId title, .rename other name => sessionId = other && title = name
  | _, _ => false

/-! ### The client -/

structure Stamp where
  connection : Nat
  selection : Nat
  observation : Nat
  deriving DecidableEq

/-- Where a call of `execute` or `reconcileTask` waits. -/
inductive Stage where
  /-- for the reply to the command, captured in the given phase -/
  | sending (before : Phase)
  /-- for the publication of its acceptance -/
  | acknowledged (sessionId : Uuid)
  /-- for the session read that follows -/
  | manifest
  /-- for the reply to the look-up, started in the given phase -/
  | reconciling (before : Phase)
  /-- for the publication of the acceptance it found -/
  | reconciled
  deriving DecidableEq

/-- A waiting call with its `AbortController` and the stamp taken when it began. -/
structure Waiting where
  control : Nat
  id : Uuid
  stamp : Stamp
  stage : Stage
  deriving DecidableEq

structure Client where
  connected : Bool
  stamp : Stamp
  selected : Option Uuid
  draft : Text
  pending : Map Uuid DisplayPendingCommand
  waiters : Map Uuid Nat
  tasks : List Waiting
  /-- identifiers `crypto.randomUUID` has given out -/
  issued : List Uuid
  /-- controllers made so far -/
  controls : Nat

namespace Client

def new : Client := ⟨false, ⟨0, 0, 0⟩, none, [], [], [], [], [], 0⟩

def clear (s : Client) : Client :=
  { s with
    connected := false, selected := none, draft := [], pending := [], waiters := []
    stamp := ⟨s.stamp.connection + 1, s.stamp.selection + 1, s.stamp.observation + 1⟩ }

def selectSession (s : Client) (sessionId : Uuid) : Client :=
  if s.connected then
    { s with
      selected := some sessionId, draft := []
      stamp := ⟨s.stamp.connection, s.stamp.selection + 1, s.stamp.observation + 1⟩ }
  else s

def reconnectLatest (s : Client) : Client :=
  if s.connected ∧ s.selected.isSome then
    { s with stamp := ⟨s.stamp.connection, s.stamp.selection, s.stamp.observation + 1⟩ }
  else s

def setDraft (s : Client) (text : Text) : Client :=
  if s.connected ∧ s.selected.isSome then { s with draft := text } else s

def duplicate (s : Client) (body : CommandBody) : Bool :=
  s.pending.values.any fun item =>
    item.command.body.sameRequest body && item.phase ≠ .accepted && item.phase ≠ .rejected

/-- The start of `execute` and `reconcileTask`: a new waiter, and the phase published. -/
def start (s : Client) (id : Uuid) (item : DisplayPendingCommand) (phase : Phase) (stage : Stage) : Client :=
  { s with
    pending := s.pending.set id { item with phase := phase, error := none }
    waiters := s.waiters.set id s.controls
    tasks := s.tasks ++ [⟨s.controls, id, s.stamp, stage⟩]
    controls := s.controls + 1 }

/-- An accepted or conflicting command is reported as an invalid action. -/
def execute (s : Client) (id : Uuid) : Client :=
  match s.pending.get id, s.waiters.get id with
  | some item, none =>
    if item.phase = .accepted ∨ item.phase = .conflict then s else s.start id item .sending (.sending item.phase)
  | _, _ => s

def capture (s : Client) (command : CapturedCommand) : Client :=
  execute { s with
    pending := s.pending.set command.id ⟨command, .sending, none, none, [], none, none⟩
    issued := command.id :: s.issued } command.id

def reconcileTask (s : Client) (id : Uuid) : Client :=
  match s.pending.get id, s.waiters.get id with
  | some item, none =>
    match item.command.body with
    | .task .. =>
      if item.phase = .conflict ∨ !s.connected then s else s.start id item .reconciling (.reconciling item.phase)
    | _ => s
  | _, _ => s

def discardCommand (s : Client) (id : Uuid) : Client := { s with pending := s.pending.delete id }

/-- `valid()`, for the item it finds. -/
def held (s : Client) (task : Waiting) : Option DisplayPendingCommand :=
  if task.stamp.connection = s.stamp.connection ∧ s.waiters.get task.id = some task.control then s.pending.get task.id
  else none

/-- `finally`. -/
def finish (s : Client) (task : Waiting) : Client :=
  { s with
    tasks := s.tasks.filter (·.control ≠ task.control)
    waiters := if s.waiters.get task.id = some task.control then s.waiters.delete task.id else s.waiters }

def keep (s : Client) (id : Uuid) (item : DisplayPendingCommand) : Client :=
  { s with pending := s.pending.set id item }

/-- The call goes on waiting somewhere else. -/
def advance (s : Client) (task : Waiting) (stage : Stage) : Client :=
  { s with tasks := s.tasks.map fun other => if other.control = task.control then { other with stage := stage } else other }

/-- Whether acceptance empties the draft. -/
def consumes (s : Client) (task : Waiting) (item : DisplayPendingCommand) : Bool :=
  match item.command.body with
  | .task sessionId _ text =>
    task.stamp = s.stamp && s.selected = some sessionId && s.draft = text && item.phase ≠ .accepted
  | _ => false

def accept (s : Client) (task : Waiting) (item : DisplayPendingCommand) (receipt : Option ReceiptView)
    (reply : Option Reply) (incoming : List NoticeView) : Except ClientError Client := do
  let accepted ← item.accepted receipt reply incoming
  return { s.keep task.id accepted with draft := if s.consumes task item then [] else s.draft }

/-- `execute` after its reply. -/
def replied (s : Client) (task : Waiting) (before : Phase) (outcome : Except ClientError (Nat × Reply)) : Client :=
  match s.held task with
  | none => s.finish task
  | some item =>
    let result := do
      let (status, reply) ← outcome
      let acknowledged ← readReply item.command status reply
      let s ← s.accept task item acknowledged.receipt (some reply) acknowledged.notices
      return s.advance task (.acknowledged acknowledged.sessionId)
    match result with
    | .ok s => s
    | .error cause => (s.keep task.id (item.commandFailure cause none (before = .uncertain))).finish task

/-- `reconcileTask` after its reply. -/
def lookedUp (s : Client) (task : Waiting) (before : Phase) (outcome : Except ClientError TaskReconciliation) : Client :=
  match s.held task with
  | none => s.finish task
  | some latest =>
    let result := do
      match ← validateTaskReconciliation latest.command (← outcome) with
      | .notFound =>
        -- Point-in-time absence cannot revoke a known receipt or prove an unknown write rolled back.
        let phase : Phase := if latest.receipt ≠ none then .accepted else before
        return (s.keep task.id { latest with phase := phase, reconciliation := some .notFound }).finish task
      | .accepted acceptance _ =>
        let s ← s.accept task latest (some acceptance) latest.reply []
        return s.advance task .reconciled
    match result with
    | .ok s => s
    | .error cause => (s.keep task.id (latest.commandFailure cause (some before) false)).finish task

/-- A call goes on after the publication of an acceptance. -/
def proceeds (s : Client) (task : Waiting) : Client :=
  match s.held task, task.stage with
  | some item, .acknowledged sessionId =>
    match item.command.body with
    | .task .. => s.finish task
    | _ => if task.stamp = s.stamp ∧ s.selected = some sessionId then s.advance task .manifest else s.finish task
  | some item, .reconciled => (s.keep task.id { item with reconciliation := some .accepted }).finish task
  | _, _ => s.finish task

/-- `execute` after the session read. -/
def manifestRead (s : Client) (task : Waiting) : Except ClientError Unit → Client
  | .ok () => s.finish task
  | .error cause =>
    match s.held task with
    | some item =>
      if task.stamp = s.stamp then
        (s.keep task.id (item.commandFailure cause (some .accepted) false)).finish task
      else s.finish task
    | none => s.finish task

end Client

inductive ClientAction where
  | clear
  | connected
  | selectSession (sessionId : Uuid)
  | reconnectLatest
  | setDraft (text : Text)
  | createSession (id : Uuid) (title workspace : Text)
  | renameSession (id : Uuid) (title : Text)
  | refreshCatalog (id : Uuid)
  | sendTask (id runId : Uuid)
  | retryCommand (id : Uuid)
  | reconcileTask (id : Uuid)
  | discardCommand (id : Uuid)
  | replied (control : Nat) (outcome : Except ClientError (Nat × Reply))
  | lookedUp (control : Nat) (outcome : Except ClientError TaskReconciliation)
  | manifestRead (control : Nat) (outcome : Except ClientError Unit)
  | proceeds (control : Nat)

namespace Client

/-- A request the user makes: nothing when it repeats one that is not decided yet. -/
def request (s : Client) (id : Uuid) (body : CommandBody) : Option Client :=
  if id ∈ s.issued then none else if s.duplicate body then some s else some (s.capture ⟨id, body⟩)

/-- A request of the selected session. -/
def requestSelected (s : Client) (id : Uuid) (body : Uuid → CommandBody) : Option Client :=
  match s.connected, s.selected with
  | true, some sessionId => s.request id (body sessionId)
  | _, _ => some s

def task (s : Client) (control : Nat) : Option Waiting := s.tasks.find? (·.control = control)

def step (s : Client) : ClientAction → Option Client
  | .clear => some s.clear
  | .connected => some { s with connected := true }
  | .selectSession sessionId => some (s.selectSession sessionId)
  | .reconnectLatest => some s.reconnectLatest
  | .setDraft text => some (s.setDraft text)
  | .createSession id title workspace => if s.connected then s.request id (.create title workspace) else some s
  | .renameSession id title => s.requestSelected id fun sessionId => .rename sessionId title
  | .refreshCatalog id => s.requestSelected id .refresh
  | .sendTask id runId => s.requestSelected id fun sessionId => .task sessionId runId s.draft
  | .retryCommand id => some (if s.connected then s.execute id else s)
  | .reconcileTask id => some (s.reconcileTask id)
  | .discardCommand id => some (s.discardCommand id)
  | .replied control outcome => do
    let task ← s.task control
    match task.stage with
    | .sending before => some (s.replied task before outcome)
    | _ => none
  | .lookedUp control outcome => do
    let task ← s.task control
    match task.stage with
    | .reconciling before => some (s.lookedUp task before outcome)
    | _ => none
  | .manifestRead control outcome => do
    let task ← s.task control
    match task.stage with
    | .manifest => some (s.manifestRead task outcome)
    | _ => none
  | .proceeds control => do
    let task ← s.task control
    match task.stage with
    | .acknowledged _ | .reconciled => some (s.proceeds task)
    | _ => none

end Client
end Wi.Browser
