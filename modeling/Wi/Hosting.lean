import Wi.Ids
import Wi.Steps

/-! In-process execution ownership and the storage lease beneath it, as a system of tasks. One
step is one section under a lock, or one publication. -/
namespace Wi.Hosting

/-! ### The storage lease -/

/-- A forgotten lease stays with the process until it exits. -/
inductive Lease where
  | held | released | forgotten
  deriving DecidableEq

/-- `guards` are the operations in flight and `handles` the other references to the lifecycle. -/
structure Storage where
  lease : Lease
  admitted : Nat
  closing : Bool
  unhealthy : Bool
  guards : List Nat
  issued : Nat
  handles : Nat
  deriving DecidableEq

namespace Storage

def opened (handles : Nat) : Storage := ⟨.held, 0, false, false, [], 0, handles⟩

def referenced (s : Storage) : Bool := decide (0 < s.handles) || !s.guards.isEmpty

/-- An admission is refused once closing has begun, or when the count would overflow. -/
def admission (s : Storage) : Storage :=
  if s.closing then s
  else if s.admitted + 1 < 2 ^ 64 then
    { s with admitted := s.admitted + 1, guards := s.guards ++ [s.issued], issued := s.issued + 1 }
  else s

def quarantine (s : Storage) : Storage := { s with closing := true, unhealthy := true }

/-- `unlocked` is what the operating system answers. -/
def releaseLease (s : Storage) (unlocked : Bool) : Storage × Result Unit :=
  match s.lease with
  | .held => if unlocked then ({ s with lease := .released }, .ok ()) else ({ s with unhealthy := true }, .error .io)
  | _ => (s, .ok ())

/-- One poll of `close`; it waits while operations are admitted. -/
def close (s : Storage) (unlocked : Bool) : Storage × Option (Result Unit) :=
  let s := { s with closing := true }
  if s.admitted = 0 then
    if s.unhealthy then (s, some (.error .io))
    else ((s.releaseLease unlocked).1, some (s.releaseLease unlocked).2)
  else (s, none)

/-- The lifecycle goes with its last reference. Closing the file releases the lease, unless work
may still be unfinished. -/
def reclaim (s : Storage) : Storage :=
  if s.referenced then s
  else match s.lease with
    | .held => { s with lease := if s.unhealthy then .forgotten else .released }
    | _ => s

/-- A dropped guard that was not finished cannot prove that its work has stopped. -/
def dropGuard (s : Storage) (guard : Nat) (finished unlocked : Bool) : Storage :=
  let s := if finished then s else { s with closing := true, unhealthy := true }
  let s := { s with admitted := s.admitted - 1, guards := s.guards.erase guard }
  let s := if s.admitted = 0 && s.closing && !s.unhealthy then (s.releaseLease unlocked).1 else s
  s.reclaim

def cloneHandle (s : Storage) : Storage := { s with handles := s.handles + 1 }

def dropHandle (s : Storage) : Storage := { s with handles := s.handles - 1 }.reclaim

end Storage

/-! ### The host -/

inductive RunCompletion (ρ : Type) where
  | execution (result : ρ)
  | sessionOpenFailed (error : StorageError)
  | workerLost
  deriving DecidableEq

inductive ShutdownOutcome where
  | closed
  | incomplete (workerLost : Bool) (storageError : Option StorageErrorKind)
  deriving DecidableEq

structure Ticket (γ ρ : Type) where
  acceptance : Option γ
  completion : Option (RunCompletion ρ)
  deriving DecidableEq

namespace Ticket
variable {γ ρ : Type}

def new : Ticket γ ρ := ⟨none, none⟩

def publishAcceptance (ticket : Ticket γ ρ) (commit : γ) : Ticket γ ρ :=
  if ticket.acceptance.isNone && ticket.completion.isNone then { ticket with acceptance := some commit } else ticket

def publishCompletion (ticket : Ticket γ ρ) (completion : RunCompletion ρ) : Ticket γ ρ :=
  if ticket.completion.isNone then { ticket with completion := some completion } else ticket

end Ticket

/-- Where the worker of a dispatch is: running its job, or in `finish` after the gate, after the
publication and at its end; it is gone once the tracker's token is dropped with the future. -/
inductive Phase (ρ : Type) where
  | running
  | retired (completion : RunCompletion ρ) (start : Bool)
  | published (start : Bool)
  | ended
  | gone
  deriving DecidableEq

/-- `publications` counts the calls that published a completion. -/
structure Worker (γ ρ : Type) where
  phase : Phase ρ
  ticket : Ticket γ ρ
  publications : Nat

structure Entry where
  sessionId : Text
  operationId : Text
  runId : Text
  cancelled : Bool
  deriving DecidableEq

structure Gate where
  closing : Bool
  workerLost : Bool
  entries : List (Nat × Entry)

def Gate.hasOtherOperation (gate : Gate) (sessionId operationId : Text) : Bool :=
  gate.entries.any fun entry => entry.2.sessionId == sessionId && entry.2.operationId != operationId

/-- Where a shutdown coordinator is: waiting for the tracker, closing storage, having its answer,
having decided, dropped without an outcome, or over. -/
inductive Coordinator where
  | draining
  | closing
  | closed (storageError : Option StorageErrorKind)
  | decided (outcome : ShutdownOutcome)
  | lost
  | done
  deriving DecidableEq

/-- `owned` says that the host value itself exists, and `spawning` counts the shutdowns begun whose
coordinator is not spawned yet. -/
structure State (γ ρ : Type) where
  owned : Bool
  gate : Gate
  registered : List Nat
  workers : Nat → Worker γ ρ
  trackerClosed : Bool
  cancelled : Bool
  spawning : Nat
  coordinators : List Coordinator
  shutdown : Option ShutdownOutcome
  storage : Storage

inductive Action (γ ρ : Type) where
  | register (dispatch : Nat) (entry : Entry) (exclusive : Bool)
  | cancel (sessionId runId : Text)
  | accept (dispatch : Nat) (commit : γ)
  | complete (dispatch : Nat) (completion : RunCompletion ρ)
  | panic (dispatch : Nat)
  | dropWorker (dispatch : Nat)
  | publish (dispatch : Nat)
  | start (dispatch : Nat)
  | release (dispatch : Nat)
  | beginShutdown
  | dropHost
  | spawn
  | drained (coordinator : Nat)
  | closeStore (coordinator : Nat) (unlocked : Bool)
  | decide (coordinator : Nat)
  | report (coordinator : Nat)
  | lose (coordinator : Nat)
  | admission
  | finishGuard (guard : Nat) (unlocked : Bool)
  | dropGuard (guard : Nat) (unlocked : Bool)
  | quarantine
  | close (unlocked : Bool)
  | cloneHandle
  | dropHandle

/-- A guard goes without having been finished, or storage is quarantined. -/
def Action.taints {γ ρ : Type} : Action γ ρ → Bool
  | .dropGuard .. | .quarantine => true
  | _ => false

namespace State
variable {γ ρ : Type}

def new (handles : Nat) : State γ ρ where
  owned := true
  gate := ⟨false, false, []⟩
  registered := []
  workers _ := ⟨.running, .new, 0⟩
  trackerClosed := false
  cancelled := false
  spawning := 0
  coordinators := []
  shutdown := none
  storage := .opened (handles + 1)

def gone (s : State γ ρ) (dispatch : Nat) : Bool :=
  match (s.workers dispatch).phase with
  | .gone => true
  | _ => false

def allGone (s : State γ ρ) : Bool := s.registered.all s.gone

/-- The host is referenced by its value, by live workers and by coordinators. -/
def live (s : State γ ρ) : Bool :=
  s.owned || !s.allGone || decide (0 < s.spawning) || s.coordinators.any (· != .done)

def setWorker (s : State γ ρ) (dispatch : Nat) (worker : Worker γ ρ) : State γ ρ :=
  { s with workers := Function.update s.workers dispatch worker }

def setPhase (s : State γ ρ) (dispatch : Nat) (phase : Phase ρ) : State γ ρ :=
  s.setWorker dispatch { s.workers dispatch with phase := phase }

/-- Registration, not spawning, holds back the drain: the future is tracked under the gate. -/
def register (s : State γ ρ) (dispatch : Nat) (entry : Entry) (exclusive : Bool) : State γ ρ :=
  if s.gate.closing then s
  else if exclusive && s.gate.hasOtherOperation entry.sessionId entry.operationId then s
  else { s.setWorker dispatch ⟨.running, .new, 0⟩ with
    gate := { s.gate with entries := s.gate.entries ++ [(dispatch, entry)] }
    registered := s.registered ++ [dispatch] }

def cancel (s : State γ ρ) (sessionId runId : Text) : State γ ρ :=
  if s.gate.closing then s
  else
    let marked := s.gate.entries.map fun (dispatch, entry) =>
      if entry.sessionId == sessionId && entry.runId == runId then (dispatch, { entry with cancelled := true })
      else (dispatch, entry)
    { s with gate := { s.gate with entries := marked } }

def closeGate (s : State γ ρ) : State γ ρ × Bool :=
  if s.gate.closing then (s, false)
  else ({ s with gate := { s.gate with closing := true }, cancelled := true, trackerClosed := true }, true)

/-- A lost worker closes the gate, and starts the shutdown if it is the first to do so. -/
def markLost (s : State γ ρ) : State γ ρ × Bool := closeGate { s with gate := { s.gate with workerLost := true } }

/-- The section of `finish` under the gate. -/
def finish [DecidableEq ρ] (s : State γ ρ) (dispatch : Nat) (completion : RunCompletion ρ) : State γ ρ :=
  let marked := if completion = .workerLost then s.markLost else (s, false)
  let entries := marked.1.gate.entries.filter fun entry => entry.1 != dispatch
  setPhase { marked.1 with gate := { marked.1.gate with entries := entries } } dispatch (.retired completion marked.2)

def publish (s : State γ ρ) (dispatch : Nat) (completion : RunCompletion ρ) (start : Bool) : State γ ρ :=
  let worker := s.workers dispatch
  s.setWorker dispatch ⟨.published start, worker.ticket.publishCompletion completion, worker.publications + 1⟩

def beginShutdown (s : State γ ρ) : State γ ρ :=
  if s.closeGate.2 then { s.closeGate.1 with spawning := s.spawning + 1 } else s.closeGate.1

def spawnShutdown (s : State γ ρ) : State γ ρ := { s with coordinators := s.coordinators ++ [.draining] }

def setCoordinator (s : State γ ρ) (coordinator : Nat) (phase : Coordinator) : State γ ρ :=
  { s with coordinators := s.coordinators.set coordinator phase }

/-- One poll of the storage close of a coordinator. -/
def closeStore (s : State γ ρ) (coordinator : Nat) (unlocked : Bool) : State γ ρ :=
  let polled := s.storage.close unlocked
  let s := { s with storage := polled.1 }
  match polled.2 with
  | none => s
  | some (.ok ()) => s.setCoordinator coordinator (.closed none)
  | some (.error error) => s.setCoordinator coordinator (.closed (some error))

def outcome (s : State γ ρ) (storageError : Option StorageErrorKind) : ShutdownOutcome :=
  if s.gate.workerLost || storageError.isSome then .incomplete s.gate.workerLost storageError else .closed

def report (s : State γ ρ) (coordinator : Nat) (outcome : ShutdownOutcome) : State γ ρ :=
  { s.setCoordinator coordinator .done with shutdown := s.shutdown.or (some outcome) }

def onStorage (s : State γ ρ) (enabled : Bool) (change : Storage → Storage) : Option (State γ ρ) :=
  if enabled then some { s with storage := change s.storage } else none

/-- An action that its task cannot take in a state has no next state. Dispatch ids are unique. -/
def step [DecidableEq ρ] (s : State γ ρ) : Action γ ρ → Option (State γ ρ)
  | .register dispatch entry exclusive =>
    if dispatch ∈ s.registered then none
    else if s.live then some (s.register dispatch entry exclusive) else some s
  | .cancel sessionId runId => if s.live then some (s.cancel sessionId runId) else some s
  | .accept dispatch commit =>
    if dispatch ∈ s.registered then
      match s.workers dispatch with
      | ⟨.running, ticket, publications⟩ =>
        some (s.setWorker dispatch ⟨.running, ticket.publishAcceptance commit, publications⟩)
      | _ => none
    else none
  | .complete dispatch completion =>
    if dispatch ∈ s.registered ∧ completion ≠ .workerLost then
      match (s.workers dispatch).phase with
      | .running => some (s.finish dispatch completion)
      | _ => none
    else none
  | .panic dispatch | .dropWorker dispatch =>
    if dispatch ∈ s.registered then
      match (s.workers dispatch).phase with
      | .running => some (s.finish dispatch .workerLost)
      | _ => none
    else none
  | .publish dispatch =>
    if dispatch ∈ s.registered then
      match (s.workers dispatch).phase with
      | .retired completion start => some (s.publish dispatch completion start)
      | _ => none
    else none
  | .start dispatch =>
    if dispatch ∈ s.registered then
      match (s.workers dispatch).phase with
      | .published start => some ((if start then s.spawnShutdown else s).setPhase dispatch .ended)
      | _ => none
    else none
  | .release dispatch =>
    if dispatch ∈ s.registered then
      match (s.workers dispatch).phase with
      | .ended => some (s.setPhase dispatch .gone)
      | _ => none
    else none
  | .beginShutdown => if s.owned then some s.beginShutdown else none
  | .dropHost => if s.owned then some { s.beginShutdown with owned := false } else none
  | .spawn => if 0 < s.spawning then some { s.spawnShutdown with spawning := s.spawning - 1 } else none
  | .drained coordinator =>
    match s.coordinators[coordinator]? with
    | some .draining =>
      if s.trackerClosed && s.allGone then some (s.setCoordinator coordinator .closing) else none
    | _ => none
  | .closeStore coordinator unlocked =>
    match s.coordinators[coordinator]? with
    | some .closing =>
      -- the coordinator holds the host, and with it a handle
      if s.storage.referenced then some (s.closeStore coordinator unlocked) else none
    | _ => none
  | .decide coordinator =>
    match s.coordinators[coordinator]? with
    | some (.closed error) => some (s.setCoordinator coordinator (.decided (s.outcome error)))
    | _ => none
  | .report coordinator =>
    match s.coordinators[coordinator]? with
    | some (.decided outcome) => some (s.report coordinator outcome)
    | some .lost => some (s.report coordinator (.incomplete true none))
    | _ => none
  | .lose coordinator =>
    -- a dropped or panicking coordinator first marks the loss under the gate
    match s.coordinators[coordinator]? with
    | some .draining | some .closing | some (.closed _) =>
      some { s.setCoordinator coordinator .lost with gate := { s.gate with workerLost := true } }
    | _ => none
  | .admission => s.onStorage s.storage.referenced .admission
  | .finishGuard guard unlocked => s.onStorage (s.storage.guards.contains guard) (·.dropGuard guard true unlocked)
  | .dropGuard guard unlocked => s.onStorage (s.storage.guards.contains guard) (·.dropGuard guard false unlocked)
  | .quarantine => s.onStorage s.storage.referenced .quarantine
  | .close unlocked => s.onStorage s.storage.referenced fun storage => (storage.close unlocked).1
  | .cloneHandle => s.onStorage s.storage.referenced .cloneHandle
  | .dropHandle =>
    -- the host keeps one handle while it is referenced
    s.onStorage (decide ((if s.live then 1 else 0) < s.storage.handles)) .dropHandle

end State
end Wi.Hosting
