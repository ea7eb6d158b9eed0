import Wi.Hosting

/-! Whatever the tasks do and however they interleave, a shutdown that reports closed has drained
its workers and released the lease. -/
namespace Wi.Hosting

/-! ### What no step takes back -/

namespace Storage

/-- Closing, ill health and a released lease are final, and closing admits nothing. -/
structure Later (s t : Storage) : Prop where
  released : s.lease = .released → t.lease = .released
  closing : s.closing = true → t.closing = true
  unhealthy : s.unhealthy = true → t.unhealthy = true
  issued : s.closing = true → t.issued = s.issued

variable {s t u : Storage}

theorem Later.refl (s : Storage) : Later s s := ⟨id, id, id, fun _ => rfl⟩

theorem Later.trans (first : Later s t) (second : Later t u) : Later s u where
  released held := second.released (first.released held)
  closing held := second.closing (first.closing held)
  unhealthy held := second.unhealthy (first.unhealthy held)
  issued held := (second.issued (first.closing held)).trans (first.issued held)

/-- The count is that of the live guards, and a forgotten lease is out of reach. -/
structure Sound (s : Storage) : Prop where
  admitted : s.admitted = s.guards.length
  forgotten : s.lease = .forgotten → s.referenced = false

theorem Sound.reachable (sound : s.Sound) (referenced : s.referenced = true) : s.lease ≠ .forgotten := by
  intro forgotten
  rw [sound.forgotten forgotten] at referenced
  cases referenced

/-- The lease goes only from a healthy storage with no admitted operation that is closing or out
of reach. -/
def ReleasesSafely (s t : Storage) : Prop :=
  s.lease = .held → t.lease = .released →
    t.unhealthy = false ∧ t.admitted = 0 ∧ (t.closing = true ∨ t.referenced = false)

/-- What a task can do to storage in one section. -/
inductive Step (s : Storage) : Storage → Prop where
  | same : Step s s
  | admission (referenced : s.referenced = true) : Step s s.admission
  | quarantine : Step s s.quarantine
  | close (referenced : s.referenced = true) (unlocked : Bool) : Step s (s.close unlocked).1
  | dropGuard {guard : Nat} (inside : guard ∈ s.guards) (finished unlocked : Bool) :
      Step s (s.dropGuard guard finished unlocked)
  | cloneHandle (referenced : s.referenced = true) : Step s s.cloneHandle
  | dropHandle (positive : 0 < s.handles) : Step s s.dropHandle

theorem Step.later (step : Step s t) : s.Later t := by
  cases step with
  | same => exact .refl s
  | admission => constructor <;> grind [Storage.admission]
  | quarantine => exact ⟨id, fun _ => rfl, fun _ => rfl, fun _ => rfl⟩
  | close _ unlocked => constructor <;> grind [Storage.close, releaseLease]
  | dropGuard _ finished unlocked => constructor <;> grind [Storage.dropGuard, releaseLease, reclaim]
  | cloneHandle => exact ⟨id, id, id, fun _ => rfl⟩
  | dropHandle => constructor <;> grind [Storage.dropHandle, reclaim]

theorem Step.sound (step : Step s t) (sound : s.Sound) : t.Sound := by
  obtain ⟨admitted, forgotten⟩ := sound
  cases step with
  | same | quarantine => exact ⟨admitted, forgotten⟩
  | admission => constructor <;> grind [Storage.admission]
  | close => constructor <;> grind [Storage.close, releaseLease]
  | dropGuard => constructor <;> grind [Storage.dropGuard, releaseLease, reclaim, referenced]
  | cloneHandle => constructor <;> grind [Storage.cloneHandle]
  | dropHandle => constructor <;> grind [Storage.dropHandle, reclaim, referenced]

theorem Step.releases (step : Step s t) (sound : s.Sound) : s.ReleasesSafely t := by
  obtain ⟨admitted, -⟩ := sound
  intro held released
  cases step with
  | same => grind
  | admission => grind [Storage.admission]
  | quarantine => grind [Storage.quarantine]
  | close => grind [Storage.close, releaseLease]
  | @dropGuard guard inside finished unlocked =>
    have count := List.length_erase_of_mem inside
    cases finished <;> grind [Storage.dropGuard, releaseLease, reclaim, referenced]
  | cloneHandle => grind [Storage.cloneHandle]
  | dropHandle => grind [Storage.dropHandle, reclaim, referenced]

end Storage

variable {γ ρ : Type}

/-- A worker that is gone stays as it is, and what its ticket has published stays. -/
structure Worker.Keeps (one two : Worker γ ρ) : Prop where
  gone : one.phase = .gone → two = one
  accepted : ∀ commit, one.ticket.acceptance = some commit → two.ticket.acceptance = some commit
  completed : ∀ completion, one.ticket.completion = some completion → two.ticket.completion = some completion

theorem Worker.Keeps.refl (worker : Worker γ ρ) : worker.Keeps worker := ⟨fun _ => rfl, fun _ => id, fun _ => id⟩

theorem Worker.Keeps.trans {one two three : Worker γ ρ} (first : one.Keeps two) (second : two.Keeps three) :
    one.Keeps three where
  gone left := by
    have same := first.gone left
    rw [← same] at left
    exact (second.gone left).trans same
  accepted commit found := second.accepted commit (first.accepted commit found)
  completed completion found := second.completed completion (first.completed completion found)

structure State.Later (s t : State γ ρ) : Prop where
  closing : s.gate.closing = true → t.gate.closing = true
  lost : s.gate.workerLost = true → t.gate.workerLost = true
  kept : ∀ dispatch ∈ s.registered, dispatch ∈ t.registered
  registered : s.gate.closing = true → t.registered = s.registered
  workers : ∀ dispatch ∈ s.registered, (s.workers dispatch).Keeps (t.workers dispatch)
  shutdown : ∀ outcome, s.shutdown = some outcome → t.shutdown = some outcome
  storage : s.storage.Later t.storage

variable {dispatch : Nat} {gate : Gate} {storage : Storage}

namespace State
variable {s t u : State γ ρ}

theorem Later.refl (s : State γ ρ) : s.Later s :=
  ⟨id, id, fun _ => id, fun _ => rfl, fun _ _ => .refl _, fun _ => id, .refl _⟩

theorem Later.trans (first : s.Later t) (second : t.Later u) : s.Later u where
  closing held := second.closing (first.closing held)
  lost held := second.lost (first.lost held)
  kept dispatch inside := second.kept dispatch (first.kept dispatch inside)
  registered held := (second.registered (first.closing held)).trans (first.registered held)
  workers dispatch inside := (first.workers dispatch inside).trans (second.workers dispatch (first.kept dispatch inside))
  shutdown outcome found := second.shutdown outcome (first.shutdown outcome found)
  storage := first.storage.trans second.storage

theorem setWorker_workers (s : State γ ρ) (dispatch other : Nat) (worker : Worker γ ρ) :
    (s.setWorker dispatch worker).workers other = if other = dispatch then worker else s.workers other :=
  Function.update_apply ..

theorem later_setWorker {worker : Worker γ ρ} (keeps : (s.workers dispatch).Keeps worker) :
    s.Later (s.setWorker dispatch worker) := by
  constructor <;> grind [setWorker, setWorker_workers, Worker.Keeps.refl, Storage.Later.refl]

theorem later_setPhase {phase : Phase ρ} (here : (s.workers dispatch).phase ≠ .gone) :
    s.Later (s.setPhase dispatch phase) :=
  later_setWorker ⟨fun gone => absurd gone here, fun _ => id, fun _ => id⟩

theorem later_closeGate (s : State γ ρ) : s.Later s.closeGate.1 := by
  constructor <;> grind [closeGate, Worker.Keeps.refl, Storage.Later.refl]

theorem later_register (s : State γ ρ) (new : dispatch ∉ s.registered) (entry : Entry) (exclusive : Bool) :
    s.Later (s.register dispatch entry exclusive) := by
  unfold register
  split_ifs
  · exact .refl s
  · exact .refl s
  · constructor <;> grind [setWorker, setWorker_workers, Worker.Keeps.refl, Storage.Later.refl]

theorem later_gate (closing : s.gate.closing = true → gate.closing = true)
    (lost : s.gate.workerLost = true → gate.workerLost = true) : s.Later { s with gate := gate } :=
  ⟨closing, lost, fun _ => id, fun _ => rfl, fun _ _ => .refl _, fun _ => id, .refl _⟩

theorem later_cancel (s : State γ ρ) (sessionId runId : Text) : s.Later (s.cancel sessionId runId) := by
  unfold cancel
  split
  · exact .refl s
  · exact later_gate id id

theorem closeGate_workers (s : State γ ρ) : s.closeGate.1.workers = s.workers := by
  unfold closeGate
  split <;> rfl

theorem later_finish [DecidableEq ρ] (s : State γ ρ) (completion : RunCompletion ρ)
    (running : (s.workers dispatch).phase = .running) : s.Later (s.finish dispatch completion) := by
  constructor <;> grind [finish, markLost, closeGate, setPhase, setWorker, setWorker_workers, Worker.Keeps,
    Worker.Keeps.refl, Storage.Later.refl]

theorem Ticket.publishCompletion_keeps (ticket : Ticket γ ρ) (completion : RunCompletion ρ) :
    (∀ commit, ticket.acceptance = some commit → (ticket.publishCompletion completion).acceptance = some commit) ∧
      ∀ other, ticket.completion = some other → (ticket.publishCompletion completion).completion = some other := by
  grind [Ticket.publishCompletion]

theorem Ticket.publishAcceptance_keeps (ticket : Ticket γ ρ) (commit : γ) :
    (∀ other, ticket.acceptance = some other → (ticket.publishAcceptance commit).acceptance = some other) ∧
      (ticket.publishAcceptance commit).completion = ticket.completion := by
  grind [Ticket.publishAcceptance]

theorem later_coordinators (s : State γ ρ) (coordinators : List Coordinator) (spawning : Nat) :
    s.Later { s with coordinators := coordinators, spawning := spawning } :=
  ⟨id, id, fun _ => id, fun _ => rfl, fun _ _ => .refl _, fun _ => id, .refl _⟩

theorem later_beginShutdown (s : State γ ρ) : s.Later s.beginShutdown := by
  unfold beginShutdown
  split
  · exact (later_closeGate s).trans (later_coordinators ..)
  · exact later_closeGate s

theorem later_storage (later : s.storage.Later storage) : s.Later { s with storage := storage } :=
  ⟨id, id, fun _ => id, fun _ => rfl, fun _ _ => .refl _, fun _ => id, later⟩

theorem later_closeStore (s : State γ ρ) (referenced : s.storage.referenced = true) (coordinator : Nat) (unlocked : Bool) :
    s.Later (s.closeStore coordinator unlocked) := by
  have polled := later_storage (Storage.Step.close referenced unlocked).later
  unfold closeStore
  dsimp only
  split
  · exact polled
  · exact polled.trans (later_coordinators _ _ _)
  · exact polled.trans (later_coordinators _ _ _)

theorem later_report (s : State γ ρ) (coordinator : Nat) (outcome : ShutdownOutcome) :
    s.Later (s.report coordinator outcome) :=
  ⟨id, id, fun _ => id, fun _ => rfl, fun _ _ => .refl _, fun other found => by simp [report, found], .refl _⟩

theorem onStorage_eq_some {enabled : Bool} {change : Storage → Storage} (done : s.onStorage enabled change = some t) :
    enabled = true ∧ t = { s with storage := change s.storage } := by
  unfold onStorage at done
  split at done
  · rename_i enabled
    cases done
    exact ⟨enabled, rfl⟩
  · cases done

/-! ### What a step does to storage -/

@[simp] theorem register_storage (s : State γ ρ) (dispatch : Nat) (entry : Entry) (exclusive : Bool) :
    (s.register dispatch entry exclusive).storage = s.storage := by
  unfold register
  split_ifs <;> rfl

@[simp] theorem cancel_storage (s : State γ ρ) (sessionId runId : Text) : (s.cancel sessionId runId).storage = s.storage := by
  unfold cancel
  split <;> rfl

@[simp] theorem closeGate_storage (s : State γ ρ) : s.closeGate.1.storage = s.storage := by
  unfold closeGate
  split <;> rfl

@[simp] theorem finish_storage [DecidableEq ρ] (s : State γ ρ) (dispatch : Nat) (completion : RunCompletion ρ) :
    (s.finish dispatch completion).storage = s.storage := by
  unfold finish
  dsimp only [setPhase, setWorker]
  split
  · exact closeGate_storage _
  · rfl

@[simp] theorem beginShutdown_storage (s : State γ ρ) : s.beginShutdown.storage = s.storage := by
  unfold beginShutdown
  split <;> exact closeGate_storage s

theorem closeStore_storage (s : State γ ρ) (coordinator : Nat) (unlocked : Bool) :
    (s.closeStore coordinator unlocked).storage = (s.storage.close unlocked).1 := by
  unfold closeStore
  dsimp only
  split <;> rfl

theorem step_storage [DecidableEq ρ] {action : Action γ ρ} (stepped : s.step action = some t) :
    s.storage.Step t.storage := by
  have unchanged (same : t.storage = s.storage) : s.storage.Step t.storage := same ▸ .same
  cases action with
  | admission =>
    obtain ⟨referenced, rfl⟩ := onStorage_eq_some stepped
    exact .admission referenced
  | finishGuard guard unlocked =>
    rw [step] at stepped
    obtain ⟨inside, rfl⟩ := onStorage_eq_some stepped
    exact .dropGuard (by simpa using inside) true unlocked
  | dropGuard guard unlocked =>
    rw [step] at stepped
    obtain ⟨inside, rfl⟩ := onStorage_eq_some stepped
    exact .dropGuard (by simpa using inside) false unlocked
  | quarantine =>
    obtain ⟨_, rfl⟩ := onStorage_eq_some stepped
    exact .quarantine
  | close unlocked =>
    rw [step] at stepped
    obtain ⟨referenced, rfl⟩ := onStorage_eq_some stepped
    exact .close referenced unlocked
  | cloneHandle =>
    obtain ⟨referenced, rfl⟩ := onStorage_eq_some stepped
    exact .cloneHandle referenced
  | dropHandle =>
    obtain ⟨some, rfl⟩ := onStorage_eq_some stepped
    exact .dropHandle ((Nat.zero_le _).trans_lt (of_decide_eq_true some))
  | closeStore coordinator unlocked =>
    rw [step] at stepped
    split at stepped
    · split at stepped <;> cases stepped
      rename_i referenced
      rw [closeStore_storage]
      exact .close referenced unlocked
    · cases stepped
  | _ =>
    refine unchanged ?_
    simp only [step] at stepped
    repeat' split at stepped
    all_goals cases stepped
    all_goals simp [setPhase, setWorker, spawnShutdown, setCoordinator, State.publish, State.report]

/-! ### Invariants of every run -/

/-- A worker that has published its completion, once. -/
def Published (gate : Gate) (worker : Worker γ ρ) : Prop :=
  worker.publications = 1 ∧ ∃ completion, worker.ticket.completion = some completion ∧
    (completion = .workerLost → gate.workerLost = true)

/-- What the phase of a worker says about its ticket and the gate. -/
def Settled (gate : Gate) (worker : Worker γ ρ) : Prop :=
  match worker.phase with
  | .running => worker.publications = 0 ∧ worker.ticket.completion = none
  | .retired completion start => worker.publications = 0 ∧ worker.ticket.completion = none ∧
    (completion = .workerLost → gate.workerLost = true) ∧ (start = true → gate.closing = true)
  | .published start => Published gate worker ∧ (start = true → gate.closing = true)
  | .ended | .gone => Published gate worker

theorem Published.later {gate' : Gate} {worker : Worker γ ρ}
    (lost : gate.workerLost = true → gate'.workerLost = true) (published : Published gate worker) :
    Published gate' worker := by
  obtain ⟨once, completion, found, marked⟩ := published
  exact ⟨once, completion, found, fun same => lost (marked same)⟩

theorem Settled.later {gate' : Gate} {worker : Worker γ ρ}
    (closing : gate.closing = true → gate'.closing = true)
    (lost : gate.workerLost = true → gate'.workerLost = true) (settled : Settled gate worker) :
    Settled gate' worker := by
  unfold Settled at settled ⊢
  split at settled
  · exact settled
  · obtain ⟨none, fresh, marked, started⟩ := settled
    exact ⟨none, fresh, fun same => lost (marked same), fun start => closing (started start)⟩
  · exact ⟨settled.1.later lost, fun start => closing (settled.2 start)⟩
  · exact settled.later lost
  · exact settled.later lost

/-- The gate is closed and every worker is gone. -/
def Drained (s : State γ ρ) : Prop := s.gate.closing = true ∧ ∀ dispatch ∈ s.registered, (s.workers dispatch).phase = .gone

/-- Every worker has finished without being lost, and the lease is released. -/
def Clean (s : State γ ρ) : Prop :=
  s.Drained ∧ (∀ dispatch ∈ s.registered, (s.workers dispatch).ticket.completion ≠ some .workerLost) ∧
    s.storage.lease = .released

def Coordinated (s : State γ ρ) : Coordinator → Prop
  | .draining => s.gate.closing = true
  | .closing => s.Drained
  | .closed error => s.Drained ∧ (error = none → s.storage.lease = .released)
  | .decided outcome => outcome = .closed → s.Clean
  | .lost | .done => True

theorem Drained.later (drained : s.Drained) (later : s.Later t) : t.Drained := by
  refine ⟨later.closing drained.1, fun dispatch inside => ?_⟩
  rw [later.registered drained.1] at inside
  have gone := drained.2 dispatch inside
  rw [(later.workers dispatch inside).gone gone]
  exact gone

theorem Clean.later (clean : s.Clean) (later : s.Later t) : t.Clean := by
  obtain ⟨drained, unlost, released⟩ := clean
  refine ⟨drained.later later, fun dispatch inside => ?_, later.storage.released released⟩
  rw [later.registered drained.1] at inside
  rw [(later.workers dispatch inside).gone (drained.2 dispatch inside)]
  exact unlost dispatch inside

theorem Coordinated.later {coordinator : Coordinator} (held : s.Coordinated coordinator) (later : s.Later t) :
    t.Coordinated coordinator := by
  cases coordinator with
  | draining => exact later.closing held
  | closing => exact Drained.later held later
  | closed error => exact ⟨held.1.later later, fun none => later.storage.released (held.2 none)⟩
  | decided outcome => exact fun closed => (held closed).later later
  | lost => trivial
  | done => trivial

structure Sound (s : State γ ρ) : Prop where
  workers : ∀ dispatch ∈ s.registered, Settled s.gate (s.workers dispatch)
  tracker : s.trackerClosed = true → s.gate.closing = true
  spawning : 0 < s.spawning → s.gate.closing = true
  coordinators : ∀ coordinator ∈ s.coordinators, s.Coordinated coordinator
  shutdown : s.shutdown = some .closed → s.Clean
  storage : s.storage.Sound

theorem Sound.new (handles : Nat) : (State.new handles : State γ ρ).Sound where
  workers _ inside := absurd inside List.not_mem_nil
  tracker closed := by cases closed
  spawning some := absurd some (Nat.lt_irrefl 0)
  coordinators _ inside := absurd inside List.not_mem_nil
  shutdown closed := by cases closed
  storage := ⟨rfl, nofun⟩

/-- Steps that leave the coordinators, the outcome and the storage keep what was known of them. -/
theorem Sound.keep (sound : s.Sound) (later : s.Later t)
    (workers : ∀ dispatch ∈ t.registered, Settled t.gate (t.workers dispatch))
    (tracker : t.trackerClosed = true → t.gate.closing = true) (spawning : 0 < t.spawning → t.gate.closing = true)
    (coordinators : ∀ coordinator ∈ t.coordinators, coordinator ∈ s.coordinators ∨ t.Coordinated coordinator)
    (shutdown : t.shutdown = some .closed → s.shutdown = some .closed ∨ t.Clean)
    (storage : t.storage.Sound) : t.Sound where
  workers := workers
  tracker := tracker
  spawning := spawning
  coordinators coordinator inside := by
    rcases coordinators coordinator inside with old | new
    · exact (sound.coordinators coordinator old).later later
    · exact new
  shutdown closed := by
    rcases shutdown closed with old | new
    · exact (sound.shutdown old).later later
    · exact new
  storage := storage

theorem Sound.setWorker (sound : s.Sound) {worker : Worker γ ρ} (keeps : (s.workers dispatch).Keeps worker)
    (settled : Settled s.gate worker) : (s.setWorker dispatch worker).Sound := by
  refine sound.keep (later_setWorker keeps) ?_ sound.tracker sound.spawning (fun _ => .inl) .inl sound.storage
  intro other inside
  unfold State.setWorker
  by_cases same : other = dispatch
  · subst same
    simpa using settled
  · simpa [same] using sound.workers other inside

theorem Sound.setPhase (sound : s.Sound) (dispatch : Nat) (phase : Phase ρ) (here : (s.workers dispatch).phase ≠ .gone)
    (settled : Settled s.gate { s.workers dispatch with phase := phase }) :
    s.Later (s.setPhase dispatch phase) ∧ (s.setPhase dispatch phase).Sound :=
  ⟨later_setPhase here, sound.setWorker ⟨fun gone => absurd gone here, fun _ => id, fun _ => id⟩ settled⟩

theorem Sound.closeGate (sound : s.Sound) : s.closeGate.1.Sound := by
  have later := later_closeGate s
  unfold State.closeGate at later ⊢
  split
  · exact sound
  · rename_i opened
    rw [if_neg opened] at later
    exact sound.keep later (fun dispatch inside => (sound.workers dispatch inside).later later.closing later.lost)
      (fun _ => rfl) (fun _ => rfl) (fun _ => .inl) .inl sound.storage

theorem closeGate_closing (s : State γ ρ) : s.closeGate.1.gate.closing = true := by
  unfold State.closeGate
  split
  · assumption
  · rfl

theorem Sound.setGate (sound : s.Sound) (gate : Gate) (closing : gate.closing = s.gate.closing)
    (lost : s.gate.workerLost = true → gate.workerLost = true) : Sound { s with gate := gate } := by
  have later : s.Later { s with gate := gate } := later_gate (fun held => closing.trans held) lost
  refine sound.keep later (fun dispatch inside => (sound.workers dispatch inside).later later.closing later.lost) ?_ ?_
    (fun _ => .inl) .inl sound.storage
  · exact fun closed => closing.trans (sound.tracker closed)
  · exact fun some => closing.trans (sound.spawning some)

theorem Sound.markLost (sound : s.Sound) : s.markLost.1.Sound := by
  have marked : Sound { s with gate := { s.gate with workerLost := true } } := sound.setGate _ rfl fun _ => rfl
  exact marked.closeGate

theorem Sound.setCoordinator (sound : s.Sound) (coordinator : Nat) (phase : Coordinator) (held : s.Coordinated phase) :
    s.Later (s.setCoordinator coordinator phase) ∧ (s.setCoordinator coordinator phase).Sound := by
  have later : s.Later (s.setCoordinator coordinator phase) := later_coordinators s _ _
  refine ⟨later, ?_⟩
  refine sound.keep later sound.workers sound.tracker sound.spawning ?_ .inl sound.storage
  intro other inside
  rcases List.mem_or_eq_of_mem_set inside with old | rfl
  · exact .inl old
  · exact .inr (held.later later)

theorem Sound.setStorage (sound : s.Sound) (step : s.storage.Step storage) :
    s.Later { s with storage := storage } ∧ Sound { s with storage := storage } := by
  refine ⟨later_storage step.later, ?_⟩
  exact sound.keep (later_storage step.later) sound.workers sound.tracker sound.spawning (fun _ => .inl) .inl
    (step.sound sound.storage)

theorem Sound.cancel (sound : s.Sound) (sessionId runId : Text) : (s.cancel sessionId runId).Sound := by
  unfold State.cancel
  split
  · exact sound
  · exact sound.setGate _ rfl id

theorem Sound.register (sound : s.Sound) (new : dispatch ∉ s.registered) (entry : Entry) (exclusive : Bool) :
    (s.register dispatch entry exclusive).Sound := by
  have later := later_register s new entry exclusive
  unfold State.register at later ⊢
  split
  · exact sound
  · rename_i opened
    rw [if_neg opened] at later
    split
    · exact sound
    · rename_i alone
      rw [if_neg alone] at later
      refine sound.keep later ?_ sound.tracker sound.spawning (fun _ => .inl) .inl sound.storage
      intro other inside
      dsimp only [State.setWorker]
      by_cases same : other = dispatch
      · subst same
        simp [Settled, Ticket.new]
      · have old : other ∈ s.registered := by simpa [same] using inside
        simpa [same] using (sound.workers other old).later later.closing later.lost

theorem Sound.finish [DecidableEq ρ] (sound : s.Sound) (inside : dispatch ∈ s.registered)
    (completion : RunCompletion ρ) (running : (s.workers dispatch).phase = .running) :
    (s.finish dispatch completion).Sound := by
  have settled := sound.workers dispatch inside
  rw [Settled, running] at settled
  unfold State.finish
  dsimp only
  generalize marking : (if completion = .workerLost then s.markLost else (s, false)) = marked
  have marks : marked.1.Sound ∧ marked.1.workers = s.workers ∧
      (completion = .workerLost → marked.1.gate.workerLost = true) ∧ (marked.2 = true → marked.1.gate.closing = true) := by
    rw [← marking]
    split
    · exact ⟨sound.markLost, closeGate_workers _, fun _ => (later_closeGate _).lost rfl, fun _ => closeGate_closing _⟩
    · rename_i kept
      exact ⟨sound, rfl, fun lost => absurd lost kept, nofun⟩
  obtain ⟨kept, workers, lost, closing⟩ := marks
  have filtered : Sound { marked.1 with gate := { marked.1.gate with
      entries := marked.1.gate.entries.filter fun entry => entry.1 != dispatch } } := kept.setGate _ rfl id
  refine filtered.setWorker ⟨fun gone => ?_, fun _ => id, fun _ => id⟩ ?_
  · dsimp only at gone
    rw [workers, running] at gone
    cases gone
  · simp only [Settled, workers]
    exact ⟨settled.1, settled.2, lost, closing⟩

theorem Sound.publish (sound : s.Sound) (inside : dispatch ∈ s.registered) {completion : RunCompletion ρ}
    {start : Bool} (retired : (s.workers dispatch).phase = .retired completion start) :
    s.Later (s.publish dispatch completion start) ∧ (s.publish dispatch completion start).Sound := by
  have settled := sound.workers dispatch inside
  rw [Settled, retired] at settled
  obtain ⟨none, fresh, lost, closing⟩ := settled
  obtain ⟨accepted, completed⟩ := Ticket.publishCompletion_keeps (s.workers dispatch).ticket completion
  have keeps : (s.workers dispatch).Keeps ⟨.published start, (s.workers dispatch).ticket.publishCompletion completion,
      (s.workers dispatch).publications + 1⟩ :=
    ⟨fun gone => absurd (retired.symm.trans gone) nofun, accepted, completed⟩
  refine ⟨later_setWorker keeps, sound.setWorker keeps ⟨⟨?_, completion, ?_, lost⟩, closing⟩⟩
  · rw [none]
  · simp [Ticket.publishCompletion, fresh]

theorem Sound.spawnShutdown (sound : s.Sound) (closing : s.gate.closing = true) (spawning : Nat) :
    s.Later { s.spawnShutdown with spawning := spawning } ∧ Sound { s.spawnShutdown with spawning := spawning } := by
  have later : s.Later { s.spawnShutdown with spawning := spawning } := later_coordinators s _ _
  refine ⟨later, ?_⟩
  refine sound.keep later sound.workers sound.tracker (fun _ => closing) ?_ .inl sound.storage
  intro coordinator inside
  rcases List.mem_append.1 inside with old | new
  · exact .inl old
  · rw [List.mem_singleton.1 new]
    exact .inr closing

theorem Sound.beginShutdown (sound : s.Sound) : s.beginShutdown.Sound := by
  have closed := sound.closeGate
  have closing := closeGate_closing s
  unfold State.beginShutdown
  split
  · exact closed.keep (later_coordinators _ _ _) closed.workers closed.tracker (fun _ => closing) (fun _ => .inl) .inl
      closed.storage
  · exact closed

theorem close_ok {unlocked : Bool} (kept : storage.lease ≠ .forgotten)
    (done : (storage.close unlocked).2 = some (.ok ())) : (storage.close unlocked).1.lease = .released := by
  cases lease : storage.lease <;> grind [Storage.close, Storage.releaseLease]

theorem Sound.closeStore (sound : s.Sound) (referenced : s.storage.referenced = true) {coordinator : Nat}
    (here : s.coordinators[coordinator]? = some .closing) (unlocked : Bool) : (s.closeStore coordinator unlocked).Sound := by
  have polled : Sound { s with storage := (s.storage.close unlocked).1 } :=
    (sound.setStorage (.close referenced unlocked)).2
  have drained : Drained { s with storage := (s.storage.close unlocked).1 } :=
    polled.coordinators .closing (List.mem_of_getElem? here)
  unfold State.closeStore
  dsimp only
  split
  · exact polled
  · rename_i done
    exact (polled.setCoordinator coordinator (.closed _) ⟨drained, fun _ => close_ok (sound.storage.reachable referenced) done⟩).2
  · exact (polled.setCoordinator coordinator (.closed (some _)) ⟨drained, nofun⟩).2

theorem Sound.outcome_clean (sound : s.Sound) {error : Option StorageErrorKind} (held : s.Coordinated (.closed error))
    (closed : s.outcome error = .closed) : s.Clean := by
  obtain ⟨drained, released⟩ := held
  unfold State.outcome at closed
  split at closed
  · cases closed
  · rename_i fine
    simp only [Bool.or_eq_true, not_or, Bool.not_eq_true, Option.isSome_eq_false_iff, Option.isNone_iff_eq_none] at fine
    refine ⟨drained, fun dispatch inside lost => ?_, released fine.2⟩
    have settled := sound.workers dispatch inside
    rw [Settled, drained.2 dispatch inside] at settled
    obtain ⟨_, completion, found, marked⟩ := settled
    rw [lost, Option.some.injEq] at found
    rw [marked found.symm] at fine
    cases fine.1

theorem Sound.report (sound : s.Sound) (coordinator : Nat) {outcome : ShutdownOutcome} (clean : outcome = .closed → s.Clean) :
    (s.report coordinator outcome).Sound := by
  have later := later_report s coordinator outcome
  refine sound.keep later sound.workers sound.tracker sound.spawning ?_ ?_ sound.storage
  · intro other inside
    rcases List.mem_or_eq_of_mem_set inside with old | rfl
    · exact .inl old
    · exact .inr trivial
  · intro closed
    cases before : s.shutdown with
    | some other =>
      refine .inl ?_
      simp only [State.report, before, Option.some_or, Option.some.injEq] at closed
      rw [closed]
    | none =>
      simp only [State.report, before, Option.none_or, Option.some.injEq] at closed
      exact .inr ((clean closed).later later)

theorem step_keeps [DecidableEq ρ] {action : Action γ ρ} (sound : s.Sound) (stepped : s.step action = some t) :
    s.Later t ∧ t.Sound := by
  cases action with
  | register dispatch entry exclusive =>
    simp only [step, Option.ite_none_left_eq_some] at stepped
    obtain ⟨new, stepped⟩ := stepped
    split at stepped <;> cases stepped
    · exact ⟨later_register s new entry exclusive, sound.register new entry exclusive⟩
    · exact ⟨.refl s, sound⟩
  | cancel sessionId runId =>
    rw [step] at stepped
    split at stepped <;> cases stepped
    · exact ⟨later_cancel s sessionId runId, sound.cancel sessionId runId⟩
    · exact ⟨.refl s, sound⟩
  | accept dispatch commit =>
    simp only [step, Option.ite_none_right_eq_some] at stepped
    obtain ⟨inside, stepped⟩ := stepped
    split at stepped <;> cases stepped
    rename_i ticket publications found
    have settled := sound.workers dispatch inside
    rw [found] at settled
    obtain ⟨accepted, completed⟩ := Ticket.publishAcceptance_keeps ticket commit
    have keeps : (s.workers dispatch).Keeps ⟨.running, ticket.publishAcceptance commit, publications⟩ := by
      rw [found]
      exact ⟨nofun, accepted, fun _ known => completed.trans known⟩
    exact ⟨later_setWorker keeps, sound.setWorker keeps ⟨settled.1, completed.trans settled.2⟩⟩
  | complete dispatch completion =>
    simp only [step, Option.ite_none_right_eq_some] at stepped
    obtain ⟨inside, stepped⟩ := stepped
    split at stepped <;> cases stepped
    rename_i running
    exact ⟨later_finish s completion running, sound.finish inside.1 completion running⟩
  | panic dispatch | dropWorker dispatch =>
    simp only [step, Option.ite_none_right_eq_some] at stepped
    obtain ⟨inside, stepped⟩ := stepped
    split at stepped <;> cases stepped
    rename_i running
    exact ⟨later_finish s _ running, sound.finish inside _ running⟩
  | publish dispatch =>
    simp only [step, Option.ite_none_right_eq_some] at stepped
    obtain ⟨inside, stepped⟩ := stepped
    split at stepped <;> cases stepped
    rename_i completion start retired
    exact sound.publish inside retired
  | start dispatch =>
    simp only [step, Option.ite_none_right_eq_some] at stepped
    obtain ⟨inside, stepped⟩ := stepped
    split at stepped <;> cases stepped
    rename_i start published
    have settled := sound.workers dispatch inside
    rw [Settled, published] at settled
    obtain ⟨once, closing⟩ := settled
    cases start with
    | false => exact sound.setPhase dispatch .ended (by rw [published]; nofun) once
    | true =>
      have spawned := sound.spawnShutdown (closing rfl) s.spawning
      have ended := spawned.2.setPhase dispatch .ended (fun gone => absurd (published.symm.trans gone) nofun) once
      exact ⟨spawned.1.trans ended.1, ended.2⟩
  | release dispatch =>
    simp only [step, Option.ite_none_right_eq_some] at stepped
    obtain ⟨inside, stepped⟩ := stepped
    split at stepped <;> cases stepped
    rename_i ended
    have settled := sound.workers dispatch inside
    rw [Settled, ended] at settled
    exact sound.setPhase dispatch .gone (by rw [ended]; nofun) settled
  | beginShutdown =>
    rw [step] at stepped
    split at stepped <;> cases stepped
    exact ⟨later_beginShutdown s, sound.beginShutdown⟩
  | dropHost =>
    rw [step] at stepped
    split at stepped <;> cases stepped
    have begun := sound.beginShutdown
    have left : s.beginShutdown.Later { s.beginShutdown with owned := false } :=
      ⟨id, id, fun _ => id, fun _ => rfl, fun _ _ => .refl _, fun _ => id, .refl _⟩
    exact ⟨(later_beginShutdown s).trans left,
      begun.keep left begun.workers begun.tracker begun.spawning (fun _ => .inl) .inl begun.storage⟩
  | spawn =>
    rw [step] at stepped
    split at stepped <;> cases stepped
    rename_i waiting
    exact sound.spawnShutdown (sound.spawning waiting) _
  | drained coordinator =>
    rw [step] at stepped
    split at stepped
    · split at stepped <;> cases stepped
      rename_i ready
      simp only [Bool.and_eq_true] at ready
      refine sound.setCoordinator coordinator .closing ⟨sound.tracker ready.1, fun dispatch inside => ?_⟩
      have gone := List.all_eq_true.1 ready.2 dispatch inside
      unfold State.gone at gone
      split at gone
      · assumption
      · cases gone
    · cases stepped
  | closeStore coordinator unlocked =>
    rw [step] at stepped
    split at stepped
    · rename_i here
      split at stepped <;> cases stepped
      rename_i referenced
      exact ⟨later_closeStore s referenced coordinator unlocked, sound.closeStore referenced here unlocked⟩
    · cases stepped
  | decide coordinator =>
    rw [step] at stepped
    split at stepped <;> cases stepped
    rename_i error here
    have held := sound.coordinators _ (List.mem_of_getElem? here)
    exact sound.setCoordinator coordinator (.decided _) fun closed => sound.outcome_clean held closed
  | report coordinator =>
    rw [step] at stepped
    split at stepped <;> cases stepped
    · rename_i outcome here
      exact ⟨later_report s coordinator _, sound.report coordinator (sound.coordinators _ (List.mem_of_getElem? here))⟩
    · exact ⟨later_report s coordinator _, sound.report coordinator nofun⟩
  | lose coordinator =>
    rw [step] at stepped
    have dropped := sound.setCoordinator coordinator .lost trivial
    have lost := dropped.2.setGate { s.gate with workerLost := true } rfl fun _ => rfl
    split at stepped <;> cases stepped
    all_goals exact ⟨dropped.1.trans (later_gate id fun _ => rfl), lost⟩
  | _ =>
    have moved := step_storage stepped
    rw [step] at stepped
    obtain ⟨_, rfl⟩ := onStorage_eq_some stepped
    exact sound.setStorage moved

theorem run_keeps [DecidableEq ρ] {actions : List (Action γ ρ)} (sound : s.Sound) (ran : Steps.run step s actions = some t) :
    s.Later t ∧ t.Sound := by
  refine Steps.run_invariant (fun t => s.Later t ∧ t.Sound) ?_ ⟨.refl s, sound⟩ ran
  rintro middle action next ⟨before, kept⟩ stepped
  obtain ⟨later, sound⟩ := step_keeps kept stepped
  exact ⟨before.trans later, sound⟩

/-! ### Safety of every run -/

theorem unhealthy_of_taints [DecidableEq ρ] {action : Action γ ρ} (taints : action.taints = true)
    (stepped : s.step action = some t) : t.storage.unhealthy = true := by
  cases action with
  | dropGuard guard unlocked =>
    rw [step] at stepped
    obtain ⟨_, rfl⟩ := onStorage_eq_some stepped
    dsimp only
    grind [Storage.dropGuard, Storage.releaseLease, Storage.reclaim]
  | quarantine =>
    obtain ⟨_, rfl⟩ := onStorage_eq_some stepped
    rfl
  | _ => cases taints

theorem run_unhealthy [DecidableEq ρ] {actions : List (Action γ ρ)} (sound : s.Sound) (ran : Steps.run step s actions = some t)
    (tainted : ∃ action ∈ actions, action.taints = true) : t.storage.unhealthy = true := by
  induction actions generalizing s with
  | nil => simp at tainted
  | cons action actions ih =>
    obtain ⟨next, stepped, rest⟩ := Option.bind_eq_some_iff.1 ran
    have kept := (step_keeps sound stepped).2
    obtain ⟨bad, inside, taints⟩ := tainted
    rcases List.mem_cons.1 inside with rfl | inside
    · exact (run_keeps kept rest).1.storage.unhealthy (unhealthy_of_taints taints stepped)
    · exact ih kept rest ⟨bad, inside, taints⟩

def rank : Phase ρ → Nat
  | .running => 0
  | .retired _ _ => 1
  | .published _ => 2
  | .ended => 3
  | .gone => 4

/-- A worker publishes at most one completion, has published it when it is gone, and can always
get on until then. -/
structure Completes [DecidableEq ρ] (s : State γ ρ) (dispatch : Nat) : Prop where
  once : (s.workers dispatch).publications ≤ 1
  published : (s.workers dispatch).publications = 1 ↔ (s.workers dispatch).ticket.completion.isSome = true
  gone : (s.workers dispatch).phase = .gone → (s.workers dispatch).publications = 1
  advances : (s.workers dispatch).phase ≠ .gone → ∃ action t, s.step action = some t ∧
    rank (s.workers dispatch).phase < rank (t.workers dispatch).phase

theorem rank_setPhase (s : State γ ρ) (dispatch : Nat) (phase : Phase ρ) :
    ((s.setPhase dispatch phase).workers dispatch).phase = phase := by
  simp [setPhase, setWorker]

theorem Sound.completes [DecidableEq ρ] (sound : s.Sound) (inside : dispatch ∈ s.registered) :
    s.Completes dispatch := by
  have settled := sound.workers dispatch inside
  unfold Settled at settled
  cases phase : (s.workers dispatch).phase with
  | running =>
    rw [phase] at settled
    refine ⟨by omega, by simp [settled.1, settled.2], fun gone => absurd (phase.symm.trans gone) nofun, fun _ => ?_⟩
    refine ⟨.dropWorker dispatch, s.finish dispatch .workerLost, by simp [step, inside, phase], ?_⟩
    rw [phase, State.finish, rank_setPhase]
    exact Nat.zero_lt_one
  | retired completion start =>
    rw [phase] at settled
    refine ⟨by omega, by simp [settled.1, settled.2.1], fun gone => absurd (phase.symm.trans gone) nofun, fun _ => ?_⟩
    refine ⟨.publish dispatch, s.publish dispatch completion start, by simp [step, inside, phase], ?_⟩
    simp [phase, State.publish, State.setWorker, rank]
  | published start =>
    rw [phase] at settled
    obtain ⟨⟨once, completion, found, _⟩, _⟩ := settled
    refine ⟨by omega, by simp [once, found], fun gone => absurd (phase.symm.trans gone) nofun, fun _ => ?_⟩
    refine ⟨.start dispatch, (if start then s.spawnShutdown else s).setPhase dispatch .ended,
      by simp [step, inside, phase], ?_⟩
    rw [phase, rank_setPhase]
    exact Nat.lt_succ_self 2
  | ended =>
    rw [phase] at settled
    obtain ⟨once, completion, found, _⟩ := settled
    refine ⟨by omega, by simp [once, found], fun gone => absurd (phase.symm.trans gone) nofun, fun _ => ?_⟩
    refine ⟨.release dispatch, s.setPhase dispatch .gone, by simp [step, inside, phase], ?_⟩
    rw [phase, rank_setPhase]
    exact Nat.lt_succ_self 3
  | gone =>
    rw [phase] at settled
    obtain ⟨once, completion, found, _⟩ := settled
    exact ⟨by omega, by simp [once, found], fun _ => once, fun here => absurd phase here⟩

/-- What holds of a state that a run of the given actions has reached. -/
structure Safe [DecidableEq ρ] (actions : List (Action γ ρ)) (s : State γ ρ) : Prop where
  later : ∀ rest t, Steps.run step s rest = some t → s.Later t
  completes : ∀ dispatch ∈ s.registered, s.Completes dispatch
  closed : s.shutdown = some .closed → s.Clean
  admitted : s.storage.admitted = s.storage.guards.length
  retires : ∀ guard finished unlocked, guard ∈ s.storage.guards →
    0 < s.storage.admitted ∧ (s.storage.dropGuard guard finished unlocked).admitted + 1 = s.storage.admitted
  releases : ∀ action t, s.step action = some t → s.storage.lease = .held → t.storage.lease = .released →
    t.storage.admitted = 0 ∧ (t.storage.closing = true ∨ t.storage.referenced = false) ∧
      ∀ earlier ∈ actions ++ [action], earlier.taints = false

theorem dropGuard_admitted (storage : Storage) (guard : Nat) (finished unlocked : Bool) :
    (storage.dropGuard guard finished unlocked).admitted = storage.admitted - 1 := by
  grind [Storage.dropGuard, Storage.releaseLease, Storage.reclaim]

/-- Every run, however its tasks interleave, registers nothing after the gate closes, publishes one
completion for each dispatch and replaces no published one, reports closed only when all workers are
gone, none was lost and the lease is released, and releases the lease only when nothing is admitted. -/
theorem shutdown_safe [DecidableEq ρ] (handles : Nat) (actions : List (Action γ ρ)) (s : State γ ρ)
    (ran : Steps.run step (State.new handles) actions = some s) : s.Safe actions := by
  have sound := (run_keeps (.new handles) ran).2
  constructor
  case later => exact fun rest t further => (run_keeps sound further).1
  case completes => exact fun dispatch inside => sound.completes inside
  case closed => exact sound.shutdown
  case admitted => exact sound.storage.admitted
  case retires =>
    intro guard finished unlocked inside
    have positive : 0 < s.storage.admitted := by
      rw [sound.storage.admitted]
      exact List.length_pos_of_mem inside
    rw [dropGuard_admitted]
    omega
  case releases =>
    intro action t stepped held released
    obtain ⟨healthy, idle, ended⟩ := (step_storage stepped).releases sound.storage held released
    refine ⟨idle, ended, fun earlier inside => ?_⟩
    have whole : Steps.run step (State.new handles) (actions ++ [action]) = some t := by
      rw [Steps.run_append, ran, Option.bind_some, Steps.run_cons, stepped]
      rfl
    by_contra taints
    have sick := run_unhealthy (.new handles) whole ⟨earlier, inside, by simpa using taints⟩
    rw [sick] at healthy
    cases healthy

namespace OneRun

/-- One run that completes, and a shutdown after it. -/
def actions : List (Action Unit Unit) := [
  .register 0 ⟨"s1".toList, "o1".toList, "r1".toList, false⟩ false, .admission, .accept 0 (), .finishGuard 0 true,
  .complete 0 (.execution ()), .publish 0, .start 0, .release 0, .beginShutdown, .spawn, .drained 0,
  .closeStore 0 true, .decide 0, .report 0]

theorem actions_run : ∃ s, Steps.run step (State.new 0) actions = some s ∧ s.shutdown = some .closed := by
  have ran : (Steps.run step (State.new 0) actions).map (·.shutdown) = some (some .closed) := by decide +kernel
  exact Option.map_eq_some_iff.1 ran

end OneRun

theorem shutdown_safe_closed :
    ∃ s, Steps.run step (State.new 0) OneRun.actions = some s ∧ s.shutdown = some .closed ∧ s.Clean := by
  obtain ⟨s, ran, closed⟩ := OneRun.actions_run
  exact ⟨s, ran, closed, (shutdown_safe 0 OneRun.actions s ran).closed closed⟩

end State
end Wi.Hosting
