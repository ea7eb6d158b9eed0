import Wi.BrowserCommands

/-! What one step of the display client can do to its commands. -/
namespace Wi.Browser

/-! ### One command -/

variable {receipt : Option ReceiptView} {reply : Option Reply} {incoming : List NoticeView}

namespace DisplayPendingCommand
variable {item : DisplayPendingCommand} {cause : ClientError} {readOnlyPhase : Option Phase} {uncertainBefore : Bool}

/-- What is known once stays known. -/
structure Later (before after : DisplayPendingCommand) : Prop where
  command : after.command = before.command
  receipt : ∀ receipt, before.receipt = some receipt → after.receipt = some receipt
  conflict : before.phase = .conflict → after.phase = .conflict

theorem Later.refl (item : DisplayPendingCommand) : Later item item := ⟨rfl, fun _ => id, id⟩

theorem Later.trans {a b c : DisplayPendingCommand} (ab : Later a b) (bc : Later b c) : Later a c :=
  ⟨bc.command.trans ab.command, fun receipt held => bc.receipt receipt (ab.receipt receipt held),
    fun held => bc.conflict (ab.conflict held)⟩

theorem acceptanceOf_receipt (item : DisplayPendingCommand) (cause : ClientError) :
    (∀ receipt, item.receipt = some receipt → (item.acceptanceOf cause).2 = some receipt) ∧
      ((item.acceptanceOf cause).1 = cause ∨ (item.acceptanceOf cause).1 = .conflict) := by
  unfold acceptanceOf
  split
  · split
    · exact ⟨fun _ => id, .inl rfl⟩
    · split
      · exact ⟨fun _ => id, .inr rfl⟩
      · split
        · exact ⟨fun _ => id, .inr rfl⟩
        next actual _ same =>
          refine ⟨fun receipt held => ?_, .inl rfl⟩
          rw [held] at same
          by_contra differ
          exact same ⟨Option.some_ne_none _, fun equal => differ equal.symm⟩
  · exact ⟨fun _ => id, .inl rfl⟩

theorem later_commandFailure : Later item (item.commandFailure cause readOnlyPhase uncertainBefore) where
  command := rfl
  receipt := (acceptanceOf_receipt item cause).1
  conflict held := by simp [commandFailure, held]

theorem rejected_commandFailure
    (rejected : (item.commandFailure cause readOnlyPhase uncertainBefore).phase = .rejected) :
    readOnlyPhase = none ∧ cause.definite ∧ uncertainBefore = false ∨ readOnlyPhase = some .rejected := by
  simp only [commandFailure] at rejected
  split at rejected
  · cases rejected
  next calm =>
    split at rejected
    · cases rejected
    · split at rejected
      next definite =>
        refine .inl ⟨definite.1, ?_, by simpa using definite.2.2⟩
        rcases (acceptanceOf_receipt item cause).2 with same | changed
        · exact same ▸ definite.2.1
        · exact absurd (.inr (.inl changed)) calm
      · cases readOnlyPhase with
        | none => cases rejected
        | some phase => exact .inr (congrArg some rejected)

theorem waiting_commandFailure (idle : ∀ phase, readOnlyPhase = some phase → phase ≠ .sending ∧ phase ≠ .reconciling) :
    (item.commandFailure cause readOnlyPhase uncertainBefore).phase ≠ .sending ∧
      (item.commandFailure cause readOnlyPhase uncertainBefore).phase ≠ .reconciling := by
  simp only [commandFailure]
  split
  · exact ⟨nofun, nofun⟩
  · split
    · exact ⟨nofun, nofun⟩
    · split
      · exact ⟨nofun, nofun⟩
      · cases readOnlyPhase with
        | none => exact ⟨nofun, nofun⟩
        | some phase => exact idle phase rfl

theorem receipt_commandFailure (held : (item.commandFailure cause readOnlyPhase uncertainBefore).receipt ≠ none) :
    (item.commandFailure cause readOnlyPhase uncertainBefore).phase = .accepted ∨
      (item.commandFailure cause readOnlyPhase uncertainBefore).phase = .conflict := by
  simp only [commandFailure] at held ⊢
  split
  · exact .inr rfl
  · exact .inl (if_pos (.inr held))

theorem accepted_eq_ok {after : DisplayPendingCommand} (done : item.accepted receipt reply incoming = .ok after) :
    item.phase ≠ .conflict ∧ after.command = item.command ∧ after.phase = .accepted ∧ after.receipt = receipt ∧
      ∀ old, item.receipt = some old → receipt = some old := by
  rw [accepted] at done
  split at done
  · cases done
  next calm =>
    cases done
    refine ⟨fun conflict => calm (.inl conflict), rfl, rfl, rfl, fun old held => ?_⟩
    by_contra differ
    exact calm (.inr ⟨held ▸ Option.some_ne_none _, fun same => differ (same.symm.trans held)⟩)

theorem later_accepted {after : DisplayPendingCommand} (done : item.accepted receipt reply incoming = .ok after) :
    Later item after := by
  obtain ⟨calm, command, -, held, same⟩ := accepted_eq_ok done
  exact ⟨command, fun old found => held.trans (same old found), fun conflict => absurd conflict calm⟩

end DisplayPendingCommand

/-! ### One step -/

/-- The user changes the draft, the selection or the connection. -/
def ClientAction.edits : ClientAction → Bool
  | .clear | .selectSession _ | .setDraft _ => true
  | _ => false

/-- Whether a definite error of the server ended the request. -/
def refused : Except ClientError (Nat × Reply) → Bool
  | .error cause => cause.definite
  | .ok _ => false

/-- The end of an attempt to send a command. -/
def ending (s : Client) : ClientAction → List (Uuid × Bool)
  | .replied control outcome => ((s.task control).map fun task => (task.id, refused outcome)).toList
  | _ => []

/-- Why a waiting call records a failure: the phase it falls back to for a read, and whether the
command was in doubt before it was sent. -/
inductive Fails (task : Waiting) (cause : ClientError) : List (Uuid × Bool) → Option Phase → Bool → Prop
  | send (before : Phase) (definite : Bool) (stage : task.stage = .sending before)
      (reported : cause.definite = true → definite = true) :
      Fails task cause [(task.id, definite)] none (before = .uncertain)
  | lookUp (before : Phase) (stage : task.stage = .reconciling before) : Fails task cause [] (some before) false
  | manifest (stage : task.stage = .manifest) : Fails task cause [] (some .accepted) false

/-- Why a waiting call records an acceptance, and where it goes on waiting. -/
inductive Accepts (task : Waiting) (action : ClientAction) (item : DisplayPendingCommand) :
    List (Uuid × Bool) → Option ReceiptView → Stage → Prop
  | send (before : Phase) (acknowledged : Acknowledgement) (status : Nat) (reply : Reply)
      (stage : task.stage = .sending before) (replied : action = .replied task.control (.ok (status, reply)))
      (read : readReply item.command status reply = .ok acknowledged) :
      Accepts task action item [(task.id, false)] acknowledged.receipt (.acknowledged acknowledged.sessionId)
  | lookUp (before : Phase) (receipt : ReceiptView) (run : RunView) (stage : task.stage = .reconciling before)
      (lookedUp : action = .lookedUp task.control (.ok (.accepted receipt run)))
      (read : validateTaskReconciliation item.command (.accepted receipt run) = .ok (.accepted receipt run)) :
      Accepts task action item [] (some receipt) .reconciled

/-- Everything a step can do, with the attempts it ends. -/
inductive Change (s : Client) (action : ClientAction) : List (Uuid × Bool) → Client → Prop
  | quiet (t : Client) (pending : t.pending = s.pending) (waiters : t.waiters = s.waiters) (tasks : t.tasks = s.tasks)
      (issued : t.issued = s.issued) (controls : t.controls = s.controls)
      (connection : t.stamp.connection = s.stamp.connection) (draft : action.edits = false → t.draft = s.draft) :
      Change s action [] t
  | clear (action_is : action = .clear) : Change s action [] s.clear
  | discard (id : Uuid) : Change s action [] (s.discardCommand id)
  | capture (command : CapturedCommand) (fresh : command.id ∉ s.issued) : Change s action [] (s.capture command)
  | send (id : Uuid) (item : DisplayPendingCommand) (held : s.pending.get id = some item)
      (idle : s.waiters.get id = none) (open_ : item.phase ≠ .accepted ∧ item.phase ≠ .conflict) :
      Change s action [] (s.start id item .sending (.sending item.phase))
  | lookUp (id : Uuid) (item : DisplayPendingCommand) (held : s.pending.get id = some item)
      (idle : s.waiters.get id = none) (open_ : item.phase ≠ .conflict) (asked : action = .reconcileTask id) :
      Change s action [] (s.start id item .reconciling (.reconciling item.phase))
  | drop (task : Waiting) (member : task ∈ s.tasks)
      (log : List (Uuid × Bool)) (own : ∀ ended ∈ log, ended.1 = task.id)
      (over_ : s.held task = none ∨ log = [] ∧ ((∃ sessionId, task.stage = .acknowledged sessionId) ∨ task.stage = .manifest)) :
      Change s action log (s.finish task)
  | fail (task : Waiting) (member : task ∈ s.tasks) (item : DisplayPendingCommand) (held : s.held task = some item)
      (cause : ClientError) (log : List (Uuid × Bool)) (readOnlyPhase : Option Phase) (uncertainBefore : Bool)
      (why : Fails task cause log readOnlyPhase uncertainBefore) :
      Change s action log ((s.keep task.id (item.commandFailure cause readOnlyPhase uncertainBefore)).finish task)
  | accept (task : Waiting) (member : task ∈ s.tasks) (item after : DisplayPendingCommand)
      (held : s.held task = some item) (log : List (Uuid × Bool)) (receipt : Option ReceiptView) (reply : Option Reply)
      (incoming : List NoticeView) (stage : Stage) (why : Accepts task action item log receipt stage)
      (done : item.accepted receipt reply incoming = .ok after) :
      Change s action log
        (({ s.keep task.id after with draft := if s.consumes task item then [] else s.draft }).advance task stage)
  | notFound (task : Waiting) (member : task ∈ s.tasks) (item : DisplayPendingCommand) (held : s.held task = some item)
      (before : Phase) (stage : task.stage = .reconciling before) :
      Change s action [] ((s.keep task.id { item with
        phase := if item.receipt ≠ none then .accepted else before, reconciliation := some .notFound }).finish task)
  | noted (task : Waiting) (member : task ∈ s.tasks) (item : DisplayPendingCommand) (held : s.held task = some item)
      (stage : task.stage = .reconciled) :
      Change s action [] ((s.keep task.id { item with reconciliation := some .accepted }).finish task)
  | onward (task : Waiting) (member : task ∈ s.tasks) (item : DisplayPendingCommand) (held : s.held task = some item)
      (sessionId : Uuid) (stage : task.stage = .acknowledged sessionId) : Change s action [] (s.advance task .manifest)

section Inversion
variable {s t : Client} {action : ClientAction}

theorem Change.same (s : Client) (action : ClientAction) : Change s action [] s :=
  .quiet s rfl rfl rfl rfl rfl rfl fun _ => rfl

theorem change_execute (id : Uuid) : Change s action [] (s.execute id) := by
  rw [Client.execute]
  split
  next item held idle =>
    split
    · exact .same s action
    next open_ => exact .send id item held idle (not_or.1 open_)
  · exact .same s action

theorem change_reconcileTask (id : Uuid) : Change s (.reconcileTask id) [] (s.reconcileTask id) := by
  rw [Client.reconcileTask]
  split
  next item held idle =>
    split
    · split
      · exact .same s _
      next open_ => exact .lookUp id item held idle (not_or.1 open_).1 rfl
    · exact .same s _
  · exact .same s _

theorem change_request {id : Uuid} {body : CommandBody} (done : s.request id body = some t) : Change s action [] t := by
  rw [Client.request] at done
  split at done
  · cases done
  next fresh =>
    split at done
    · cases done
      exact .same s action
    · cases done
      exact .capture ⟨id, body⟩ fresh

theorem change_requestSelected {id : Uuid} {body : Uuid → CommandBody} (done : s.requestSelected id body = some t) :
    Change s action [] t := by
  rw [Client.requestSelected] at done
  split at done
  · exact change_request done
  · cases done
    exact .same s action

end Inversion

/-! Only the server's own error is definite: what the client finds wrong with a reply is not. -/

/-- The computation does not end in a definite error of the server. -/
def Unsure {α : Type} (result : Except ClientError α) : Prop := ∀ cause, result = .error cause → cause.definite = false

namespace Unsure
variable {α β : Type}

theorem ok (value : α) : Unsure (.ok value : Except ClientError α) := nofun

theorem conflict : Unsure (.error .conflict : Except ClientError α) := fun _ same => by
  cases same
  rfl

theorem protocol (detail : ProtocolErrorCategory) : Unsure (.error (.protocol detail) : Except ClientError α) :=
  fun _ same => by
    cases same
    rfl

theorem mapError (result : Except ProtocolErrorCategory α) : Unsure (result.mapError .protocol) := by
  cases result with
  | ok value => exact ok value
  | error detail => exact protocol detail

theorem bind {result : Except ClientError α} {next : α → Except ClientError β} (first : Unsure result)
    (later : ∀ value, Unsure (next value)) : Unsure (result >>= next) := by
  intro cause failed
  rcases bind_eq_error.1 failed with failed | ⟨value, -, failed⟩
  · exact first cause failed
  · exact later value cause failed

theorem ite {p : Prop} [Decidable p] {a b : Except ClientError α} (ha : Unsure a) (hb : Unsure b) :
    Unsure (if p then a else b) := by
  split
  · exact ha
  · exact hb

end Unsure

theorem readReply_unsure (command : CapturedCommand) (status : Nat) (reply : Reply) :
    Unsure (readReply command status reply) := by
  unfold readReply
  split
  · exact .ite (.protocol _) (.bind (.mapError _) fun _ => .ite (.protocol _) (.ite .conflict (.ok _)))
  · exact .ite (.protocol _) (.bind (.mapError _) fun _ => .bind (.mapError _) fun _ => .ok _)
  · exact .ite (.protocol _) (.ite .conflict (.ok _))
  · exact .ite (.protocol _) (.bind (.mapError _) fun _ => .ok _)
  · exact .protocol _

theorem accepted_unsure (item : DisplayPendingCommand) (receipt : Option ReceiptView) (reply : Option Reply)
    (incoming : List NoticeView) : Unsure (item.accepted receipt reply incoming) := .ite .conflict (.ok _)

theorem validateReceiptView_eq_ok {receipt read : ReceiptView} (done : validateReceiptView receipt = .ok read) :
    read = receipt := by
  rw [validateReceiptView] at done
  split at done
  · cases done
  · exact (Except.ok.inj done).symm

theorem validateTaskReconciliation_eq_ok {command : CapturedCommand} {result read : TaskReconciliation}
    (done : validateTaskReconciliation command result = .ok read) : read = result := by
  unfold validateTaskReconciliation at done
  split at done
  · obtain ⟨receipt, valid, done⟩ := bind_eq_ok.1 done
    split at done
    · cases done
    · cases done
      rw [validateReceiptView_eq_ok (mapError_eq_ok.1 valid)]
  · cases done
    rfl
  · cases done

section Inversion
variable {s t : Client} {action : ClientAction} {task : Waiting}

theorem accept_eq_ok {item : DisplayPendingCommand} (done : s.accept task item receipt reply incoming = .ok t) :
    ∃ after, item.accepted receipt reply incoming = .ok after ∧
      t = { s.keep task.id after with draft := if s.consumes task item then [] else s.draft } := by
  obtain ⟨after, accepted, done⟩ := bind_eq_ok.1 done
  cases done
  exact ⟨after, accepted, rfl⟩

theorem change_replied (member : task ∈ s.tasks) {before : Phase} (stage : task.stage = .sending before)
    {outcome : Except ClientError (Nat × Reply)} :
    Change s (.replied task.control outcome) [(task.id, refused outcome)] (s.replied task before outcome) := by
  rw [Client.replied]
  split
  next lost => exact .drop task member _ (by simp) (.inl lost)
  next item held =>
    dsimp only
    split
    next t done =>
      obtain ⟨⟨status, reply⟩, rfl, read⟩ := bind_eq_ok.1 done
      obtain ⟨acknowledged, valid, recorded⟩ := bind_eq_ok.1 read
      obtain ⟨next, accepted, moved⟩ := bind_eq_ok.1 recorded
      obtain ⟨after, kept, rfl⟩ := accept_eq_ok accepted
      cases moved
      exact .accept task member item after held _ _ _ _ _ (.send before acknowledged status reply stage rfl valid) kept
    next cause failed =>
      cases outcome with
      | error reported =>
        obtain rfl : reported = cause := Except.error.inj failed
        exact .fail task member item held reported _ none _ (.send before _ stage id)
      | ok reply =>
        have unsure := Unsure.bind (readReply_unsure item.command reply.1 reply.2) (fun acknowledged =>
          Unsure.bind (Unsure.bind (accepted_unsure item acknowledged.receipt (some reply.2) acknowledged.notices) fun _ => .ok _)
            fun next : Client => .ok (next.advance task (.acknowledged acknowledged.sessionId))) cause failed
        refine .fail task member item held cause _ none _ (.send before _ stage fun definite => ?_)
        rw [definite] at unsure
        cases unsure

theorem change_lookedUp (member : task ∈ s.tasks) {before : Phase} (stage : task.stage = .reconciling before)
    {outcome : Except ClientError TaskReconciliation} :
    Change s (.lookedUp task.control outcome) [] (s.lookedUp task before outcome) := by
  rw [Client.lookedUp]
  split
  next lost => exact .drop task member [] (by simp) (.inl lost)
  next item held =>
    dsimp only
    split
    next t done =>
      obtain ⟨result, rfl, checked⟩ := bind_eq_ok.1 done
      obtain ⟨read, valid, recorded⟩ := bind_eq_ok.1 checked
      obtain rfl := validateTaskReconciliation_eq_ok valid
      cases read with
      | notFound =>
        cases recorded
        exact .notFound task member item held before stage
      | accepted receipt run =>
        obtain ⟨next, accepted, moved⟩ := bind_eq_ok.1 recorded
        obtain ⟨after, kept, rfl⟩ := accept_eq_ok accepted
        cases moved
        exact .accept task member item after held _ _ _ _ _ (.lookUp before receipt run stage rfl valid) kept
    next cause failed => exact .fail task member item held cause _ _ _ (.lookUp before stage)

theorem change_proceeds (member : task ∈ s.tasks)
    (stage : (∃ sessionId, task.stage = .acknowledged sessionId) ∨ task.stage = .reconciled) :
    Change s action [] (s.proceeds task) := by
  rw [Client.proceeds]
  split
  next item sessionId held stage =>
    have dropped : Change s action [] (s.finish task) :=
      .drop task member [] (by simp) (.inr ⟨rfl, .inl ⟨sessionId, stage⟩⟩)
    split
    · exact dropped
    · split
      · exact .onward task member item held sessionId stage
      · exact dropped
  next item held stage => exact .noted task member item held stage
  next not_acknowledged not_reconciled =>
    refine .drop task member [] (by simp) ?_
    rcases stage with ⟨sessionId, stage⟩ | stage
    · exact .inr ⟨rfl, .inl ⟨sessionId, stage⟩⟩
    · cases held : s.held task with
      | none => exact .inl rfl
      | some item => exact absurd stage (not_reconciled item held)

theorem change_manifestRead (member : task ∈ s.tasks) (stage : task.stage = .manifest)
    {outcome : Except ClientError Unit} : Change s action [] (s.manifestRead task outcome) := by
  have dropped : Change s action [] (s.finish task) := .drop task member [] (by simp) (.inr ⟨rfl, .inr stage⟩)
  cases outcome with
  | ok value => exact dropped
  | error cause =>
    rw [Client.manifestRead]
    split
    next item held =>
      split
      · exact .fail task member item held cause _ _ _ (.manifest stage)
      · exact dropped
    · exact dropped

theorem task_eq_some {control : Nat} (found : s.task control = some task) : task ∈ s.tasks ∧ task.control = control :=
  ⟨List.mem_of_find?_eq_some found, by simpa using List.find?_some found⟩

theorem step_change (done : s.step action = some t) : Change s action (ending s action) t := by
  cases action with
  | clear =>
    cases done
    exact .clear rfl
  | connected =>
    cases done
    exact .quiet _ rfl rfl rfl rfl rfl rfl fun _ => rfl
  | selectSession sessionId =>
    cases done
    rw [Client.selectSession]
    split
    · exact .quiet _ rfl rfl rfl rfl rfl rfl nofun
    · exact .same s _
  | reconnectLatest =>
    cases done
    rw [Client.reconnectLatest]
    split
    · exact .quiet _ rfl rfl rfl rfl rfl rfl fun _ => rfl
    · exact .same s _
  | setDraft text =>
    cases done
    rw [Client.setDraft]
    split
    · exact .quiet _ rfl rfl rfl rfl rfl rfl nofun
    · exact .same s _
  | createSession id title workspace =>
    simp only [Client.step] at done
    split at done
    · exact change_request done
    · cases done
      exact .same s _
  | renameSession id title => exact change_requestSelected done
  | refreshCatalog id => exact change_requestSelected done
  | sendTask id runId => exact change_requestSelected done
  | retryCommand id =>
    cases done
    split
    · exact change_execute id
    · exact .same s _
  | reconcileTask id =>
    cases done
    exact change_reconcileTask id
  | discardCommand id =>
    cases done
    exact .discard id
  | replied control outcome =>
    obtain ⟨task, found, staged⟩ := Option.bind_eq_some_iff.1 done
    obtain ⟨member, rfl⟩ := task_eq_some found
    split at staged
    next before stage =>
      cases staged
      rw [ending, found]
      exact change_replied member stage
    · cases staged
  | lookedUp control outcome =>
    obtain ⟨task, found, staged⟩ := Option.bind_eq_some_iff.1 done
    obtain ⟨member, rfl⟩ := task_eq_some found
    split at staged
    next before stage =>
      cases staged
      exact change_lookedUp member stage
    · cases staged
  | manifestRead control outcome =>
    obtain ⟨task, found, staged⟩ := Option.bind_eq_some_iff.1 done
    obtain ⟨member, rfl⟩ := task_eq_some found
    split at staged
    next stage =>
      cases staged
      exact change_manifestRead member stage
    · cases staged
  | proceeds control =>
    obtain ⟨task, found, staged⟩ := Option.bind_eq_some_iff.1 done
    obtain ⟨member, rfl⟩ := task_eq_some found
    split at staged
    next sessionId stage =>
      cases staged
      exact change_proceeds member (.inl ⟨sessionId, stage⟩)
    next stage =>
      cases staged
      exact change_proceeds member (.inr stage)
    · cases staged

end Inversion

end Wi.Browser
