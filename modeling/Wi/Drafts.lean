import Wi.CommandPhases

/-! When the draft is emptied: the text of a task is taken from it once the task is known to be
accepted. A look-up of a task that is already accepted takes it again. -/
namespace Wi.Browser
open Steps

/-- Nothing is taken from the draft, or it is the text of a task of the selected session that becomes
known to be accepted by this step. -/
def TakenOnce (s t : Client) : Prop :=
  t.draft = s.draft ∨ ∃ id item after sessionId runId, s.pending.get id = some item ∧
    item.command.body = .task sessionId runId s.draft ∧ s.selected = some sessionId ∧ item.receipt = none ∧
    t.pending.get id = some after ∧ after.command = item.command ∧ after.receipt ≠ none ∧ after.phase = .accepted ∧ t.draft = []

/-- A look-up finds again what is known of a task, while the draft holds its text and neither the
connection, the selection nor the observation has changed since the look-up began. -/
structure FoundAgain (s : Client) (action : ClientAction) (task : Waiting) (item : DisplayPendingCommand)
    (receipt : ReceiptView) : Prop where
  member : task ∈ s.tasks
  pending : s.pending.get task.id = some item
  known : item.receipt = some receipt
  looked : ∃ before run, task.stage = .reconciling before ∧ action = .lookedUp task.control (.ok (.accepted receipt run)) ∧
    validateTaskReconciliation item.command (.accepted receipt run) = .ok (.accepted receipt run)
  text : ∃ sessionId runId, item.command.body = .task sessionId runId s.draft ∧ s.selected = some sessionId
  current : task.stamp = s.stamp
  typed : s.draft ≠ []

theorem consumes_task {s : Client} {task : Waiting} {item : DisplayPendingCommand} (taken : s.consumes task item = true) :
    ∃ sessionId runId, item.command.body = .task sessionId runId s.draft ∧ task.stamp = s.stamp ∧
      s.selected = some sessionId ∧ item.phase ≠ .accepted := by
  rw [Client.consumes] at taken
  split at taken
  next sessionId runId text body =>
    simp only [Bool.and_eq_true, decide_eq_true_eq] at taken
    obtain ⟨⟨⟨stamp, selected⟩, rfl⟩, phase⟩ := taken
    exact ⟨sessionId, runId, body, stamp, selected, phase⟩
  · cases taken

theorem readReply_task {command : CapturedCommand} {status : Nat} {reply : Reply} {acknowledged : Acknowledgement}
    {sessionId runId : Uuid} {text : Text} (body : command.body = .task sessionId runId text)
    (read : readReply command status reply = .ok acknowledged) : acknowledged.receipt ≠ none := by
  unfold readReply at read
  rw [body] at read
  split at read
  all_goals try contradiction
  split at read
  · cases read
  · obtain ⟨receipt, -, made⟩ := bind_eq_ok.1 read
    cases made
    exact Option.some_ne_none _

theorem foundAgain_of_taken {s t : Client} {endings log : List (Uuid × Bool)} {action : ClientAction}
    (c : Consistent s endings) (done : Change s action log t) (kept : action.edits = false) (twice : ¬ TakenOnce s t) :
    ∃ task item receipt, FoundAgain s action task item receipt := by
  cases done with
  | quiet t pending waiters tasks issued controls connection draft => exact absurd (.inl (draft kept)) twice
  | clear action_is =>
    rw [action_is] at kept
    cases kept
  | capture command fresh => exact absurd (.inl (capture_frame s command).2) twice
  | accept task member item after held log receipt reply incoming stage why done =>
    have found : s.pending.get task.id = some item := c.held_eq member ▸ held
    obtain ⟨-, -, agrees⟩ := c.waiting task member item found
    obtain ⟨-, command, phase, receipt_is, same⟩ := DisplayPendingCommand.accepted_eq_ok done
    cases taken : s.consumes task item with
    | false =>
      refine absurd (.inl ?_) twice
      simp [Client.advance, taken]
    | true =>
      have emptied : (({ s.keep task.id after with draft := if s.consumes task item then [] else s.draft }).advance
          task stage).draft = [] := by
        simp [Client.advance, taken]
      obtain ⟨sessionId, runId, body, stamp, selected, -⟩ := consumes_task taken
      have first (unknown : item.receipt = none) (brought : receipt ≠ none) : False := by
        refine twice (.inr ⟨task.id, item, after, sessionId, runId, found, body, selected, unknown, Map.get_set_self _ _ _, command,
          ?_, phase, emptied⟩)
        rw [receipt_is]
        exact brought
      cases why with
      | send before acknowledged status reply stage replied read =>
        rw [stage] at agrees
        exact (first agrees.2.1 (readReply_task body read)).elim
      | lookUp before receipt run stage lookedUp read =>
        cases known : item.receipt with
        | none => exact (first known (Option.some_ne_none _)).elim
        | some old =>
          have equal : receipt = old := Option.some.inj (same old known)
          refine ⟨task, item, receipt, member, found, equal ▸ known, ⟨before, run, stage, lookedUp, read⟩,
            ⟨sessionId, runId, body, selected⟩, stamp, fun empty => ?_⟩
          exact twice (.inl (emptied.trans empty.symm))
  | _ => exact absurd (.inl rfl) twice

theorem FoundAgain.taken_twice {s t : Client} {endings : List (Uuid × Bool)} {action : ClientAction} {task : Waiting}
    {item : DisplayPendingCommand} {receipt : ReceiptView} (again : FoundAgain s action task item receipt)
    (c : Consistent s endings) (done : s.step action = some t) : ¬ TakenOnce s t := by
  obtain ⟨member, found, known, ⟨before, run, stage, rfl, read⟩, ⟨sessionId, runId, body, selected⟩, current, typed⟩ := again
  obtain ⟨-, -, agrees⟩ := c.waiting task member item found
  rw [stage] at agrees
  have taken : s.consumes task item = true := by simp [Client.consumes, body, current, selected, agrees.1]
  have calm : item.phase ≠ .conflict := by
    rw [agrees.1]
    exact nofun
  have accepted : item.accepted (some receipt) item.reply [] = .ok
      { item with phase := .accepted, receipt := some receipt, notices := item.notices, error := none } := by
    rw [DisplayPendingCommand.accepted, known, if_neg (by simp [calm])]
    rfl
  simp only [Client.step, c.task_eq member, Option.bind_eq_bind, Option.bind_some, stage, Client.lookedUp, c.held_eq member,
    found, ok_bind, read, Client.accept, accepted, pure_eq_ok, taken, ↓reduceIte, Option.some.injEq] at done
  subst done
  rintro (same | ⟨id, old, after, -, -, was, -, -, unknown, kept, -, learned, -⟩)
  · exact typed same.symm
  · change Map.get (Map.set _ _ _) id = some after at kept
    rw [Map.get_set] at kept
    split at kept
    next here =>
      rw [← here, found] at was
      cases was
      rw [known] at unknown
      cases unknown
    · rw [was] at kept
      cases kept
      exact learned unknown

/-! ### Runs -/

/-- The action does not look up a command that is accepted. -/
def Careful (s : Client) (action : ClientAction) : Prop :=
  ∀ id item, action = .reconcileTask id → s.pending.get id = some item → item.phase ≠ .accepted

/-- No look-up under way began on an accepted command. -/
def Unsettled (s : Client) : Prop := ∀ task ∈ s.tasks, task.stage ≠ .reconciling .accepted

theorem Unsettled.change {s t : Client} {action : ClientAction} {log : List (Uuid × Bool)} (unsettled : Unsettled s)
    (careful : Careful s action) (done : Change s action log t) : Unsettled t := by
  have advanced {u : Client} {task : Waiting} {stage : Stage} (same : u.tasks = s.tasks) (other : stage ≠ .reconciling .accepted) :
      Unsettled (u.advance task stage) := by
    refine List.forall_mem_map.2 fun old member => ?_
    split
    · exact other
    · exact unsettled old (same ▸ member)
  cases done with
  | quiet t pending waiters tasks =>
    rw [Unsettled, tasks]
    exact unsettled
  | clear | discard => exact unsettled
  | capture command fresh =>
    simp only [Client.capture, Client.execute, Map.get_set_self]
    split
    · split
      · exact unsettled
      · exact List.forall_mem_append.2 ⟨unsettled, by simp⟩
    · exact unsettled
  | send id item => exact List.forall_mem_append.2 ⟨unsettled, by simp⟩
  | lookUp id item held idle open_ asked => exact List.forall_mem_append.2 ⟨unsettled, by simpa using careful id item asked held⟩
  | drop | fail | notFound | noted => exact fun other kept => unsettled other (List.mem_of_mem_filter kept)
  | accept task member item after held log receipt reply incoming stage why => exact advanced rfl (by cases why <;> simp)
  | onward => exact advanced rfl (by simp)

theorem FoundAgain.settled {s : Client} {endings : List (Uuid × Bool)} {action : ClientAction} {task : Waiting}
    {item : DisplayPendingCommand} {receipt : ReceiptView} (again : FoundAgain s action task item receipt)
    (c : Consistent s endings) : ¬ Unsettled s := by
  obtain ⟨before, -, stage, -⟩ := again.looked
  obtain ⟨-, -, agrees⟩ := c.waiting task again.member item again.pending
  rw [stage] at agrees
  cases agrees.2.1 (again.known ▸ Option.some_ne_none _)
  exact fun unsettled => unsettled task again.member stage

theorem run_unsettled {actions : List ClientAction} {o : Observed} (done : run Observed.step .new actions = some o)
    (careful : ∀ earlier action, earlier ++ [action] <+: actions → ∀ o, run Observed.step .new earlier = some o →
      Careful o.client action) : Unsettled o.client := by
  induction actions using List.reverseRecOn generalizing o with
  | nil =>
    cases done
    simp [Unsettled, Observed.new, Client.new]
  | append_singleton earlier action ih =>
    rw [run_append] at done
    obtain ⟨middle, before, last⟩ := Option.bind_eq_some_iff.1 done
    rw [run_cons, Option.bind_eq_some_iff] at last
    obtain ⟨final, stepped, same⟩ := last
    cases same
    obtain ⟨client, moved, rfl⟩ := Option.map_eq_some_iff.1 stepped
    have unsettled := ih before fun first other starts => careful first other (starts.trans (List.prefix_append _ _))
    exact unsettled.change (careful earlier action List.prefix_rfl middle before) (step_change moved)

/-- Apart from what the user does to it, every step of every run takes from the draft at most the
text of a task that it makes known to be accepted, unless it is a look-up that finds a task
accepted whose receipt is held already, while the draft holds the task's text. A run that looks up
no accepted command has no such step. -/
theorem draft_taken_once_iff {actions : List ClientAction} {o : Observed} {action : ClientAction} {t : Client}
    (done : run Observed.step .new actions = some o) (stepped : o.client.step action = some t)
    (kept : action.edits = false) :
    (TakenOnce o.client t ↔ ¬ ∃ task item receipt, FoundAgain o.client action task item receipt) ∧
    ((∀ earlier action, earlier ++ [action] <+: actions → ∀ o, run Observed.step .new earlier = some o → Careful o.client action) →
      TakenOnce o.client t) := by
  have c := observed_consistent done
  have once : TakenOnce o.client t ↔ ¬ ∃ task item receipt, FoundAgain o.client action task item receipt := by
    constructor
    · rintro once ⟨task, item, receipt, again⟩
      exact again.taken_twice c stepped once
    · intro never
      by_contra twice
      exact never (foundAgain_of_taken c (step_change stepped) kept twice)
  refine ⟨once, fun careful => once.2 ?_⟩
  rintro ⟨task, item, receipt, again⟩
  exact again.settled c (run_unsettled done careful)

theorem draft_taken_once_iff_sent : ∃ o t, run Observed.step .new (acceptedTask.take 4) = some o ∧
    o.client.step (.replied 0 (.ok (202, .task helloReceipt false []))) = some t ∧ o.client.draft ≠ [] ∧ t.draft = [] ∧
    (TakenOnce o.client t ↔ ¬ ∃ task item receipt,
      FoundAgain o.client (.replied 0 (.ok (202, .task helloReceipt false []))) task item receipt) ∧ TakenOnce o.client t := by
  have reached : ((run Observed.step .new (acceptedTask.take 4)).bind fun o =>
      (o.client.step (.replied 0 (.ok (202, .task helloReceipt false [])))).map fun t => (o.client.draft, t.draft)) =
      some ("Hello".toList, []) := by decide +kernel
  obtain ⟨o, done, moved⟩ := Option.bind_eq_some_iff.1 reached
  obtain ⟨t, stepped, drafts⟩ := Option.map_eq_some_iff.1 moved
  obtain ⟨before, after⟩ := Prod.mk.inj drafts
  obtain ⟨once, careful⟩ := draft_taken_once_iff done stepped rfl
  refine ⟨o, t, done, stepped, by rw [before]; decide, after, once, careful fun earlier action starts _ _ id _ asked => ?_⟩
  have member : action ∈ acceptedTask.take 4 := starts.subset (by simp)
  rw [asked] at member
  simp [acceptedTask] at member

/-- Looking up the accepted task empties the draft a second time. -/
theorem draft_taken_again : ¬ ∀ actions o action t, run Observed.step .new actions = some o →
    o.client.step action = some t → action.edits = false → TakenOnce o.client t := by
  intro once
  have reached : ((run Observed.step .new (acceptedTask ++ [.setDraft "Hello".toList, .reconcileTask (.ending 'b')])).bind fun o =>
      (o.client.step (.lookedUp 1 (.ok (.accepted helloReceipt ⟨.ending 'c', "Hello".toList⟩)))).map fun t =>
        (o.client.draft, t.draft, o.client.pending.map fun pair => (pair.1, pair.2.receipt.isSome))) =
      some ("Hello".toList, [], [(.ending 'b', true)]) := by decide +kernel
  obtain ⟨o, done, moved⟩ := Option.bind_eq_some_iff.1 reached
  obtain ⟨t, stepped, facts⟩ := Option.map_eq_some_iff.1 moved
  obtain ⟨before, after⟩ := Prod.mk.inj facts
  obtain ⟨after, pending⟩ := Prod.mk.inj after
  rcases once _ o _ t done stepped rfl with same | ⟨id, item, later, -, -, found, -, -, unknown, -⟩
  · rw [before, after] at same
    exact absurd same (by decide)
  · have listed := List.mem_map_of_mem (f := fun pair => (pair.1, pair.2.receipt.isSome)) (Map.mem_of_get found)
    rw [pending, List.mem_singleton, unknown] at listed
    exact absurd (Prod.mk.inj listed).2 (by decide)

end Wi.Browser
