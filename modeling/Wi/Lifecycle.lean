import Wi.Reaching

/-! The life of a run: what its state does, what it records after its end, and that every
stored copy of it agrees. -/
namespace Wi
open RunStore Writer
variable [JsonHash]

section Prefixes
variable {provenance : CreationProvenance} {log before : List StoredEvent} {event : StoredEvent}

theorem Lawful.inv (lawful : Lawful provenance (log ++ [event])) (started : log ≠ []) :
    Lawful provenance log ∧ Follows log provenance.sessionId event := by
  generalize grown : log ++ [event] = whole at lawful
  cases lawful with
  | created =>
    have short := congrArg List.length grown
    rw [List.length_append, List.length_singleton, List.length_singleton] at short
    exact absurd (List.length_eq_zero_iff.1 (by omega)) started
  | follows lawful follows =>
    obtain ⟨rfl, same⟩ := List.append_inj' grown rfl
    cases same
    exact ⟨lawful, follows⟩

theorem Lawful.of_prefix (lawful : Lawful provenance log) (early : before <+: log) (started : before ≠ []) :
    Lawful provenance before := by
  obtain ⟨rest, rfl⟩ := early
  induction rest using List.reverseRecOn with
  | nil => simpa using lawful
  | append_singleton rest event ih =>
    rw [← List.append_assoc] at lawful
    exact ih (lawful.inv (by simp [started])).1

theorem Lawful.moved (lawful : Lawful provenance log) (early : before <+: log) {row : RunRow}
    (member : row ∈ (Ledger.ofLog before).runs) :
    ∃ after ∈ (Ledger.ofLog log).runs, after.runId = row.runId ∧ row.state.Moves after.state := by
  have started : before ≠ [] := by
    rintro rfl
    simp [Ledger.ofLog] at member
  obtain ⟨rest, rfl⟩ := early
  induction rest using List.reverseRecOn with
  | nil =>
    rw [List.append_nil]
    exact ⟨row, member, rfl, .inl rfl⟩
  | append_singleton rest event ih =>
    rw [← List.append_assoc] at lawful ⊢
    obtain ⟨earlier, follows⟩ := lawful.inv (by simp [started])
    obtain ⟨middle, middle_member, named, moves⟩ := ih earlier
    obtain ⟨after, found, more⟩ := follows.moves (earlier.ledger.find_run.2 ⟨middle_member, rfl⟩)
    rw [← Ledger.ofLog_append] at found
    obtain ⟨after_member, after_named⟩ := lawful.ledger.find_run.1 found
    exact ⟨after, after_member, after_named.trans named, moves.trans more⟩

theorem Ledger.opened {row : RunRow}
    (member : row ∈ (Ledger.ofLog (log ++ [event])).runs) :
    row.state = .accepted ∨ ∃ old ∈ (Ledger.ofLog log).runs, old.runId = row.runId := by
  rw [Ledger.ofLog_append] at member
  rcases Ledger.mem_apply member with ⟨old, old_member, named, -⟩ | ⟨-, -, -, -, -, accepted⟩
  · exact .inr ⟨old, old_member, named⟩
  · exact .inl accepted

end Prefixes

section Ended
variable {provenance : CreationProvenance} {log : List StoredEvent} {event : StoredEvent}

/-- What a run that has ended may still record: one result that agrees with its end. -/
def RunRow.Concludes (row : RunRow) (payload : StoredEventPayload) : Prop :=
  ∃ result, payload = .runResultRecorded result ∧ row.state ≠ .interrupted ∧ row.resultSequence = none ∧
    row.terminal.bind StoredEventPayload.outcome = some (result.outcome, result.sessionId) ∧
    outcomeState result.outcome = row.state ∧ result.sessionId = row.providerSessionId

theorem Lawful.just_accepted (lawful : Lawful provenance log) {accepted : StoredEvent} (latest : log.getLast? = some accepted)
    {run : RunId} {input : RecordedRunInput} {owner : StoredEventId} (is_acceptance : accepted.payload = .runAccepted run input owner)
    {row : RunRow} (member : row ∈ (Ledger.ofLog log).runs) (named : row.runId = run) : active row.state = true := by
  cases lawful with
  | created =>
    cases latest
    cases is_acceptance
  | @follows log event lawful follows =>
    rw [List.getLast?_concat] at latest
    cases latest
    have own := (lawful.follows follows).accepted_run (by simp) is_acceptance
    have allowed := follows.allowed
    rw [own, is_acceptance] at allowed
    rcases Ledger.opened member with state | ⟨old, old_member, same⟩
    · rw [state]
      rfl
    · cases allowed.1.symm.trans (lawful.ledger.find_run.2 ⟨old_member, same.trans named⟩)

theorem Follows.concludes (lawful : Lawful provenance log) (follows : Follows log provenance.sessionId event) {row : RunRow}
    (member : row ∈ (Ledger.ofLog log).runs) (own : event.runId = some row.runId) (ended : active row.state = false) :
    row.Concludes event.payload := by
  have found := lawful.ledger.find_run.2 ⟨member, rfl⟩
  have allowed := follows.allowed
  rw [own] at allowed
  have going {other : RunRow} (located : (Ledger.ofLog log).run row.runId = some other) (was : active other.state = true) :
      row.Concludes event.payload := by
    cases Option.some.inj (located.symm.trans found)
    rw [ended] at was
    cases was
  cases is_payload : event.payload with
  | sessionCreated | sessionRenamed =>
    rw [is_payload] at allowed
    exact allowed.elim
  | runAccepted =>
    rw [is_payload] at allowed
    cases allowed.1.symm.trans found
  | runHistorySelected named selection =>
    rw [is_payload] at allowed going
    obtain ⟨-, accepted, input, owner, latest, is_acceptance, -⟩ := allowed
    exact going found (lawful.just_accepted latest is_acceptance member rfl)
  | runProviderBound =>
    rw [is_payload] at allowed going
    obtain ⟨other, located, running⟩ := allowed
    exact going located (by rw [running]; rfl)
  | toolResultRecorded =>
    rw [is_payload] at allowed going
    obtain ⟨other, located, running, -⟩ := allowed
    exact going located (by rw [running]; rfl)
  | runtimeObserved envelope =>
    rw [is_payload] at allowed going
    obtain ⟨other, located, allows⟩ := allowed
    exact going located allows.active
  | runInterrupted =>
    rw [is_payload] at allowed going
    obtain ⟨other, located, was⟩ := allowed
    exact going located was
  | runResultRecorded result =>
    rw [is_payload] at allowed
    obtain ⟨other, located, -, unrecorded, uninterrupted, open_run | ⟨-, agrees⟩⟩ := allowed
    all_goals cases Option.some.inj (located.symm.trans found)
    · rw [ended] at open_run
      cases open_run.1
    · have sound := lawful.ledger.runs row member
      refine ⟨result, rfl, uninterrupted, unrecorded, agrees, ?_⟩
      obtain ⟨terminal, -, -, is_terminal, -, -, ends⟩ := sound.ended ended
      rw [if_neg uninterrupted] at ends
      obtain ⟨outcome, is_outcome, state⟩ := ends
      rw [is_terminal, Option.bind_some, is_outcome, Option.some.injEq, Prod.mk.injEq] at agrees
      exact ⟨agrees.1 ▸ state, agrees.2.symm⟩

end Ended

section Agreement
variable {provenance : CreationProvenance} {db : Db}

/-- The block of a run says what its row says. -/
structure RunRow.ShownBy (row : RunRow) (block : BlockRow) : Prop where
  run : block.runId = row.runId
  accepted : block.acceptedSequence = row.acceptedSequence
  state : block.header.state = row.state
  result : block.header.resultRecorded = row.resultSequence.isSome

/-- The flags of a tool entry say what the columns of its row say. -/
structure ToolRow.ShownBy (row : ToolRow) (entry : EntryRow) : Prop where
  run : entry.runId = row.runId
  source : entry.metadata.source = .tool row.callId
  result : entry.metadata.resultRecorded = some row.resultSequence.isSome
  finish : entry.metadata.finishRecorded = some row.finishedSequence.isSome
  error : entry.metadata.isError = row.isError

/-- The stored copies of each run and tool call agree. -/
structure CopiesAgree (db : Db) : Prop where
  blocks : List.Forall₂ RunRow.ShownBy db.runs db.conversation.blocks
  calls : ∀ row ∈ db.tools, ∃ entry ∈ db.conversation.entries, row.ShownBy entry
  entries : ∀ entry ∈ db.conversation.entries, ∀ callId, entry.metadata.source = .tool callId →
    ∃ row ∈ db.tools, row.ShownBy entry

theorem Committed.copies (committed : Committed provenance db) (collision : CollisionFree) : CopiesAgree db := by
  have recorded := committed.recorded
  have represents := recorded.represents collision
  have shown := recorded.lawful.shown
  have shows {row : ToolRow} {item : Item} (shown : ToolShown db.events row item) : row.ShownBy item.row :=
    ⟨shown.run, shown.source, shown.recorded, shown.finished, shown.error⟩
  refine ⟨?_, ?_, ?_⟩
  · rw [represents.blocks, recorded.runs]
    exact shown.linked.runs.imp fun _ _ shown => ⟨shown.run, shown.accepted, shown.state, shown.result⟩
  · intro row member
    rw [recorded.tools] at member
    obtain ⟨item, item_member, shown⟩ := shown.linked.entries.rows row member
    rw [represents.entries]
    exact ⟨item.row, List.mem_map_of_mem item_member, shows shown⟩
  · intro entry member callId is_tool
    rw [represents.entries] at member
    obtain ⟨item, item_member, rfl⟩ := List.mem_map.1 member
    obtain ⟨row, row_member, same_run, same_call⟩ := shown.linked.entries.calls item item_member callId is_tool
    refine ⟨row, recorded.tools ▸ row_member, ?_⟩
    obtain ⟨other, other_member, shown_other⟩ := shown.linked.entries.rows row row_member
    have same : other = item := by
      refine List.inj_on_of_nodup_map shown.sound.sourced other_member item_member (Prod.ext ?_ ?_)
      · exact shown_other.run.trans same_run
      · exact shown_other.source.trans ((congrArg Source.tool same_call).trans is_tool.symm)
    rw [← same]
    exact shows shown_other

end Agreement

section Lifecycle
variable {provenance : CreationProvenance} {db : Db}

theorem Ledger.Sound.one_active {ledger : Ledger} {log : List StoredEvent} (sound : ledger.Sound log) :
    (ledger.runs.filter fun row => active row.state).length ≤ 1 := by
  have apart := sound.single.filter fun row => active row.state
  cases is_rows : ledger.runs.filter fun row => active row.state with
  | nil => exact Nat.zero_le _
  | cons first rest =>
    cases rest with
    | nil => exact le_rfl
    | cons second rest =>
      have going (row : RunRow) (member : row ∈ first :: second :: rest) : active row.state = true := by
        rw [← is_rows] at member
        simpa using (List.mem_filter.1 member).2
      rw [is_rows] at apart
      rcases (List.pairwise_cons.1 apart).1 second (by simp) with ended | ended
      · rw [going first (by simp)] at ended
        cases ended
      · rw [going second (by simp)] at ended
        cases ended

theorem storedRecords_cons (env : Env) (run : RunId) (first timestamp : Nat) (record : AppendRunRecord)
    (rest : List AppendRunRecord) : storedRecords env run first timestamp (record :: rest) =
      record.stored env run first timestamp :: storedRecords env run (first + 1) timestamp rest := by
  rw [storedRecords, List.mapIdx_cons, storedRecords]
  refine congrArg (_ :: ·) (congrFun (congrArg List.mapIdx (funext fun index => ?_)) rest)
  rw [Nat.add_assoc, Nat.add_comm 1]

theorem Committed.append_ended (committed : Committed provenance db) (collision : CollisionFree) {process : Session.Process}
    {operation : OperationId} {run : RunId} {records : List AppendRunRecord} {next : Db} {receipt : CommitReceipt}
    (done : Session.execute process provenance db (.record operation run (.append records)) = (next, .ok (receipt, false)))
    {row : RunRow} (member : row ∈ db.runs) (named : row.runId = run) (ended : active row.state = false) :
    ∃ result, records = [.result result] ∧ row.Concludes (.runResultRecorded result) := by
  have answered := committed.execute collision done
  cases answered with
  | @done _ _ added after _ events started written _ _ =>
    obtain ⟨env, owner, first, timestamp, rfl⟩ := written operation run _ rfl
    have lawful := after.recorded.lawful
    rw [committed.recorded.runs] at member
    rw [events] at lawful
    cases records with
    | nil => exact absurd rfl started
    | cons record rest =>
      let event := record.stored env run first timestamp
      rw [mutationEvents, storedRecords_cons, List.append_cons] at lawful
      have middle := lawful.of_prefix (List.prefix_append _ _) (by simp)
      obtain ⟨earlier, follows⟩ := middle.inv committed.recorded.lawful.ne_nil
      have concludes := follows.concludes earlier member (by rw [named]; rfl) ended
      obtain ⟨result, is_result, rest_concludes⟩ := concludes
      cases record with
      | providerBinding | runtime | toolResult => cases is_result
      | result final =>
        cases is_result
        refine ⟨result, ?_, result, rfl, rest_concludes⟩
        cases rest with
        | nil => rfl
        | cons other others =>
          -- A second record would follow the row that already has its result.
          have found := earlier.ledger.find_run.2 ⟨member, named⟩
          have concluded : (Ledger.ofLog (db.events ++ [event])).run run = some (RunRow.concluded first result row) := by
            rw [Ledger.ofLog_append]
            exact Ledger.run_updated found (RunRow.concluded_runId _ _)
          obtain ⟨member, named⟩ := middle.ledger.find_run.1 concluded
          rw [storedRecords_cons, List.append_cons] at lawful
          obtain ⟨-, follows⟩ := (lawful.of_prefix (List.prefix_append _ _) (by simp)).inv (by simp)
          have unchanged : RunRow.concluded first result row = { row with resultSequence := some first } := by
            rw [RunRow.concluded, ended]
            rfl
          obtain ⟨-, -, -, unrecorded, -⟩ := follows.concludes middle member (by rw [named]; rfl) (by rw [unchanged]; exact ended)
          rw [unchanged] at unrecorded
          cases unrecorded

/-- In every state of a session at most one run is open, the state of a run only moves on, a
run that has ended takes nothing but one result that agrees with its end, a completed run has
all its tool results, and the stored copies of runs and tool calls agree. -/
theorem run_lifecycle (collision : CollisionFree) (reachable : Reachable provenance db) :
    (db.runs.filter fun row => active row.state).length ≤ 1 ∧
    (∀ before event, before ++ [event] <+: db.events → before ≠ [] →
      (∀ row ∈ (Ledger.ofLog before).runs, ∃ after ∈ (Ledger.ofLog (before ++ [event])).runs,
        after.runId = row.runId ∧ row.state.Moves after.state) ∧
      (∀ row ∈ (Ledger.ofLog (before ++ [event])).runs, row.state = .accepted ∨
        ∃ old ∈ (Ledger.ofLog before).runs, old.runId = row.runId) ∧
      ∀ row ∈ (Ledger.ofLog before).runs, event.runId = some row.runId → active row.state = false →
        row.Concludes event.payload) ∧
    db.runs = (Ledger.ofLog db.events).runs ∧
    (∀ next, Later provenance db next → ∀ row ∈ db.runs, ∃ after ∈ next.runs,
      after.runId = row.runId ∧ row.state.Moves after.state) ∧
    (∀ process operation run records next receipt,
      Session.execute process provenance db (.record operation run (.append records)) = (next, .ok (receipt, false)) →
      ∀ row ∈ db.runs, row.runId = run → active row.state = false →
        ∃ result, records = [.result result] ∧ row.Concludes (.runResultRecorded result)) ∧
    (∀ row ∈ db.runs, row.state = .completed → ∀ call ∈ db.tools, call.runId = row.runId →
      call.resultSequence.isSome = true) ∧
    CopiesAgree db := by
  have committed := reachable.committed collision
  have recorded := committed.recorded
  have rows := recorded.lawful.ledger
  refine ⟨?_, ?_, recorded.runs, ?_, ?_, ?_, committed.copies collision⟩
  · rw [recorded.runs]
    exact rows.one_active
  · intro before event early started
    have grown := recorded.lawful.of_prefix early (by simp)
    obtain ⟨lawful, follows⟩ := grown.inv started
    exact ⟨fun row member => grown.moved (List.prefix_append _ _) member, fun row member => Ledger.opened member,
      fun row member own ended => follows.concludes lawful member own ended⟩
  · intro next later row member
    obtain ⟨after, grown⟩ := Later.committed collision later committed
    rw [after.recorded.runs]
    exact after.recorded.lawful.moved grown.events (recorded.runs ▸ member)
  · intro process operation run records next receipt done row member named ended
    exact committed.append_ended collision done member named ended
  · intro row member completed call call_member same
    exact rows.complete row (recorded.runs ▸ member) completed call (recorded.tools ▸ call_member) same

omit [JsonHash] in
/-- A running run with a tool result, and an interrupted run that takes no record any more. -/
theorem run_lifecycle_calling : letI := JsonHash.ideal
    Reachable .ideal calling ∧ calling.runs.map (·.state) = [.running] ∧ calling.tools.map (·.resultSequence) = [some 7] ∧
    CopiesAgree calling ∧ Reachable .ideal reopened ∧ reopened.runs.map (·.state) = [.interrupted] ∧
    ∀ process operation records next receipt,
      Session.execute process .ideal reopened (.record operation Uuid.one (.append records)) ≠ (next, .ok (receipt, false)) := by
  let _ := JsonHash.ideal
  obtain ⟨-, -, -, -, -, -, agree⟩ := run_lifecycle JsonHash.ideal_collisionFree calling_reachable
  obtain ⟨-, -, -, -, ended, -⟩ := run_lifecycle JsonHash.ideal_collisionFree reopened_reachable
  have rows : reopened.runs.map (fun row => (row.runId, row.state)) = [(Uuid.one, .interrupted)] := by decide +kernel
  refine ⟨calling_reachable, by decide +kernel, by decide +kernel, agree, reopened_reachable, by decide +kernel, ?_⟩
  intro process operation records next receipt done
  obtain ⟨row, one, facts⟩ := List.map_eq_singleton_iff.1 rows
  simp only [Prod.mk.injEq] at facts
  obtain ⟨named, interrupted⟩ := facts
  obtain ⟨result, -, -, -, going, -⟩ := ended _ _ _ _ _ _ done row (by simp [one]) named (by rw [interrupted]; rfl)
  exact going interrupted

end Lifecycle
end Wi
