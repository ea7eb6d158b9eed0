import Wi.Correlating

/-! What each kind of record does to the run and tool rows. -/
namespace Wi
open RunStore Writer
variable [JsonHash]

section Effects
variable {id : ApplicationSessionId} {log : List StoredEvent} {event : StoredEvent} {db after : Db} {run next : RecordedRun}
variable {row : RunRow} {env : Env} {sequence timestamp : Nat} {record : AppendRunRecord} {envelope : RunEventEnvelope}

/-- The payload that a record is stored with. -/
def AppendRunRecord.payload : AppendRunRecord → StoredEventPayload
  | .providerBinding binding => .runProviderBound binding
  | .runtime event => .runtimeObserved event
  | .toolResult requestId callId output isError => .toolResultRecorded requestId callId output isError
  | .result final => .runResultRecorded final

/-- The event row of a record. -/
def AppendRunRecord.stored (record : AppendRunRecord) (env : Env) (run : RunId) (sequence timestamp : Nat) : StoredEvent :=
  ⟨sequence, env.eventId sequence, timestamp, some run, (sourceColumns record).1, (sourceColumns record).2, record.payload⟩

theorem Event.record_eq_shown (own : ∀ binding, record = .providerBinding binding → binding.runId = run.runId) :
    Event.record sequence run.runId record = .ok (record.stored env run.runId sequence timestamp).shown := by
  cases record with
  | providerBinding binding => simp [Event.record, own binding rfl, AppendRunRecord.stored, StoredEvent.shown,
      AppendRunRecord.payload, StoredEventPayload.input]
  | _ => rfl

theorem History.event_mem {events : List StoredEvent} {parsed : StoredEvent}
    (read : History.event events id sequence = .ok parsed) :
    ∃ event ∈ events, event.sequence = sequence ∧ event.read = some parsed := by
  rw [History.event] at read
  obtain ⟨_, -, read⟩ := bind_eq_ok.1 read
  obtain ⟨row, found, read⟩ := bind_eq_ok.1 read
  obtain ⟨_, is_parsed, read⟩ := bind_eq_ok.1 read
  obtain ⟨_, -, read⟩ := bind_eq_ok.1 read
  cases read
  rw [present_eq_ok] at found is_parsed
  exact ⟨row, List.mem_of_find?_eq_some found, by simpa using List.find?_some found, is_parsed⟩

/-- Only the run and tool rows may differ. -/
structure SameRest (db after : Db) : Prop where
  manifest : after.manifest = db.manifest
  events : after.events = db.events
  commands : after.commands = db.commands
  conversation : after.conversation = db.conversation

theorem SameRest.refl (db : Db) : SameRest db db := ⟨rfl, rfl, rfl, rfl⟩

/-- The run and tool rows are those of a ledger. -/
structure Carries (db : Db) (ledger : Ledger) : Prop where
  runs : db.runs = ledger.runs
  tools : db.tools = ledger.tools

theorem Carries.tool {ledger : Ledger} (carries : Carries db ledger) {run : RunId} {callId : Text} {result : Option ToolRow}
    (read : toolResult db id run callId = .ok result) : ledger.tool run callId = result := by
  rw [toolResult_eq_ok read, Ledger.tool, carries.tools]

theorem recordToolEvent_ok (rows : (Ledger.ofLog log).Sound log) (carries : Carries db (Ledger.ofLog log))
    (events : db.events = log ++ [event]) (later : ∀ old ∈ log, old.sequence < event.sequence) {tool : ToolExecutionEvent}
    (done : recordToolEvent db id run sequence envelope tool = .ok after) :
    AllowsTool log run.runId envelope tool ∧ SameRest db after ∧
      Carries after ((Ledger.ofLog log).observeTool run.runId sequence envelope.requestId tool) := by
  rw [recordToolEvent] at done
  obtain ⟨request, is_request, done⟩ := bind_eq_ok.1 done
  rw [present_eq_ok] at is_request
  cases tool with
  | toolExecutionStarted callId toolName =>
    obtain ⟨existing, read, done⟩ := bind_eq_ok.1 done
    obtain ⟨_, missing, done⟩ := bind_eq_ok.1 done
    cases done
    have absent : existing = none := by simpa using require_eq_ok.1 missing
    refine ⟨(carries.tool read).trans absent, ⟨rfl, rfl, rfl, rfl⟩, carries.runs, ?_⟩
    rw [is_request]
    exact congrArg (· ++ _) carries.tools
  | toolExecutionFinished callId toolName isError =>
    obtain ⟨existing, read, done⟩ := bind_eq_ok.1 done
    obtain ⟨saved, is_saved, done⟩ := bind_eq_ok.1 done
    obtain ⟨_, checked, done⟩ := bind_eq_ok.1 done
    obtain ⟨started, read_started, done⟩ := bind_eq_ok.1 done
    rw [present_eq_ok] at is_saved
    have found := (carries.tool read).trans is_saved
    simp only [require_eq_ok, Bool.and_eq_true, decide_eq_true_eq, Option.isNone_iff_eq_none] at checked
    obtain ⟨⟨⟨is_name, same_request⟩, unfinished⟩, agrees⟩ := checked
    cases is_payload : started.payload with
    | runtimeObserved first =>
      rw [is_payload] at done
      obtain ⟨_, same_turn, done⟩ := bind_eq_ok.1 done
      cases done
      obtain ⟨written, member, numbered, parses⟩ := History.event_mem read_started
      have shape := StoredEvent.payload_shape_read parses
      rw [is_payload] at shape
      obtain ⟨original, is_shape, is_written⟩ := StoredEventPayload.shape_runtime shape.symm
      have turn : original.turnId = first.turnId := by
        change original.shape.turnId = first.shape.turnId
        rw [is_shape]
      have old : written ∈ log := by
        rw [events] at member
        rcases List.mem_append.1 member with old | last
        · exact old
        · -- The call started before this event.
          obtain ⟨first, first_member, first_numbered, -⟩ := (rows.tools saved (rows.find_tool.1 found).1).started
          have := later first first_member
          rw [List.mem_singleton.1 last] at numbered
          omega
      refine ⟨⟨saved, found, is_name, same_request.trans is_request.symm, unfinished, ?_, written, old, numbered, original,
        is_written, turn.trans (of_decide_eq_true (require_eq_ok.1 same_turn))⟩, ⟨rfl, rfl, rfl, rfl⟩, carries.runs, ?_⟩
      · intro known is_known
        rw [is_known] at agrees
        simpa using agrees
      · exact congrArg (Table.update _ _) carries.tools
    | _ => rw [is_payload] at done; cases done
  | toolResultReused callId toolName =>
    obtain ⟨existing, read, done⟩ := bind_eq_ok.1 done
    obtain ⟨saved, is_saved, done⟩ := bind_eq_ok.1 done
    obtain ⟨_, checked, done⟩ := bind_eq_ok.1 done
    rw [present_eq_ok] at is_saved
    simp only [require_eq_ok, Bool.and_eq_true, decide_eq_true_eq] at checked
    cases done
    exact ⟨⟨saved, (carries.tool read).trans is_saved, checked.1.1, checked.2⟩, SameRest.refl _, carries⟩

theorem requireOutputs_ok (carries : Carries db (Ledger.ofLog log)) {outcome : RunOutcome} {run : RunId} {value : Unit}
    (done : requireOutputs db run outcome = .ok value) : OutputsRecorded log run outcome := by
  intro completed row member own
  rw [requireOutputs, require_eq_ok, completed] at done
  rw [← carries.tools] at member
  simp only [ne_eq, not_true_eq_false, decide_false, Bool.false_or, Bool.not_eq_true'] at done
  have := List.any_eq_false.1 done row member
  simpa [own, Option.isNone_iff_eq_none, ← Option.isSome_iff_ne_none] using this

end Effects

section Saving
variable {id : ApplicationSessionId} {log : List StoredEvent} {event : StoredEvent} {db middle : Db} {run next : RecordedRun}
variable {row : RunRow} {env : Env} {sequence timestamp : Nat} {record : AppendRunRecord} {envelope : RunEventEnvelope}

/-- What a record's last statement writes to the run row. -/
def RecordedRun.save (run : RecordedRun) (row : RunRow) : RunRow :=
  { row with
    state := run.state
    lastRuntimeSequence := run.lastRuntimeSequence
    providerSessionId := run.providerSessionId
    resultSequence := run.resultSequence }

/-- The run in memory after a record, apart from its terminal event. -/
structure Becomes (run next : RecordedRun) (row : RunRow) : Prop where
  runId : next.runId = run.runId
  input : next.input = run.input
  terminal : next.terminal = run.terminal
  accepted : next.acceptedSequence = row.acceptedSequence
  owner : next.ownerInstanceId = row.ownerInstanceId
  state : next.state = row.state
  runtime : next.lastRuntimeSequence = row.lastRuntimeSequence
  provider : next.providerSessionId = row.providerSessionId
  result : next.resultSequence = row.resultSequence

theorem Ledger.Sound.update_congr {ledger : Ledger} (sound : ledger.Sound log) {name : RunId}
    (found : ledger.run name = some row) {set other : RunRow → RunRow} (same : set row = other row) :
    Table.update (fun row => row.runId = name) set ledger.runs =
      Table.update (fun row => row.runId = name) other ledger.runs := by
  refine Table.update_congr fun old member selected => ?_
  cases Option.some.inj ((sound.find_run.2 ⟨member, of_decide_eq_true selected⟩).symm.trans found)
  exact same

theorem recordRuntime_ok (rows : (Ledger.ofLog log).Sound log) (carries : Carries db (Ledger.ofLog log))
    (events : db.events = log ++ [event]) (later : ∀ old ∈ log, old.sequence < event.sequence)
    (found : (Ledger.ofLog log).run run.runId = some row) (mirrors : Mirrors log row run) {correlation : Correlation}
    (correlated : Correlated log run envelope correlation)
    (done : recordRuntime db id run sequence envelope = .ok (middle, next)) :
    AllowsRuntime log run.runId row.state envelope ∧ SameRest db middle ∧
      Becomes run next (RunRow.observed sequence envelope row) ∧
      Carries (updateRun middle next.runId next.save) ((Ledger.ofLog log).observe run.runId sequence envelope) := by
  have allowed := correlated.allowed
  rw [mirrors.state] at allowed
  rw [recordRuntime] at done
  cases is_event : envelope.event with
  | runStarted =>
    rw [is_event] at done allowed
    cases done
    refine ⟨by rw [AllowsRuntime, is_event]; exact allowed, SameRest.refl _, ?_, ?_, ?_⟩
    · simp only [RunRow.observed, is_event]
      exact ⟨rfl, rfl, rfl, mirrors.accepted, mirrors.owner, rfl, rfl, rfl, mirrors.result⟩
    · simp only [Ledger.observe, is_event, Writer.updateRun, carries.runs]
      refine rows.update_congr found ?_
      simp only [RunRow.observed, is_event, RecordedRun.save, mirrors.result]
    · simp only [Ledger.observe, is_event]
      exact carries.tools
  | runFinished outcome summary =>
    rw [is_event] at done allowed
    obtain ⟨_, outputs, done⟩ := bind_eq_ok.1 done
    cases done
    refine ⟨by rw [AllowsRuntime, is_event]; exact ⟨allowed, requireOutputs_ok carries outputs⟩, ⟨rfl, rfl, rfl, rfl⟩, ?_,
      ?_, ?_⟩
    · simp only [RunRow.observed, is_event]
      exact ⟨rfl, rfl, rfl, mirrors.accepted, mirrors.owner, rfl, rfl, rfl, mirrors.result⟩
    · simp only [Ledger.observe, is_event, Writer.updateRun, carries.runs]
      rw [Table.update_update]
      · refine rows.update_congr found ?_
        simp only [RunRow.observed, is_event, RecordedRun.save, mirrors.result]
      · exact fun _ => rfl
    · simp only [Ledger.observe, is_event]
      exact carries.tools
  | toolEvent tool =>
    rw [is_event] at done allowed
    obtain ⟨changed, recorded, done⟩ := bind_eq_ok.1 done
    cases done
    obtain ⟨allows, same, carried⟩ := recordToolEvent_ok rows carries events later recorded
    refine ⟨by rw [AllowsRuntime, is_event]; exact ⟨allowed.1, allowed.2, allows⟩, same, ?_, ?_, ?_⟩
    · simp only [RunRow.observed, is_event]
      exact ⟨rfl, rfl, rfl, mirrors.accepted, mirrors.owner, mirrors.state, rfl, rfl, mirrors.result⟩
    · simp only [Ledger.observe, is_event, Ledger.run_observeTool, Writer.updateRun, carried.runs]
      refine rows.update_congr found ?_
      simp only [RunRow.observed, is_event, RecordedRun.save, mirrors.result, mirrors.state]
    · simp only [Ledger.observe, is_event]
      exact carried.tools.trans (by cases tool <;> rfl)
  | turnStarted | turnFinished | providerEvent =>
    rw [is_event] at done allowed
    cases done
    refine ⟨by rw [AllowsRuntime, is_event]; exact allowed, SameRest.refl _, ?_, ?_, ?_⟩
    · simp only [RunRow.observed, is_event]
      exact ⟨rfl, rfl, rfl, mirrors.accepted, mirrors.owner, mirrors.state, rfl, rfl, mirrors.result⟩
    · simp only [Ledger.observe, is_event, Writer.updateRun, carries.runs]
      refine rows.update_congr found ?_
      simp only [RunRow.observed, is_event, RecordedRun.save, mirrors.result, mirrors.state]
    · simp only [Ledger.observe, is_event]
      exact carries.tools

theorem recordToolResult_ok (carries : Carries db (Ledger.ofLog log)) {request : Option Text} {callId output : Text}
    {isError : Bool} (done : recordToolResult db id run sequence request callId output isError = .ok middle) :
    run.state = .running ∧ (∃ call, (Ledger.ofLog log).tool run.runId callId = some call ∧ call.requestId = request ∧
        call.resultSequence = none ∧ ∀ known, call.isError = some known → known = isError) ∧ SameRest db middle ∧
      Carries middle ((Ledger.ofLog log).updateTool run.runId callId (ToolRow.recorded sequence output isError)) := by
  rw [recordToolResult] at done
  obtain ⟨_, running, done⟩ := bind_eq_ok.1 done
  obtain ⟨existing, read, done⟩ := bind_eq_ok.1 done
  obtain ⟨saved, is_saved, done⟩ := bind_eq_ok.1 done
  obtain ⟨_, checked, done⟩ := bind_eq_ok.1 done
  cases done
  rw [present_eq_ok] at is_saved
  simp only [require_eq_ok, Bool.and_eq_true, decide_eq_true_eq, Option.isNone_iff_eq_none] at checked running
  obtain ⟨⟨same_request, unrecorded⟩, agrees⟩ := checked
  refine ⟨running, ⟨saved, (carries.tool read).trans is_saved, same_request, unrecorded, ?_⟩, ⟨rfl, rfl, rfl, rfl⟩,
    carries.runs, congrArg (Table.update _ _) carries.tools⟩
  intro known is_known
  rw [is_known] at agrees
  simpa using agrees

theorem Mirrors.ended (mirrors : Mirrors log row run) (sound : row.Sound log) (inactive : active row.state = false) :
    ∃ event ∈ log, (∃ parsed, event.read = some parsed ∧ run.terminal = some parsed) ∧
      row.terminal = some event.payload ∧ row.terminalSequence = some event.sequence := by
  obtain ⟨ending, member, ended, is_terminal, -⟩ := sound.ended inactive
  have copies := mirrors.terminal
  cases carried : run.terminal with
  | none =>
    rw [carried, ended] at copies
    cases copies.1
  | some parsed =>
    rw [carried] at copies
    obtain ⟨event, member, parses, sequence, payload⟩ := copies
    exact ⟨event, member, ⟨parsed, parses, rfl⟩, payload, sequence⟩

theorem recordResult_ok (rows : (Ledger.ofLog log).Sound log) (carries : Carries db (Ledger.ofLog log))
    (ordered : Keyed.Ascending StoredEvent.sequence db.events) (grown : log ⊆ db.events)
    (found : (Ledger.ofLog log).run run.runId = some row) (mirrors : Mirrors log row run)
    (going_on : run.state ≠ .interrupted) {result : RunResult}
    (done : recordResult db id run sequence result = .ok (middle, next)) :
    AllowsResult log run.runId result row ∧ SameRest db middle ∧ Becomes run next (RunRow.concluded sequence result row) ∧
      Carries (updateRun middle next.runId next.save)
        ((Ledger.ofLog log).updateRun run.runId (RunRow.concluded sequence result)) := by
  rw [recordResult] at done
  obtain ⟨_, checked, done⟩ := bind_eq_ok.1 done
  simp only [require_eq_ok, Bool.and_eq_true, decide_eq_true_eq, Option.isNone_iff_eq_none] at checked
  obtain ⟨own, unresulted⟩ := checked
  rw [mirrors.result] at unresulted
  rw [mirrors.state] at going_on done
  cases is_active : active row.state with
  | true =>
    rw [if_pos is_active] at done
    obtain ⟨_, replaces, done⟩ := bind_eq_ok.1 done
    obtain ⟨_, outputs, done⟩ := bind_eq_ok.1 done
    cases done
    rw [require_eq_ok, Bool.and_eq_true, Bool.not_eq_true'] at replaces
    refine ⟨⟨own, unresulted, going_on, .inl ⟨is_active, replaces.1, requireOutputs_ok carries outputs⟩⟩,
      ⟨rfl, rfl, rfl, rfl⟩, ?_, ?_, carries.tools⟩
    · rw [RunRow.concluded, if_pos is_active]
      exact ⟨rfl, rfl, rfl, mirrors.accepted, mirrors.owner, rfl, mirrors.runtime, rfl, rfl⟩
    · simp only [Ledger.updateRun, Writer.updateRun, carries.runs]
      rw [Table.update_update]
      · refine rows.update_congr found ?_
        rw [RunRow.concluded, if_pos is_active]
        simp only [RecordedRun.save, mirrors.runtime]
      · exact fun _ => rfl
  | false =>
    rw [if_neg (by simp [is_active])] at done
    obtain ⟨ended, is_ended, done⟩ := bind_eq_ok.1 done
    obtain ⟨terminal, read, done⟩ := bind_eq_ok.1 done
    obtain ⟨⟨outcome, session⟩, is_outcome, done⟩ := bind_eq_ok.1 done
    obtain ⟨_, agrees, done⟩ := bind_eq_ok.1 done
    cases done
    rw [present_eq_ok] at is_ended is_outcome
    simp only [require_eq_ok, Bool.and_eq_true, decide_eq_true_eq] at agrees
    obtain ⟨event, member, ⟨parsed, parses, carried⟩, is_terminal, -⟩ :=
      mirrors.ended (rows.runs row (rows.find_run.1 found).1) is_active
    rw [carried, Option.map_some, Option.some.injEq, (StoredEvent.read_columns parses).1] at is_ended
    obtain ⟨written, terminal_member, numbered, reads⟩ := History.event_mem read
    have same : written = event := Table.eq_of_key ordered terminal_member (grown member) (numbered.trans is_ended.symm)
    subst same
    rw [StoredEventPayload.outcome_eq, StoredEvent.read_congr reads StoredEventPayload.outcome_shape] at is_outcome
    refine ⟨⟨own, unresulted, going_on, .inr ⟨is_active, ?_⟩⟩, SameRest.refl _, ?_, ?_, carries.tools⟩
    · rw [is_terminal, Option.bind_some, is_outcome, agrees.1, agrees.2]
    · rw [RunRow.concluded, if_neg (by simp [is_active])]
      exact ⟨rfl, rfl, rfl, mirrors.accepted, mirrors.owner, rfl, mirrors.runtime, mirrors.provider, rfl⟩
    · simp only [Ledger.updateRun, Writer.updateRun, carries.runs]
      refine rows.update_congr found ?_
      rw [RunRow.concluded, if_neg (by simp [is_active])]
      simp only [RecordedRun.save, mirrors.runtime, mirrors.provider]

/-- An event that ends a run is copied to its row, and no other event is. -/
def RunRow.Copies (event : StoredEvent) (old new : RunRow) : Prop :=
  if active old.state = true ∧ active new.state = false then
    new.terminalSequence = some event.sequence ∧ new.terminal = some event.payload
  else new.terminalSequence = old.terminalSequence ∧ new.terminal = old.terminal

theorem RunRow.copies_observed (is_runtime : event.payload = .runtimeObserved envelope) (was : active row.state = true) :
    RunRow.Copies event row (RunRow.observed event.sequence envelope row) := by
  rw [RunRow.Copies, RunRow.observed_state]
  cases is_event : envelope.event with
  | runFinished outcome summary =>
    rw [if_pos ⟨was, active_outcome outcome⟩, is_runtime]
    simp [RunRow.observed, is_event]
  | runStarted =>
    rw [if_neg (by simp [stateAfter, active])]
    simp [RunRow.observed, is_event]
  | turnStarted | turnFinished | providerEvent | toolEvent =>
    rw [if_neg (by simp [stateAfter, was])]
    simp [RunRow.observed, is_event]

theorem RunRow.copies_concluded {result : RunResult} (is_result : event.payload = .runResultRecorded result) :
    RunRow.Copies event row (RunRow.concluded event.sequence result row) := by
  rw [RunRow.Copies, RunRow.concluded]
  cases is_active : active row.state with
  | true =>
    rw [if_pos rfl, if_pos ⟨rfl, active_outcome _⟩, is_result]
    exact ⟨rfl, rfl⟩
  | false =>
    rw [if_neg (by simp), if_neg (by simp)]
    exact ⟨rfl, rfl⟩

theorem Mirrors.become (mirrors : Mirrors log row run) {new : RunRow} (becomes : Becomes run next new)
    (named : new.runId = row.runId) (accepted : new.acceptedSequence = row.acceptedSequence)
    (owner : new.ownerInstanceId = row.ownerInstanceId) (copies : RunRow.Copies event row new)
    (sound : row.Sound log) {terminal : Option StoredEvent}
    (carried : if active new.state = false ∧ run.terminal = none then ∃ parsed, event.read = some parsed ∧ terminal = some parsed
      else terminal = run.terminal) :
    Mirrors (log ++ [event]) new { next with terminal } where
  runId := becomes.runId.trans (mirrors.runId.trans named.symm)
  accepted := becomes.accepted
  state := becomes.state
  runtime := becomes.runtime
  owner := becomes.owner
  provider := becomes.provider
  result := becomes.result
  input := by
    obtain ⟨first, member, numbered, payload⟩ := mirrors.input
    refine ⟨first, List.mem_append_left _ member, numbered.trans accepted.symm, ?_⟩
    rw [named, owner, payload]
    exact congrArg (some <| StoredEventPayload.runAccepted row.runId · row.ownerInstanceId) becomes.input.symm
  terminal := by
    have copied := mirrors.terminal
    rw [RunRow.Copies] at copies
    cases is_active : active row.state with
    | true =>
      have open_yet := sound.going is_active
      have uncarried : run.terminal = none := by
        cases carries : run.terminal with
        | none => rfl
        | some ending =>
          rw [carries] at copied
          obtain ⟨_, -, -, ended, -⟩ := copied
          cases open_yet.1.symm.trans ended
      cases still : active new.state with
      | true =>
        rw [if_neg (by simp [still]), open_yet.1, open_yet.2.1] at copies
        rw [if_neg (by simp [still])] at carried
        simp [carried, uncarried, copies]
      | false =>
        rw [if_pos ⟨is_active, still⟩] at copies
        rw [if_pos ⟨still, uncarried⟩] at carried
        obtain ⟨parsed, parses, rfl⟩ := carried
        exact ⟨event, by simp, parses, copies⟩
    | false =>
      rw [if_neg (by simp [is_active])] at copies
      obtain ⟨ending, member, ⟨parsed, parses, carries⟩, payload, numbered⟩ := mirrors.ended sound is_active
      rw [if_neg (by simp [carries]), carries] at carried
      rw [carried]
      exact ⟨ending, List.mem_append_left _ member, parses, copies.1.trans numbered, copies.2.trans payload⟩

end Saving

end Wi
