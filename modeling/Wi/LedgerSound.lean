import Wi.Ledger

/-! What holds of the run and tool rows after any lawful log: each row is accounted for by
events of the log, at most one run is open, and a completed run has all its tool results. -/
namespace Wi
variable [JsonHash]
variable {row : RunRow} {callId : Text}

section Rows
variable {log later : List StoredEvent} {ledger : Ledger} {run : RunId}

/-- The event that ended the run, as the run row copies it. -/
def RunRow.Ended (log : List StoredEvent) (row : RunRow) : Prop :=
  ∃ event ∈ log, row.terminalSequence = some event.sequence ∧ row.terminal = some event.payload ∧
    event.runId = some row.runId ∧ row.acceptedSequence < event.sequence ∧
    if row.state = .interrupted then RunStore.isInterrupted event.payload = true
    else ∃ outcome, event.payload.outcome = some (outcome, row.providerSessionId) ∧ outcomeState outcome = row.state

/-- The result event agrees with the one that ended the run. -/
def RunRow.Resulted (log : List StoredEvent) (row : RunRow) : Prop :=
  ∃ event ∈ log, row.resultSequence = some event.sequence ∧ event.runId = some row.runId ∧ row.state ≠ .interrupted ∧
    ∃ result, event.payload = .runResultRecorded result ∧
      row.terminal.bind StoredEventPayload.outcome = some (result.outcome, result.sessionId) ∧
      ∃ ended, row.terminalSequence = some ended ∧ ended ≤ event.sequence

/-- A run row that the log accounts for. -/
structure RunRow.Sound (log : List StoredEvent) (row : RunRow) : Prop where
  accepted : ∃ event ∈ log, event.sequence = row.acceptedSequence ∧ event.runId = some row.runId ∧
    ∃ input, event.payload = .runAccepted row.runId input row.ownerInstanceId
  going : active row.state = true → row.terminalSequence = none ∧ row.terminal = none ∧ row.resultSequence = none
  ended : active row.state = false → row.Ended log
  resulted : row.resultSequence.isSome = true → row.Resulted log

structure ToolRow.Sound (log : List StoredEvent) (row : ToolRow) : Prop where
  started : ∃ event ∈ log, event.sequence = row.startedSequence ∧ event.runId = some row.runId ∧
    ∃ envelope, event.payload = .runtimeObserved envelope ∧ envelope.requestId = row.requestId ∧
      envelope.event = .toolEvent (.toolExecutionStarted row.callId row.toolName)
  finished : ∀ sequence, row.finishedSequence = some sequence → row.startedSequence < sequence ∧
    ∃ event ∈ log, event.sequence = sequence ∧ event.runId = some row.runId ∧
      ∃ envelope isError, event.payload = .runtimeObserved envelope ∧ envelope.requestId = row.requestId ∧
        envelope.event = .toolEvent (.toolExecutionFinished row.callId row.toolName isError) ∧
        row.isError = some isError
  recorded : ∀ sequence, row.resultSequence = some sequence → row.startedSequence < sequence ∧
    ∃ event ∈ log, event.sequence = sequence ∧ event.runId = some row.runId ∧
      ∃ output isError, event.payload = .toolResultRecorded row.requestId row.callId output isError ∧
        row.output = some output ∧ row.isError = some isError
  output : row.resultSequence.isSome = row.output.isSome
  error : (row.resultSequence.isSome || row.finishedSequence.isSome) = row.isError.isSome

/-- What holds of the rows that a log leaves. -/
structure Ledger.Sound (log : List StoredEvent) (ledger : Ledger) : Prop where
  runs : ∀ row ∈ ledger.runs, row.Sound log
  runIds : (ledger.runs.map RunRow.runId).Nodup
  tools : ∀ row ∈ ledger.tools, row.Sound log
  toolIds : (ledger.tools.map fun row => (row.runId, row.callId)).Nodup
  single : ledger.runs.Pairwise fun a b => active a.state = false ∨ active b.state = false
  complete : ∀ row ∈ ledger.runs, row.state = .completed → ∀ call ∈ ledger.tools, call.runId = row.runId →
    call.resultSequence.isSome = true

theorem RunRow.Sound.mono (sound : row.Sound log) (grown : log ⊆ later) : row.Sound later where
  accepted := by
    obtain ⟨event, member, rest⟩ := sound.accepted
    exact ⟨event, grown member, rest⟩
  going := sound.going
  ended := fun inactive => by
    obtain ⟨event, member, rest⟩ := sound.ended inactive
    exact ⟨event, grown member, rest⟩
  resulted := fun known => by
    obtain ⟨event, member, rest⟩ := sound.resulted known
    exact ⟨event, grown member, rest⟩

theorem ToolRow.Sound.mono {row : ToolRow} (sound : row.Sound log) (grown : log ⊆ later) : row.Sound later where
  started := by
    obtain ⟨event, member, rest⟩ := sound.started
    exact ⟨event, grown member, rest⟩
  finished := fun sequence known => by
    obtain ⟨after, event, member, rest⟩ := sound.finished sequence known
    exact ⟨after, event, grown member, rest⟩
  recorded := fun sequence known => by
    obtain ⟨after, event, member, rest⟩ := sound.recorded sequence known
    exact ⟨after, event, grown member, rest⟩
  output := sound.output
  error := sound.error

theorem Ledger.Sound.mono (sound : ledger.Sound log) (grown : log ⊆ later) : ledger.Sound later :=
  { sound with
    runs := fun row member => (sound.runs row member).mono grown
    tools := fun row member => (sound.tools row member).mono grown }

theorem Ledger.Sound.empty (log : List StoredEvent) : (Ledger.mk [] []).Sound log :=
  ⟨by simp, List.nodup_nil, by simp, List.nodup_nil, List.Pairwise.nil, by simp⟩

theorem Ledger.Sound.find_run (sound : ledger.Sound log) :
    ledger.run run = some row ↔ row ∈ ledger.runs ∧ row.runId = run := Keyed.find_eq_some sound.runIds

theorem Ledger.find_run_none : ledger.run run = none ↔ run ∉ ledger.runs.map RunRow.runId := Keyed.find_eq_none

theorem Ledger.tool_eq (run : RunId) (callId : Text) :
    ledger.tool run callId = ledger.tools.find? fun row => (row.runId, row.callId) = (run, callId) := by
  rw [Ledger.tool]
  congr 1
  funext row
  simp [Prod.ext_iff]

theorem Ledger.Sound.find_tool (sound : ledger.Sound log) {row : ToolRow} :
    ledger.tool run callId = some row ↔ row ∈ ledger.tools ∧ row.runId = run ∧ row.callId = callId := by
  rw [Ledger.tool_eq, Keyed.find_eq_some sound.toolIds, Prod.ext_iff]

theorem Ledger.find_tool_none :
    ledger.tool run callId = none ↔ (run, callId) ∉ ledger.tools.map fun row => (row.runId, row.callId) := by
  rw [Ledger.tool_eq, Keyed.find_eq_none]

theorem Ledger.Sound.updateRun (sound : ledger.Sound log) (found : ledger.run run = some row)
    {set : RunRow → RunRow} (grown : log ⊆ later) (named : ∀ row, (set row).runId = row.runId)
    (new : (set row).Sound later) (going : active (set row).state = true → active row.state = true)
    (complete : (set row).state = .completed → ∀ call ∈ ledger.tools, call.runId = run →
      call.resultSequence.isSome = true) :
    (ledger.updateRun run set).Sound later where
  runs := by
    intro other member
    rcases Table.mem_update.1 member with ⟨old, old_member, selected, rfl⟩ | ⟨kept, -⟩
    · have same : old = row := by
        have := sound.find_run.2 ⟨old_member, of_decide_eq_true selected⟩
        exact Option.some.inj (this.symm.trans found)
      rw [same]
      exact new
    · exact (sound.runs other kept).mono grown
  runIds := by
    rw [Ledger.updateRun, Table.map_update _ named]
    exact sound.runIds
  tools := fun other member => (sound.tools other member).mono grown
  toolIds := sound.toolIds
  single := by
    -- A run that was inactive stays so.
    have kept (other : RunRow) (member : other ∈ ledger.runs) (inactive : active other.state = false) :
        active (if decide (other.runId = run) then set other else other).state = false := by
      split
      · rename_i selected
        have same := sound.find_run.2 ⟨member, of_decide_eq_true selected⟩
        cases Option.some.inj (same.symm.trans found)
        cases now : active (set row).state with
        | false => rfl
        | true => rw [going now] at inactive; cases inactive
      · exact inactive
    rw [Ledger.updateRun, Table.update, List.pairwise_map]
    exact sound.single.imp_of_mem fun {a b} ha hb one => one.imp (kept a ha) (kept b hb)
  complete := by
    intro other member done call call_member same_run
    rcases Table.mem_update.1 member with ⟨old, old_member, selected, rfl⟩ | ⟨kept, -⟩
    · have same := sound.find_run.2 ⟨old_member, of_decide_eq_true selected⟩
      cases Option.some.inj (same.symm.trans found)
      rw [named] at same_run
      exact complete done call call_member (same_run.trans (of_decide_eq_true selected))
    · exact sound.complete other kept done call call_member same_run

theorem Ledger.Sound.updateTool (sound : ledger.Sound log) {row : ToolRow}
    (found : ledger.tool run callId = some row) {set : ToolRow → ToolRow} (grown : log ⊆ later)
    (named : ∀ row, ((set row).runId, (set row).callId) = (row.runId, row.callId)) (new : (set row).Sound later)
    (kept : ∀ row : ToolRow, row.resultSequence.isSome = true → (set row).resultSequence.isSome = true) :
    (ledger.updateTool run callId set).Sound later where
  runs := fun other member => (sound.runs other member).mono grown
  runIds := sound.runIds
  tools := by
    intro other member
    rcases Table.mem_update.1 member with ⟨old, old_member, selected, rfl⟩ | ⟨old_member, -⟩
    · have names : old.runId = run ∧ old.callId = callId := by simpa using selected
      have same := sound.find_tool.2 ⟨old_member, names⟩
      cases Option.some.inj (same.symm.trans found)
      exact new
    · exact (sound.tools other old_member).mono grown
  toolIds := by
    rw [Ledger.updateTool, Table.map_update _ named]
    exact sound.toolIds
  single := sound.single
  complete := by
    intro other member done call call_member same_run
    rcases Table.mem_update.1 call_member with ⟨old, old_member, selected, rfl⟩ | ⟨old_member, -⟩
    · refine kept old (sound.complete other member done old old_member ?_)
      exact (Prod.ext_iff.1 (named old)).1.symm.trans same_run
    · exact sound.complete other member done call old_member same_run

theorem Ledger.Sound.addRun (sound : ledger.Sound log) (fresh : ledger.run row.runId = none)
    (grown : log ⊆ later) (new : row.Sound later) (unfinished : row.state ≠ .completed)
    (inactive : ∀ other ∈ ledger.runs, active other.state = false) :
    (Ledger.mk (ledger.runs ++ [row]) ledger.tools).Sound later where
  runs := by
    intro other member
    rcases List.mem_append.1 member with old | last
    · exact (sound.runs other old).mono grown
    · rw [List.mem_singleton.1 last]
      exact new
  runIds := by
    rw [List.map_append, List.map_singleton, List.nodup_append]
    refine ⟨sound.runIds, List.nodup_singleton _, ?_⟩
    intro name old other last same
    rw [List.mem_singleton.1 last] at same
    exact Ledger.find_run_none.1 fresh (same ▸ old)
  tools := fun other member => (sound.tools other member).mono grown
  toolIds := sound.toolIds
  single := by
    rw [List.pairwise_append]
    exact ⟨sound.single, List.pairwise_singleton _ _, fun other member _ _ => .inl (inactive other member)⟩
  complete := by
    intro other member done
    rcases List.mem_append.1 member with old | last
    · exact sound.complete other old done
    · rw [List.mem_singleton.1 last] at done
      exact absurd done unfinished

theorem Ledger.Sound.addTool (sound : ledger.Sound log) {row : ToolRow} (fresh : ledger.tool row.runId row.callId = none)
    (grown : log ⊆ later) (new : row.Sound later)
    (unfinished : ∀ other ∈ ledger.runs, other.runId = row.runId → other.state ≠ .completed) :
    (Ledger.mk ledger.runs (ledger.tools ++ [row])).Sound later where
  runs := fun other member => (sound.runs other member).mono grown
  runIds := sound.runIds
  tools := by
    intro other member
    rcases List.mem_append.1 member with old | last
    · exact (sound.tools other old).mono grown
    · rw [List.mem_singleton.1 last]
      exact new
  toolIds := by
    rw [List.map_append, List.map_singleton, List.nodup_append]
    refine ⟨sound.toolIds, List.nodup_singleton _, ?_⟩
    intro name old other last same
    rw [List.mem_singleton.1 last] at same
    exact Ledger.find_tool_none.1 fresh (same ▸ old)
  single := sound.single
  complete := by
    intro other member done call call_member same_run
    rcases List.mem_append.1 call_member with old | last
    · exact sound.complete other member done call old same_run
    · rw [List.mem_singleton.1 last] at same_run
      exact absurd done (unfinished other member same_run.symm)

end Rows

variable {envelope : RunEventEnvelope}

section Step
variable {id : ApplicationSessionId} {log : List StoredEvent} {event : StoredEvent} {run : RunId}

theorem Follows.runtime (follows : Follows log id event)
    (is_runtime : event.payload = .runtimeObserved envelope) :
    (validateRuntime envelope).isOk = true ∧ event.runId.map Uuid.text = some envelope.runId := by
  have valid := (valid_eq_ok.1 follows.valid).2.2.2.1
  rw [History.payloadValid, is_runtime] at valid
  obtain ⟨_, checked, named⟩ := bind_eq_ok.1 valid
  exact ⟨require_eq_ok.1 checked, of_decide_eq_true (require_eq_ok.1 named)⟩

theorem RunRow.Sound.go_on {next : RunRow} (sound : row.Sound log) (was : active row.state = true)
    (still : active next.state = true) (run : next.runId = row.runId)
    (accepted : next.acceptedSequence = row.acceptedSequence)
    (owner : next.ownerInstanceId = row.ownerInstanceId) (ended : next.terminalSequence = row.terminalSequence)
    (terminal : next.terminal = row.terminal) (result : next.resultSequence = row.resultSequence) :
    next.Sound log where
  accepted := by
    rw [accepted, run, owner]
    exact sound.accepted
  going := fun _ => by
    rw [ended, terminal, result]
    exact sound.going was
  ended := fun inactive => by
    rw [still] at inactive
    cases inactive
  resulted := fun known => by
    rw [result, (sound.going was).2.2] at known
    cases known

omit [JsonHash] in
theorem active_outcome (outcome : RunOutcome) : active (outcomeState outcome) = false := by
  cases outcome <;> rfl

omit [JsonHash] in
theorem outcomeState_ne_interrupted (outcome : RunOutcome) : outcomeState outcome ≠ .interrupted := by
  cases outcome <;> simp [outcomeState]

theorem AllowsRuntime.active {state : RecordedRunState} (allows : AllowsRuntime log run state envelope) :
    Wi.active state = true := by
  rw [AllowsRuntime.eq_def] at allows
  split at allows
  · rw [allows]; rfl
  all_goals rw [allows.1]; rfl

theorem RunRow.Sound.observed (sound : row.Sound log) (member : event ∈ log)
    (is_runtime : event.payload = .runtimeObserved envelope) (of_run : event.runId = some row.runId)
    (later : row.acceptedSequence < event.sequence) (was : active row.state = true) :
    (RunRow.observed event.sequence envelope row).Sound log := by
  cases is_event : envelope.event with
  | runFinished outcome summary =>
    have unresulted := (sound.going was).2.2
    rw [RunRow.observed, is_event]
    refine ⟨sound.accepted, fun still => ?_, fun _ => ?_, fun known => ?_⟩
    · rw [active_outcome] at still
      cases still
    · refine ⟨event, member, rfl, by rw [is_runtime], of_run, later, ?_⟩
      rw [if_neg (outcomeState_ne_interrupted outcome), is_runtime]
      exact ⟨outcome, by simp only [StoredEventPayload.outcome, is_event], rfl⟩
    · rw [unresulted] at known
      cases known
  | runStarted =>
    rw [RunRow.observed, is_event]
    exact sound.go_on was rfl rfl rfl rfl rfl rfl rfl
  | turnStarted | providerEvent | toolEvent | turnFinished =>
    rw [RunRow.observed, is_event]
    exact sound.go_on was was rfl rfl rfl rfl rfl rfl

theorem RunRow.observed_runId (sequence : Nat) (envelope : RunEventEnvelope) (row : RunRow) :
    (RunRow.observed sequence envelope row).runId = row.runId := by
  rw [RunRow.observed.eq_def]
  split <;> rfl

theorem RunRow.observed_state (sequence : Nat) (envelope : RunEventEnvelope) (row : RunRow) :
    (RunRow.observed sequence envelope row).state = stateAfter row.state envelope.event := by
  cases is_event : envelope.event <;> simp only [RunRow.observed, is_event, stateAfter]

theorem Ledger.Sound.observe_run (sound : (Ledger.ofLog log).Sound log)
    (found : (Ledger.ofLog log).run run = some row) (of_run : event.runId = some run)
    (next : row.acceptedSequence < event.sequence) (is_runtime : event.payload = .runtimeObserved envelope)
    (allows : AllowsRuntime log run row.state envelope) :
    ((Ledger.ofLog log).updateRun run (RunRow.observed event.sequence envelope)).Sound (log ++ [event]) := by
  have grown : log ⊆ log ++ [event] := List.subset_append_left _ _
  have known := sound.find_run.1 found
  have was := allows.active
  refine sound.updateRun found grown (RunRow.observed_runId _ _) ?_ (fun _ => was) ?_
  · exact ((sound.runs row known.1).mono grown).observed (by simp) is_runtime (by rw [known.2, of_run]) next was
  · intro done
    rw [RunRow.observed_state] at done
    rw [AllowsRuntime.eq_def] at allows
    cases is_event : envelope.event with
    | runFinished outcome summary =>
      rw [is_event] at done allows
      cases outcome with
      | completed => exact allows.2 rfl
      | failed | cancelledLocally => cases done
    | runStarted =>
      rw [is_event] at done
      cases done
    | turnStarted | turnFinished | providerEvent | toolEvent =>
      rw [is_event] at done allows
      exact absurd (allows.1.symm.trans done) (by simp)

theorem RunRow.Sound.concluded (sound : row.Sound log) (member : event ∈ log) {result : RunResult}
    (is_result : event.payload = .runResultRecorded result) (of_run : event.runId = some row.runId)
    (later : row.acceptedSequence < event.sequence) (before : ∀ old ∈ log, old.sequence ≤ event.sequence)
    (going_on : row.state ≠ .interrupted) (agrees : active row.state = true ∨ active row.state = false ∧
      row.terminal.bind StoredEventPayload.outcome = some (result.outcome, result.sessionId)) :
    (RunRow.concluded event.sequence result row).Sound log := by
  rcases agrees with is_active | ⟨inactive, agrees⟩
  · rw [RunRow.concluded, if_pos is_active]
    have outcome : event.payload.outcome = some (result.outcome, result.sessionId) := by
      simp only [is_result, StoredEventPayload.outcome]
    refine ⟨sound.accepted, fun still => ?_, fun _ => ?_, fun _ => ?_⟩
    · rw [active_outcome] at still
      cases still
    · refine ⟨event, member, rfl, by rw [is_result], of_run, later, ?_⟩
      rw [if_neg (outcomeState_ne_interrupted result.outcome)]
      exact ⟨result.outcome, outcome, rfl⟩
    · exact ⟨event, member, rfl, of_run, outcomeState_ne_interrupted _, result, is_result, rfl, event.sequence, rfl,
        le_rfl⟩
  · rw [RunRow.concluded, inactive]
    refine ⟨sound.accepted, fun still => ?_, fun _ => sound.ended inactive, fun _ => ?_⟩
    · rw [show active row.state = true from still] at inactive
      cases inactive
    · obtain ⟨ending, ending_member, ended, -⟩ := sound.ended inactive
      exact ⟨event, member, rfl, of_run, going_on, result, is_result, agrees, ending.sequence, ended,
        before ending ending_member⟩

theorem RunRow.Sound.interrupted (sound : row.Sound log) (member : event ∈ log)
    (is_interruption : event.payload = .runInterrupted run) (of_run : event.runId = some row.runId)
    (later : row.acceptedSequence < event.sequence) (was : active row.state = true) :
    (RunRow.interrupted run event.sequence row).Sound log := by
  have unresulted := (sound.going was).2.2
  refine ⟨sound.accepted, fun still => ?_, fun _ => ?_, fun known => ?_⟩
  · cases still
  · refine ⟨event, member, rfl, by rw [is_interruption]; rfl, of_run, later, ?_⟩
    rw [is_interruption]
    rfl
  · rw [show (RunRow.interrupted run event.sequence row).resultSequence = row.resultSequence from rfl,
      unresulted] at known
    cases known

theorem ToolRow.Sound.finish {row : ToolRow} (sound : row.Sound log) (member : event ∈ log)
    (of_run : event.runId = some row.runId) (later : row.startedSequence < event.sequence)
    (is_runtime : event.payload = .runtimeObserved envelope) {isError : Bool}
    (is_event : envelope.event = .toolEvent (.toolExecutionFinished row.callId row.toolName isError))
    (request : row.requestId = envelope.requestId)
    (agrees : ∀ known, row.isError = some known → known = isError) :
    (ToolRow.finished event.sequence isError row).Sound log where
  started := sound.started
  finished := by
    rintro sequence ⟨⟩
    exact ⟨later, event, member, rfl, of_run, envelope, isError, is_runtime, request.symm, is_event, rfl⟩
  recorded := by
    intro sequence known
    obtain ⟨after, result, result_member, numbered, owned, output, flag, payload, has_output, error⟩ :=
      sound.recorded sequence known
    exact ⟨after, result, result_member, numbered, owned, output, flag, payload, has_output, by rw [agrees flag error]; rfl⟩
  output := sound.output
  error := by simp [ToolRow.finished]

theorem ToolRow.Sound.record {row : ToolRow} (sound : row.Sound log) (member : event ∈ log)
    (of_run : event.runId = some row.runId) (later : row.startedSequence < event.sequence) {output : Text} {isError : Bool}
    (is_result : event.payload = .toolResultRecorded row.requestId row.callId output isError)
    (agrees : ∀ known, row.isError = some known → known = isError) :
    (ToolRow.recorded event.sequence output isError row).Sound log where
  started := sound.started
  finished := by
    intro sequence known
    obtain ⟨after, finish, finish_member, numbered, owned, envelope, flag, payload, request, is_event, error⟩ :=
      sound.finished sequence known
    cases agrees flag error
    exact ⟨after, finish, finish_member, numbered, owned, envelope, isError, payload, request, is_event, rfl⟩
  recorded := by
    rintro sequence ⟨⟩
    exact ⟨later, event, member, rfl, of_run, output, isError, is_result, rfl, rfl⟩
  output := by simp [ToolRow.recorded]
  error := by simp [ToolRow.recorded]

end Step

section Run
variable {provenance : CreationProvenance} {log : List StoredEvent} {event : StoredEvent} {run : RunId}

theorem Lawful.before (lawful : Lawful provenance log) (follows : Follows log provenance.sessionId event)
    {old : StoredEvent} (member : old ∈ log) : old.sequence < event.sequence := by
  have := (lawful.mem_sequence member).2
  have := follows.next
  omega

theorem Lawful.accepted_before (lawful : Lawful provenance log)
    (follows : Follows log provenance.sessionId event) (sound : row.Sound log) :
    row.acceptedSequence < event.sequence := by
  obtain ⟨old, member, numbered, -⟩ := sound.accepted
  rw [← numbered]
  exact lawful.before follows member

theorem Lawful.started_before (lawful : Lawful provenance log) (follows : Follows log provenance.sessionId event)
    {row : ToolRow} (sound : row.Sound log) : row.startedSequence < event.sequence := by
  obtain ⟨old, member, numbered, -⟩ := sound.started
  rw [← numbered]
  exact lawful.before follows member

theorem Ledger.Sound.observeTool {ledger : Ledger} (sound : ledger.Sound (log ++ [event]))
    (of_run : event.runId = some run) (tools : ledger.tools = (Ledger.ofLog log).tools)
    (running : ∀ row ∈ ledger.runs, row.runId = run → row.state ≠ .completed)
    (starts : ∀ row ∈ ledger.tools, row.startedSequence < event.sequence)
    (is_runtime : event.payload = .runtimeObserved envelope) {tool : ToolExecutionEvent}
    (is_event : envelope.event = .toolEvent tool) (allows : AllowsTool log run envelope tool) :
    (ledger.observeTool run event.sequence envelope.requestId tool).Sound (log ++ [event]) := by
  have lookup (callId : Text) : (Ledger.ofLog log).tool run callId = ledger.tool run callId := by
    rw [Ledger.tool, Ledger.tool, tools]
  have member : event ∈ log ++ [event] := by simp
  cases tool with
  | toolExecutionStarted callId toolName =>
    rw [AllowsTool, lookup] at allows
    refine sound.addTool allows (List.Subset.refl _) ?_ running
    exact ⟨⟨event, member, rfl, of_run, envelope, is_runtime, rfl, is_event⟩, by simp [ToolRow.started],
      by simp [ToolRow.started], rfl, rfl⟩
  | toolExecutionFinished callId toolName isError =>
    obtain ⟨row, found, is_name, request, -, agrees, -⟩ := allows
    rw [lookup] at found
    obtain ⟨known, same_run, same_call⟩ := sound.find_tool.1 found
    subst is_name same_call
    exact sound.updateTool found (List.Subset.refl _) (fun _ => rfl)
      ((sound.tools row known).finish member (by rw [same_run, of_run]) (starts row known) is_runtime is_event request
        agrees) (fun _ kept => kept)
  | toolResultReused callId toolName => exact sound

theorem Lawful.ledger (lawful : Lawful provenance log) : (Ledger.ofLog log).Sound log := by
  induction lawful with
  | created => exact Ledger.Sound.empty _
  | @follows log event lawful follows sound =>
    have grown : log ⊆ log ++ [event] := List.subset_append_left _ _
    have member : event ∈ log ++ [event] := by simp
    have allowed := follows.allowed
    rw [Ledger.ofLog_append, Ledger.apply]
    cases of_run : event.runId with
    | none => exact sound.mono grown
    | some run =>
      rw [of_run] at allowed
      have valid := (valid_eq_ok.1 follows.valid).2.2.2.1
      rw [History.payloadValid.eq_def] at valid
      cases is_payload : event.payload with
      | sessionCreated | sessionRenamed =>
        rw [is_payload] at allowed
        exact allowed.elim
      | runHistorySelected => exact sound.mono grown
      | runAccepted accepted input owner =>
        rw [is_payload] at allowed valid
        have own := of_decide_eq_true (require_eq_ok.1 valid)
        cases Option.some.inj (of_run.symm.trans own)
        refine sound.addRun allowed.1 grown ⟨?_, ?_, ?_, ?_⟩ (by simp [RunRow.opened]) allowed.2
        · exact ⟨event, member, rfl, of_run, input, is_payload⟩
        · exact fun _ => ⟨rfl, rfl, rfl⟩
        · intro inactive
          cases inactive
        · intro known
          cases known
      | runProviderBound binding =>
        rw [is_payload] at allowed
        obtain ⟨row, found, running⟩ := allowed
        have was : active row.state = true := by rw [running]; rfl
        refine sound.updateRun found grown (fun _ => rfl) ?_ id ?_
        · exact ((sound.runs row (sound.find_run.1 found).1).mono grown).go_on was was rfl rfl rfl rfl rfl rfl
        · intro done
          rw [show row.state = .completed from done] at running
          cases running
      | runtimeObserved envelope =>
        rw [is_payload] at allowed
        obtain ⟨row, found, allows⟩ := allowed
        have known := sound.find_run.1 found
        have observed := sound.observe_run found of_run (lawful.accepted_before follows (sound.runs row known.1))
          is_payload allows
        change ((Ledger.ofLog log).observe run event.sequence envelope).Sound _
        rw [Ledger.observe]
        rw [AllowsRuntime.eq_def] at allows
        cases is_event : envelope.event with
        | toolEvent tool =>
          rw [is_event] at allows
          refine observed.observeTool of_run rfl ?_ ?_ is_payload is_event allows.2.2
          · intro other other_member named done
            rcases Table.mem_update.1 other_member with ⟨old, old_member, selected, rfl⟩ | ⟨-, other_run⟩
            · have same := sound.find_run.2 ⟨old_member, of_decide_eq_true selected⟩
              cases Option.some.inj (same.symm.trans found)
              rw [RunRow.observed_state, is_event] at done
              rw [allows.1] at done
              cases done
            · simp [named] at other_run
          · exact fun other other_member => lawful.started_before follows (sound.tools other other_member)
        | _ => exact observed
      | toolResultRecorded request callId output isError =>
        rw [is_payload] at allowed
        obtain ⟨row, -, -, call, found, is_request, -, agrees⟩ := allowed
        obtain ⟨known, same_run, same_call⟩ := sound.find_tool.1 found
        subst is_request same_call
        exact sound.updateTool found grown (fun _ => rfl) (((sound.tools call known).mono grown).record member
          (by rw [same_run, of_run]) (lawful.started_before follows (sound.tools call known)) is_payload agrees)
          (fun _ _ => rfl)
      | runResultRecorded result =>
        rw [is_payload] at allowed
        obtain ⟨row, found, -, -, going_on, agrees⟩ := allowed
        have known := sound.find_run.1 found
        have before : ∀ old ∈ log ++ [event], old.sequence ≤ event.sequence := by
          intro old old_member
          rcases List.mem_append.1 old_member with older | last
          · exact (lawful.before follows older).le
          · rw [List.mem_singleton.1 last]
        refine sound.updateRun found grown (fun row => by rw [RunRow.concluded]; split <;> rfl) ?_ ?_ ?_
        · refine ((sound.runs row known.1).mono grown).concluded member is_payload (by rw [known.2, of_run])
            (lawful.accepted_before follows (sound.runs row known.1)) before going_on ?_
          exact agrees.imp (fun both => both.1) id
        · intro still
          rw [RunRow.concluded] at still
          split at still
          · assumption
          · exact still
        · intro done
          rw [RunRow.concluded] at done
          rcases agrees with ⟨is_active, -, outputs⟩ | ⟨inactive, -⟩
          · rw [if_pos is_active] at done
            refine outputs ?_
            cases is_outcome : result.outcome with
            | completed => rfl
            | failed | cancelledLocally => simp [is_outcome, outcomeState] at done
          · rw [inactive] at done
            intro call call_member same_run
            exact sound.complete row known.1 done call call_member (same_run.trans known.2.symm)
      | runInterrupted interrupted =>
        rw [is_payload] at allowed valid
        have own := of_decide_eq_true (require_eq_ok.1 valid)
        cases Option.some.inj (of_run.symm.trans own)
        obtain ⟨row, found, was⟩ := allowed
        have known := sound.find_run.1 found
        refine sound.updateRun found grown (fun _ => rfl) ?_ (fun still => by cases still) (fun done => by cases done)
        exact ((sound.runs row known.1).mono grown).interrupted member is_payload (by rw [known.2, of_run])
          (lawful.accepted_before follows (sound.runs row known.1)) was

end Run
section Turns
variable {log later : List StoredEvent} {event : StoredEvent} {run : RunId} {envelope : RunEventEnvelope}

theorem runtimes_append (log : List StoredEvent) (event : StoredEvent) (run : RunId) :
    runtimes run (log ++ [event]) = runtimes run log ++ (event.runtime run).toList := by
  rw [runtimes, List.filterMap_append]
  cases is_runtime : event.runtime run <;> simp [runtimes, is_runtime]

theorem openTurn_other (other : event.runtime run = none) : openTurn (log ++ [event]) run = openTurn log run := by
  rw [openTurn, runtimes_append, other, Option.toList_none, List.append_nil, openTurn]

theorem openTurn_runtime (is_runtime : event.runtime run = some envelope) :
    openTurn (log ++ [event]) run = turnAfter (openTurn log run) envelope := by
  rw [openTurn, runtimes_append, is_runtime, Option.toList_some, List.foldl_append, openTurn]
  rfl

theorem StoredEvent.runtime_eq_some :
    event.runtime run = some envelope ↔ event.payload = .runtimeObserved envelope ∧ event.runId = some run := by
  rw [StoredEvent.runtime]
  cases is_payload : event.payload with
  | runtimeObserved other =>
    by_cases own : event.runId = some run
    · simp [own]
    · simp [own]
  | _ => simp

theorem StoredEvent.runtime_of_other (other : event.runId ≠ some run) : event.runtime run = none := by
  cases is_runtime : event.runtime run with
  | none => rfl
  | some envelope => exact absurd (StoredEvent.runtime_eq_some.1 is_runtime).2 other

theorem StartedTurn.mono {turn : Option Text} (started : StartedTurn log run turn) (event : StoredEvent) :
    StartedTurn (log ++ [event]) run turn := by
  obtain ⟨envelope, member, rest⟩ := started
  refine ⟨envelope, ?_, rest⟩
  rw [runtimes_append]
  exact List.mem_append_left _ member

theorem StartedIn.mono {row : ToolRow} {turn : Option Text} (started : StartedIn log row turn) (event : StoredEvent) :
    StartedIn (log ++ [event]) row turn := by
  obtain ⟨old, member, rest⟩ := started
  exact ⟨old, List.mem_append_left _ member, rest⟩

end Turns

section Lifecycle
variable {provenance : CreationProvenance} {id : ApplicationSessionId} {log : List StoredEvent} {event : StoredEvent}
variable {ledger : Ledger} {run other : RunId}

/-- Accepted, then running, then one terminal state. -/
def RecordedRunState.rank : RecordedRunState → Nat
  | .accepted => 0
  | .running => 1
  | .completed | .failed | .cancelledLocally | .interrupted => 2

/-- A state stays or moves on; a terminal one stays. -/
def RecordedRunState.Moves (before after : RecordedRunState) : Prop := before = after ∨ before.rank < after.rank

omit [JsonHash] in
theorem RecordedRunState.Moves.trans {a b c : RecordedRunState} (first : a.Moves b) (second : b.Moves c) : a.Moves c := by
  rcases first with rfl | first
  · exact second
  · rcases second with rfl | second
    · exact .inr first
    · exact .inr (first.trans second)

omit [JsonHash] in

omit [JsonHash] in
theorem RecordedRunState.moves_of_active {a b : RecordedRunState} (was : active a = true) (ends : active b = false) :
    a.Moves b := by
  refine .inr ?_
  cases a <;> cases b <;> simp_all [active, RecordedRunState.rank]

theorem Ledger.run_updateRun {set : RunRow → RunRow} (named : ∀ row, (set row).runId = row.runId) :
    (ledger.updateRun other set).run run =
      (ledger.run run).map fun row => if row.runId = other then set row else row := by
  rw [Ledger.run, Ledger.run, Ledger.updateRun, Table.update, List.find?_map]
  congr 1
  · funext row
    simp
  · congr 1
    funext row
    rw [Function.comp_apply]
    split
    · rw [named]
    · rfl

theorem Ledger.run_addRun (known : ledger.run run = some old) :
    (Ledger.mk (ledger.runs ++ [row]) ledger.tools).run run = some old := by
  rw [Ledger.run, List.find?_append]
  rw [Ledger.run] at known
  rw [known]
  rfl

theorem Ledger.moves_updateRun (found : ledger.run run = some row) {set : RunRow → RunRow}
    (named : ∀ row, (set row).runId = row.runId) (moves : run = other → row.state.Moves (set row).state) :
    ∃ next, (ledger.updateRun other set).run run = some next ∧ row.state.Moves next.state := by
  refine ⟨_, by rw [Ledger.run_updateRun named, found, Option.map_some], ?_⟩
  split
  · rename_i own
    have same : row.runId = run := by simpa using List.find?_some found
    exact moves (same.symm.trans own)
  · exact .inl rfl

theorem RunRow.moves_observed (sequence : Nat) (allows : AllowsRuntime log run row.state envelope) :
    row.state.Moves (RunRow.observed sequence envelope row).state := by
  have was := allows.active
  rw [RunRow.observed_state]
  rw [AllowsRuntime.eq_def] at allows
  cases is_event : envelope.event with
  | runStarted =>
    rw [is_event] at allows
    rw [allows]
    exact .inr Nat.zero_lt_one
  | runFinished outcome summary => exact RecordedRunState.moves_of_active was (active_outcome outcome)
  | _ => exact .inl rfl

theorem Ledger.run_observeTool (ledger : Ledger) (sequence : Nat) (request : Option Text) (tool : ToolExecutionEvent) :
    (ledger.observeTool other sequence request tool).runs = ledger.runs := by
  cases tool <;> rfl

theorem Ledger.runs_observe (ledger : Ledger) (sequence : Nat) (envelope : RunEventEnvelope) :
    (ledger.observe run sequence envelope).runs = (ledger.updateRun run (RunRow.observed sequence envelope)).runs := by
  rw [Ledger.observe]
  cases envelope.event with
  | toolEvent tool => exact Ledger.run_observeTool _ _ _ _
  | _ => rfl

theorem RunRow.concluded_runId (sequence : Nat) (result : RunResult) (row : RunRow) :
    (RunRow.concluded sequence result row).runId = row.runId := by
  rw [RunRow.concluded]
  split <;> rfl

theorem Follows.moves (follows : Follows log id event) (found : (Ledger.ofLog log).run run = some row) :
    ∃ next, ((Ledger.ofLog log).apply event).run run = some next ∧ row.state.Moves next.state := by
  have allowed := follows.allowed
  rw [Ledger.apply]
  cases of_run : event.runId with
  | none => exact ⟨row, found, .inl rfl⟩
  | some other =>
    rw [of_run] at allowed
    have same {found_row : RunRow} (located : (Ledger.ofLog log).run other = some found_row) (own : run = other) :
        found_row = row := by
      subst own
      exact Option.some.inj (located.symm.trans found)
    cases is_payload : event.payload with
    | sessionCreated | sessionRenamed | runHistorySelected | toolResultRecorded => exact ⟨row, found, .inl rfl⟩
    | runAccepted => exact ⟨row, Ledger.run_addRun found, .inl rfl⟩
    | runProviderBound binding => exact Ledger.moves_updateRun found (fun _ => rfl) fun _ => .inl rfl
    | runtimeObserved envelope =>
      rw [is_payload] at allowed
      obtain ⟨found_row, located, allows⟩ := allowed
      have moved : ∃ next, ((Ledger.ofLog log).updateRun other (RunRow.observed event.sequence envelope)).run run =
          some next ∧ row.state.Moves next.state := by
        refine Ledger.moves_updateRun found (RunRow.observed_runId _ _) fun own => ?_
        cases same located own
        exact RunRow.moves_observed _ allows
      obtain ⟨next, is_next, moves⟩ := moved
      refine ⟨next, ?_, moves⟩
      change ((Ledger.ofLog log).observe other event.sequence envelope).run run = some next
      rw [Ledger.run, Ledger.runs_observe]
      exact is_next
    | runResultRecorded result =>
      refine Ledger.moves_updateRun found (RunRow.concluded_runId _ _) fun _ => ?_
      rw [RunRow.concluded]
      split
      · rename_i was
        exact RecordedRunState.moves_of_active was (active_outcome result.outcome)
      · exact .inl rfl
    | runInterrupted =>
      rw [is_payload] at allowed
      obtain ⟨found_row, located, was⟩ := allowed
      refine Ledger.moves_updateRun found (fun _ => rfl) fun own => ?_
      cases same located own
      exact RecordedRunState.moves_of_active was rfl

theorem Lawful.unobserved (lawful : Lawful provenance log)
    (unstarted : ∀ row, (Ledger.ofLog log).run run = some row → row.state = .accepted) : runtimes run log = [] := by
  induction lawful with
  | created => rfl
  | @follows log event lawful follows ih =>
    rw [Ledger.ofLog_append] at unstarted
    have before : ∀ row, (Ledger.ofLog log).run run = some row → row.state = .accepted := by
      intro row found
      obtain ⟨next, is_next, same | less⟩ := follows.moves found
      · rw [same]
        exact unstarted next is_next
      · rw [unstarted next is_next] at less
        cases less
    rw [runtimes_append, ih before, List.nil_append]
    cases is_runtime : event.runtime run with
    | none => rfl
    | some envelope =>
      obtain ⟨is_payload, of_run⟩ := StoredEvent.runtime_eq_some.1 is_runtime
      have allowed := follows.allowed
      rw [of_run, is_payload] at allowed
      obtain ⟨row, found, allows⟩ := allowed
      rw [Ledger.apply, of_run, is_payload] at unstarted
      have applied : ((Ledger.ofLog log).observe run event.sequence envelope).run run =
          some (RunRow.observed event.sequence envelope row) := by
        rw [Ledger.run, Ledger.runs_observe]
        refine (Ledger.run_updateRun (RunRow.observed_runId _ _)).trans ?_
        rw [found, Option.map_some, if_pos (by simpa using List.find?_some found)]
      have still := unstarted _ applied
      rw [RunRow.observed_state] at still
      rw [AllowsRuntime.eq_def] at allows
      cases is_event : envelope.event with
      | runStarted =>
        rw [is_event] at still
        cases still
      | runFinished outcome summary =>
        rw [is_event] at still
        have ended := active_outcome outcome
        rw [show outcomeState outcome = .accepted from still] at ended
        cases ended
      | turnStarted | turnFinished | providerEvent | toolEvent =>
        rw [is_event] at still allows
        exact absurd (allows.1.symm.trans still) (by simp)

end Lifecycle

end Wi
