import Wi.Recorded

/-! Reading a recorded run back, and the run as a batch carries it in memory. A read compares the
rows with what the parser makes of the stored payloads. -/
namespace Wi
open RunStore Writer
variable [JsonHash]

/-- The run as a batch carries it in memory. -/
structure Mirrors (log : List StoredEvent) (row : RunRow) (run : RecordedRun) : Prop where
  runId : run.runId = row.runId
  accepted : run.acceptedSequence = row.acceptedSequence
  state : run.state = row.state
  runtime : run.lastRuntimeSequence = row.lastRuntimeSequence
  owner : run.ownerInstanceId = row.ownerInstanceId
  provider : run.providerSessionId = row.providerSessionId
  result : run.resultSequence = row.resultSequence
  input : ∃ event ∈ log, event.sequence = row.acceptedSequence ∧
    event.payload.read = some (.runAccepted row.runId run.input row.ownerInstanceId)
  terminal : match run.terminal with
    | none => row.terminalSequence = none ∧ row.terminal = none
    | some parsed => ∃ event ∈ log, event.read = some parsed ∧ row.terminalSequence = some event.sequence ∧
      row.terminal = some event.payload

/-- The payloads that a read of the run parses can be parsed, the terminal one to a value that the
parser keeps. -/
structure RunRow.Readable (log : List StoredEvent) (row : RunRow) : Prop where
  accepted : ∀ event ∈ log, event.sequence = row.acceptedSequence → ∃ parsed, event.read = some parsed
  terminal : ∀ payload, row.terminal = some payload → ∃ parsed, payload.once = some parsed ∧ parsed.once = some parsed
  result : ∀ event ∈ log, row.resultSequence = some event.sequence → ∃ parsed, event.read = some parsed

section Reading
variable {provenance : CreationProvenance} {db : Db} {run : RunId} {row : RunRow}

theorem StoredEventPayload.outcome_shape (payload : StoredEventPayload) : payload.shape.outcome = payload.outcome := by
  cases payload with
  | runtimeObserved envelope =>
    obtain ⟨_, _, _, _, _, _, _, event⟩ := envelope
    cases event <;> rfl
  | _ => rfl

theorem isInterrupted_shape (payload : StoredEventPayload) : isInterrupted payload.shape = isInterrupted payload := by
  cases payload <;> rfl

theorem StoredEvent.payload_shape_read {event parsed : StoredEvent} (read : event.read = some parsed) :
    parsed.payload.shape = event.payload.shape :=
  congrArg StoredEvent.payload (StoredEvent.shape_read read)

/-- What does not depend on the numbers of embedded JSON is the same for the parsed payload. -/
theorem StoredEvent.read_congr {event parsed : StoredEvent} (read : event.read = some parsed) {α : Type}
    {view : StoredEventPayload → α} (shape : ∀ payload, view payload.shape = view payload) :
    view parsed.payload = view event.payload := by
  rw [← shape, StoredEvent.payload_shape_read read, shape]

theorem StoredEventPayload.shape_accepted {payload : StoredEventPayload} {input : RecordedRunInput} {owner : StoredEventId}
    (same : payload.shape = .runAccepted run input owner) :
    ∃ value, value.shape = input ∧ payload = .runAccepted run value owner := by
  cases payload <;> simp_all [StoredEventPayload.shape]

theorem StoredEventPayload.shape_result {payload : StoredEventPayload} {result : RunResult}
    (same : payload.shape = .runResultRecorded result) : ∃ value, value.shape = result ∧ payload = .runResultRecorded value := by
  cases payload <;> simp_all [StoredEventPayload.shape]

theorem StoredEvent.read_columns {event parsed : StoredEvent} (read : event.read = some parsed) :
    parsed.sequence = event.sequence ∧ parsed.runId = event.runId := by
  obtain ⟨payload, -, rfl⟩ := Option.map_eq_some_iff.1 read
  exact ⟨rfl, rfl⟩

theorem Recorded.read_terminal (recorded : Recorded provenance db) (sound : row.Sound db.events)
    (inactive : active row.state = false) : ∃ event ∈ db.events, row.terminalSequence = some event.sequence ∧
      row.terminal = some event.payload ∧ ∀ parsed, terminalEvent db provenance.sessionId row event.sequence = .ok parsed ↔
        event.read = some parsed ∧ event.payload.once = some parsed.payload := by
  obtain ⟨event, member, ended, is_terminal, own, later, ends⟩ := sound.ended inactive
  refine ⟨event, member, ended, is_terminal, fun parsed => ?_⟩
  rw [terminalEvent, recorded.lawful.read_event member]
  cases read : event.read with
  | none => exact ⟨nofun, fun same => nomatch same.1⟩
  | some found =>
    obtain ⟨-, same_run⟩ := StoredEvent.read_columns read
    have named : (decide (row.acceptedSequence < event.sequence) && decide (found.runId = some row.runId)) = true := by
      simp [later, own, same_run]
    rw [present_some, ok_bind, named, require_true, ok_bind, is_terminal, Option.bind_some]
    have compares : (do
        require (decide (event.payload.once = some found.payload)) .integrity
        return found) = Except.ok parsed ↔ some found = some parsed ∧ event.payload.once = some parsed.payload := by
      simp only [bind_eq_ok, require_eq_ok, decide_eq_true_eq, pure_eq_ok, Except.ok.injEq, Option.some.injEq]
      constructor
      · rintro ⟨-, same, rfl⟩
        exact ⟨rfl, same⟩
      · rintro ⟨rfl, same⟩
        exact ⟨(), same, rfl⟩
    split at ends
    · rename_i interrupted
      rw [if_pos interrupted, StoredEvent.read_congr read isInterrupted_shape, ends, require_true, ok_bind]
      exact compares
    · rename_i uninterrupted
      obtain ⟨outcome, is_outcome, is_state⟩ := ends
      rw [if_neg uninterrupted, StoredEventPayload.outcome_eq, StoredEvent.read_congr read StoredEventPayload.outcome_shape,
        is_outcome, present_some, ok_bind]
      simpa [is_state] using compares

theorem Recorded.read_result (recorded : Recorded provenance db) (resulted : row.Resulted db.events)
    {terminal parsed : StoredEvent} (ended : row.terminalSequence = some terminal.sequence)
    (is_terminal : row.terminal = some terminal.payload) (read : terminal.read = some parsed) : ∃ event ∈ db.events,
      row.resultSequence = some event.sequence ∧
        (resultEvent db provenance.sessionId row (some parsed) event.sequence = .ok () ↔ ∃ final, event.read = some final) := by
  obtain ⟨event, member, numbered, own, -, result, is_result, agrees, sequence, known, later⟩ := resulted
  refine ⟨event, member, numbered, ?_⟩
  rw [is_terminal, Option.bind_some] at agrees
  cases Option.some.inj (known.symm.trans ended)
  rw [resultEvent, recorded.lawful.read_event member]
  cases read_event : event.read with
  | none =>
    refine ⟨fun done => ?_, by simp⟩
    cases done
  | some final =>
    obtain ⟨-, same_run⟩ := StoredEvent.read_columns read_event
    obtain ⟨same_sequence, -⟩ := StoredEvent.read_columns read
    have shape := StoredEvent.payload_shape_read read_event
    rw [is_result] at shape
    obtain ⟨value, is_shape, is_value⟩ := StoredEventPayload.shape_result shape
    have same_outcome := congrArg (fun value : RunResult => (value.outcome, value.sessionId)) is_shape
    simp only [RunResult.shape, Prod.mk.injEq] at same_outcome
    have same := StoredEvent.read_congr read StoredEventPayload.outcome_shape
    rw [present_some, ok_bind, is_value]
    simp [StoredEventPayload.outcome_eq, same, agrees, own, later, same_run, same_sequence, same_outcome]

theorem Recorded.read_run (recorded : Recorded provenance db) (found : (Ledger.ofLog db.events).run run = some row) :
    (∀ result, runRecord db provenance.sessionId run = .ok (some result) →
      Mirrors db.events row result ∧ row.Readable db.events) ∧
    (row.Readable db.events → ∃ result, runRecord db provenance.sessionId run = .ok (some result)) := by
  have lawful := recorded.lawful
  obtain ⟨member, named⟩ := lawful.ledger.find_run.1 found
  have sound := lawful.ledger.runs row member
  obtain ⟨accepted, accepted_member, numbered, own, input, is_acceptance⟩ := sound.accepted
  have positive : row.acceptedSequence ≠ 0 := by
    have := (lawful.mem_sequence accepted_member).1
    omega
  have read := numbered ▸ lawful.read_event accepted_member
  cases parsed : accepted.read with
  | none =>
    rw [parsed] at read
    refine ⟨fun result done => ?_, fun readable => ?_⟩
    · rw [RunStore.runRecord, recorded.run_eq, found] at done
      simp [positive, read] at done
    · obtain ⟨_, some⟩ := readable.accepted accepted accepted_member numbered
      cases parsed.symm.trans some
  | some opening =>
    have shape := StoredEvent.payload_shape_read parsed
    rw [is_acceptance] at shape
    obtain ⟨value, -, is_opening⟩ := StoredEventPayload.shape_accepted shape
    rw [parsed, present_some] at read
    have input : ∃ event ∈ db.events, event.sequence = row.acceptedSequence ∧
        event.payload.read = some (.runAccepted row.runId value row.ownerInstanceId) := by
      obtain ⟨payload, reads, rfl⟩ := Option.map_eq_some_iff.1 parsed
      exact ⟨accepted, accepted_member, numbered, is_opening ▸ reads⟩
    have first : ∀ event ∈ db.events, event.sequence = row.acceptedSequence → ∃ parsed, event.read = some parsed := by
      intro event event_member same
      cases Table.eq_of_key lawful.ascending event_member accepted_member (same.trans numbered.symm)
      exact ⟨opening, parsed⟩
    cases is_active : active row.state with
    | true =>
      obtain ⟨unended, unterminated, unresulted⟩ := sound.going is_active
      have done : runRecord db provenance.sessionId run = .ok (some ⟨run, row.acceptedSequence, value, row.state,
          row.lastRuntimeSequence, row.ownerInstanceId, row.providerSessionId, none, none⟩) := by
        rw [RunStore.runRecord, recorded.run_eq, found]
        simp [positive, read, is_opening, named, is_active, unended, unterminated, recordedResult, unresulted]
        rfl
      rw [done]
      refine ⟨fun result same => ?_, fun _ => ⟨_, rfl⟩⟩
      cases same
      exact ⟨⟨named.symm, rfl, rfl, rfl, rfl, rfl, unresulted.symm, input, unended, unterminated⟩, first,
        by simp [unterminated], by simp [unresulted]⟩
    | false =>
      obtain ⟨event, event_member, ended, is_terminal, read_terminal⟩ := recorded.read_terminal sound is_active
      have later : (some event.sequence != some 0) = true := by
        have := (recorded.lawful.mem_sequence event_member).1
        rw [bne_iff_ne, ne_eq, Option.some.injEq]
        omega
      have concluding {terminal : StoredEvent} (parses : event.read = some terminal) :
          recordedResult db provenance.sessionId row (some terminal) = .ok () ↔
            ∀ final ∈ db.events, row.resultSequence = some final.sequence → ∃ parsed, final.read = some parsed := by
        rw [recordedResult]
        cases is_result : row.resultSequence with
        | none => simp
        | some sequence =>
          obtain ⟨final, final_member, final_numbered, read_result⟩ :=
            recorded.read_result (sound.resulted (by rw [is_result]; rfl)) ended is_terminal parses
          cases Option.some.inj (is_result.symm.trans final_numbered)
          have known : final.sequence ≠ 0 := by
            have := (lawful.mem_sequence final_member).1
            omega
          simp only [ne_eq, known, not_false_eq_true, decide_true, require_true, ok_bind, read_result]
          constructor
          · intro readable other other_member same
            cases Table.eq_of_key lawful.ascending other_member final_member (Option.some.inj same).symm
            exact readable
          · exact fun readable => readable final final_member rfl
      have reading : runRecord db provenance.sessionId run = (do
          let terminal ← terminalEvent db provenance.sessionId row event.sequence
          recordedResult db provenance.sessionId row (some terminal)
          return some ⟨run, row.acceptedSequence, value, row.state, row.lastRuntimeSequence, row.ownerInstanceId,
            row.providerSessionId, some terminal, row.resultSequence⟩) := by
        rw [RunStore.runRecord, recorded.run_eq, found]
        simp [positive, read, is_opening, named, is_active, ended, is_terminal, later]
      rw [reading]
      refine ⟨fun result done => ?_, fun readable => ?_⟩
      · obtain ⟨terminal, is_parsed, done⟩ := bind_eq_ok.1 done
        obtain ⟨_, concludes, done⟩ := bind_eq_ok.1 done
        cases done
        obtain ⟨parses, copies⟩ := (read_terminal terminal).1 is_parsed
        refine ⟨⟨named.symm, rfl, rfl, rfl, rfl, rfl, rfl, input, event, event_member, parses, ended, is_terminal⟩, first, ?_,
          (concluding parses).1 concludes⟩
        intro payload same
        cases is_terminal.symm.trans same
        refine ⟨terminal.payload, copies, ?_⟩
        obtain ⟨payload, reads, rfl⟩ := Option.map_eq_some_iff.1 parses
        rwa [StoredEventPayload.read, copies] at reads
      · obtain ⟨payload, once, again⟩ := readable.terminal _ is_terminal
        have parses : event.read = some { event with payload } := by
          simp [StoredEvent.read, StoredEventPayload.read, once, again]
        rw [(read_terminal _).2 ⟨parses, once⟩, ok_bind, (concluding parses).2 readable.result, ok_bind]
        exact ⟨_, rfl⟩

theorem Recorded.read_no_run (recorded : Recorded provenance db) (missing : (Ledger.ofLog db.events).run run = none) :
    runRecord db provenance.sessionId run = .ok none := by
  rw [RunStore.runRecord, recorded.run_eq, missing]

end Reading
end Wi
