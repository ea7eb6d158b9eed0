import Wi.RecordEffects

/-! Appending records to a run: each record that the writer accepts is an event that may
follow the log, and the rows it leaves are those of the longer log. -/
namespace Wi
open RunStore Writer
variable [JsonHash]

section Canonical
variable {provenance : CreationProvenance} {db after : Db} {run next : RecordedRun} {row : RunRow} {env : Env}
variable {sequence timestamp : Nat} {record : AppendRunRecord}

/-- What a record that the canonical checks accept has done. -/
structure Appended (provenance : CreationProvenance) (db after : Db) (event : StoredEvent) (run next : RecordedRun) :
    Prop where
  follows : Follows db.events provenance.sessionId event
  events : after.events = db.events ++ [event]
  carries : Carries after ((Ledger.ofLog db.events).apply event)
  manifest : after.manifest = db.manifest
  commands : after.commands = db.commands
  conversation : after.conversation = db.conversation
  runId : next.runId = run.runId
  mirrors : ∃ row, ((Ledger.ofLog db.events).apply event).run run.runId = some row ∧
    Mirrors (db.events ++ [event]) row next

theorem Ledger.run_updated {ledger : Ledger} {name : RunId} (found : ledger.run name = some row) {set : RunRow → RunRow}
    (named : ∀ row, (set row).runId = row.runId) : (ledger.updateRun name set).run name = some (set row) := by
  rw [Ledger.run_updateRun named, found, Option.map_some, if_pos (by simpa using List.find?_some found)]

theorem recordPayload_ok {payload : StoredEventPayload}
    (done : recordPayload db provenance.sessionId run sequence record = .ok payload) : payload = record.payload ∧
      ∀ binding, record = .providerBinding binding → binding.runId = run.runId ∧ run.state = .running := by
  cases record with
  | providerBinding binding =>
    obtain ⟨_, running, done⟩ := bind_eq_ok.1 done
    obtain ⟨_, bound, done⟩ := bind_eq_ok.1 done
    cases done
    refine ⟨rfl, fun other same => ?_⟩
    cases same
    rw [validateBinding] at bound
    obtain ⟨_, own, -⟩ := bind_eq_ok.1 bound
    rw [require_eq_ok, Bool.and_eq_true] at own
    exact ⟨of_decide_eq_true own.1, of_decide_eq_true (require_eq_ok.1 running)⟩
  | _ =>
    cases done
    exact ⟨rfl, fun binding same => by cases same⟩

theorem recordEffect_ok (recorded : Recorded provenance db) {event : StoredEvent} {middle : Db} {middleRun : RecordedRun}
    (is_event : event = record.stored env run.runId sequence timestamp) (numbered : sequence = db.events.length + 1)
    (found : (Ledger.ofLog db.events).run run.runId = some row) (mirrors : Mirrors db.events row run)
    (going_on : run.state ≠ .interrupted)
    (bound : ∀ binding, record = .providerBinding binding → binding.runId = run.runId ∧ run.state = .running)
    (correlated : ∀ envelope, record = .runtime envelope → ∃ correlation, Correlated db.events run envelope correlation)
    (ordered : Keyed.Ascending StoredEvent.sequence (db.events ++ [event]))
    (done : recordEffect { db with events := db.events ++ [event] } provenance.sessionId run sequence record =
      .ok (middle, middleRun)) :
    Allows db.events run.runId record.payload ∧ SameRest { db with events := db.events ++ [event] } middle ∧
      ∃ new, ((Ledger.ofLog db.events).apply event).run run.runId = some new ∧ Becomes run middleRun new ∧
        new.runId = row.runId ∧ new.acceptedSequence = row.acceptedSequence ∧
        new.ownerInstanceId = row.ownerInstanceId ∧ RunRow.Copies event row new ∧
        Carries (updateRun middle middleRun.runId middleRun.save) ((Ledger.ofLog db.events).apply event) := by
  have rows := recorded.lawful.ledger
  have carries : Carries { db with events := db.events ++ [event] } (Ledger.ofLog db.events) := ⟨recorded.runs, recorded.tools⟩
  have later (old : StoredEvent) (member : old ∈ db.events) : old.sequence < event.sequence := by
    have := (recorded.lawful.mem_sequence member).2
    rw [is_event]
    change old.sequence < sequence
    omega
  cases record with
  | providerBinding binding =>
    cases done
    obtain ⟨-, running⟩ := bound binding rfl
    subst is_event
    refine ⟨⟨row, found, mirrors.state.symm.trans running⟩, SameRest.refl _,
      { row with providerSessionId := some binding.providerSessionId }, Ledger.run_updated found fun _ => rfl,
      ⟨rfl, rfl, rfl, mirrors.accepted, mirrors.owner, mirrors.state, mirrors.runtime, rfl, mirrors.result⟩, rfl, rfl, rfl,
      ?_, ?_, carries.tools⟩
    · rw [RunRow.Copies, if_neg (by simp)]
      exact ⟨rfl, rfl⟩
    · simp only [Writer.updateRun, recorded.runs]
      refine rows.update_congr found ?_
      simp only [RecordedRun.save, mirrors.state, mirrors.runtime, mirrors.result]
  | runtime envelope =>
    obtain ⟨correlation, correlated⟩ := correlated envelope rfl
    obtain ⟨allows, same, becomes, carried⟩ := recordRuntime_ok rows carries rfl later found mirrors correlated done
    subst is_event
    refine ⟨⟨row, found, allows⟩, same, RunRow.observed sequence envelope row, ?_, becomes, RunRow.observed_runId _ _ _, ?_, ?_,
      RunRow.copies_observed rfl allows.active, carried⟩
    · change ((Ledger.ofLog db.events).observe run.runId sequence envelope).run run.runId = _
      rw [Ledger.run, Ledger.runs_observe]
      exact Ledger.run_updated found (RunRow.observed_runId _ _)
    · rw [RunRow.observed.eq_def]
      split <;> rfl
    · rw [RunRow.observed.eq_def]
      split <;> rfl
  | toolResult request callId output isError =>
    obtain ⟨changed, recorded_result, done⟩ := bind_eq_ok.1 done
    cases done
    obtain ⟨running, call, same, carried⟩ := recordToolResult_ok carries recorded_result
    subst is_event
    refine ⟨⟨row, found, mirrors.state.symm.trans running, call⟩, same, row, found,
      ⟨rfl, rfl, rfl, mirrors.accepted, mirrors.owner, mirrors.state, mirrors.runtime, mirrors.provider, mirrors.result⟩,
      rfl, rfl, rfl, ?_, ?_, carried.tools⟩
    · rw [RunRow.Copies, if_neg (by simp)]
      exact ⟨rfl, rfl⟩
    · have unchanged : Table.update (fun row => row.runId = run.runId) run.save (Ledger.ofLog db.events).runs =
          Table.update (fun row => row.runId = run.runId) (fun row => row) (Ledger.ofLog db.events).runs :=
        rows.update_congr found (by simp only [RecordedRun.save, mirrors.state, mirrors.runtime, mirrors.provider,
          mirrors.result])
      simp only [Writer.updateRun, carried.runs]
      exact unchanged.trans (Table.update_eq_self fun _ _ _ => rfl)
  | result final =>
    obtain ⟨allows, same, becomes, carried⟩ := recordResult_ok rows carries ordered (List.subset_append_left _ _) found
      mirrors going_on done
    subst is_event
    refine ⟨⟨row, found, allows⟩, same, RunRow.concluded sequence final row, ?_, becomes, RunRow.concluded_runId _ _ _, ?_, ?_,
      RunRow.copies_concluded rfl, carried⟩
    · exact Ledger.run_updated found (RunRow.concluded_runId _ _)
    · rw [RunRow.concluded]
      split <;> rfl
    · rw [RunRow.concluded]
      split <;> rfl

theorem AppendRunRecord.payloadValid (valid : record.validate = .ok ())
    (bound : ∀ binding, record = .providerBinding binding → binding.runId = run.runId)
    (own : ∀ envelope, record = .runtime envelope → envelope.runId = run.runId.text)
    (concluded : ∀ final, record = .result final → final.runId = run.runId.text) :
    History.payloadValid provenance.sessionId (record.stored env run.runId sequence timestamp) = .ok () := by
  cases record with
  | providerBinding binding =>
    exact require_eq_ok.2 (decide_eq_true (congrArg some (bound binding rfl).symm))
  | runtime envelope =>
    have checked : (validateRuntime envelope).isOk = true := by
      rw [show validateRuntime envelope = .ok () from valid]
      rfl
    change (do
      require (validateRuntime envelope).isOk .integrity
      require (decide (some run.runId.text = some envelope.runId)) .integrity) = _
    rw [checked, require_true, ok_bind, own envelope rfl, decide_eq_true rfl, require_true]
  | toolResult => rfl
  | result final =>
    exact require_eq_ok.2 (decide_eq_true (congrArg some (concluded final rfl).symm))

theorem AppendRunRecord.sourceValid : History.sourceValid (record.stored env run.runId sequence timestamp) = true := by
  cases record with
  | runtime envelope => exact Bool.and_eq_true_iff.2 ⟨decide_eq_true rfl, decide_eq_true rfl⟩
  | _ => rfl

theorem Recorded.appendCanonical (recorded : Recorded provenance db) (numbered : sequence = db.events.length + 1)
    (fits : sequence ≤ maxInteger) (found : (Ledger.ofLog db.events).run run.runId = some row)
    (mirrors : Mirrors db.events row run) (valid : record.validate = .ok ())
    (correlated : ∀ envelope, record = .runtime envelope → ∃ correlation, Correlated db.events run envelope correlation)
    (done : appendCanonical env db provenance.sessionId run sequence timestamp record = .ok (after, next)) :
    Appended provenance db after (record.stored env run.runId sequence timestamp) run next ∧
      ∀ binding, record = .providerBinding binding → binding.runId = run.runId := by
  rw [Writer.appendCanonical] at done
  obtain ⟨payload, is_payload, done⟩ := bind_eq_ok.1 done
  obtain ⟨rfl, bound⟩ := recordPayload_ok is_payload
  obtain ⟨_, permitted, done⟩ := bind_eq_ok.1 done
  obtain ⟨events, inserted, done⟩ := bind_eq_ok.1 done
  obtain ⟨rfl, room⟩ := insertEvent_eq_ok inserted
  obtain ⟨⟨middle, middleRun⟩, effect, done⟩ := bind_eq_ok.1 done
  have going_on : run.state ≠ .interrupted := by
    rw [require_eq_ok, Bool.and_eq_true] at permitted
    exact of_decide_eq_true permitted.1
  have ordered : Keyed.Ascending StoredEvent.sequence (db.events ++ [record.stored env run.runId sequence timestamp]) := by
    rw [Keyed.Ascending, List.pairwise_append]
    refine ⟨recorded.lawful.ascending, List.pairwise_singleton _ _, fun old member new last => ?_⟩
    rw [List.mem_singleton.1 last]
    have := (recorded.lawful.mem_sequence member).2
    change old.sequence < sequence
    omega
  obtain ⟨allows, same, new, is_new, becomes, named, accepted, owner, copies, carries⟩ :=
    recordEffect_ok recorded rfl numbered found mirrors going_on bound correlated ordered effect
  have concluded (final : RunResult) (is_result : record = .result final) : final.runId = run.runId.text := by
    rw [is_result] at allows
    obtain ⟨_, -, own, -⟩ := allows
    exact own
  have follows : Follows db.events provenance.sessionId (record.stored env run.runId sequence timestamp) := by
    refine ⟨numbered, recorded.valid numbered fits ?_ ?_ AppendRunRecord.sourceValid, room, allows⟩
    · cases record <;> rfl
    · refine AppendRunRecord.payloadValid valid (fun binding is_binding => (bound binding is_binding).1) ?_ concluded
      intro envelope is_runtime
      obtain ⟨_, correlated⟩ := correlated envelope is_runtime
      exact correlated.own
  have sound := recorded.lawful.ledger.runs row (recorded.lawful.ledger.find_run.1 found).1
  refine ⟨?_, fun binding is_binding => (bound binding is_binding).1⟩
  have appended {terminal : Option StoredEvent} (carried : if active new.state = false ∧ run.terminal = none then
      ∃ parsed, (record.stored env run.runId sequence timestamp).read = some parsed ∧ terminal = some parsed
        else terminal = run.terminal) :
      Appended provenance db (updateRun middle middleRun.runId middleRun.save)
        (record.stored env run.runId sequence timestamp) run { middleRun with terminal } :=
    ⟨follows, same.events, carries, same.manifest, same.commands, same.conversation, becomes.runId,
      new, is_new, mirrors.become becomes named accepted owner copies sound carried⟩
  dsimp only at done
  split at done
  · rename_i ends
    obtain ⟨terminal, read, done⟩ := bind_eq_ok.1 done
    cases done
    refine appended ?_
    rw [Bool.and_eq_true, Bool.not_eq_true', becomes.state, becomes.terminal, Option.isNone_iff_eq_none] at ends
    rw [if_pos ends]
    obtain ⟨written, member, is_sequence, parses⟩ := History.event_mem read
    rw [show (updateRun middle _ _).events = _ from same.events] at member
    have last : record.stored env run.runId sequence timestamp ∈
        db.events ++ [record.stored env run.runId sequence timestamp] := by simp
    rw [Table.eq_of_key ordered member last is_sequence] at parses
    exact ⟨terminal, parses, rfl⟩
  · rename_i going
    cases done
    rw [Bool.and_eq_true, Bool.not_eq_true', becomes.state, becomes.terminal, Option.isNone_iff_eq_none] at going
    exact appended (by rw [if_neg going]; exact becomes.terminal)

end Canonical

section Batches
variable {provenance : CreationProvenance} {db : Db} {env : Env} {timestamp : Nat} {record : AppendRunRecord}

/-- The event rows of a batch. -/
def storedRecords (env : Env) (run : RunId) (first timestamp : Nat) (records : List AppendRunRecord) : List StoredEvent :=
  records.mapIdx fun index record => record.stored env run (first + index) timestamp

/-- What holds before each record of a batch. -/
structure InBatch (provenance : CreationProvenance) (batch : Batch) : Prop where
  recorded : Recorded provenance batch.db
  run : ∃ row, (Ledger.ofLog batch.db.events).run batch.run.runId = some row ∧ Mirrors batch.db.events row batch.run
  turn : batch.correlation.turn.map Prod.fst = openTurn batch.db.events batch.run.runId
  next : batch.sequence = batch.db.events.length + 1

theorem InBatch.append (collision : CollisionFree) {batch : Batch} (held : InBatch provenance batch)
    (fits : batch.sequence ≤ maxInteger) (valid : record.validate = .ok ())
    (correlated : ∀ envelope, record = .runtime envelope →
      ∃ correlation, Correlated batch.db.events batch.run envelope correlation) :
    Ensures (append env batch.db provenance.sessionId batch.run batch.sequence timestamp record) fun (next, run) =>
      Recorded provenance next ∧ run.runId = batch.run.runId ∧
        next.events = batch.db.events ++ [record.stored env batch.run.runId batch.sequence timestamp] ∧
        next.manifest = batch.db.manifest ∧ next.commands = batch.db.commands ∧
        ∃ row, (Ledger.ofLog next.events).run run.runId = some row ∧ Mirrors next.events row run := by
  obtain ⟨row, found, mirrors⟩ := held.run
  rw [Writer.append]
  refine Ensures.check_bind fun (after, run) done => ?_
  obtain ⟨appended, bound⟩ := held.recorded.appendCanonical held.next fits found mirrors valid correlated done
  have shown : Event.record batch.sequence run.runId record =
      .ok (record.stored env batch.run.runId batch.sequence timestamp).shown := by
    rw [appended.runId]
    exact Event.record_eq_shown bound
  obtain ⟨conversation, projected⟩ := held.recorded.project collision appended.follows
  have projects : (do Projector.apply after.conversation (← Event.record batch.sequence run.runId record)) =
      .ok conversation := by
    rw [shown, ok_bind, appended.conversation, projected]
  refine Ensures.project_bind projects ?_
  obtain ⟨new, is_new, new_mirrors⟩ := appended.mirrors
  refine ⟨held.recorded.next appended.follows appended.events appended.carries.runs appended.carries.tools projected,
    appended.runId, appended.events, appended.manifest, appended.commands, new, ?_, ?_⟩
  · rw [appended.events, Ledger.ofLog_append, appended.runId]
    exact is_new
  · rw [appended.events]
    exact new_mirrors

theorem openTurn_stored {log : List StoredEvent} {run : RunId} {sequence : Nat} :
    openTurn (log ++ [record.stored env run sequence timestamp]) run = match record with
      | .runtime envelope => turnAfter (openTurn log run) envelope
      | _ => openTurn log run := by
  cases record with
  | runtime envelope => exact openTurn_runtime (StoredEvent.runtime_eq_some.2 ⟨rfl, rfl⟩)
  | _ => exact openTurn_other (StoredEvent.runtime_of_payload fun _ same => by cases same)

theorem InBatch.appendNext (collision : CollisionFree) {batch : Batch} (held : InBatch provenance batch)
    (fits : batch.sequence ≤ maxInteger) (valid : record.validate = .ok ()) :
    Ensures (appendNext env provenance.sessionId timestamp batch record) fun next =>
      InBatch provenance next ∧ next.run.runId = batch.run.runId ∧ next.sequence = batch.sequence + 1 ∧
        next.db.events = batch.db.events ++ [record.stored env batch.run.runId batch.sequence timestamp] ∧
        next.db.manifest = batch.db.manifest ∧ next.db.commands = batch.db.commands := by
  obtain ⟨row, found, mirrors⟩ := held.run
  have rows := held.recorded.lawful.ledger
  have unstarted (accepted : batch.run.state = .accepted) : openTurn batch.db.events batch.run.runId = none := by
    have unobserved : runtimes batch.run.runId batch.db.events = [] := held.recorded.lawful.unobserved fun other located => by
      cases Option.some.inj (found.symm.trans located)
      exact mirrors.state.symm.trans accepted
    rw [openTurn, unobserved]
    rfl
  have earlier (event : StoredEvent) (member : event ∈ batch.db.events) : event.sequence < batch.sequence := by
    have := (held.recorded.lawful.mem_sequence member).2
    have := held.next
    omega
  have correlates {envelope : RunEventEnvelope} {correlation : Correlation}
      (observed : batch.correlation.observe batch.db.events batch.run envelope batch.sequence = .ok correlation) :
      Correlated batch.db.events batch.run envelope correlation :=
    Correlation.observe_ok observed earlier (fun _ => held.turn) unstarted
  have guarded {α : Type} {transaction : Tx α} {holds : α → Prop} (ensures : Ensures transaction holds) :
      Ensures (if batch.unbound then Wi.check (validateUnbound record) >>= fun _ => transaction else transaction) holds := by
    split
    · exact Ensures.check_bind fun _ _ => ensures
    · exact ensures
  have finishes {correlation : Correlation} {unbound : Bool} {after : Db} {run : RecordedRun}
      (turn : correlation.turn.map Prod.fst =
        openTurn (batch.db.events ++ [record.stored env batch.run.runId batch.sequence timestamp]) batch.run.runId)
      (appended : Recorded provenance after ∧ run.runId = batch.run.runId ∧
        after.events = batch.db.events ++ [record.stored env batch.run.runId batch.sequence timestamp] ∧
        after.manifest = batch.db.manifest ∧ after.commands = batch.db.commands ∧
        ∃ row, (Ledger.ofLog after.events).run run.runId = some row ∧ Mirrors after.events row run) :
      InBatch provenance ⟨after, run, correlation, unbound, batch.sequence + 1⟩ ∧ run.runId = batch.run.runId ∧
        batch.sequence + 1 = batch.sequence + 1 ∧
        after.events = batch.db.events ++ [record.stored env batch.run.runId batch.sequence timestamp] ∧
        after.manifest = batch.db.manifest ∧ after.commands = batch.db.commands := by
    obtain ⟨recorded, same_run, events, manifest, commands, known⟩ := appended
    refine ⟨⟨recorded, known, ?_, ?_⟩, same_run, rfl, events, manifest, commands⟩
    · change correlation.turn.map Prod.fst = openTurn after.events run.runId
      rw [events, same_run]
      exact turn
    · change batch.sequence + 1 = after.events.length + 1
      rw [events, List.length_append, List.length_singleton, held.next]
  cases record with
  | runtime envelope =>
    refine guarded (Ensures.check_bind fun correlation observed => ?_)
    have correlated := correlates observed
    refine (held.append collision fits valid fun other same => ⟨correlation, ?_⟩).bind fun after appended => ?_
    · cases same
      exact correlated
    · refine finishes ?_ appended
      rw [openTurn_stored]
      exact correlated.turn
  | providerBinding | toolResult | result =>
    refine guarded (Ensures.check_bind fun correlation same => ?_)
    cases same
    refine (held.append collision fits valid fun other same => by cases same).bind fun after appended => ?_
    refine finishes ?_ appended
    rw [openTurn_stored]
    exact held.turn

theorem InBatch.foldlM (collision : CollisionFree) {batch : Batch} (held : InBatch provenance batch)
    {records : List AppendRunRecord} (fits : batch.sequence + records.length ≤ maxInteger + 1)
    (valid : ∀ record ∈ records, record.validate = .ok ()) :
    Ensures (records.foldlM (Writer.appendNext env provenance.sessionId timestamp) batch) fun last =>
      InBatch provenance last ∧ last.run.runId = batch.run.runId ∧ last.sequence = batch.sequence + records.length ∧
        last.db.events = batch.db.events ++ storedRecords env batch.run.runId batch.sequence timestamp records ∧
        last.db.manifest = batch.db.manifest ∧ last.db.commands = batch.db.commands := by
  refine Ensures.foldlM (fun taken last => InBatch provenance last ∧ last.run.runId = batch.run.runId ∧
    last.sequence = batch.sequence + taken.length ∧
    last.db.events = batch.db.events ++ storedRecords env batch.run.runId batch.sequence timestamp taken ∧
    last.db.manifest = batch.db.manifest ∧ last.db.commands = batch.db.commands) ?_ ?_
  · exact ⟨held, rfl, rfl, (List.append_nil _).symm, rfl, rfl⟩
  · rintro before record rest last split ⟨held, same_run, sequence, events, manifest, commands⟩
    have short : before.length + 1 ≤ records.length := by
      rw [split]
      simp
    refine (held.appendNext collision (by omega) (valid record (by rw [split]; simp))).mono ?_
    rintro next ⟨next_held, next_run, next_sequence, next_events, next_manifest, next_commands⟩
    refine ⟨next_held, next_run.trans same_run, ?_, ?_, next_manifest.trans manifest, next_commands.trans commands⟩
    · rw [next_sequence, sequence, List.length_append, List.length_singleton, Nat.add_assoc]
    · rw [next_events, events, storedRecords, storedRecords, List.mapIdx_append, List.append_assoc, same_run, sequence]
      simp

theorem Recorded.inBatch (recorded : Recorded provenance db) {run : RunId} {current : RecordedRun}
    (read : runRecord db provenance.sessionId run = .ok (some current)) {correlation : Correlation}
    (loaded : Correlation.load db provenance.sessionId current = .ok correlation) {first : Nat}
    (numbered : first = db.events.length + 1) (unbound : Bool) :
    InBatch provenance ⟨db, current, correlation, unbound, first⟩ ∧ current.runId = run := by
  cases located : (Ledger.ofLog db.events).run run with
  | none =>
    rw [recorded.read_no_run located] at read
    cases read
  | some row =>
    obtain ⟨mirrors, -⟩ := (recorded.read_run located).1 current read
    have member := recorded.lawful.ledger.find_run.1 located
    have same : current.runId = run := mirrors.runId.trans member.2
    exact ⟨⟨recorded, ⟨row, same.symm ▸ located, mirrors⟩, recorded.load member.1 mirrors loaded, numbered⟩, same⟩

theorem Recorded.appendRecords (recorded : Recorded provenance db) (collision : CollisionFree) {run : RunId} {first : Nat}
    {records : List AppendRunRecord} (numbered : first = db.events.length + 1)
    (fits : first + (records.length - 1) ≤ maxInteger) (valid : ∀ record ∈ records, record.validate = .ok ()) :
    Ensures (appendRecords env db provenance.sessionId run first timestamp records) fun next =>
      Recorded provenance next ∧ next.events = db.events ++ storedRecords env run first timestamp records ∧
        next.manifest = db.manifest ∧ next.commands = db.commands := by
  rw [Writer.appendRecords]
  refine Ensures.check_bind fun current read => Ensures.check_bind fun correlation loaded =>
    Ensures.check_bind fun selected _ => ?_
  obtain ⟨found, read, is_current⟩ := bind_eq_ok.1 read
  rw [present_eq_ok.1 is_current] at read
  have folds (unbound : Bool) : Ensures (records.foldlM (Writer.appendNext env provenance.sessionId timestamp)
      ⟨db, current, correlation, unbound, first⟩ >>= fun batch => pure batch.db) fun next =>
      Recorded provenance next ∧ next.events = db.events ++ storedRecords env run first timestamp records ∧
        next.manifest = db.manifest ∧ next.commands = db.commands := by
    obtain ⟨held, rfl⟩ := recorded.inBatch read loaded numbered unbound
    refine (held.foldlM collision (by dsimp only; omega) valid).bind ?_
    rintro batch ⟨held, -, -, events, manifest, commands⟩
    exact ⟨held.recorded, events, manifest, commands⟩
  cases selected with
  | none => exact folds false
  | some selection => exact Ensures.check_bind fun binding _ => folds binding.isNone

end Batches

end Wi
