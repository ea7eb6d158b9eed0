import Wi.Committed

/-! Every transaction leaves a committed database: mutations, renames, reconciliation and
the creation of a session. -/
namespace Wi
open RunStore Writer
variable [JsonHash]

section Performing
variable {provenance : CreationProvenance} {db : Db} {env : Env} {owner : StoredEventId} {run : RunId}
variable {first timestamp : Nat} {mutation : Mutation}

/-- The events of a mutation. -/
def mutationEvents (env : Env) (owner : StoredEventId) (run : RunId) (first timestamp : Nat) : Mutation → List StoredEvent
  | .accept input => [acceptance env owner run first timestamp input]
  | .acceptHistory input selection => [acceptance env owner run first timestamp input,
      ⟨first + 1, env.eventId (first + 1), timestamp, some run, none, none, .runHistorySelected run selection⟩]
  | .append records => storedRecords env run first timestamp records

theorem mutationEvents_length : (mutationEvents env owner run first timestamp mutation).length = recordCount mutation := by
  cases mutation <;> simp [mutationEvents, recordCount, storedRecords]

/-- Every event of a mutation belongs to its run and carries its time, and none interrupts a run. -/
theorem mem_mutationEvents {event : StoredEvent} (member : event ∈ mutationEvents env owner run first timestamp mutation) :
    event.runId = some run ∧ event.createdAtMs = timestamp ∧ isInterrupted event.payload = false ∧
      ∀ title, event.payload ≠ .sessionRenamed title := by
  cases mutation with
  | accept input =>
    rw [List.mem_singleton.1 member]
    exact ⟨rfl, rfl, rfl, nofun⟩
  | acceptHistory input selection =>
    rcases List.mem_pair.1 member with rfl | rfl
    · exact ⟨rfl, rfl, rfl, nofun⟩
    · exact ⟨rfl, rfl, rfl, nofun⟩
  | append records =>
    obtain ⟨index, bound, rfl⟩ := List.mem_mapIdx.1 member
    cases records[index] <;> exact ⟨rfl, rfl, rfl, nofun⟩

theorem validate_of_preflight {manifest : SessionManifest} {records : List AppendRunRecord}
    (checked : preflight db provenance.sessionId manifest run (.append records) = .ok ()) :
    ∀ record ∈ records, record.validate = .ok () := by
  rw [preflight] at checked
  obtain ⟨_, admitted, -⟩ := bind_eq_ok.1 checked
  intro record member
  have valid := forM_eq_ok.1 admitted record member
  rw [AppendRunRecord.validateAdmission.eq_def] at valid
  obtain ⟨_, done, -⟩ := bind_eq_ok.1 valid
  exact done

theorem Committed.perform (committed : Committed provenance db) (collision : CollisionFree) {last : Nat}
    (checked : preflight db provenance.sessionId db.view run mutation = .ok ()) (numbered : first = db.events.length + 1)
    (is_last : last = first + (recordCount mutation - 1)) (fits : last ≤ maxInteger) :
    Ensures (perform env db provenance.sessionId owner run first last timestamp mutation) fun next =>
      Recorded provenance next ∧ next.events = db.events ++ mutationEvents env owner run first timestamp mutation ∧
        next.manifest = db.manifest ∧ next.commands = db.commands := by
  cases mutation with
  | accept input => exact committed.recorded.acceptRun collision numbered (by omega)
  | append records =>
    refine committed.recorded.appendRecords collision numbered ?_ (validate_of_preflight checked)
    rw [← show recordCount (.append records) = records.length from rfl]
    omega
  | acceptHistory input selection =>
    change last = first + 1 at is_last
    subst is_last
    rw [preflight] at checked
    obtain ⟨_, current, checked⟩ := bind_eq_ok.1 checked
    have through : db.manifest.headSequence = selection.throughSequence := of_decide_eq_true (require_eq_ok.1 current)
    have matching := require_eq_ok.1 checked
    rw [committed.manifest.head] at through
    refine (committed.recorded.acceptRun collision numbered (by omega)).bind ?_
    rintro next ⟨recorded, events, manifest, commands⟩
    have member : acceptance env owner run first timestamp input ∈ next.events := by simp [events]
    have latest : next.events.getLast? = some (acceptance env owner run first timestamp input) := by simp [events]
    refine (recorded.selectHistory collision ?_ fits latest rfl (recorded.lawful.known member rfl) matching ?_).mono ?_
    · rw [events, List.length_append, List.length_singleton, numbered]
    · omega
    · rintro final ⟨final_recorded, final_events, final_manifest, final_commands⟩
      refine ⟨final_recorded, ?_, final_manifest.trans manifest, final_commands.trans commands⟩
      rw [final_events, events, List.append_assoc]
      rfl

theorem ManifestRow.Heads.advance {row : ManifestRow} {log added : List StoredEvent} (heads : row.Heads provenance log)
    (before : log ≠ []) (started : added ≠ []) (written : ∀ event ∈ added, event.createdAtMs = timestamp ∧
      ∀ title, event.payload ≠ .sessionRenamed title) {last : Nat} (is_last : last = log.length + added.length) :
    ManifestRow.Heads provenance (log ++ added) { row with headSequence := last, updatedAtMs := timestamp } where
  sessionId := heads.sessionId
  origin := heads.origin
  created := heads.created
  workspace := heads.workspace
  head := by rw [List.length_append, is_last]
  updated := by
    intro event is_event
    rw [List.getLast?_append_of_ne_nil _ started] at is_event
    exact (written event (List.mem_of_getLast? is_event)).1.symm
  untitled := by
    intro single
    have := List.length_pos_iff.2 before
    have := List.length_pos_iff.2 started
    rw [List.length_append] at single
    omega
  titled := by
    intro event title is_event renamed
    rw [List.getLast?_append_of_ne_nil _ started] at is_event
    exact absurd renamed ((written event (List.mem_of_getLast? is_event)).2 title)

theorem ManifestRow.Heads.renamed {row : ManifestRow} {log : List StoredEvent} (heads : row.Heads provenance log)
    (before : log ≠ []) {title : Text} {sequence timestamp : Nat} {eventId : StoredEventId} (numbered : sequence = log.length + 1) :
    ManifestRow.Heads provenance (log ++ [⟨sequence, eventId, timestamp, none, none, none, .sessionRenamed title⟩])
      { row with title := title, updatedAtMs := timestamp, headSequence := sequence } where
  sessionId := heads.sessionId
  origin := heads.origin
  created := heads.created
  workspace := heads.workspace
  head := by rw [List.length_append, List.length_singleton, numbered]
  updated := by
    intro event is_event
    rw [List.getLast?_concat] at is_event
    cases is_event
    rfl
  untitled := by
    intro single
    have := List.length_pos_iff.2 before
    rw [List.length_append, List.length_singleton] at single
    omega
  titled := by
    intro event other is_event renamed
    rw [List.getLast?_concat] at is_event
    cases is_event
    cases renamed
    rfl

end Performing

section Transactions
variable {provenance : CreationProvenance} {db : Db} {env : Env} {owner : StoredEventId} {operation : OperationId}

/-- What a transaction did for a request: it found the committed command, or it committed one. -/
inductive Answered (provenance : CreationProvenance) (db : Db) (request : Session.Request) : Db × CommitReceipt × Bool → Prop where
  | found {row : CommandRow} (member : row ∈ db.commands)
      (answers : row.Answers provenance.sessionId db.events request) : Answered provenance db request (db, row.receipt, true)
  | done (next : Db) (row : CommandRow) {added : List StoredEvent} (committed : Committed provenance next)
      (fresh : request.operation ∉ db.commands.map CommandRow.operationId)
      (events : next.events = db.events ++ added) (started : added ≠ [])
      (written : ∀ operation run mutation, request = .record operation run mutation → ∃ env owner first timestamp,
        added = mutationEvents env owner run first timestamp mutation) (commands : next.commands = db.commands ++ [row])
      (answers : row.Answers provenance.sessionId next.events request) :
      Answered provenance db request (next, row.receipt, false)

theorem insertCommand_eq_ok {row : CommandRow} {next : Db} (done : insertCommand db row = .ok next) :
    next = { db with commands := db.commands ++ [row] } ∧ row.operationId ∉ db.commands.map CommandRow.operationId := by
  rw [insertCommand] at done
  obtain ⟨_, fresh, done⟩ := bind_eq_ok.1 done
  cases done
  refine ⟨rfl, fun known => ?_⟩
  obtain ⟨old, member, same⟩ := List.mem_map.1 known
  rw [require_eq_ok, Bool.not_eq_true', List.any_eq_false] at fresh
  exact fresh old member (by simp [same])

omit [JsonHash] in
theorem CommitReceipt.new_eq_ok {receipt result : CommitReceipt} (done : CommitReceipt.new receipt = .ok result) :
    result = receipt := by
  rw [CommitReceipt.new] at done
  obtain ⟨_, -, done⟩ := bind_eq_ok.1 done
  cases done
  rfl

omit [JsonHash] in
theorem sequenceRange_eq_ok {head count first last : Nat} (done : sequenceRange head count = .ok (first, last)) :
    count ≠ 0 ∧ first = head + 1 ∧ last = first + (count - 1) ∧ last ≤ maxInteger := by
  rw [sequenceRange] at done
  obtain ⟨_, positive, done⟩ := bind_eq_ok.1 done
  obtain ⟨next, is_next, done⟩ := bind_eq_ok.1 done
  obtain ⟨_, fits, done⟩ := bind_eq_ok.1 done
  cases done
  rw [Session.nextSequence] at is_next
  split at is_next
  · cases is_next
    rw [require_eq_ok, Bool.and_eq_true, decide_eq_true_eq, decide_eq_true_eq] at fits
    exact ⟨of_decide_eq_true (require_eq_ok.1 positive), rfl, rfl, fits.2⟩
  · cases is_next

theorem Committed.repeated (committed : Committed provenance db) (collision : CollisionFree) {row : CommandRow}
    (member : row ∈ db.commands) {request : Session.Request} (operation : row.operationId = request.operation)
    (hash : row.payloadHash = request.payloadHash provenance.sessionId) :
    row.Answers provenance.sessionId db.events request := by
  obtain ⟨other, answers⟩ := committed.commands.answers row member
  obtain ⟨other_operation, -, other_hash, -⟩ := answers.columns
  cases Session.Request.eq_of_hash collision (other_operation.symm.trans operation) (other_hash.symm.trans hash)
  exact answers

theorem retry_eq_ok {id : ApplicationSessionId} {run : RunId} {mutation : Mutation} {command : Command} {receipt : CommitReceipt}
    (retried : retry db id run mutation command = .ok receipt) :
    command.payloadHash = commandHash id run mutation ∧ receipt = command.receipt := by
  rw [retry.eq_def] at retried
  obtain ⟨_, same, retried⟩ := bind_eq_ok.1 retried
  rw [require_eq_ok, Bool.and_eq_true] at same
  refine ⟨of_decide_eq_true same.2, ?_⟩
  obtain ⟨_, -, retried⟩ := bind_eq_ok.1 retried
  dsimp only at retried
  split at retried
  · obtain ⟨_, -, retried⟩ := bind_eq_ok.1 retried
    obtain ⟨_, -, retried⟩ := bind_eq_ok.1 retried
    cases retried
    rfl
  · cases retried
    rfl

theorem Committed.finish (committed : Committed provenance db) {run : RunId} {mutation : Mutation} {first last timestamp : Nat}
    {next final : Db} {receipt : CommitReceipt} (recorded : Recorded provenance next)
    (events : next.events = db.events ++ mutationEvents env owner run first timestamp mutation)
    (manifest : next.manifest = db.manifest) (commands : next.commands = db.commands)
    (some_record : recordCount mutation ≠ 0) (numbered : first = db.events.length + 1)
    (is_last : last = first + (recordCount mutation - 1))
    (done : finish next provenance.sessionId operation run mutation first last timestamp = .ok (final, receipt)) :
    Answered provenance db (.record operation run mutation) (final, receipt, false) := by
  rw [Writer.finish] at done
  obtain ⟨made, is_made, done⟩ := bind_eq_ok.1 done
  obtain ⟨inserted, insert, done⟩ := bind_eq_ok.1 done
  cases done
  cases CommitReceipt.new_eq_ok is_made
  obtain ⟨rfl, fresh⟩ := insertCommand_eq_ok insert
  have started : mutationEvents env owner run first timestamp mutation ≠ [] := by
    rw [← List.length_pos_iff, mutationEvents_length]
    omega
  have grown : Lawful provenance (db.events ++ mutationEvents env owner run first timestamp mutation) := by
    rw [← events]
    exact recorded.lawful
  have ends : last = db.events.length + (mutationEvents env owner run first timestamp mutation).length := by
    rw [mutationEvents_length]
    omega
  let row : CommandRow := ⟨operation, mutation.method, commandHash provenance.sessionId run mutation, first, last,
    ⟨operation, provenance.sessionId, some run, first, last⟩⟩
  have answers : row.Answers provenance.sessionId (db.events ++ mutationEvents env owner run first timestamp mutation)
      (.record operation run mutation) := by
    refine ⟨rfl, rfl, rfl, rfl, ?_⟩
    rintro input selection rfl
    have selects : ⟨first + 1, env.eventId (first + 1), timestamp, some run, none, none, .runHistorySelected run selection⟩ ∈
        mutationEvents env owner run first timestamp (.acceptHistory input selection) :=
      List.mem_cons_of_mem _ (List.mem_cons_self ..)
    exact ⟨is_last, _, List.mem_append_right _ selects, is_last.symm, rfl,
      _, List.mem_append_right _ (List.mem_cons_self ..), rfl, owner, rfl⟩
  simp only [commands] at fresh
  refine .done _ row ⟨⟨recorded.lawful, recorded.runs, recorded.tools, recorded.conversation⟩, ?_, ?_, ?_⟩ fresh events started
    (fun _ _ _ same => by cases same; exact ⟨env, owner, first, timestamp, rfl⟩) (congrArg (· ++ [_]) commands) (events.symm ▸ answers)
  · exact (congrArg ManifestRow.schemaVersion manifest).trans committed.version
  · simp only [manifest, events]
    refine committed.manifest.advance committed.recorded.lawful.ne_nil started (fun event member => ?_) ends
    obtain ⟨-, written, -, untitled⟩ := mem_mutationEvents member
    exact ⟨written, untitled⟩
  · simp only [commands, events]
    exact committed.commands.add committed.recorded.lawful grown
      (fun event member => (mem_mutationEvents member).2.2.1) started numbered ends answers fresh

theorem Committed.mutate (committed : Committed provenance db) (collision : CollisionFree) {run : RunId} {mutation : Mutation} :
    Ensures (mutateTx env db provenance owner operation run mutation)
      (Answered provenance db (.record operation run mutation)) := by
  rw [mutateTx]
  refine Ensures.check_bind fun command read => ?_
  cases command with
  | some command =>
    obtain ⟨row, member, is_operation, rfl⟩ := committed.of_command read
    refine Ensures.check_bind fun receipt retried => ?_
    obtain ⟨hash, is_receipt⟩ := retry_eq_ok retried
    rw [is_receipt]
    exact .found member (committed.repeated collision member is_operation hash)
  | none =>
    rw [committed.validate collision]
    refine Ensures.check_bind fun manifest is_manifest => ?_
    cases is_manifest
    refine Ensures.check_bind fun _ checked => Ensures.check_bind fun range is_range => ?_
    obtain ⟨first, last⟩ := range
    obtain ⟨positive, numbered, is_last, fits⟩ := sequenceRange_eq_ok is_range
    replace numbered : first = db.events.length + 1 := by rw [numbered, Db.view, committed.manifest.head]
    refine Ensures.check_bind fun timestamp _ => ?_
    refine (committed.perform collision checked numbered is_last fits).bind ?_
    rintro next ⟨recorded, events, manifest, commands⟩
    refine Ensures.check_bind fun final finished => ?_
    exact committed.finish recorded events manifest commands positive numbered is_last finished

omit [JsonHash] in
theorem nextSequence_eq_ok {head next : Nat} (done : Session.nextSequence head = .ok next) :
    next = head + 1 ∧ next ≤ maxInteger := by
  rw [Session.nextSequence] at done
  split at done
  · rename_i fits
    cases done
    exact ⟨rfl, fits⟩
  · cases done

theorem Committed.rename (committed : Committed provenance db) (collision : CollisionFree) {title : Text} :
    Ensures (renameTx env db provenance operation title) (Answered provenance db (.rename operation title)) := by
  rw [renameTx]
  refine Ensures.check_bind fun command read => ?_
  cases command with
  | some command =>
    obtain ⟨row, member, is_operation, rfl⟩ := committed.of_command read
    refine Ensures.check_bind fun _ same => Ensures.check_bind fun _ _ => ?_
    rw [require_eq_ok, Bool.and_eq_true] at same
    exact .found member (committed.repeated collision member is_operation (of_decide_eq_true same.2))
  | none =>
    rw [committed.validate collision]
    refine Ensures.check_bind fun manifest is_manifest => ?_
    cases is_manifest
    refine Ensures.check_bind fun sequence is_sequence => Ensures.check_bind fun receipt is_receipt =>
      Ensures.check_bind fun timestamp _ => Ensures.check_bind fun events inserted => ?_
    obtain ⟨rfl, room⟩ := insertEvent_eq_ok inserted
    obtain ⟨numbered, fits⟩ := nextSequence_eq_ok is_sequence
    replace numbered : sequence = db.events.length + 1 := by rw [numbered, Db.view, committed.manifest.head]
    cases CommitReceipt.new_eq_ok is_receipt
    let event : StoredEvent := ⟨sequence, env.eventId sequence, timestamp, none, none, none, .sessionRenamed title⟩
    have recorded := committed.recorded
    have follows : Follows db.events provenance.sessionId event :=
      ⟨numbered, recorded.valid numbered fits rfl rfl rfl, room, title, rfl⟩
    obtain ⟨conversation, projected⟩ := recorded.project collision follows
    refine Ensures.project_bind projected (Ensures.check_bind fun final inserted => ?_)
    obtain ⟨rfl, fresh⟩ := insertCommand_eq_ok inserted
    have grown := recorded.lawful.follows follows
    let row : CommandRow := ⟨operation, .rename, digest (.rename provenance.sessionId title), sequence, sequence,
      ⟨operation, provenance.sessionId, none, sequence, sequence⟩⟩
    have answers : row.Answers provenance.sessionId (db.events ++ [event]) (.rename operation title) :=
      ⟨rfl, rfl, rfl, rfl, rfl⟩
    refine .done _ row ⟨recorded.next follows rfl recorded.runs recorded.tools projected, committed.version, ?_, ?_⟩ fresh rfl
      (by simp) (by simp) rfl answers
    · exact committed.manifest.renamed recorded.lawful.ne_nil numbered
    · exact committed.commands.add recorded.lawful grown (by simp [isInterrupted]) (by simp) numbered numbered answers fresh

theorem Committed.reconcile (committed : Committed provenance db) (collision : CollisionFree) :
    Ensures (reconcileTx env db provenance owner) fun next => next = db ∨ Committed provenance next ∧
      next.commands = db.commands ∧ ∃ event, next.events = db.events ++ [event] ∧ isInterrupted event.payload = true := by
  rw [reconcileTx, committed.validate collision]
  refine Ensures.check_bind fun manifest is_manifest => ?_
  cases is_manifest
  dsimp only
  cases found : db.runs.find? (fun row => active row.state && row.ownerInstanceId ≠ owner) with
  | none => exact .inl rfl
  | some row =>
    have recorded := committed.recorded
    have was : active row.state = true := by
      have := List.find?_some found
      rw [Bool.and_eq_true] at this
      exact this.1
    have located : (Ledger.ofLog db.events).run row.runId = some row := by
      refine recorded.lawful.ledger.find_run.2 ⟨?_, rfl⟩
      rw [← recorded.runs]
      exact List.mem_of_find?_eq_some found
    dsimp only
    have reads {result : Result RecordedRun} : Ensures (discard (check result)) fun _ => True := by
      cases result <;> trivial
    refine reads.bind fun _ _ => Ensures.check_bind fun sequence is_sequence => Ensures.check_bind fun timestamp _ =>
      Ensures.check_bind fun events inserted => ?_
    obtain ⟨rfl, room⟩ := insertEvent_eq_ok inserted
    obtain ⟨numbered, fits⟩ := nextSequence_eq_ok is_sequence
    replace numbered : sequence = db.events.length + 1 := by rw [numbered, Db.view, committed.manifest.head]
    have follows : Follows db.events provenance.sessionId ⟨sequence, env.eventId sequence, timestamp, some row.runId, none, none,
        .runInterrupted row.runId⟩ :=
      ⟨numbered, recorded.valid numbered fits rfl (require_eq_ok.2 (decide_eq_true rfl)) rfl, room, row, located, was⟩
    obtain ⟨conversation, projected⟩ := recorded.project collision follows
    refine Ensures.project_bind projected (.inr ⟨⟨recorded.next follows rfl ?_ recorded.tools projected, committed.version, ?_, ?_⟩,
      rfl, _, rfl, rfl⟩)
    · exact congrArg (Table.update _ _) recorded.runs
    · exact committed.manifest.advance recorded.lawful.ne_nil (by simp) (by simp) numbered
    · exact committed.commands.interrupted recorded.lawful (recorded.lawful.follows follows) rfl

end Transactions


section Creating
variable {provenance : CreationProvenance} {db : Db}

/-- The database of a new session. -/
def Db.created (provenance : CreationProvenance) : Db :=
  ⟨⟨provenance.sessionId, 3, provenance.request.title, provenance.request.workspace, provenance.createdAtMs,
    provenance.createdAtMs, 1, provenance⟩, [provenance.event provenance.request], [], [], [],
    { Conversation.empty with projection := some ⟨1, 1, 1⟩ }⟩

theorem Committed.start (checked : provenance.checkedRequest = .ok provenance.request) :
    Committed provenance (Db.created provenance) := by
  refine ⟨⟨.created checked, rfl, rfl, rfl⟩, rfl, ?_, ?_⟩
  · refine ⟨rfl, rfl, rfl, rfl, rfl, ?_, fun _ => rfl, ?_⟩
    · intro event is_event
      cases is_event
      rfl
    · intro event title is_event renamed
      cases is_event
      cases renamed
  · refine ⟨by simp [Db.created], List.nodup_nil, by simp [Db.created], List.Pairwise.nil, fun event member later => ?_⟩
    rw [List.mem_singleton.1 member] at later
    exact absurd later (lt_irrefl 1)

theorem Committed.created (done : Session.initializeSession provenance = .ok db) :
    db = Db.created provenance ∧ Committed provenance db := by
  rw [Session.initializeSession] at done
  obtain ⟨request, checked, done⟩ := bind_eq_ok.1 done
  obtain ⟨rfl, -⟩ := provenance.checkedRequest_ok checked
  obtain ⟨_, -, done⟩ := bind_eq_ok.1 (show (discard (Session.validate (Db.created provenance) provenance.sessionId provenance) >>=
    fun _ => pure (Db.created provenance)) = .ok db from done)
  cases done
  exact ⟨rfl, .start checked⟩

theorem Session.initializeSession_ok (collision : CollisionFree)
    (checked : provenance.checkedRequest = .ok provenance.request) :
    Session.initializeSession provenance = .ok (Db.created provenance) := by
  rw [Session.initializeSession, checked]
  change (discard (Session.validate (Db.created provenance) provenance.sessionId provenance) >>= _) = _
  rw [(Committed.start checked).validate collision]
  rfl

end Creating
end Wi
