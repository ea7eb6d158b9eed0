import Wi.Commands
import Wi.Appending

/-! A database between two transactions: its tables agree with its log, and every check that
reads them back passes. -/
namespace Wi
open RunStore Writer
variable [JsonHash]

/-- The manifest row of a log. -/
structure ManifestRow.Heads (provenance : CreationProvenance) (log : List StoredEvent) (row : ManifestRow) : Prop where
  sessionId : row.sessionId = provenance.sessionId
  origin : row.provenance = provenance
  created : row.createdAtMs = provenance.createdAtMs
  workspace : row.workspace = provenance.request.workspace
  head : row.headSequence = log.length
  updated : ∀ event, log.getLast? = some event → row.updatedAtMs = event.createdAtMs
  untitled : log.length = 1 → row.title = provenance.request.title
  titled : ∀ event title, log.getLast? = some event → event.payload = .sessionRenamed title → row.title = title

/-- A database between two transactions. -/
structure Committed (provenance : CreationProvenance) (db : Db) : Prop where
  recorded : Recorded provenance db
  version : db.manifest.schemaVersion = 3
  manifest : db.manifest.Heads provenance db.events
  commands : Commands provenance.sessionId db.events db.commands

section Validating
variable {provenance : CreationProvenance} {log : List StoredEvent} {db : Db}

/-- The manifest as reads report it. -/
def Db.view (db : Db) : SessionManifest :=
  ⟨db.manifest.sessionId, db.manifest.title, db.manifest.workspace, db.manifest.createdAtMs, db.manifest.updatedAtMs,
    db.manifest.headSequence⟩

theorem CreationProvenance.checkedRequest_ok {request : CreationRequest}
    (checked : provenance.checkedRequest = .ok request) :
    request = provenance.request ∧ (validateWorkspace provenance.request.workspace).isOk = true := by
  rw [CreationProvenance.checkedRequest] at checked
  obtain ⟨_, -, checked⟩ := bind_eq_ok.1 checked
  obtain ⟨_, -, checked⟩ := bind_eq_ok.1 checked
  obtain ⟨_, valid, checked⟩ := bind_eq_ok.1 checked
  cases checked
  exact ⟨rfl, require_eq_ok.1 valid⟩

theorem Committed.projection (committed : Committed provenance db) (collision : CollisionFree) :
    Session.projection db = .ok () := by
  have lawful := committed.recorded.lawful
  have represents := committed.recorded.represents collision
  have shown := lawful.shown
  obtain ⟨named, selected, numbered, kind⟩ := lawful.select_titled
  have titled := shown.sound.titled
  rw [shown.applied] at titled
  have bounds : (decide (1 ≤ (Display.ofLog db.events).titled) &&
      decide ((Display.ofLog db.events).titled ≤ db.events.length)) = true := by simp [titled]
  rw [Session.projection, represents.projection, present_some, ok_bind, committed.manifest.head, shown.applied]
  dsimp only
  rw [selected]
  simp only [decide_true, Bool.true_and, bounds, require_true, present_some, ok_bind, numbered]
  revert kind
  rw [numbered]
  cases named.payload <;> simp +contextual

theorem Lawful.validate (lawful : Lawful provenance db.events) (heads : db.manifest.Heads provenance db.events)
    (version : db.manifest.schemaVersion = 2 ∨ db.manifest.schemaVersion = 3 ∧ Session.projection db = .ok ()) :
    Session.validate db provenance.sessionId provenance = .ok db.view := by
  obtain ⟨request, rest, checked, is_log⟩ := lawful.first
  obtain ⟨rfl, valid⟩ := provenance.checkedRequest_ok checked
  obtain ⟨last, is_last, member, numbered⟩ := lawful.last
  have known : (db.manifest.schemaVersion = 2 || db.manifest.schemaVersion = 3) = true := by
    rcases version with version | version <;> simp [version]
  have positive := List.length_pos_iff.2 lawful.ne_nil
  have created : db.events.find? (fun event => event.sequence = 1) = some (provenance.event provenance.request) := by
    rw [is_log]
    rfl
  have located : db.events.find? (fun event => event.sequence = db.events.length) = some last := by
    rw [← numbered]
    exact lawful.find member
  have titled : (db.events.length ≠ 1 || db.manifest.title = provenance.request.title) = true := by
    have := heads.untitled
    by_cases single : db.events.length = 1 <;> simp [single, this]
  have viewed : (if db.manifest.schemaVersion = 3 then Session.projection db >>= fun _ => pure db.view
      else pure db.view) = .ok db.view := by
    rcases version with version | ⟨version, projected⟩
    · rw [if_neg (by omega), pure_eq_ok]
    · rw [if_pos version, projected, ok_bind, pure_eq_ok]
  have is_view : db.view = ⟨provenance.sessionId, db.manifest.title, provenance.request.workspace, provenance.createdAtMs,
      last.createdAtMs, db.events.length⟩ := by
    rw [Db.view, heads.sessionId, heads.workspace, heads.created, heads.updated last is_last, heads.head]
  rw [Session.validate]
  simp only [known, heads.sessionId, heads.head, heads.origin, heads.created, heads.workspace, lawful.max_sequence, checked,
    valid, created, located, heads.updated last is_last, decide_true, require_true, ok_bind, Bool.and_self, present_some]
  rw [Bool.true_and, decide_eq_true (show 1 ≤ db.events.length from positive), require_true, ok_bind,
    CreationProvenance.event]
  simp only [decide_true, Option.isNone_none, Bool.and_self, require_true, ok_bind, titled]
  rw [← is_view]
  split
  · rename_i title renamed
    rw [heads.titled last title is_last renamed, decide_eq_true rfl, require_true, ok_bind, viewed]
  · exact viewed

theorem Committed.validate (committed : Committed provenance db) (collision : CollisionFree) :
    Session.validate db provenance.sessionId provenance = .ok db.view :=
  committed.recorded.lawful.validate committed.manifest (.inr ⟨committed.version, committed.projection collision⟩)

end Validating

section Reading
variable {provenance : CreationProvenance} {db : Db} {row : CommandRow} {operation : OperationId}

theorem Committed.command (committed : Committed provenance db) (member : row ∈ db.commands) :
    Session.command db provenance.sessionId row.operationId = .ok (some ⟨row.method, row.payloadHash, row.receipt⟩) := by
  obtain ⟨request, answers⟩ := committed.commands.answers row member
  obtain ⟨-, -, -, is_receipt⟩ := answers.columns
  obtain ⟨later, ordered, bound⟩ := committed.commands.ranged row member
  have fits : row.lastSequence ≤ maxInteger := by
    obtain ⟨event, event_member, numbered⟩ := committed.recorded.lawful.exists_event (by omega) bound
    have := (valid_eq_ok.1 (committed.recorded.lawful.valid event_member)).2.1
    omega
  have positive : (row.firstSequence != 0) = true := by
    rw [bne_iff_ne]
    omega
  rw [Session.command, committed.commands.find.2 ⟨member, rfl⟩]
  simp [is_receipt, CommitReceipt.new, positive, ordered, fits, later, committed.manifest.head, bound]

theorem Committed.of_command (committed : Committed provenance db) {command : Command}
    (read : Session.command db provenance.sessionId operation = .ok (some command)) :
    ∃ row ∈ db.commands, row.operationId = operation ∧ command = ⟨row.method, row.payloadHash, row.receipt⟩ := by
  cases found : db.commands.find? (fun row => row.operationId = operation) with
  | none =>
    rw [Session.command, found] at read
    cases read
  | some row =>
    obtain ⟨member, rfl⟩ := committed.commands.find.1 found
    rw [committed.command member] at read
    cases read
    exact ⟨row, member, rfl, rfl⟩

/-- What a repeated history acceptance reads back: the run's row, and the accepted input unchanged. -/
def Db.Selectable (db : Db) (run : RunId) : Prop :=
  ∀ row ∈ db.runs, row.runId = run → row.Readable db.events ∧
    ∀ event ∈ db.events, event.sequence = row.acceptedSequence → event.read = some event

theorem Committed.selectable_iff (committed : Committed provenance db) {run : RunId} {found : RunRow} {accepted : StoredEvent}
    (located : (Ledger.ofLog db.events).run run = some found) (member : accepted ∈ db.events)
    (first : accepted.sequence = found.acceptedSequence) :
    db.Selectable run ↔ found.Readable db.events ∧ accepted.read = some accepted := by
  have lawful := committed.recorded.lawful
  constructor
  · intro selectable
    obtain ⟨found_member, named⟩ := lawful.ledger.find_run.1 located
    rw [← committed.recorded.runs] at found_member
    obtain ⟨readable, exact⟩ := selectable found found_member named
    exact ⟨readable, exact accepted member first⟩
  · rintro ⟨readable, exact⟩ row row_member named
    rw [committed.recorded.runs] at row_member
    cases Option.some.inj ((lawful.ledger.find_run.2 ⟨row_member, named⟩).symm.trans located)
    refine ⟨readable, fun event event_member same => ?_⟩
    rw [Table.eq_of_key lawful.ascending event_member member (same.trans first.symm)]
    exact exact

theorem Committed.historySelection_iff (committed : Committed provenance db) (collision : CollisionFree)
    (member : row ∈ db.commands) {run : RunId} {input : RecordedRunInput} {selection : StoredHistorySelection}
    (answers : row.Answers provenance.sessionId db.events (.record operation run (.acceptHistory input selection))) :
    historySelection db provenance.sessionId run = .ok (some selection) ↔ db.Selectable run := by
  have lawful := committed.recorded.lawful
  obtain ⟨is_operation, is_method, is_hash, is_receipt, selects⟩ := answers
  obtain ⟨adjacent, event, event_member, numbered, is_selection, accepted, accepted_member, first, owner, is_acceptance⟩ :=
    selects input selection rfl
  obtain ⟨own, through⟩ := lawful.selected_run event_member is_selection
  have only : db.events.filter (fun event => event.runId = some run && isHistorySelected event.payload) = [event] := by
    refine Keyed.filter_eq_singleton lawful.ascending.unique.of_map event_member (by simp [own, is_selection, isHistorySelected])
      fun other other_member chosen => ?_
    rw [Bool.and_eq_true, decide_eq_true_eq] at chosen
    cases is_payload : other.payload with
    | runHistorySelected named otherSelection =>
      cases Option.some.inj ((lawful.selected_run other_member is_payload).1.symm.trans chosen.1)
      exact lawful.selected_once other_member is_payload event_member is_selection
    | _ =>
      rw [is_payload] at chosen
      cases chosen.2
  have select_event : metadataEvent db provenance.sessionId run isHistorySelected = .ok (some event) := by
    have read : event.read = some event := StoredEvent.read_of_once (by rw [is_selection]; rfl)
    rw [metadataEvent, only, Table.orderBy_eq (List.Perm.refl _) (List.pairwise_singleton _ _)]
    simp [lawful.decode_eq event_member, read]
  obtain ⟨found, located⟩ := lawful.known accepted_member is_acceptance
  obtain ⟨found_member, named⟩ := lawful.ledger.find_run.1 located
  have opens : accepted.sequence = found.acceptedSequence ∧ found.ownerInstanceId = owner := by
    obtain ⟨opening, opening_member, opening_first, -, other, is_opening⟩ := (lawful.ledger.runs found found_member).accepted
    rw [named] at is_opening
    cases lawful.accepted_once accepted_member is_acceptance opening_member is_opening
    cases is_acceptance.symm.trans is_opening
    exact ⟨opening_first, rfl⟩
  have matching : selection.matchesInput input = true := by
    obtain ⟨before, before_member, -, other, otherOwner, also, matching⟩ := lawful.selected_after event_member is_selection
    cases lawful.accepted_once before_member also accepted_member is_acceptance
    cases also.symm.trans is_acceptance
    exact matching
  have one_command : db.commands.filter (fun row => row.firstSequence ≤ event.sequence &&
      found.acceptedSequence ≤ row.lastSequence) = [row] := by
    refine Keyed.filter_eq_singleton committed.commands.operations.of_map member ?_ fun other other_member chosen => ?_
    · simp [← opens.1, first, numbered, adjacent]
    · rw [Bool.and_eq_true, decide_eq_true_eq, decide_eq_true_eq, numbered, ← opens.1, first] at chosen
      by_contra different
      have := committed.commands.disjoint other_member member different
      omega
  have through_before : selection.throughSequence = row.firstSequence - 1 := by omega
  -- The parsed input is compared with the accepted one through the command's hash.
  have parsed {recorded : RecordedRun} (mirrors : Mirrors db.events found recorded) :
      accepted.payload.read = some (.runAccepted run recorded.input owner) := by
    obtain ⟨opening, opening_member, opening_first, reads⟩ := mirrors.input
    cases Table.eq_of_key lawful.ascending opening_member accepted_member (opening_first.trans opens.1.symm)
    rwa [named, opens.2] at reads
  rw [committed.selectable_iff located accepted_member opens.1, Writer.historySelection, select_event, ok_bind]
  dsimp only
  rw [is_selection]
  dsimp only
  constructor
  · intro done
    obtain ⟨_, read, done⟩ := bind_eq_ok.1 done
    obtain ⟨recorded, is_recorded, done⟩ := bind_eq_ok.1 done
    rw [present_eq_ok.1 is_recorded] at read
    obtain ⟨mirrors, readable⟩ := (committed.recorded.read_run located).1 _ read
    obtain ⟨_, -, done⟩ := bind_eq_ok.1 done
    rw [mirrors.accepted, one_command] at done
    dsimp only at done
    rw [committed.command member, ok_bind, present_some, ok_bind] at done
    obtain ⟨_, same, -⟩ := bind_eq_ok.1 done
    simp only [require_eq_ok, Bool.and_eq_true, decide_eq_true_eq, is_hash, commandHash] at same
    cases collision same.2
    refine ⟨readable, ?_⟩
    rw [StoredEvent.read, parsed mirrors, ← is_acceptance]
    rfl
  · rintro ⟨readable, exact⟩
    obtain ⟨recorded, read⟩ := (committed.recorded.read_run located).2 readable
    obtain ⟨mirrors, -⟩ := (committed.recorded.read_run located).1 _ read
    have same : recorded.input = input := by
      rw [StoredEvent.read, parsed mirrors, Option.map_some, Option.some.injEq] at exact
      have payload := congrArg StoredEvent.payload exact
      rw [is_acceptance] at payload
      cases payload
      rfl
    rw [read, ok_bind, present_some, ok_bind, mirrors.accepted, one_command]
    dsimp only
    rw [committed.command member, ok_bind, present_some, ok_bind]
    simp [← opens.1, first, numbered, adjacent, through_before, same, matching, is_method, is_receipt, is_hash]

end Reading

end Wi
