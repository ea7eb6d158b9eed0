import Wi.Transactions

/-! The states of a session: each one is committed, and events and commands only accumulate. -/
namespace Wi
open RunStore Writer

section
variable [JsonHash]

section Replaying
open Migration
variable {provenance : CreationProvenance} {log : List StoredEvent} {limit : Nat → Nat}

theorem Lawful.replayPage_eq (lawful : Lawful provenance log) (count size : Nat) :
    replayPage log count log.length size = (log.drop count).take size := by
  have selected : log.filter (fun event => count < event.sequence && event.sequence ≤ log.length) = log.drop count := by
    conv_lhs => rw [← List.take_append_drop count log]
    rw [List.filter_append, List.filter_eq_nil_iff.2, List.filter_eq_self.2, List.nil_append]
    · intro event member
      have bound := (lawful.mem_sequence (List.mem_of_mem_drop member)).2
      simp only [List.take_append_drop]
      simp [lawful.mem_drop member, bound]
    · intro event member
      have := lawful.mem_take member
      simp only [Bool.and_eq_true, decide_eq_true_eq]
      omega
  rw [replayPage, selected,
    Table.orderBy_eq (List.Perm.refl _) (lawful.ascending.sublist (List.drop_sublist _ _))]

/-- An event as the migration shows it: its payload has to be readable. -/
def replayed (sql : Conversation) (event : StoredEvent) : Result Conversation := do
  discard (present event.read .integrity)
  Projector.apply sql event.shown

theorem replayed_eq_ok {events : List StoredEvent} {sql final : Conversation} (done : events.foldlM replayed sql = .ok final) :
    events.foldlM (fun sql event => Projector.apply sql event.shown) sql = .ok final := by
  induction events generalizing sql with
  | nil => exact done
  | cons event events ih =>
    rw [List.foldlM_cons] at done ⊢
    obtain ⟨next, applied, done⟩ := bind_eq_ok.1 done
    obtain ⟨_, -, applied⟩ := bind_eq_ok.1 applied
    rw [applied, ok_bind, ih done]

theorem replayed_of_readable {events : List StoredEvent} (readable : ∀ event ∈ events, ∃ parsed, event.read = some parsed)
    (sql : Conversation) :
    events.foldlM replayed sql = events.foldlM (fun sql event => Projector.apply sql event.shown) sql := by
  induction events generalizing sql with
  | nil => rfl
  | cons event events ih =>
    obtain ⟨parsed, read⟩ := readable event List.mem_cons_self
    have same : replayed sql event = Projector.apply sql event.shown := by
      rw [replayed, read]
      rfl
    rw [List.foldlM_cons, List.foldlM_cons, same]
    congr 1
    funext next
    exact ih (fun event member => readable event (List.mem_cons_of_mem _ member)) next

theorem Lawful.replayEvent_eq (lawful : Lawful provenance log) {event : StoredEvent} (member : event ∈ log) {sql : Conversation}
    {count : Nat} (next : event.sequence = count + 1) :
    replayEvent provenance.sessionId (sql, count) event = replayed sql event >>= fun sql => .ok (sql, event.sequence) := by
  rw [replayEvent, lawful.decode_eq member, replayed]
  cases read : event.read with
  | none => rfl
  | some parsed =>
    have shape := StoredEvent.shape_read read
    have valid : History.valid provenance.sessionId parsed = .ok () := by
      rw [← valid_shape, shape, valid_shape, lawful.valid member]
    have shown : Projector.apply sql parsed.shown = Projector.apply sql event.shown := by
      rw [← Projector.apply_shape, ← StoredEvent.shown_shape, shape, StoredEvent.shown_shape, Projector.apply_shape]
    obtain ⟨sequence, -⟩ := StoredEvent.read_columns read
    rw [present_some, ok_bind, sequence, decide_eq_true next.symm, require_true, ok_bind, Event.ofStored_eq valid, ok_bind, shown]
    rfl

theorem Lawful.replay_rows (lawful : Lawful provenance log) (rows : List StoredEvent) {sql : Conversation} {count : Nat}
    (first : rows <+: log.drop count) : rows.foldlM (replayEvent provenance.sessionId) (sql, count) =
      rows.foldlM replayed sql >>= fun sql => .ok (sql, count + rows.length) := by
  induction rows generalizing sql count with
  | nil => rfl
  | cons event rows ih =>
    obtain ⟨rest, is_drop⟩ := first
    have bound : count < log.length := by
      by_contra past
      rw [List.drop_eq_nil_of_le (by omega)] at is_drop
      cases is_drop
    rw [List.drop_eq_getElem_cons bound, List.cons_append] at is_drop
    obtain ⟨rfl, tail⟩ := List.cons.inj is_drop
    have numbered := lawful.sequence_get bound
    rw [List.foldlM_cons, List.foldlM_cons, lawful.replayEvent_eq (List.getElem_mem bound) numbered, numbered]
    cases applied : replayed sql log[count] with
    | error kind => rfl
    | ok next =>
      rw [ok_bind, ok_bind, ok_bind, ih ⟨rest, tail⟩, List.length_cons]
      congr 1
      funext final
      rw [Nat.add_assoc, Nat.add_comm 1]

theorem Lawful.replay_eq (lawful : Lawful provenance log) (positive : ∀ count, 0 < limit count) {fuel count : Nat}
    {sql : Conversation} (bound : count ≤ log.length) (enough : log.length - count < fuel) :
    Migration.replay provenance.sessionId log log.length limit fuel (sql, count) =
      (log.drop count).foldlM replayed sql := by
  induction fuel generalizing sql count with
  | zero => omega
  | succ fuel ih =>
    rw [Migration.replay]
    dsimp only
    split
    · rename_i less
      have some_row : (((log.drop count).take (limit count)).isEmpty) = false := by
        have := positive count
        rw [List.isEmpty_eq_false_iff, ← List.length_pos_iff, List.length_take, List.length_drop]
        omega
      have moved : count < count + ((log.drop count).take (limit count)).length := by
        rw [List.isEmpty_eq_false_iff, ← List.length_pos_iff] at some_row
        omega
      have within : count + ((log.drop count).take (limit count)).length ≤ log.length := by
        rw [List.length_take, List.length_drop]
        omega
      rw [lawful.replayPage_eq, some_row, Bool.not_false, require_true, ok_bind,
        lawful.replay_rows _ (List.take_prefix _ _)]
      conv_rhs => rw [← List.take_append_drop (limit count) (log.drop count), List.foldlM_append]
      cases ((log.drop count).take (limit count)).foldlM replayed sql with
      | error kind => rfl
      | ok next =>
        rw [ok_bind, ok_bind, ok_bind, ih within (by omega)]
        have same : log.drop (count + ((log.drop count).take (limit count)).length) = (log.drop count).drop (limit count) := by
          rw [← List.drop_drop, List.length_take]
          rcases le_total (limit count) (log.drop count).length with fits | short
          · rw [min_eq_left fits]
          · rw [min_eq_right short, List.drop_length, List.drop_eq_nil_of_le short]
        rw [same]
    · have last : count = log.length := by omega
      rw [last, List.drop_length]
      rfl

variable {db : Db}

theorem Committed.validate_previous (committed : Committed provenance db) :
    Session.validate (previousFormat db) provenance.sessionId provenance = .ok db.view := by
  have heads := committed.manifest
  refine (show Lawful provenance (previousFormat db).events from committed.recorded.lawful).validate ?_ (.inl rfl)
  exact ⟨heads.sessionId, heads.origin, heads.created, heads.workspace, heads.head, heads.updated, heads.untitled, heads.titled⟩

theorem Committed.replay_view (committed : Committed provenance db) (positive : ∀ count, 0 < limit count) :
    Migration.replay provenance.sessionId db.events db.view.headSequence limit (db.view.headSequence + 1) (.empty, 0) =
      db.events.foldlM replayed .empty := by
  have head : db.view.headSequence = db.events.length := committed.manifest.head
  rw [head, committed.recorded.lawful.replay_eq positive (Nat.zero_le _) (by omega)]
  rfl

theorem Committed.restored (committed : Committed provenance db) : { previousFormat db with
    manifest := { (previousFormat db).manifest with schemaVersion := 3 }, conversation := db.conversation } = db := by
  have version := committed.version
  obtain ⟨manifest, events, commands, runs, tools, conversation⟩ := db
  obtain ⟨sessionId, schemaVersion, title, workspace, createdAtMs, updatedAtMs, headSequence, origin⟩ := manifest
  cases version
  rfl

theorem Committed.of_backfill (committed : Committed provenance db) {next : Db}
    (done : Migration.backfill (previousFormat db) provenance = .ok next) : next = db := by
  rw [Migration.backfill, Migration.backfillWith] at done
  dsimp only at done
  rw [committed.validate_previous, ok_bind] at done
  obtain ⟨_, -, done⟩ := bind_eq_ok.1 done
  obtain ⟨conversation, rebuilt, done⟩ := bind_eq_ok.1 done
  obtain ⟨_, -, done⟩ := bind_eq_ok.1 done
  obtain ⟨_, -, done⟩ := bind_eq_ok.1 done
  cases done
  have replays := replayed_eq_ok ((committed.replay_view fun _ => by decide).symm.trans rebuilt)
  cases Except.ok.inj (replays.symm.trans committed.recorded.conversation)
  exact committed.restored

theorem Committed.backfillWith (committed : Committed provenance db) (collision : CollisionFree)
    (positive : ∀ count, 0 < limit count) (readable : ∀ event ∈ db.events, ∃ parsed, event.read = some parsed) :
    Migration.backfillWith limit (previousFormat db) provenance = .ok db := by
  have rebuilt : db.events.foldlM replayed .empty = .ok db.conversation := by
    rw [replayed_of_readable readable]
    exact committed.recorded.conversation
  rw [Migration.backfillWith]
  dsimp only
  rw [committed.validate_previous, ok_bind]
  change (require true .integrity >>= fun _ => Migration.replay provenance.sessionId db.events _ _ _ _ >>= _) = _
  rw [require_true, ok_bind, committed.replay_view positive, rebuilt, ok_bind, committed.restored, committed.validate collision, ok_bind,
    decide_eq_true rfl, require_true, ok_bind, pure_eq_ok]

end Replaying

section Executing
variable {provenance : CreationProvenance} {db next : Db} {process : Session.Process} {request : Session.Request}

theorem Committed.transaction (committed : Committed provenance db) (collision : CollisionFree) :
    Ensures (Session.transaction process provenance db request) (Answered provenance db request) := by
  cases request with
  | record operation run mutation => exact committed.mutate collision
  | rename operation title => exact committed.rename collision

theorem Committed.execute_eq (committed : Committed provenance db) (collision : CollisionFree) :
    Session.execute process provenance db request =
      finishTransaction db (Session.transaction process provenance db request) := by
  rw [Session.execute, committed.validate collision]

theorem Committed.execute (committed : Committed provenance db) (collision : CollisionFree)
    {result : Except StorageError (CommitReceipt × Bool)}
    (done : Session.execute process provenance db request = (next, result)) :
    match result with
    | .ok (receipt, again) => Answered provenance db request (next, receipt, again)
    | .error _ => next = db := by
  have ensures : Ensures (Session.transaction process provenance db request) (Answered provenance db request) :=
    committed.transaction collision
  rw [committed.execute_eq collision] at done
  cases ran : Session.transaction process provenance db request with
  | ok value =>
    rw [ran] at done
    cases done
    exact ensures.of_ok ran
  | error fault =>
    rw [ran] at done
    cases done
    rfl

/-- A later state has the events and commands of an earlier one. -/
structure Extends (db next : Db) : Prop where
  events : db.events <+: next.events
  commands : db.commands <+: next.commands

theorem Extends.refl (db : Db) : Extends db db := ⟨List.prefix_rfl, List.prefix_rfl⟩

theorem Extends.trans {first middle last : Db} (one : Extends first middle) (two : Extends middle last) : Extends first last :=
  ⟨one.events.trans two.events, one.commands.trans two.commands⟩

theorem Answered.extends {receipt : CommitReceipt} {again : Bool} (answered : Answered provenance db request (next, receipt, again))
    (committed : Committed provenance db) : Committed provenance next ∧ Extends db next := by
  cases answered with
  | found => exact ⟨committed, .refl db⟩
  | done _ row done _ events _ _ commands => exact ⟨done, ⟨_, events.symm⟩, ⟨_, commands.symm⟩⟩

theorem Step.committed (collision : CollisionFree) (step : Step provenance db next) (committed : Committed provenance db) :
    Committed provenance next ∧ Extends db next := by
  cases step with
  | request process _ asked =>
    cases ran : Session.execute process provenance db asked with
    | mk after result =>
      have held := committed.execute collision ran
      cases result with
      | ok value => exact Answered.extends held committed
      | error error =>
        cases held
        exact ⟨committed, .refl _⟩
  | reopened process _ =>
    rw [Session.reconcile]
    cases ran : reconcileTx process.env db provenance process.instanceId with
    | ok after =>
      rcases (committed.reconcile collision).of_ok ran with rfl | ⟨done, commands, event, events, -⟩
      · exact ⟨committed, .refl _⟩
      · exact ⟨done, ⟨_, events.symm⟩, ⟨[], (List.append_nil _).trans commands.symm⟩⟩
    | error fault => exact ⟨committed, .refl _⟩
  | migrated _ _ done =>
    rw [committed.of_backfill done]
    exact ⟨committed, .refl _⟩

theorem Later.committed (collision : CollisionFree) (later : Later provenance db next) (committed : Committed provenance db) :
    Committed provenance next ∧ Extends db next := by
  induction later with
  | refl => exact ⟨committed, .refl _⟩
  | tail _ step ih =>
    obtain ⟨held, so_far⟩ := ih
    obtain ⟨after, more⟩ := step.committed collision held
    exact ⟨after, so_far.trans more⟩

theorem Reachable.committed (collision : CollisionFree) (reachable : Reachable provenance db) : Committed provenance db := by
  obtain ⟨start, created, later⟩ := reachable
  exact (Later.committed collision later (Committed.created created).2).1

theorem Reachable.step (reachable : Reachable provenance db) (step : Step provenance db next) : Reachable provenance next := by
  obtain ⟨start, created, later⟩ := reachable
  exact ⟨start, created, .tail later step⟩

end Executing
end


def CreationProvenance.sample [JsonHash] : CreationProvenance :=
  let request : CreationRequest := ⟨createSession, "Session".toList, none⟩
  ⟨Uuid.one, createSession, request, digest (.creation request), Uuid.one, Uuid.one, 0, ⟨Uuid.one, Uuid.one, none, 1, 1⟩⟩

theorem Reachable.sample [JsonHash] (collision : CollisionFree) : Reachable .sample (Db.created .sample) := by
  have checked : CreationProvenance.sample.checkedRequest = .ok CreationProvenance.sample.request := by
    simp [CreationProvenance.sample, CreationProvenance.checkedRequest, CommitReceipt.single, CommitReceipt.new, validateWorkspace,
      maxInteger, Except.isOk, Except.toBool]
  exact ⟨_, Session.initializeSession_ok collision checked, .refl⟩

/-- A session request under the ideal hash. -/
def CreationProvenance.ideal : @CreationProvenance JsonHash.ideal := @sample JsonHash.ideal

theorem StoredEvent.read_ideal (event : @StoredEvent JsonHash.ideal) : @StoredEvent.read JsonHash.ideal event = some event := by
  obtain ⟨_, _, _, _, _, _, payload⟩ := event
  cases payload <;> rfl

/-! ### A session at its first response -/

def firstProcess : Session.Process := ⟨Uuid.one, ⟨some 1, fun sequence => Uuid.ending (Nat.digitChar sequence)⟩⟩

/-- The session with its first run accepted. -/
def accepting : @Db JsonHash.ideal :=
  letI := JsonHash.ideal
  (Session.execute firstProcess .ideal (Db.created .ideal) (.record (Uuid.ending '2') Uuid.one
    (.accept ⟨"Hello".toList, "provider".toList, "Hello".toList, [], .null⟩))).1

/-- The records of a run up to the start of its first response. -/
def startedRecords : List AppendRunRecord :=
  let turn := some (Uuid.ending 'a').text
  let request := some (Uuid.ending 'b').text
  let session := some "session".toList
  [.runtime ⟨2, 1, (Uuid.ending '2').text, Uuid.one.text, none, none, none, .runStarted⟩,
    .runtime ⟨2, 2, (Uuid.ending '3').text, Uuid.one.text, turn, session, none, .turnStarted 1⟩,
    .runtime ⟨2, 3, (Uuid.ending '4').text, Uuid.one.text, turn, session, request,
      .providerEvent ⟨1, 1, "event".toList, "session".toList, request, "provider".toList, none, .responseStarted "response".toList⟩⟩]

def responding : @Db JsonHash.ideal :=
  letI := JsonHash.ideal
  (Session.execute firstProcess .ideal accepting (.record (Uuid.ending '3') Uuid.one (.append startedRecords))).1

/-- The session after a tool call that has its result. -/
def calling : @Db JsonHash.ideal :=
  letI := JsonHash.ideal
  let request := some (Uuid.ending 'b').text
  (Session.execute firstProcess .ideal responding (.record (Uuid.ending '4') Uuid.one (.append
    [.runtime ⟨2, 4, (Uuid.ending '5').text, Uuid.one.text, some (Uuid.ending 'a').text, some "session".toList, request,
      .toolEvent (.toolExecutionStarted "call".toList "ping".toList)⟩,
    .toolResult request "call".toList "null".toList false]))).1

/-- The session after it was opened again while the response was going on. -/
def reopened : @Db JsonHash.ideal :=
  letI := JsonHash.ideal
  (Session.reconcile ⟨Uuid.ending 'f', ⟨some 1, fun sequence => Uuid.ending (Nat.digitChar sequence)⟩⟩ .ideal responding).1

theorem accepting_reachable : @Reachable JsonHash.ideal .ideal accepting :=
  letI := JsonHash.ideal
  (Reachable.sample JsonHash.ideal_collisionFree).step (.request _ _ _)

theorem responding_reachable : @Reachable JsonHash.ideal .ideal responding :=
  letI := JsonHash.ideal
  accepting_reachable.step (.request _ _ _)

theorem calling_reachable : @Reachable JsonHash.ideal .ideal calling :=
  letI := JsonHash.ideal
  responding_reachable.step (.request _ _ _)

theorem reopened_reachable : @Reachable JsonHash.ideal .ideal reopened :=
  letI := JsonHash.ideal
  responding_reachable.step (.reopened _ _)

/-- The display projector takes whatever the canonical checks of a mutation accept. -/
theorem projector_accepts_mutations [JsonHash] {provenance : CreationProvenance} {db : Db} (collision : CollisionFree)
    (reachable : Reachable provenance db) (env : Env) (owner : StoredEventId) (operation : OperationId) (run : RunId)
    (mutation : Mutation) (kind : StorageErrorKind) :
    mutateTx env db provenance owner operation run mutation ≠ .error (.display kind) :=
  ((reachable.committed collision).mutate collision).no_display kind

/-- The first records of the accepted run are projected and committed. -/
theorem projector_accepts_first_records : letI := JsonHash.ideal
    Reachable .ideal accepting ∧
    (mutateTx firstProcess.env accepting .ideal Uuid.one (Uuid.ending '3') Uuid.one (.append startedRecords)).isOk = true ∧
    ∀ kind, mutateTx firstProcess.env accepting .ideal Uuid.one (Uuid.ending '3') Uuid.one (.append startedRecords) ≠
      .error (.display kind) := by
  let _ := JsonHash.ideal
  exact ⟨accepting_reachable, by decide +kernel,
    projector_accepts_mutations JsonHash.ideal_collisionFree accepting_reachable _ _ _ _ _⟩

/-- The tables that the writer maintains are those that the migration builds from the stored
events, whatever its batches, as long as it can read them. -/
theorem backfill_rebuilds_tables [JsonHash] {provenance : CreationProvenance} {db : Db} (collision : CollisionFree)
    (reachable : Reachable provenance db) (readable : ∀ event ∈ db.events, ∃ parsed, event.read = some parsed)
    (limit : Nat → Nat) (positive : ∀ position, 0 < limit position) :
    Migration.backfillWith limit (Migration.previousFormat db) provenance = .ok db :=
  (reachable.committed collision).backfillWith collision positive readable

theorem backfill_rebuilds_calling : letI := JsonHash.ideal
    (∀ position : Nat, 0 < position + 1) ∧ calling.events.length = 7 ∧ calling.conversation.entries.length = 3 ∧
    (∀ event ∈ calling.events, ∃ parsed, event.read = some parsed) ∧
    Migration.backfillWith (fun position => position + 1) (Migration.previousFormat calling) .ideal = .ok calling := by
  let _ := JsonHash.ideal
  have readable : ∀ event ∈ calling.events, ∃ parsed, event.read = some parsed := fun event _ => ⟨event, event.read_ideal⟩
  exact ⟨Nat.succ_pos, by decide +kernel, by decide +kernel, readable,
    backfill_rebuilds_tables JsonHash.ideal_collisionFree calling_reachable readable _ Nat.succ_pos⟩

end Wi
