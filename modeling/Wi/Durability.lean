import Wi.Concluding
import Wi.Lifecycle

/-! What a session keeps: every record stays and is read back, and opening repairs a session once. -/
namespace Wi
open RunStore Writer
variable [JsonHash] {provenance : CreationProvenance} {db next last : Db}

/-- The parser returns every stored payload as it was written. -/
def Db.Exact (db : Db) : Prop := ∀ event ∈ db.events, event.payload.once = some event.payload

theorem Lawful.read_exact {log : List StoredEvent} {event : StoredEvent} (lawful : Lawful provenance log) (member : event ∈ log)
    (exact : event.payload.once = some event.payload) : History.event log provenance.sessionId event.sequence = .ok event := by
  rw [lawful.read_event member, StoredEvent.read_of_once exact, present_some]

theorem Recorded.readable (recorded : Recorded provenance db) (exact : db.Exact) {row : RunRow} (member : row ∈ db.runs) :
    row.Readable db.events where
  accepted event inside _ := ⟨event, StoredEvent.read_of_once (exact event inside)⟩
  terminal payload is_terminal := by
    have sound := recorded.lawful.ledger.runs row (recorded.runs ▸ member)
    cases is_active : active row.state with
    | true =>
      rw [(sound.going is_active).2.1] at is_terminal
      cases is_terminal
    | false =>
      obtain ⟨event, inside, -, is_event, -⟩ := sound.ended is_active
      cases is_event.symm.trans is_terminal
      exact ⟨event.payload, exact event inside, exact event inside⟩
  result event inside _ := ⟨event, StoredEvent.read_of_once (exact event inside)⟩

theorem Recorded.read_tool (recorded : Recorded provenance db) (exact : db.Exact) {row : ToolRow} (member : row ∈ db.tools) :
    toolResult db provenance.sessionId row.runId row.callId = .ok (some row) := by
  have lawful := recorded.lawful
  rw [recorded.tools] at member
  obtain ⟨⟨started, started_member, first, own, envelope, is_started, request, begins⟩, finished, result, output, error⟩ :=
    lawful.ledger.tools row member
  have found : db.tools.find? (fun other => other.runId = row.runId && other.callId = row.callId) = some row :=
    recorded.tools ▸ lawful.ledger.find_tool.2 ⟨member, rfl, rfl⟩
  have numbered {event : StoredEvent} (member : event ∈ db.events) : event.sequence ≠ 0 := by
    have := lawful.mem_sequence member
    omega
  have read {event : StoredEvent} (member : event ∈ db.events) := lawful.read_exact member (exact event member)
  have begun : History.event db.events provenance.sessionId row.startedSequence = .ok started := first ▸ read started_member
  have begins : toolEventOf started row.runId = some (row.requestId, .toolExecutionStarted row.callId row.toolName) := by
    simp [toolEventOf, is_started, begins, own, request]
  have nonzero := first ▸ numbered started_member
  cases finishes : row.finishedSequence with
  | none =>
    cases results : row.resultSequence with
    | none => simp_all [toolResult]
    | some recorded =>
      obtain ⟨after, event, event_member, rfl, own, text, isError, is_payload, said, failed⟩ := result recorded results
      simp_all [toolResult, read event_member, numbered event_member]
  | some done =>
    obtain ⟨after, event, event_member, rfl, own, envelope, isError, is_payload, asked, ended, failed⟩ := finished done finishes
    have ends : toolEventOf event row.runId = some (row.requestId, .toolExecutionFinished row.callId row.toolName isError) := by
      simp [toolEventOf, is_payload, ended, own, asked]
    cases results : row.resultSequence with
    | none => simp_all [toolResult, read event_member, numbered event_member]
    | some recorded =>
      obtain ⟨later, answer, answer_member, rfl, from_run, text, error, is_result, said, same⟩ := result recorded results
      simp_all [toolResult, read event_member, numbered event_member, read answer_member, numbered answer_member]

/-- What was recorded stays as it was: in every later state whose payloads the parser returns as written, the events and
commands are read back unchanged, and every check that reads a stored run or tool result accepts it. -/
theorem records_durable (collision : CollisionFree) (reachable : Reachable provenance db) (later : Later provenance db last)
    (exact : last.Exact) :
    Session.validate last provenance.sessionId provenance = .ok last.view ∧
    (∀ event ∈ db.events, History.event last.events provenance.sessionId event.sequence = .ok event) ∧
    (∀ row ∈ db.commands, Session.command last provenance.sessionId row.operationId =
      .ok (some ⟨row.method, row.payloadHash, row.receipt⟩)) ∧
    (∀ row ∈ last.runs, ∃ run, runRecord last provenance.sessionId row.runId = .ok (some run) ∧ Mirrors last.events row run) ∧
    ∀ row ∈ last.tools, toolResult last provenance.sessionId row.runId row.callId = .ok (some row) := by
  obtain ⟨committed, grown⟩ := Later.committed collision later (reachable.committed collision)
  have recorded := committed.recorded
  refine ⟨committed.validate collision, ?_, ?_, ?_, ?_⟩
  · intro event member
    exact recorded.lawful.read_exact (grown.events.subset member) (exact event (grown.events.subset member))
  · intro row member
    exact committed.command (grown.commands.subset member)
  · intro row member
    have reads := recorded.read_run (recorded.lawful.ledger.find_run.2 ⟨recorded.runs ▸ member, rfl⟩)
    obtain ⟨run, read⟩ := reads.2 (recorded.readable exact member)
    exact ⟨run, read, (reads.1 run read).1⟩
  · intro row member
    exact recorded.read_tool exact member

omit [JsonHash] in
/-- The tool call is read back with its result. -/
theorem records_durable_calling : letI := JsonHash.ideal
    calling.Exact ∧ ∃ row, toolResult calling Uuid.one Uuid.one "call".toList = .ok (some row) ∧ row.output = some "null".toList := by
  let _ := JsonHash.ideal
  have exact : calling.Exact := by
    intro event _
    cases event.payload <;> rfl
  have found : (calling.tools.head?.map fun row => (row.runId, row.callId, row.output)) =
      some (Uuid.one, "call".toList, some "null".toList) := by decide +kernel
  obtain ⟨row, first, facts⟩ := Option.map_eq_some_iff.1 found
  simp only [Prod.mk.injEq] at facts
  have durable := records_durable JsonHash.ideal_collisionFree calling_reachable .refl exact
  have read := durable.2.2.2.2 row (List.mem_of_head? first)
  rw [facts.1, facts.2.1] at read
  exact ⟨exact, row, read, facts.2.2⟩

/-- What opening a session by a process does: nothing, or it interrupts the one open run of another process and touches
no text, no tool result, no command and no other run. -/
inductive Repaired (owner : StoredEventId) (db : Db) : Db → Prop where
  | nothing (own : ∀ row ∈ db.runs, active row.state = true → row.ownerInstanceId = owner) : Repaired owner db db
  | interrupted {next : Db} (row : RunRow) (member : row ∈ db.runs) (going : active row.state = true)
      (foreign : row.ownerInstanceId ≠ owner) (ends : ∃ event, next.events = db.events ++ [event] ∧ event.payload = .runInterrupted row.runId)
      (ended : ∀ other ∈ next.runs, active other.state = false) (others : ∀ other ∈ db.runs, other.runId ≠ row.runId → other ∈ next.runs)
      (tools : next.tools = db.tools) (commands : next.commands = db.commands) (content : db.conversation.SameContent next.conversation) :
      Repaired owner db next

theorem Committed.repaired (committed : Committed provenance db) (collision : CollisionFree) {env : Env} {owner : StoredEventId}
    (opened : reconcileTx env db provenance owner = .ok next) : Repaired owner db next := by
  have valid := committed.validate collision
  cases found : db.runs.find? (fun row => active row.state && row.ownerInstanceId ≠ owner) with
  | none =>
    have own : ∀ row ∈ db.runs, active row.state = true → row.ownerInstanceId = owner := by simpa using List.find?_eq_none.1 found
    simp only [reconcileTx, valid, check, found] at opened
    cases opened
    exact .nothing own
  | some row =>
    have member := List.mem_of_find?_eq_some found
    have facts := List.find?_some found
    simp only [Bool.and_eq_true, decide_eq_true_eq] at facts
    simp only [reconcileTx, valid, check, found, bind_eq_ok, mapError_eq_ok, project] at opened
    obtain ⟨_, -, _, -, sequence, -, timestamp, -, events, inserted, conversation, projected, done⟩ := opened
    cases done
    have single := committed.recorded.lawful.ledger.single
    rw [← committed.recorded.runs] at single
    refine .interrupted row member facts.1 facts.2 ⟨_, (insertEvent_eq_ok inserted).1, rfl⟩ ?_ ?_ rfl rfl (apply_content rfl rfl projected)
    · intro other kept
      obtain ⟨old, old_member, rfl⟩ := List.mem_map.1 kept
      split
      · rfl
      · rename_i different
        have apart := List.pairwise_iff_getElem.1 single
        obtain ⟨i, one, rfl⟩ := List.getElem_of_mem old_member
        obtain ⟨j, two, rfl⟩ := List.getElem_of_mem member
        grind
    · exact fun other old different => List.mem_map.2 ⟨other, old, if_neg (by simpa using different)⟩

theorem Repaired.own {owner : StoredEventId} (repaired : Repaired owner db next) :
    ∀ row ∈ next.runs, active row.state = true → row.ownerInstanceId = owner := by
  cases repaired with
  | nothing own => exact own
  | interrupted row _ _ _ _ ended =>
    intro other member going
    rw [ended other member] at going
    cases going

/-- Opening a session repairs it at most once: then no run of another process is open, and opening it again by the same
process changes nothing. -/
theorem reconcile_repairs_once (collision : CollisionFree) (reachable : Reachable provenance db) (process : Session.Process) :
    Session.reconcile process provenance db = (next, .ok ()) → Reachable provenance next ∧ Repaired process.instanceId db next ∧
      ∀ env, Session.reconcile ⟨process.instanceId, env⟩ provenance next = (next, .ok ()) := by
  intro opened
  have committed := reachable.committed collision
  have after : Reachable provenance next := by
    obtain ⟨start, created, later⟩ := reachable
    have step : Step provenance db (Session.reconcile process provenance db).1 := .reopened process db
    rw [opened] at step
    exact ⟨start, created, .tail later step⟩
  have repaired : Repaired process.instanceId db next := by
    rw [Session.reconcile] at opened
    cases ran : reconcileTx process.env db provenance process.instanceId with
    | ok result =>
      rw [ran] at opened
      cases opened
      exact committed.repaired collision ran
    | error fault =>
      rw [ran] at opened
      cases opened
  refine ⟨after, repaired, fun env => ?_⟩
  have none : next.runs.find? (fun row => active row.state && row.ownerInstanceId ≠ process.instanceId) = none := by
    simpa using repaired.own
  simp only [Session.reconcile, reconcileTx, (after.committed collision).validate collision, check, none]
  rfl

omit [JsonHash] in
theorem reconcile_repairs_responding : letI := JsonHash.ideal
    Reachable .ideal reopened ∧ Repaired (Uuid.ending 'f') responding reopened := by
  let _ := JsonHash.ideal
  have opened : Session.reconcile ⟨Uuid.ending 'f', ⟨some 1, fun sequence => Uuid.ending (Nat.digitChar sequence)⟩⟩ .ideal responding =
      (reopened, .ok ()) := Prod.ext rfl (by decide +kernel)
  have repaired := reconcile_repairs_once JsonHash.ideal_collisionFree responding_reachable _ opened
  exact ⟨repaired.1, repaired.2.1⟩

end Wi
