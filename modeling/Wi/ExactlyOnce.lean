import Wi.Reaching

/-! Repeated requests: a committed operation is answered with its receipt, any other request
under its id is a conflict. A repeated history acceptance hashes the input that it reads back, so
it is answered only if that is the accepted one. -/
namespace Wi
open RunStore Writer
variable [JsonHash]

section Repeating
variable {provenance : CreationProvenance} {db : Db} {process : Session.Process} {request : Session.Request} {row : CommandRow}

/-- Whether a committed request can be repeated. -/
def Session.Request.Retriable (db : Db) : Session.Request → Prop
  | .record _ run (.acceptHistory ..) => db.Selectable run
  | _ => True

theorem Committed.transaction_again (committed : Committed provenance db) (collision : CollisionFree) (member : row ∈ db.commands)
    (answers : row.Answers provenance.sessionId db.events request) :
    Session.transaction process provenance db request = .ok (db, row.receipt, true) ↔ request.Retriable db := by
  obtain ⟨is_operation, is_method, is_hash, is_receipt⟩ := answers.columns
  have read := committed.command member
  rw [is_operation] at read
  cases request with
  | rename operation title =>
    have single : row.firstSequence = row.lastSequence := answers.2.2.2.2
    change renameTx process.env db provenance operation title = _ ↔ _
    change Session.command db provenance.sessionId operation = _ at read
    have known : (decide (row.method = .rename) && decide (row.payloadHash = digest (.rename provenance.sessionId title))) =
        true := by
      rw [Bool.and_eq_true, decide_eq_true_eq, decide_eq_true_eq]
      exact ⟨is_method, is_hash⟩
    have whole : (row.receipt.runId.isNone && decide (row.receipt.firstSequence = row.receipt.lastSequence)) = true := by
      rw [is_receipt, Bool.and_eq_true, decide_eq_true_eq]
      exact ⟨rfl, single⟩
    rw [renameTx, read]
    change check (require (decide (row.method = .rename) && decide (row.payloadHash = digest (.rename _ title))) _) >>=
      (fun _ => check (require (row.receipt.runId.isNone &&
        decide (row.receipt.firstSequence = row.receipt.lastSequence)) _) >>= _) = _ ↔ _
    rw [known, whole]
    exact iff_of_true rfl trivial
  | record operation run mutation =>
    change mutateTx process.env db provenance process.instanceId operation run mutation = _ ↔ _
    change Session.command db provenance.sessionId operation = _ at read
    have retried : retry db provenance.sessionId run mutation ⟨row.method, row.payloadHash, row.receipt⟩ = .ok row.receipt ↔
        Session.Request.Retriable db (.record operation run mutation) := by
      have known : (decide (row.method = mutation.method) &&
          decide (row.payloadHash = commandHash provenance.sessionId run mutation)) = true := by
        rw [Bool.and_eq_true, decide_eq_true_eq, decide_eq_true_eq]
        exact ⟨is_method, is_hash⟩
      have own : row.receipt.runId = some run := by rw [is_receipt]; rfl
      rw [retry.eq_def]
      dsimp only
      rw [known, require_true, ok_bind, own, decide_eq_true rfl, require_true, ok_bind]
      cases mutation with
      | acceptHistory input selection =>
        rw [Session.Request.Retriable, ← committed.historySelection_iff collision member answers]
        dsimp only
        cases historySelection db provenance.sessionId run with
        | error kind => constructor <;> (intro done; cases done)
        | ok selected =>
          rw [ok_bind, Except.ok.injEq]
          by_cases same : selected = some selection
          · rw [decide_eq_true same]
            exact iff_of_true rfl same
          · rw [decide_eq_false same]
            refine iff_of_false (fun done => ?_) same
            cases done
      | _ => exact iff_of_true rfl trivial
    rw [mutateTx, read, ← retried]
    change check (retry db provenance.sessionId run mutation _) >>= _ = _ ↔ _
    cases retry db provenance.sessionId run mutation ⟨row.method, row.payloadHash, row.receipt⟩ with
    | error kind => constructor <;> (intro done; cases done)
    | ok receipt =>
      constructor
      · intro done
        cases done
        rfl
      · intro same
        cases same
        rfl

theorem Committed.transaction_conflict (committed : Committed provenance db) (member : row ∈ db.commands)
    (same : row.operationId = request.operation)
    (other : ¬(row.method = request.method ∧ row.payloadHash = request.payloadHash provenance.sessionId)) :
    Session.transaction process provenance db request = .error (.canonical .commandConflict) := by
  have read := committed.command member
  rw [same] at read
  have differs : (decide (row.method = request.method) &&
      decide (row.payloadHash = request.payloadHash provenance.sessionId)) = false := by
    rw [← Bool.not_eq_true, Bool.and_eq_true, decide_eq_true_eq, decide_eq_true_eq]
    exact other
  cases request with
  | rename operation title =>
    change renameTx process.env db provenance operation title = _
    change Session.command db provenance.sessionId operation = _ at read
    rw [renameTx, read]
    change check (require (decide (row.method = .rename) && decide (row.payloadHash = digest (.rename _ title))) _) >>= _ = _
    change (decide (row.method = .rename) && decide (row.payloadHash = digest (.rename _ title))) = false at differs
    rw [differs]
    rfl
  | record operation run mutation =>
    change mutateTx process.env db provenance process.instanceId operation run mutation = _
    change Session.command db provenance.sessionId operation = _ at read
    have rejected : retry db provenance.sessionId run mutation ⟨row.method, row.payloadHash, row.receipt⟩ =
        .error .commandConflict := by
      change (decide (row.method = mutation.method) && decide (row.payloadHash = commandHash _ run mutation)) = false at differs
      rw [retry.eq_def]
      dsimp only
      rw [differs]
      rfl
    rw [mutateTx, read]
    change check (retry db provenance.sessionId run mutation _) >>= _ = _
    rw [rejected]
    rfl

theorem Committed.again (committed : Committed provenance db) (collision : CollisionFree) (member : row ∈ db.commands)
    (answers : row.Answers provenance.sessionId db.events request) :
    Session.execute process provenance db request = (db, .ok (row.receipt, true)) ↔ request.Retriable db := by
  rw [committed.execute_eq collision, ← committed.transaction_again collision member answers]
  cases Session.transaction process provenance db request with
  | error fault => exact iff_of_false nofun nofun
  | ok value =>
    obtain ⟨next, receipt, again⟩ := value
    simp [finishTransaction]

theorem Committed.conflict (committed : Committed provenance db) (collision : CollisionFree) (member : row ∈ db.commands)
    (answers : row.Answers provenance.sessionId db.events request) {other : Session.Request}
    (same : other.operation = request.operation) (different : other ≠ request) :
    Session.execute process provenance db other = (db, .error ⟨.commandConflict, .notCommitted⟩) := by
  obtain ⟨is_operation, -, is_hash, -⟩ := answers.columns
  rw [committed.execute_eq collision, committed.transaction_conflict member (is_operation.trans same.symm)]
  · rfl
  · rintro ⟨-, hash⟩
    exact different (Session.Request.eq_of_hash collision same (hash.symm.trans is_hash))

end Repeating

end Wi
