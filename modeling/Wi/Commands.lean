import Wi.LogFacts
import Wi.Session

/-! The commands of a session: what each one answers, and how their ranges divide the log. -/
namespace Wi
open RunStore Writer
variable [JsonHash]

namespace Session

def Request.method : Request → Method
  | .record _ _ mutation => mutation.method
  | .rename .. => .rename

def Request.payloadHash (id : ApplicationSessionId) : Request → Digest
  | .record _ run mutation => commandHash id run mutation
  | .rename _ title => digest (.rename id title)

def Request.run : Request → Option RunId
  | .record _ run _ => some run
  | .rename .. => none

end Session

/-- What the request of a command left in the log. -/
def CommandRow.Answers (id : ApplicationSessionId) (log : List StoredEvent) (row : CommandRow) : Session.Request → Prop
  | .record operation run mutation => row.operationId = operation ∧ row.method = mutation.method ∧
      row.payloadHash = commandHash id run mutation ∧
      row.receipt = ⟨operation, id, some run, row.firstSequence, row.lastSequence⟩ ∧
      ∀ input selection, mutation = .acceptHistory input selection → row.lastSequence = row.firstSequence + 1 ∧
        ∃ event ∈ log, event.sequence = row.lastSequence ∧ event.payload = .runHistorySelected run selection ∧
          ∃ accepted ∈ log, accepted.sequence = row.firstSequence ∧
            ∃ owner, accepted.payload = .runAccepted run input owner
  | .rename operation title => row.operationId = operation ∧ row.method = .rename ∧
      row.payloadHash = digest (.rename id title) ∧
      row.receipt = ⟨operation, id, none, row.firstSequence, row.lastSequence⟩ ∧ row.firstSequence = row.lastSequence

/-- The commands of a log: each answers a request, and their ranges cover every event but
the first one and the interruptions. -/
structure Commands (id : ApplicationSessionId) (log : List StoredEvent) (commands : List CommandRow) : Prop where
  answers : ∀ row ∈ commands, ∃ request, row.Answers id log request
  operations : (commands.map CommandRow.operationId).Nodup
  ranged : ∀ row ∈ commands, 1 < row.firstSequence ∧ row.firstSequence ≤ row.lastSequence ∧ row.lastSequence ≤ log.length
  apart : commands.Pairwise fun a b => a.lastSequence < b.firstSequence
  covered : ∀ event ∈ log, 1 < event.sequence → (isInterrupted event.payload = false ↔
    ∃ row ∈ commands, row.firstSequence ≤ event.sequence ∧ event.sequence ≤ row.lastSequence)

section Covering
variable {provenance : CreationProvenance} {id : ApplicationSessionId} {log added : List StoredEvent} {event : StoredEvent}
variable {commands : List CommandRow} {row : CommandRow} {request : Session.Request}

theorem CommandRow.Answers.mono (answers : row.Answers id log request) (grown : log ⊆ later) : row.Answers id later request := by
  cases request with
  | rename => exact answers
  | record =>
    obtain ⟨operation, method, hash, receipt, selects⟩ := answers
    refine ⟨operation, method, hash, receipt, fun input selection is_history => ?_⟩
    obtain ⟨adjacent, event, member, numbered, is_selection, accepted, accepted_member, rest⟩ := selects input selection is_history
    exact ⟨adjacent, event, grown member, numbered, is_selection, accepted, grown accepted_member, rest⟩

theorem Commands.add (holds : Commands id log commands) (lawful : Lawful provenance log)
    (grown : Lawful provenance (log ++ added)) (own : ∀ event ∈ added, isInterrupted event.payload = false)
    (started : added ≠ []) (first : row.firstSequence = log.length + 1) (last : row.lastSequence = log.length + added.length)
    (answers : row.Answers id (log ++ added) request) (fresh : row.operationId ∉ commands.map CommandRow.operationId) :
    Commands id (log ++ added) (commands ++ [row]) where
  answers := by
    intro other member
    rcases List.mem_append.1 member with old | new
    · obtain ⟨request, answers⟩ := holds.answers other old
      exact ⟨request, answers.mono (List.subset_append_left _ _)⟩
    · rw [List.mem_singleton.1 new]
      exact ⟨request, answers⟩
  operations := by
    rw [List.map_append, List.map_singleton, ← List.concat_eq_append, List.nodup_concat]
    exact ⟨fresh, holds.operations⟩
  ranged := by
    have some_event := List.length_pos_iff.2 started
    have some_old := List.length_pos_iff.2 lawful.ne_nil
    intro other member
    rw [List.length_append]
    rcases List.mem_append.1 member with old | new
    · have := holds.ranged other old
      omega
    · rw [List.mem_singleton.1 new]
      omega
  apart := by
    rw [List.pairwise_append]
    refine ⟨holds.apart, List.pairwise_singleton _ _, fun other member new is_new => ?_⟩
    have := holds.ranged other member
    rw [List.mem_singleton.1 is_new, first]
    omega
  covered := by
    intro event member later
    have bound := (grown.mem_sequence member).2
    rw [List.length_append] at bound
    simp only [List.mem_append, List.mem_singleton, or_and_right, exists_or, exists_eq_left]
    rcases List.mem_append.1 member with old | new
    · have old_bound := (lawful.mem_sequence old).2
      rw [holds.covered event old later, first]
      refine ⟨.inl, fun either => either.resolve_right fun both => ?_⟩
      omega
    · refine ⟨fun _ => .inr ?_, fun _ => own event new⟩
      have := lawful.above grown new
      omega

theorem Commands.interrupted (holds : Commands id log commands) (lawful : Lawful provenance log)
    (grown : Lawful provenance (log ++ [event])) (ends : isInterrupted event.payload = true) :
    Commands id (log ++ [event]) commands where
  answers := fun other member => by
    obtain ⟨request, answers⟩ := holds.answers other member
    exact ⟨request, answers.mono (List.subset_append_left _ _)⟩
  operations := holds.operations
  ranged := fun other member => by
    have := holds.ranged other member
    rw [List.length_append]
    omega
  apart := holds.apart
  covered := by
    intro other member later
    rcases List.mem_append.1 member with old | new
    · exact holds.covered other old later
    · have above := lawful.above grown new
      rw [List.mem_singleton.1 new, ends] at *
      refine ⟨nofun, fun ⟨row, row_member, covers⟩ => ?_⟩
      have := holds.ranged row row_member
      omega

end Covering

section Rows
variable {id : ApplicationSessionId} {log : List StoredEvent} {commands : List CommandRow} {row : CommandRow}
variable {request : Session.Request} {operation : OperationId}

theorem CommandRow.Answers.columns (answers : row.Answers id log request) :
    row.operationId = request.operation ∧ row.method = request.method ∧ row.payloadHash = request.payloadHash id ∧
      row.receipt = ⟨row.operationId, id, request.run, row.firstSequence, row.lastSequence⟩ := by
  cases request with
  | record =>
    obtain ⟨rfl, method, hash, receipt, -⟩ := answers
    exact ⟨rfl, method, hash, receipt⟩
  | rename =>
    obtain ⟨rfl, method, hash, receipt, -⟩ := answers
    exact ⟨rfl, method, hash, receipt⟩

theorem Session.Request.eq_of_hash (collision : CollisionFree) {id : ApplicationSessionId} {other : Session.Request}
    (operation : request.operation = other.operation) (hash : request.payloadHash id = other.payloadHash id) :
    request = other := by
  cases request <;> cases other <;> cases operation <;> cases collision hash <;> rfl

theorem Commands.find
    (holds : Commands id log commands) : commands.find? (fun row => row.operationId = operation) = some row ↔
      row ∈ commands ∧ row.operationId = operation := Keyed.find_eq_some holds.operations

theorem Commands.disjoint
    (holds : Commands id log commands) {other : CommandRow} (member : row ∈ commands) (other_member : other ∈ commands)
    (different : row ≠ other) : row.lastSequence < other.firstSequence ∨ other.lastSequence < row.firstSequence := by
  have symmetric : Std.Symm fun a b : CommandRow => a.lastSequence < b.firstSequence ∨ b.lastSequence < a.firstSequence :=
    ⟨fun _ _ => Or.symm⟩
  have either : commands.Pairwise fun a b => a.lastSequence < b.firstSequence ∨ b.lastSequence < a.firstSequence :=
    holds.apart.imp .inl
  exact either.forall member other_member different

end Rows

end Wi
