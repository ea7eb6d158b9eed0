import Wi.Logs
import Wi.Ensures

/-! Databases that carry a lawful log, and the acceptance of runs. -/
namespace Wi
open RunStore Writer
variable [JsonHash]

/-- The tables are those of a lawful log. -/
structure Recorded (provenance : CreationProvenance) (db : Db) : Prop where
  lawful : Lawful provenance db.events
  runs : db.runs = (Ledger.ofLog db.events).runs
  tools : db.tools = (Ledger.ofLog db.events).tools
  conversation : Projector.replay db.events = .ok db.conversation

section Recording
variable {provenance : CreationProvenance} {db after : Db} {event : StoredEvent}

theorem Recorded.represents (recorded : Recorded provenance db) (collision : CollisionFree) :
    Represents db.conversation (Display.ofLog db.events) := by
  obtain ⟨sql, done, represents⟩ := recorded.lawful.replay collision
  cases done.symm.trans recorded.conversation
  exact represents

theorem Recorded.project (recorded : Recorded provenance db) (collision : CollisionFree)
    (follows : Follows db.events provenance.sessionId event) :
    ∃ conversation, Projector.apply db.conversation event.shown = .ok conversation := by
  obtain ⟨next, done, -⟩ := recorded.lawful.project collision (recorded.represents collision) follows
  exact ⟨next, done⟩

theorem Recorded.next (recorded : Recorded provenance db) (follows : Follows db.events provenance.sessionId event)
    (events : after.events = db.events ++ [event]) (runs : after.runs = ((Ledger.ofLog db.events).apply event).runs)
    (tools : after.tools = ((Ledger.ofLog db.events).apply event).tools)
    (conversation : Projector.apply db.conversation event.shown = .ok after.conversation) : Recorded provenance after where
  lawful := by
    rw [events]
    exact recorded.lawful.follows follows
  runs := by rw [events, Ledger.ofLog_append, runs]
  tools := by rw [events, Ledger.ofLog_append, tools]
  conversation := by rw [events, Projector.replay_append, recorded.conversation, ok_bind, conversation]

theorem insertEvent_eq_ok {events result : List StoredEvent} (done : insertEvent events event = .ok result) :
    result = events ++ [event] ∧ eventsWeight (events ++ [event]) ≤ databaseLimit := by
  rw [insertEvent] at done
  obtain ⟨_, -, done⟩ := bind_eq_ok.1 done
  obtain ⟨_, room, done⟩ := bind_eq_ok.1 done
  cases done
  exact ⟨rfl, of_decide_eq_true (require_eq_ok.1 room)⟩

theorem Recorded.run_eq (recorded : Recorded provenance db) (run : RunId) :
    db.runs.find? (fun row => row.runId = run) = (Ledger.ofLog db.events).run run := by
  rw [recorded.runs]
  rfl

theorem Recorded.valid (recorded : Recorded provenance db) (numbered : event.sequence = db.events.length + 1)
    (fits : event.sequence ≤ maxInteger) (later : History.isCreated event.payload = false)
    (valid : History.payloadValid provenance.sessionId event = .ok ()) (sourced : History.sourceValid event = true) :
    History.valid provenance.sessionId event = .ok () := by
  have positive : db.events.length ≠ 0 := fun empty => recorded.lawful.ne_nil (List.length_eq_zero_iff.1 empty)
  rw [valid_eq_ok]
  refine ⟨by omega, fits, ?_, valid, sourced⟩
  rw [later, beq_eq_false_iff_ne]
  omega

end Recording

section Accepting
variable {provenance : CreationProvenance} {db : Db} {env : Env} {owner : StoredEventId} {run : RunId}
variable {first timestamp : Nat} {input : RecordedRunInput}

def acceptance (env : Env) (owner : StoredEventId) (run : RunId) (first timestamp : Nat) (input : RecordedRunInput) :
    StoredEvent := ⟨first, env.eventId first, timestamp, some run, none, none, .runAccepted run input owner⟩

theorem Recorded.acceptRun (recorded : Recorded provenance db) (collision : CollisionFree)
    (numbered : first = db.events.length + 1) (fits : first ≤ maxInteger) :
    Ensures (acceptRun env db owner run first timestamp input) fun next =>
      Recorded provenance next ∧ next.events = db.events ++ [acceptance env owner run first timestamp input] ∧
        next.manifest = db.manifest ∧ next.commands = db.commands := by
  rw [Writer.acceptRun]
  refine Ensures.check_bind fun _ unknown => Ensures.check_bind fun _ inactive => Ensures.check_bind fun events inserted =>
    Ensures.check_bind fun middle added => ?_
  have unknown : (Ledger.ofLog db.events).run run = none := by
    rw [require_eq_ok, Bool.not_eq_true'] at unknown
    rw [← recorded.run_eq, List.find?_eq_none]
    intro row member
    have := List.any_eq_false.1 unknown row member
    simpa using this
  have inactive : ∀ row ∈ (Ledger.ofLog db.events).runs, active row.state = false := by
    rw [require_eq_ok, Bool.not_eq_true'] at inactive
    intro row member
    rw [← recorded.runs] at member
    have := List.any_eq_false.1 inactive row member
    simpa using this
  obtain ⟨rfl, room⟩ := insertEvent_eq_ok inserted
  have follows : Follows db.events provenance.sessionId (acceptance env owner run first timestamp input) :=
    ⟨numbered, recorded.valid numbered fits rfl (require_eq_ok.2 (decide_eq_true rfl)) rfl, room, unknown, inactive⟩
  have added : middle = { db with
      events := db.events ++ [acceptance env owner run first timestamp input]
      runs := db.runs ++ [RunRow.opened run first owner] } := by
    rw [insertRun] at added
    obtain ⟨_, -, added⟩ := bind_eq_ok.1 added
    cases added
    rfl
  subst added
  obtain ⟨conversation, projected⟩ := recorded.project collision follows
  refine Ensures.project_bind projected ?_
  refine ⟨recorded.next follows rfl ?_ ?_ projected, rfl, rfl, rfl⟩
  · exact congrArg (· ++ [RunRow.opened run first owner]) recorded.runs
  · exact recorded.tools

theorem Recorded.selectHistory (recorded : Recorded provenance db) (collision : CollisionFree) {last : Nat}
    (numbered : last = db.events.length + 1) (fits : last ≤ maxInteger) {accepted : StoredEvent}
    (latest : db.events.getLast? = some accepted) (is_acceptance : accepted.payload = .runAccepted run input owner)
    (known : ∃ row, (Ledger.ofLog db.events).run run = some row) {selection : StoredHistorySelection}
    (matching : selection.matchesInput input = true) (through : selection.throughSequence + 2 = last) :
    Ensures (selectHistory env db run last timestamp selection) fun next =>
      Recorded provenance next ∧ next.events = db.events ++ [⟨last, env.eventId last, timestamp, some run, none, none,
        .runHistorySelected run selection⟩] ∧ next.manifest = db.manifest ∧ next.commands = db.commands := by
  rw [Writer.selectHistory]
  refine Ensures.check_bind fun events inserted => ?_
  obtain ⟨rfl, room⟩ := insertEvent_eq_ok inserted
  have follows : Follows db.events provenance.sessionId ⟨last, env.eventId last, timestamp, some run, none, none,
      .runHistorySelected run selection⟩ := by
    refine ⟨numbered, recorded.valid numbered fits rfl ?_ rfl, room, known, accepted, input, owner, latest,
      is_acceptance, matching⟩
    exact require_eq_ok.2 (by simp [through])
  obtain ⟨conversation, projected⟩ := recorded.project collision follows
  refine Ensures.project_bind projected ?_
  exact ⟨recorded.next follows rfl recorded.runs recorded.tools projected, rfl, rfl, rfl⟩

end Accepting
end Wi
