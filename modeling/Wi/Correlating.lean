import Wi.RunReading

/-! The correlation of runtime events with the turn that the log leaves open. -/
namespace Wi
open RunStore Writer
variable [JsonHash]

section Correlating
variable {log : List StoredEvent} {run : RecordedRun} {state next : Correlation} {envelope : RunEventEnvelope} {before : Nat}

theorem toolResult_eq_ok {db : Db} {id : ApplicationSessionId} {run : RunId} {callId : Text} {result : Option ToolRow}
    (read : toolResult db id run callId = .ok result) :
    result = db.tools.find? fun row => row.runId = run && row.callId = callId := by
  rw [toolResult] at read
  cases found : db.tools.find? fun row => row.runId = run && row.callId = callId with
  | none =>
    rw [found] at read
    exact (Except.ok.inj read).symm
  | some row =>
    rw [found] at read
    dsimp only at read
    -- Every branch that succeeds returns the row it started from.
    repeat' first
      | obtain ⟨_, -, read⟩ := bind_eq_ok.1 read
      | split at read
    all_goals exact (Except.ok.inj read).symm

theorem turnKnown_of_started {run : RunId} {turn : Text} (started : StartedTurn log run (some turn))
    (earlier : ∀ event ∈ log, event.sequence < before) : Correlation.turnKnown log run before (some turn) = true := by
  obtain ⟨envelope, member, starts, same⟩ := started
  obtain ⟨event, event_member, is_runtime⟩ := List.mem_filterMap.1 member
  obtain ⟨is_payload, own⟩ := StoredEvent.runtime_eq_some.1 is_runtime
  rw [Correlation.turnKnown, List.any_eq_true]
  exact ⟨event, event_member, by simp [own, earlier event event_member, is_payload, starts, same]⟩

/-- What a correlated event says of the run's state and turn. -/
structure Correlated (log : List StoredEvent) (run : RecordedRun) (envelope : RunEventEnvelope) (next : Correlation) :
    Prop where
  own : envelope.runId = run.runId.text
  allowed : match envelope.event with
    | .runStarted => run.state = .accepted
    | .turnStarted _ => run.state = .running ∧ openTurn log run.runId = none ∧
        ¬StartedTurn log run.runId envelope.turnId
    | .runFinished .. => run.state = .running
    | _ => run.state = .running ∧ openTurn log run.runId = envelope.turnId
  turn : next.turn.map Prod.fst = turnAfter (openTurn log run.runId) envelope

theorem Correlation.observeInTurn_ok (observed : state.observeInTurn run envelope = .ok next) :
    ∃ turn number, state.turn = some (turn, number) ∧ envelope.turnId = some turn ∧
      match envelope.event with
      | .turnFinished .. => next.turn = none
      | _ => next.turn = state.turn := by
  rw [Correlation.observeInTurn] at observed
  obtain ⟨⟨turn, number⟩, is_turn, observed⟩ := bind_eq_ok.1 observed
  obtain ⟨_, in_turn, observed⟩ := bind_eq_ok.1 observed
  rw [present_eq_ok] at is_turn
  rw [require_eq_ok, Bool.and_eq_true] at in_turn
  refine ⟨turn, number, is_turn, of_decide_eq_true in_turn.1, ?_⟩
  cases is_event : envelope.event with
  | providerEvent provider | turnFinished =>
    rw [is_event] at observed
    obtain ⟨_, -, observed⟩ := bind_eq_ok.1 observed
    cases observed
    rfl
  | _ =>
    rw [is_event] at observed
    cases observed
    rfl

theorem Correlation.observe_ok (observed : state.observe log run envelope before = .ok next)
    (earlier : ∀ event ∈ log, event.sequence < before)
    (turn : active run.state = true → state.turn.map Prod.fst = openTurn log run.runId)
    (unstarted : run.state = .accepted → openTurn log run.runId = none) : Correlated log run envelope next := by
  rw [Correlation.observe] at observed
  obtain ⟨_, own, observed⟩ := bind_eq_ok.1 observed
  obtain ⟨_, -, observed⟩ := bind_eq_ok.1 observed
  obtain ⟨_, allowed, observed⟩ := bind_eq_ok.1 observed
  obtain ⟨_, -, observed⟩ := bind_eq_ok.1 observed
  rw [require_eq_ok] at own allowed
  have inside (running : run.state = .running) {after : Correlation} (in_turn : state.observeInTurn run envelope = .ok after) :
      ∃ text, envelope.turnId = some text ∧ openTurn log run.runId = some text ∧
        match envelope.event with
        | .turnFinished .. => after.turn = none
        | _ => after.turn.map Prod.fst = some text := by
    obtain ⟨text, number, is_turn, named, kept⟩ := Correlation.observeInTurn_ok in_turn
    have is_open := turn (by rw [running]; rfl)
    rw [is_turn, Option.map_some] at is_open
    refine ⟨text, named, is_open.symm, ?_⟩
    cases is_event : envelope.event <;> rw [is_event] at kept <;> first | exact kept | simp only [kept, is_turn, Option.map_some]
  refine ⟨of_decide_eq_true own, ?_, ?_⟩
  · cases is_event : envelope.event with
    | runStarted =>
      rw [is_event] at allowed
      exact of_decide_eq_true allowed
    | turnStarted number =>
      rw [is_event] at allowed observed
      have running : run.state = .running := of_decide_eq_true allowed
      obtain ⟨_, unknown, observed⟩ := bind_eq_ok.1 observed
      obtain ⟨text, named, -⟩ := bind_eq_ok.1 observed
      rw [require_eq_ok, Bool.and_eq_true, Bool.not_eq_true'] at unknown
      rw [present_eq_ok] at named
      refine ⟨running, ?_, fun started => ?_⟩
      · rw [← turn (by rw [running]; rfl), Option.isNone_iff_eq_none.1 unknown.1]
        rfl
      · rw [named] at started
        rw [named, turnKnown_of_started started earlier] at unknown
        cases unknown.2
    | runFinished =>
      rw [is_event] at allowed
      exact of_decide_eq_true allowed
    | providerEvent | toolEvent | turnFinished =>
      rw [is_event] at allowed observed
      have running : run.state = .running := of_decide_eq_true allowed
      obtain ⟨after, in_turn, -⟩ := bind_eq_ok.1 observed
      obtain ⟨text, named, is_open, -⟩ := inside running in_turn
      exact ⟨running, is_open.trans named.symm⟩
  · cases is_event : envelope.event with
    | runStarted =>
      rw [is_event] at allowed observed
      have accepted : run.state = .accepted := of_decide_eq_true allowed
      cases observed
      simp only [turnAfter, is_event]
      rw [turn (by rw [accepted]; rfl), unstarted accepted]
    | turnStarted number =>
      rw [is_event] at observed
      obtain ⟨_, -, observed⟩ := bind_eq_ok.1 observed
      obtain ⟨text, named, observed⟩ := bind_eq_ok.1 observed
      rw [present_eq_ok] at named
      cases observed
      simp only [turnAfter, is_event, named, Option.map_some]
    | runFinished =>
      rw [is_event] at observed
      obtain ⟨_, closed, observed⟩ := bind_eq_ok.1 observed
      rw [require_eq_ok, Bool.and_eq_true] at closed
      cases observed
      simp only [turnAfter, is_event]
      rw [Option.isNone_iff_eq_none.1 closed.1]
      rfl
    | providerEvent | toolEvent | turnFinished =>
      rw [is_event] at allowed observed
      obtain ⟨after, in_turn, observed⟩ := bind_eq_ok.1 observed
      obtain ⟨text, -, is_open, kept⟩ := inside (of_decide_eq_true allowed) in_turn
      rw [is_event] at kept
      cases observed
      simp only [turnAfter, is_event, is_open, kept, Option.map_none]

end Correlating

section Loading
variable {provenance : CreationProvenance} {log : List StoredEvent} {event : StoredEvent} {db : Db} {run : RunId} {row : RunRow}

theorem Lawful.latest_turn (lawful : Lawful provenance log) {latest : RunEventEnvelope}
    (is_latest : (runtimes run log).getLast? = some latest) :
    openTurn log run = if Correlation.endsTurn latest.event then none else latest.turnId := by
  induction lawful with
  | created => cases is_latest
  | @follows log event lawful follows ih =>
    rw [runtimes_append] at is_latest
    cases is_runtime : event.runtime run with
    | none =>
      rw [is_runtime, Option.toList_none, List.append_nil] at is_latest
      rw [openTurn_other is_runtime, ih is_latest]
    | some envelope =>
      rw [is_runtime, Option.toList_some, List.getLast?_concat, Option.some.injEq] at is_latest
      subst is_latest
      obtain ⟨is_payload, of_run⟩ := StoredEvent.runtime_eq_some.1 is_runtime
      have allowed := follows.allowed
      rw [of_run, is_payload] at allowed
      obtain ⟨row, -, allows⟩ := allowed
      rw [AllowsRuntime.eq_def] at allows
      rw [openTurn_runtime is_runtime]
      cases is_event : envelope.event with
      | runStarted | turnStarted | turnFinished | runFinished => simp [turnAfter, is_event, Correlation.endsTurn]
      | providerEvent =>
        rw [is_event] at allows
        simp [turnAfter, is_event, Correlation.endsTurn, allows.2]
      | toolEvent =>
        rw [is_event] at allows
        simp [turnAfter, is_event, Correlation.endsTurn, allows.2.1]

theorem RunRow.observed_runtime (sequence : Nat) (envelope : RunEventEnvelope) (row : RunRow) :
    (RunRow.observed sequence envelope row).lastRuntimeSequence = envelope.sequence := by
  rw [RunRow.observed.eq_def]
  split <;> rfl

theorem RunRow.concluded_runtime (sequence : Nat) (result : RunResult) (row : RunRow) :
    (RunRow.concluded sequence result row).lastRuntimeSequence = row.lastRuntimeSequence := by
  rw [RunRow.concluded]
  split <;> rfl

theorem StoredEvent.runtime_of_payload {run : RunId} (other : ∀ envelope, event.payload ≠ .runtimeObserved envelope) :
    event.runtime run = none := by
  cases is_runtime : event.runtime run with
  | none => rfl
  | some envelope => exact absurd (StoredEvent.runtime_eq_some.1 is_runtime).1 (other envelope)

/-- The runtime sequence of a row after an event. -/
def RunRow.Continues (event : StoredEvent) (old row : RunRow) : Prop :=
  old.runId = row.runId ∧ row.lastRuntimeSequence = match event.runtime row.runId with
    | some envelope => envelope.sequence
    | none => old.lastRuntimeSequence

theorem RunRow.Continues.quiet {old : RunRow} (named : old.runId = row.runId) (quiet : event.runtime row.runId = none)
    (same : row.lastRuntimeSequence = old.lastRuntimeSequence) : RunRow.Continues event old row := by
  refine ⟨named, ?_⟩
  rw [quiet]
  exact same

theorem Ledger.mem_updateRun {ledger : Ledger} {set : RunRow → RunRow} (member : row ∈ (ledger.updateRun run set).runs)
    (own : event.runId = some run)
    (continues : ∀ old ∈ ledger.runs, old.runId = run → RunRow.Continues event old (set old)) :
    ∃ old ∈ ledger.runs, RunRow.Continues event old row := by
  rcases Table.mem_update.1 member with ⟨old, old_member, selected, rfl⟩ | ⟨kept, other⟩
  · exact ⟨old, old_member, continues old old_member (of_decide_eq_true selected)⟩
  · refine ⟨row, kept, .quiet rfl (StoredEvent.runtime_of_other fun same => ?_) rfl⟩
    exact of_decide_eq_false other (Option.some.inj (same.symm.trans own))

theorem Ledger.mem_apply {ledger : Ledger} (member : row ∈ (ledger.apply event).runs) :
    (∃ old ∈ ledger.runs, RunRow.Continues event old row) ∨
      ∃ input owner accepted, event.payload = .runAccepted accepted input owner ∧ event.runId = some row.runId ∧
        row.state = .accepted := by
  have kept (quiet : event.runtime row.runId = none) (member : row ∈ ledger.runs) :
      ∃ old ∈ ledger.runs, RunRow.Continues event old row := ⟨row, member, .quiet rfl quiet rfl⟩
  rw [Ledger.apply] at member
  cases of_run : event.runId with
  | none =>
    rw [of_run] at member
    exact .inl (kept (StoredEvent.runtime_of_other (by rw [of_run]; simp)) member)
  | some run =>
    rw [of_run] at member
    cases is_payload : event.payload with
    | sessionCreated | sessionRenamed | runHistorySelected | toolResultRecorded =>
      rw [is_payload] at member
      exact .inl (kept (StoredEvent.runtime_of_payload (by simp [is_payload])) member)
    | runAccepted accepted input owner =>
      rw [is_payload] at member
      rcases List.mem_append.1 member with old | last
      · exact .inl (kept (StoredEvent.runtime_of_payload (by simp [is_payload])) old)
      · rw [List.mem_singleton.1 last]
        exact .inr ⟨input, owner, accepted, rfl, rfl, rfl⟩
    | runProviderBound binding =>
      rw [is_payload] at member
      exact .inl (Ledger.mem_updateRun member of_run fun old _ _ =>
        .quiet rfl (StoredEvent.runtime_of_payload (by simp [is_payload])) rfl)
    | runtimeObserved envelope =>
      rw [is_payload] at member
      change row ∈ (ledger.observe run event.sequence envelope).runs at member
      rw [Ledger.runs_observe] at member
      refine .inl (Ledger.mem_updateRun member of_run fun old _ named => ⟨(RunRow.observed_runId _ _ old).symm, ?_⟩)
      have is_runtime : event.runtime run = some envelope := StoredEvent.runtime_eq_some.2 ⟨is_payload, of_run⟩
      rw [RunRow.observed_runId, named, is_runtime]
      exact RunRow.observed_runtime _ _ old
    | runResultRecorded result =>
      rw [is_payload] at member
      exact .inl (Ledger.mem_updateRun member of_run fun old _ _ => .quiet (RunRow.concluded_runId _ _ old).symm
        (StoredEvent.runtime_of_payload (by simp [is_payload])) (RunRow.concluded_runtime _ _ old))
    | runInterrupted =>
      rw [is_payload] at member
      exact .inl (Ledger.mem_updateRun member of_run fun old _ _ =>
        .quiet rfl (StoredEvent.runtime_of_payload (by simp [is_payload])) rfl)

theorem Lawful.no_runtime (lawful : Lawful provenance log) (member : row ∈ (Ledger.ofLog log).runs)
    (none_yet : row.lastRuntimeSequence = 0) : runtimes row.runId log = [] := by
  induction lawful generalizing row with
  | created => rfl
  | @follows log event lawful follows ih =>
    rw [Ledger.ofLog_append] at member
    rw [runtimes_append]
    rcases Ledger.mem_apply member with ⟨old, old_member, named, same⟩ | ⟨input, owner, accepted, is_payload, own, -⟩
    · cases is_runtime : event.runtime row.runId with
      | none =>
        rw [is_runtime] at same
        rw [← named, ih old_member (same.symm.trans none_yet)]
        rfl
      | some envelope =>
        have valid := validateRuntime_ok (follows.runtime (StoredEvent.runtime_eq_some.1 is_runtime).1).1
        rw [is_runtime] at same
        exact absurd (same.symm.trans none_yet) valid.2.2.1
    · have allowed := follows.allowed
      rw [own, is_payload] at allowed
      have unobserved : runtimes row.runId log = [] := lawful.unobserved fun old found => by
        rw [allowed.1] at found
        cases found
      rw [unobserved, StoredEvent.runtime_of_payload (by simp [is_payload])]
      rfl

omit [JsonHash] in
theorem filterMap_getLast {α β : Type} (f : α → Option β) (items : List α) :
    (items.filterMap f).getLast? = ((items.filter fun item => (f item).isSome).getLast?).bind f := by
  induction items using List.reverseRecOn with
  | nil => rfl
  | append_singleton items last ih =>
    rw [List.filterMap_append, List.filter_append]
    cases is_some : f last with
    | none => simp [is_some, ih]
    | some value => simp [is_some]

theorem StoredEventPayload.shape_runtime {payload : StoredEventPayload} {envelope : RunEventEnvelope}
    (same : payload.shape = .runtimeObserved envelope) : ∃ value, value.shape = envelope ∧ payload = .runtimeObserved value := by
  cases payload <;> simp_all [StoredEventPayload.shape]

theorem Lawful.latest_runtime (lawful : Lawful provenance db.events) {latest : RunEventEnvelope}
    (read : latestRuntime db provenance.sessionId run (fun _ => true) = .ok (some latest)) :
    ∃ written, (runtimes run db.events).getLast? = some written ∧ latest.shape = written.shape := by
  have filtered {selected : StoredEvent → Bool} (selects : ∀ event, selected event = (event.runtime run).isSome) :
      db.events.filter selected = db.events.filter fun event => (event.runtime run).isSome :=
    List.filter_congr fun event _ => selects event
  have sorted : Table.orderByDesc StoredEvent.sequence (db.events.filter fun event => (event.runtime run).isSome) =
      (db.events.filter fun event => (event.runtime run).isSome).reverse :=
    Table.orderByDesc_eq (List.Perm.refl _) (lawful.ascending.sublist List.filter_sublist)
  rw [latestRuntime, filtered, sorted, List.head?_reverse] at read
  swap
  · intro event
    cases is_payload : event.payload with
    | runtimeObserved envelope => by_cases own : event.runId = some run <;> simp [StoredEvent.runtime, is_payload, own]
    | _ => simp [StoredEvent.runtime, is_payload]
  rw [runtimes, filterMap_getLast]
  cases is_last : (db.events.filter fun event => (event.runtime run).isSome).getLast? with
  | none =>
    rw [is_last] at read
    cases read
  | some event =>
    have member := List.mem_filter.1 (List.mem_of_getLast? is_last)
    obtain ⟨written, is_runtime⟩ := Option.isSome_iff_exists.1 member.2
    refine ⟨written, is_runtime, ?_⟩
    rw [is_last] at read
    dsimp only at read
    rw [lawful.decode_eq member.1] at read
    obtain ⟨parsed, is_parsed, read⟩ := bind_eq_ok.1 read
    have shape := StoredEvent.payload_shape_read (present_eq_ok.1 is_parsed)
    rw [(StoredEvent.runtime_eq_some.1 is_runtime).1] at shape
    obtain ⟨value, is_shape, is_value⟩ := StoredEventPayload.shape_runtime shape
    rw [is_value] at read
    cases read
    exact is_shape

omit [JsonHash] in
theorem endsTurn_shape (event : RunEvent) : Correlation.endsTurn event.shape = Correlation.endsTurn event := by
  cases event <;> rfl

theorem Recorded.load (recorded : Recorded provenance db) (member : row ∈ (Ledger.ofLog db.events).runs)
    {current : RecordedRun} (mirrors : Mirrors db.events row current) {correlation : Correlation}
    (loaded : Correlation.load db provenance.sessionId current = .ok correlation) :
    correlation.turn.map Prod.fst = openTurn db.events current.runId := by
  rw [Correlation.load] at loaded
  split at loaded
  · rename_i none_yet
    cases loaded
    rw [openTurn, mirrors.runId, recorded.lawful.no_runtime member (mirrors.runtime.symm.trans none_yet)]
    rfl
  · obtain ⟨latest, read, loaded⟩ := bind_eq_ok.1 loaded
    obtain ⟨latest, is_latest, loaded⟩ := bind_eq_ok.1 loaded
    obtain ⟨_, -, loaded⟩ := bind_eq_ok.1 loaded
    obtain ⟨turn, is_turn, loaded⟩ := bind_eq_ok.1 loaded
    rw [present_eq_ok] at is_latest
    rw [is_latest] at read
    obtain ⟨written, is_written, shape⟩ := recorded.lawful.latest_runtime read
    have known := recorded.lawful.latest_turn is_written
    have same_turn : latest.turnId = written.turnId := by
      change latest.shape.turnId = written.shape.turnId
      rw [shape]
    have same_end : Correlation.endsTurn latest.event = Correlation.endsTurn written.event := by
      rw [← endsTurn_shape, ← endsTurn_shape written.event]
      exact congrArg (fun envelope : RunEventEnvelope => Correlation.endsTurn envelope.event) shape
    have kept : correlation.turn = turn := by
      repeat' first
        | obtain ⟨_, -, loaded⟩ := bind_eq_ok.1 loaded
        | split at loaded
      all_goals cases loaded; rfl
    rw [kept, known, ← same_turn, ← same_end]
    rw [Correlation.loadTurn] at is_turn
    split at is_turn
    · rename_i ends
      cases is_turn
      rw [if_pos ends]
      rfl
    · rename_i going
      rw [if_neg going]
      obtain ⟨_, -, is_turn⟩ := bind_eq_ok.1 is_turn
      obtain ⟨started, -, is_turn⟩ := bind_eq_ok.1 is_turn
      split at is_turn
      · obtain ⟨_, same, is_turn⟩ := bind_eq_ok.1 is_turn
        obtain ⟨text, is_text, is_turn⟩ := bind_eq_ok.1 is_turn
        cases is_turn
        rw [present_eq_ok] at is_text
        rw [of_decide_eq_true (require_eq_ok.1 same), is_text]
        rfl
      · cases is_turn

end Loading

end Wi
