import Wi.LedgerSound

/-! The run and tool rows and the display, which different code derives from the same log,
agree: what the writer may record next the display can show, and both then agree again. -/
namespace Wi
open Rows Projector
variable [JsonHash]

/-- A block that shows a run row. While the run goes on, it also shows its open turn. -/
structure RunShown (log : List StoredEvent) (row : RunRow) (block : BlockRow) : Prop where
  run : block.runId = row.runId
  accepted : block.acceptedSequence = row.acceptedSequence
  state : block.header.state = row.state
  result : block.header.resultRecorded = row.resultSequence.isSome
  outcome : block.header.outcome = (row.terminal.bind StoredEventPayload.outcome).map fun ending => displayOutcome ending.1
  turn : active row.state = true → block.header.currentTurn = openTurn log row.runId

/-- An entry that shows a tool row. -/
structure ToolShown (log : List StoredEvent) (row : ToolRow) (item : Item) : Prop where
  run : item.run = row.runId
  source : item.source = .tool row.callId
  name : item.ShowsTool row.toolName
  request : item.metadata.requestId = row.requestId
  turn : StartedIn log row item.metadata.turnId
  finished : item.metadata.finishRecorded = some row.finishedSequence.isSome
  seen : ∀ sequence, row.finishedSequence = some sequence → sequence ≤ item.changed
  recorded : item.metadata.resultRecorded = some row.resultSequence.isSome
  error : item.metadata.isError = row.isError

/-- Tool rows and tool entries stand for the same calls, and responses for started turns. -/
structure EntriesShown (log : List StoredEvent) (tools : List ToolRow) (items : List Item) : Prop where
  rows : ∀ row ∈ tools, ∃ item ∈ items, ToolShown log row item
  calls : ∀ item ∈ items, ∀ callId, item.source = .tool callId → ∃ row ∈ tools, row.runId = item.run ∧ row.callId = callId
  turns : ∀ item ∈ items, ∀ turn, item.source = .assistant turn → StartedTurn log item.run (some turn)

/-- The display shows the rows that the same log leaves. -/
structure Linked (log : List StoredEvent) (ledger : Ledger) (display : Display) : Prop where
  runs : List.Forall₂ (RunShown log) ledger.runs display.blocks
  entries : EntriesShown log ledger.tools display.items

section Blocks
variable {log : List StoredEvent} {event : StoredEvent} {ledger : Ledger} {display : Display} {run : RunId}
variable {row : RunRow} {runs : List RunRow} {blocks : List BlockRow}

theorem RunShown.later {block : BlockRow} (shown : RunShown log row block)
    (turn : active row.state = true → openTurn (log ++ [event]) row.runId = openTurn log row.runId) :
    RunShown (log ++ [event]) row block :=
  { shown with turn := fun is_active => (shown.turn is_active).trans (turn is_active).symm }

theorem RunShown.find (shown : List.Forall₂ (RunShown log) runs blocks)
    (found : runs.find? (fun row => row.runId = run) = some row) :
    ∃ block, blocks.find? (fun block => block.runId = run) = some block ∧ RunShown log row block := by
  induction shown with
  | nil => cases found
  | @cons row block rows blocks first rest ih =>
    rw [List.find?_cons] at found ⊢
    rw [first.run]
    split at found
    · cases found
      exact ⟨block, rfl, first⟩
    · exact ih found

theorem RunShown.find_none (shown : List.Forall₂ (RunShown log) runs blocks)
    (missing : runs.find? (fun row => row.runId = run) = none) :
    blocks.find? (fun block => block.runId = run) = none := by
  induction shown with
  | nil => rfl
  | @cons row block rows blocks first rest ih =>
    rw [List.find?_cons] at missing ⊢
    rw [first.run]
    split at missing
    · cases missing
    · exact ih missing

theorem RunShown.update (shown : List.Forall₂ (RunShown log) runs blocks) {set : RunRow → RunRow}
    {head : BlockRow → BlockRow}
    (changed : ∀ row block, row ∈ runs → row.runId = run → RunShown log row block →
      RunShown (log ++ [event]) (set row) (head block))
    (others : ∀ other, other ≠ run → event.runId ≠ some other) :
    List.Forall₂ (RunShown (log ++ [event])) (Table.update (fun row => row.runId = run) set runs)
      (Table.update (fun block => block.runId = run) head blocks) := by
  induction shown with
  | nil => exact .nil
  | @cons row block rows blocks first rest ih =>
    rw [Table.update, Table.update, List.map_cons, List.map_cons]
    refine .cons ?_ (ih fun row block member => changed row block (List.mem_cons_of_mem _ member))
    rw [first.run]
    by_cases own : row.runId = run
    · simp only [own, decide_true, if_true]
      exact changed row block List.mem_cons_self own first
    · simp only [own, decide_false]
      exact first.later fun _ => openTurn_other (StoredEvent.runtime_of_other (others _ own))

theorem RunShown.keep (shown : List.Forall₂ (RunShown log) runs blocks)
    (quiet : ∀ run, event.runtime run = none) : List.Forall₂ (RunShown (log ++ [event])) runs blocks :=
  shown.imp fun _ _ first => first.later fun _ => openTurn_other (quiet _)

end Blocks

section Entries
variable {log : List StoredEvent} {tools : List ToolRow} {items : List Item} {run : RunId}

/-- An entry that still says the same of its tool call. -/
structure SameTool (old new : Item) : Prop where
  run : new.run = old.run
  source : new.source = old.source
  fields : new.fields = old.fields
  request : new.metadata.requestId = old.metadata.requestId
  turn : new.metadata.turnId = old.metadata.turnId
  finished : new.metadata.finishRecorded = old.metadata.finishRecorded
  recorded : new.metadata.resultRecorded = old.metadata.resultRecorded
  error : new.metadata.isError = old.metadata.isError
  changed : old.changed ≤ new.changed

omit [JsonHash] in
theorem SameTool.refl (item : Item) : SameTool item item := ⟨rfl, rfl, rfl, rfl, rfl, rfl, rfl, rfl, le_rfl⟩

theorem ToolShown.keep {row : ToolRow} {old new : Item} (shown : ToolShown log row old) (same : SameTool old new) :
    ToolShown log row new where
  run := same.run.trans shown.run
  source := same.source.trans shown.source
  name := by
    obtain ⟨field, member, rest⟩ := shown.name
    exact ⟨field, by rw [same.fields]; exact member, rest⟩
  request := same.request.trans shown.request
  turn := by
    rw [same.turn]
    exact shown.turn
  finished := same.finished.trans shown.finished
  seen := fun sequence known => (shown.seen sequence known).trans same.changed
  recorded := same.recorded.trans shown.recorded
  error := same.error.trans shown.error

theorem EntriesShown.later (shown : EntriesShown log tools items) (event : StoredEvent) :
    EntriesShown (log ++ [event]) tools items where
  rows := by
    intro row member
    obtain ⟨item, item_member, shown_row⟩ := shown.rows row member
    exact ⟨item, item_member, { shown_row with turn := shown_row.turn.mono event }⟩
  calls := shown.calls
  turns := fun item member turn is_response => (shown.turns item member turn is_response).mono event

theorem EntriesShown.keep (shown : EntriesShown log tools items) {change : Item → Item} {added : List Item}
    (same : ∀ item ∈ items, (change item).run = item.run ∧ (change item).source = item.source ∧
      ∀ callId, item.source = .tool callId → SameTool item (change item))
    (new : ∀ item ∈ added, (∀ callId, item.source ≠ .tool callId) ∧
      ∀ turn, item.source = .assistant turn → StartedTurn log item.run (some turn)) :
    EntriesShown log tools (items.map change ++ added) where
  rows := by
    intro row member
    obtain ⟨item, item_member, shown_row⟩ := shown.rows row member
    exact ⟨change item, List.mem_append_left _ (List.mem_map_of_mem item_member),
      shown_row.keep ((same item item_member).2.2 _ shown_row.source)⟩
  calls := by
    intro item member callId is_tool
    rcases List.mem_append.1 member with kept | fresh
    · obtain ⟨old, old_member, rfl⟩ := List.mem_map.1 kept
      obtain ⟨same_run, same_source, -⟩ := same old old_member
      rw [same_run]
      exact shown.calls old old_member callId (same_source ▸ is_tool)
    · exact absurd is_tool ((new item fresh).1 callId)
  turns := by
    intro item member turn is_response
    rcases List.mem_append.1 member with kept | fresh
    · obtain ⟨old, old_member, rfl⟩ := List.mem_map.1 kept
      obtain ⟨same_run, same_source, -⟩ := same old old_member
      rw [same_run]
      exact shown.turns old old_member turn (same_source ▸ is_response)
    · exact (new item fresh).2 turn is_response

theorem EntriesShown.start (shown : EntriesShown log tools items) {row : ToolRow} {item : Item}
    (new : ToolShown log row item) : EntriesShown log (tools ++ [row]) (items ++ [item]) where
  rows := by
    intro other member
    rcases List.mem_append.1 member with kept | last
    · obtain ⟨old, old_member, shown_row⟩ := shown.rows other kept
      exact ⟨old, List.mem_append_left _ old_member, shown_row⟩
    · rw [List.mem_singleton.1 last]
      exact ⟨item, by simp, new⟩
  calls := by
    intro other member callId is_tool
    rcases List.mem_append.1 member with kept | last
    · obtain ⟨old, old_member, names⟩ := shown.calls other kept callId is_tool
      exact ⟨old, List.mem_append_left _ old_member, names⟩
    · rw [List.mem_singleton.1 last] at is_tool ⊢
      rw [new.source] at is_tool
      exact ⟨row, by simp, new.run.symm, Source.tool.inj is_tool⟩
  turns := by
    intro other member turn is_response
    rcases List.mem_append.1 member with kept | last
    · exact shown.turns other kept turn is_response
    · rw [List.mem_singleton.1 last, new.source] at is_response
      cases is_response

theorem EntriesShown.update (shown : EntriesShown log tools items) {callId : Text} {set : ToolRow → ToolRow}
    {change : Item → Item} (row_named : ∀ row, ((set row).runId, (set row).callId) = (row.runId, row.callId))
    (item_named : ∀ item, (change item).run = item.run ∧ (change item).source = item.source)
    (both : ∀ row ∈ tools, ∀ item ∈ items, row.runId = run → row.callId = callId → ToolShown log row item →
      ToolShown log (set row) (change item)) :
    EntriesShown log (Table.update (fun row => row.runId = run && row.callId = callId) set tools)
      (Table.update (fun item => item.run = run && item.source = .tool callId) change items) where
  rows := by
    intro row member
    rcases Table.mem_update.1 member with ⟨old, old_member, selected, rfl⟩ | ⟨kept, other⟩
    · have names : old.runId = run ∧ old.callId = callId := by simpa using selected
      obtain ⟨item, item_member, shown_row⟩ := shown.rows old old_member
      refine ⟨change item, Table.mem_update.2 (.inl ⟨item, item_member, ?_, rfl⟩),
        both old old_member item item_member names.1 names.2 shown_row⟩
      simp [shown_row.run, shown_row.source, names]
    · obtain ⟨item, item_member, shown_row⟩ := shown.rows row kept
      refine ⟨item, Table.mem_update.2 (.inr ⟨item_member, ?_⟩), shown_row⟩
      simpa [shown_row.run, shown_row.source] using other
  calls := by
    intro item member name is_tool
    have named : (Table.update (fun row => row.runId = run && row.callId = callId) set tools).map
        (fun row => (row.runId, row.callId)) = tools.map fun row => (row.runId, row.callId) :=
      Table.map_update _ row_named
    have known : ∃ old ∈ items, old.run = item.run ∧ old.source = .tool name := by
      rcases Table.mem_update.1 member with ⟨old, old_member, -, rfl⟩ | ⟨kept, -⟩
      · exact ⟨old, old_member, (item_named old).1.symm, (item_named old).2.symm.trans is_tool⟩
      · exact ⟨item, kept, rfl, is_tool⟩
    obtain ⟨old, old_member, same_run, old_tool⟩ := known
    obtain ⟨row, row_member, row_run, row_call⟩ := shown.calls old old_member name old_tool
    have listed : (item.run, name) ∈ tools.map fun row => (row.runId, row.callId) :=
      List.mem_map.2 ⟨row, row_member, Prod.ext (row_run.trans same_run) row_call⟩
    rw [← named] at listed
    obtain ⟨row, row_member, names⟩ := List.mem_map.1 listed
    exact ⟨row, row_member, Prod.mk.inj names⟩
  turns := by
    intro item member turn is_response
    rcases Table.mem_update.1 member with ⟨old, old_member, -, rfl⟩ | ⟨kept, -⟩
    · rw [(item_named old).1]
      exact shown.turns old old_member turn ((item_named old).2 ▸ is_response)
    · exact shown.turns item kept turn is_response

end Entries

section Admits
variable {id : ApplicationSessionId} {log : List StoredEvent} {event : StoredEvent} {ledger : Ledger} {display : Display}
variable {run : RunId} {weight : Nat} {envelope : RunEventEnvelope}

theorem Linked.block (linked : Linked log ledger display) {row : RunRow} (found : ledger.run run = some row) :
    ∃ block, display.block run = some block ∧ RunShown log row block := RunShown.find linked.runs found

theorem Linked.item (linked : Linked log ledger display) (sound : display.Sound weight) (rows : ledger.Sound log)
    {callId : Text} {row : ToolRow} (found : ledger.tool run callId = some row) :
    ∃ item, display.find run (.tool callId) = some item ∧ ToolShown log row item := by
  obtain ⟨member, rfl, rfl⟩ := rows.find_tool.1 found
  obtain ⟨item, item_member, shown⟩ := linked.entries.rows row member
  refine ⟨item, ?_, shown⟩
  rw [← shown.run, ← shown.source]
  exact sound.sourced.find item_member

theorem Linked.no_item (linked : Linked log ledger display) {callId : Text} (missing : ledger.tool run callId = none) :
    display.find run (.tool callId) = none := by
  rw [Display.find, List.find?_eq_none]
  intro item member selected
  have names : item.run = run ∧ item.source = .tool callId := by simpa using selected
  obtain ⟨row, row_member, same_run, same_call⟩ := linked.entries.calls item member callId names.2
  exact Ledger.find_tool_none.1 missing (List.mem_map.2 ⟨row, row_member, Prod.ext (same_run.trans names.1) same_call⟩)

theorem Linked.no_response (linked : Linked log ledger display) {turn : Text}
    (unstarted : ¬StartedTurn log run (some turn)) : display.find run (.assistant turn) = none := by
  rw [Display.find, List.find?_eq_none]
  intro item member selected
  have names : item.run = run ∧ item.source = .assistant turn := by simpa using selected
  exact unstarted (names.1 ▸ linked.entries.turns item member turn names.2)

omit [JsonHash] in
theorem validateRuntime_ok (valid : (validateRuntime envelope).isOk = true) :
    envelope.schemaVersion = 2 ∧ (∀ provided, envelope.event = .providerEvent provided → provided.schemaVersion = 1) ∧
      envelope.sequence ≠ 0 ∧ identitiesValid envelope = true := by
  cases checked : validateRuntime envelope with
  | error kind => rw [checked] at valid; cases valid
  | ok value =>
    rw [validateRuntime] at checked
    obtain ⟨_, versions, checked⟩ := bind_eq_ok.1 checked
    obtain ⟨_, -, checked⟩ := bind_eq_ok.1 checked
    obtain ⟨_, numbered, identities⟩ := bind_eq_ok.1 checked
    rw [require_eq_ok] at versions numbered identities
    simp only [versionsSupported, Bool.and_eq_true, beq_iff_eq] at versions
    simp only [Bool.and_eq_true, bne_iff_ne] at numbered
    refine ⟨versions.1, fun provided is_event => ?_, numbered.1.1, identities⟩
    simpa [is_event] using versions.2

theorem Follows.turn (follows : Follows log id event) (is_runtime : event.payload = .runtimeObserved envelope)
    (in_turn : match envelope.event with | .runStarted | .runFinished .. => False | _ => True) :
    ∃ turn, envelope.turnId = some turn := by
  have identities := (validateRuntime_ok (follows.runtime is_runtime).1).2.2.2
  rw [← Option.isSome_iff_exists]
  rw [identitiesValid.eq_def] at identities
  cases is_event : envelope.event with
  | runStarted | runFinished => rw [is_event] at in_turn; exact in_turn.elim
  | turnStarted | providerEvent | toolEvent | turnFinished =>
    rw [is_event] at identities
    simp only [Bool.and_eq_true] at identities
    first | exact identities.1.1.1 | exact identities.1.1 | exact identities.1

theorem Linked.admits_tool (linked : Linked log (Ledger.ofLog log) display) (sound : display.Sound weight)
    (rows : (Ledger.ofLog log).Sound log) (ordered : Keyed.Ascending StoredEvent.sequence log) {tool : ToolExecutionEvent}
    (allows : AllowsTool log run envelope tool) : display.AdmitsTool run envelope tool := by
  cases tool with
  | toolExecutionStarted callId toolName => exact linked.no_item allows
  | toolExecutionFinished callId toolName isError =>
    obtain ⟨row, found, is_name, request, unfinished, -, started⟩ := allows
    obtain ⟨item, located, shown⟩ := linked.item sound rows found
    refine ⟨item, located, is_name ▸ shown.name, ?_, ?_, shown.request.trans request⟩
    · rw [shown.finished, unfinished]
      rfl
    · -- Both turns are that of the one event which started the call.
      obtain ⟨first, first_member, first_numbered, first_envelope, first_payload, first_turn⟩ := shown.turn
      obtain ⟨second, second_member, second_numbered, second_envelope, second_payload, second_turn⟩ := started
      have same : first = second :=
        Table.eq_of_key ordered first_member second_member (first_numbered.trans second_numbered.symm)
      subst same
      cases StoredEventPayload.runtimeObserved.inj (first_payload.symm.trans second_payload)
      exact first_turn.symm.trans second_turn
  | toolResultReused callId toolName =>
    obtain ⟨row, found, is_name, recorded⟩ := allows
    obtain ⟨item, located, shown⟩ := linked.item sound rows found
    exact ⟨item, located, is_name ▸ shown.name, by rw [shown.recorded, recorded]⟩

theorem Linked.admits_runtime (linked : Linked log (Ledger.ofLog log) display) (sound : display.Sound weight)
    (rows : (Ledger.ofLog log).Sound log) (ordered : Keyed.Ascending StoredEvent.sequence log)
    (follows : Follows log id event) (is_runtime : event.payload = .runtimeObserved envelope) {row : RunRow}
    {block : BlockRow} (named : row.runId = run) (shown : RunShown log row block)
    (allows : AllowsRuntime log run row.state envelope) : display.AdmitsRuntime run block.header envelope := by
  have versions := validateRuntime_ok (follows.runtime is_runtime).1
  have open_turn : block.header.currentTurn = openTurn log run := by
    rw [shown.turn allows.active, named]
  have turn := follows.turn is_runtime
  rw [AllowsRuntime.eq_def] at allows
  rw [Display.AdmitsRuntime.eq_def]
  cases is_event : envelope.event with
  | runStarted =>
    rw [is_event] at allows
    exact shown.state.trans allows
  | turnStarted number =>
    rw [is_event] at allows turn
    obtain ⟨turn, is_turn⟩ := turn trivial
    refine ⟨open_turn.trans allows.2.1, turn, is_turn, linked.no_response ?_⟩
    rw [← is_turn]
    exact allows.2.2
  | turnFinished =>
    rw [is_event] at allows turn
    obtain ⟨turn, is_turn⟩ := turn trivial
    exact ⟨turn, by rw [open_turn, allows.2, is_turn], is_turn⟩
  | runFinished => trivial
  | providerEvent provided =>
    rw [is_event] at allows turn
    obtain ⟨turn, is_turn⟩ := turn trivial
    exact ⟨versions.2.1 provided is_event, turn, by rw [open_turn, allows.2, is_turn], is_turn⟩
  | toolEvent tool =>
    rw [is_event] at allows turn
    obtain ⟨turn, is_turn⟩ := turn trivial
    exact ⟨⟨turn, by rw [open_turn, allows.2.1, is_turn], is_turn⟩, linked.admits_tool sound rows ordered allows.2.2⟩

theorem Linked.admits (linked : Linked log (Ledger.ofLog log) display) (sound : display.Sound weight)
    (rows : (Ledger.ofLog log).Sound log) (ordered : Keyed.Ascending StoredEvent.sequence log)
    (follows : Follows log id event) (applied : display.applied = log.length) : display.Admits event.shown := by
  refine ⟨by rw [applied]; exact follows.next, ?_⟩
  have allowed := follows.allowed
  have valid := (valid_eq_ok.1 follows.valid).2.2.2.1
  rw [History.payloadValid.eq_def] at valid
  have is_shown : event.shown.run = event.runId ∧ event.shown.input = event.payload.input := ⟨rfl, rfl⟩
  rw [is_shown.1, is_shown.2]
  cases of_run : event.runId with
  | none =>
    rw [of_run] at allowed
    obtain ⟨title, is_payload⟩ := allowed
    rw [is_payload]
    rfl
  | some run =>
    rw [of_run] at allowed
    cases is_payload : event.payload with
    | sessionCreated | sessionRenamed =>
      rw [is_payload] at allowed
      exact allowed.elim
    | runAccepted =>
      rw [is_payload] at allowed
      exact RunShown.find_none linked.runs allowed.1
    | runHistorySelected =>
      rw [is_payload] at allowed
      obtain ⟨⟨row, found⟩, -⟩ := allowed
      obtain ⟨block, located, -⟩ := linked.block found
      exact ⟨block, located⟩
    | runProviderBound =>
      rw [is_payload] at allowed
      obtain ⟨row, found, -⟩ := allowed
      obtain ⟨block, located, -⟩ := linked.block found
      exact ⟨block, located⟩
    | runtimeObserved envelope =>
      rw [is_payload] at allowed
      obtain ⟨row, found, allows⟩ := allowed
      obtain ⟨block, located, shown⟩ := linked.block found
      obtain ⟨checked, named⟩ := follows.runtime is_payload
      rw [of_run] at named
      refine ⟨(Option.some.inj named).symm, (validateRuntime_ok checked).1, block, located, ?_, ?_⟩
      · rw [shown.state]
        exact allows.active
      · exact linked.admits_runtime sound rows ordered follows is_payload (rows.find_run.1 found).2 shown allows
    | toolResultRecorded request callId output isError =>
      rw [is_payload] at allowed
      obtain ⟨row, found, running, call, found_call, is_request, unrecorded, -⟩ := allowed
      obtain ⟨block, located, shown⟩ := linked.block found
      obtain ⟨item, item_located, shown_call⟩ := linked.item sound rows found_call
      refine ⟨block, located, shown.state.trans running, item, item_located, ?_, shown_call.request.trans is_request⟩
      rw [shown_call.recorded, unrecorded]
      rfl
    | runResultRecorded result =>
      rw [is_payload] at allowed
      obtain ⟨row, found, own, unresulted, going_on, agrees⟩ := allowed
      obtain ⟨block, located, shown⟩ := linked.block found
      refine ⟨own, block, located, ?_, ?_, ?_⟩
      · rw [shown.result, unresulted]
        rfl
      · rw [shown.state]
        exact going_on
      · rw [shown.outcome]
        rcases agrees with ⟨is_active, incomplete, -⟩ | ⟨-, same⟩
        · rw [((rows.runs row (rows.find_run.1 found).1).going is_active).2.1]
          exact .inl ⟨rfl, incomplete⟩
        · rw [same]
          exact .inr rfl
    | runInterrupted =>
      rw [is_payload] at allowed
      obtain ⟨row, found, is_active⟩ := allowed
      obtain ⟨block, located, shown⟩ := linked.block found
      exact ⟨block, located, by rw [shown.state]; exact is_active⟩

end Admits

section Follow
variable {id : ApplicationSessionId} {log : List StoredEvent} {event : StoredEvent} {tools : List ToolRow} {run : RunId}
variable {display : Display} {weight : Nat} {envelope : RunEventEnvelope} {sequence : Nat}

theorem EntriesShown.add (shown : EntriesShown log tools display.items) {item : Item}
    (no_tool : ∀ callId, item.source ≠ .tool callId)
    (started : ∀ turn, item.source = .assistant turn → StartedTurn log item.run (some turn)) :
    EntriesShown log tools (display.add item).items := by
  have kept : EntriesShown log tools (display.items.map (fun item => item) ++ [item]) :=
    shown.keep (fun item _ => ⟨rfl, rfl, fun _ _ => SameTool.refl item⟩)
      (fun new member => by rw [List.mem_singleton.1 member]; exact ⟨no_tool, started⟩)
  rwa [List.map_id'] at kept

theorem EntriesShown.edit (shown : EntriesShown log tools display.items) {selected : Item → Bool} {change : Item → Item}
    (named : ∀ item, (change item).run = item.run ∧ (change item).source = item.source)
    (same : ∀ item ∈ display.items, selected item = true → ∀ callId, item.source = .tool callId →
      SameTool item (change item)) : EntriesShown log tools (display.editWhere selected change).items := by
  have kept : EntriesShown log tools
      (display.items.map (fun item => if selected item then change item else item) ++ []) := by
    refine shown.keep (fun item member => ?_) (by simp)
    by_cases chosen : selected item = true
    · simp only [chosen, if_true]
      exact ⟨(named item).1, (named item).2, same item member chosen⟩
    · simp only [chosen]
      exact ⟨rfl, rfl, fun _ _ => SameTool.refl item⟩
  rwa [List.append_nil] at kept

theorem EntriesShown.edit_response (shown : EntriesShown log tools display.items) {turn : Text} {change : Item → Item}
    (named : ∀ item, (change item).run = item.run ∧ (change item).source = item.source) :
    EntriesShown log tools (display.edit run (.assistant turn) change).items := by
  refine shown.edit named fun item _ selected callId is_tool => ?_
  simp [is_tool] at selected

theorem EntriesShown.settle (shown : EntriesShown log tools display.items) (state : State)
    (earlier : ∀ item ∈ display.items, item.changed ≤ sequence) :
    EntriesShown log tools (display.settle run sequence state).items :=
  shown.edit (fun _ => ⟨rfl, rfl⟩) fun item member _ _ _ =>
    ⟨rfl, rfl, rfl, rfl, rfl, rfl, rfl, rfl, earlier item member⟩

omit [JsonHash] in
theorem Item.respond_named (sequence : Nat) (response : Text) (provided : ProviderEvent) (item : Item) :
    (Item.respond sequence response provided item).run = item.run ∧
      (Item.respond sequence response provided item).source = item.source := by
  have opened : (opened response provided item.metadata).source = item.metadata.source := by
    rw [Projector.opened]
    split <;> rfl
  cases provided <;> exact ⟨rfl, opened⟩

omit [JsonHash] in
theorem Item.observe_named (sequence : Nat) (failure : Option (Text × UpstreamOutcome)) (closed : Bool) (item : Item) :
    (Item.observe sequence failure closed item).run = item.run ∧
      (Item.observe sequence failure closed item).source = item.source := by
  refine ⟨rfl, ?_⟩
  change (Projector.observed failure closed item.metadata).source = item.metadata.source
  rw [Projector.observed.eq_def]
  cases failure <;> cases closed <;> rfl

theorem EntriesShown.respond (shown : EntriesShown log tools display.items) {turn response : Text}
    (started : StartedTurn log run (some turn)) (provided : ProviderEvent) :
    EntriesShown log tools (display.respond run sequence turn response provided).items := by
  have found : EntriesShown log tools (display.withResponse run sequence turn response).items := by
    rw [Display.withResponse]
    split
    · exact shown
    · refine shown.add (fun callId => by simp [Item.new, Item.source, assistantMetadata, EntryMetadata.new]) ?_
      intro other is_response
      cases is_response
      exact started
  exact found.edit_response (Item.respond_named sequence response provided)

theorem EntriesShown.notice (shown : EntriesShown log tools display.items) (turn : Text)
    (failure : Option (Text × UpstreamOutcome)) (closed : Bool) :
    EntriesShown log tools (display.observe run sequence turn failure closed).items := by
  rw [Display.observe]
  split
  · exact shown.edit_response (Item.observe_named sequence failure closed)
  · have source := (Item.observe_named sequence failure closed
      (Item.new run sequence (noticeMetadata sequence))).2
    refine shown.add (fun callId => ?_) fun other is_response => ?_
    · rw [source]
      simp [Item.new, Item.source, noticeMetadata, EntryMetadata.new]
    · rw [source] at is_response
      cases is_response

theorem EntriesShown.provider (shown : EntriesShown log tools display.items) {turn : Text}
    (started : StartedTurn log run (some turn)) (provided : ProviderEvent) :
    EntriesShown log tools (display.provider run sequence turn provided).items := by
  cases provided with
  | requestFailed code message upstream => exact shown.notice turn _ _
  | sessionClosed reason => exact shown.notice turn _ _
  | providerExtension eventType payload =>
    refine shown.add (fun callId => ?_) fun other is_response => ?_
    · simp [Item.new, Item.source, Item.delta, noticeMetadata, EntryMetadata.new]
    · cases is_response
  | responseStarted | responseStatus | outputItemStarted | outputItemUpdated | outputItemFinished | responseFinished =>
    exact shown.respond started _

theorem openTurn_started {turn : Text} (is_open : openTurn log run = some turn) : StartedTurn log run (some turn) := by
  suffices general : ∀ envelopes : List RunEventEnvelope, envelopes.foldl turnAfter none = some turn →
      ∃ envelope ∈ envelopes, Correlation.isTurnStarted envelope.event = true ∧ envelope.turnId = some turn from
    general _ is_open
  intro envelopes
  induction envelopes using List.reverseRecOn with
  | nil => intro is_open; cases is_open
  | append_singleton envelopes last ih =>
    intro is_open
    rw [List.foldl_append, List.foldl_cons, List.foldl_nil, turnAfter.eq_def] at is_open
    cases is_event : last.event with
    | turnStarted number =>
      rw [is_event] at is_open
      exact ⟨last, by simp, by rw [is_event]; rfl, is_open⟩
    | runStarted | turnFinished | runFinished =>
      rw [is_event] at is_open
      cases is_open
    | providerEvent | toolEvent =>
      rw [is_event] at is_open
      obtain ⟨envelope, member, rest⟩ := ih is_open
      exact ⟨envelope, List.mem_append_left _ member, rest⟩

omit [JsonHash] in
theorem Item.showsTool_started (run : RunId) (sequence : Nat) (envelope : RunEventEnvelope) (callId toolName : Text) :
    ((Item.new run sequence (startedMetadata envelope callId)).delta sequence (toolNamePart toolName)).ShowsTool
      toolName := by
  refine ⟨⟨.indexed (toolOrder .toolName), .toolName, sequence, toolName⟩, ?_, rfl, rfl, rfl⟩
  change _ ∈ Layout.delta sequence (toolNamePart toolName) []
  rw [Layout.delta_nil]
  exact List.mem_singleton.2 rfl

theorem ToolShown.finish {row : ToolRow} {item : Item} (shown : ToolShown log row item) {isError : Bool}
    (flagged : row.resultSequence.isSome = true → row.isError = some isError) :
    ToolShown log (ToolRow.finished sequence isError row) (Item.finishTool sequence isError item) := by
  have metadata : Item.finishTool sequence isError item = item.write sequence (finishedMetadata isError item.metadata) := rfl
  rw [metadata, finishedMetadata.eq_def]
  dsimp only
  split
  · exact ⟨shown.run, shown.source, shown.name, shown.request, shown.turn, rfl, fun _ known => by cases known; exact le_rfl,
      shown.recorded, rfl⟩
  · rename_i recorded
    refine ⟨shown.run, shown.source, shown.name, shown.request, shown.turn, rfl, fun _ known => by cases known; exact le_rfl,
      shown.recorded, ?_⟩
    rw [shown.recorded, Option.some.injEq, Bool.not_eq_false] at recorded
    exact shown.error.trans (flagged recorded)

theorem ToolShown.record {row : ToolRow} {item : Item} (shown : ToolShown log row item) (output : Text) (isError : Bool)
    (earlier : item.changed ≤ sequence) :
    ToolShown log (ToolRow.recorded sequence output isError row) (Item.recordResult sequence output isError item) where
  run := shown.run
  source := shown.source
  name := by
    obtain ⟨field, member, rest⟩ := shown.name
    exact ⟨field, Keyed.mem_place.2 (.inr member), rest⟩
  request := shown.request
  turn := shown.turn
  finished := shown.finished
  seen := fun finished known => (shown.seen finished known).trans earlier
  recorded := rfl
  error := rfl

theorem EntriesShown.tool {ledger : Ledger} (shown : EntriesShown log ledger.tools display.items)
    (member : event ∈ log) (is_runtime : event.payload = .runtimeObserved envelope) {tool : ToolExecutionEvent}
    (flagged : ∀ row ∈ ledger.tools, row.runId = run → ∀ toolName isError,
      tool = .toolExecutionFinished row.callId toolName isError → row.resultSequence.isSome = true →
      row.isError = some isError) :
    EntriesShown log (ledger.observeTool run event.sequence envelope.requestId tool).tools
      (display.tool run event.sequence envelope tool).items := by
  cases tool with
  | toolExecutionStarted callId toolName =>
    refine shown.start ⟨rfl, rfl, Item.showsTool_started run event.sequence envelope callId toolName, rfl,
      ⟨event, member, rfl, envelope, is_runtime, rfl⟩, rfl, ?_, rfl, rfl⟩
    intro _ known
    cases known
  | toolExecutionFinished callId toolName isError =>
    refine shown.update (fun _ => rfl) (fun item => ⟨rfl, ?_⟩) ?_
    · change (finishedMetadata isError item.metadata).source = item.metadata.source
      rw [finishedMetadata.eq_def]
      dsimp only
      split <;> rfl
    · intro row row_member item _ same_run same_call shown_row
      exact shown_row.finish (flagged row row_member same_run toolName isError (by rw [same_call]))
  | toolResultReused callId toolName =>
    rw [Display.tool_reused]
    cases display.find run (.tool callId) with
    | none => exact shown
    | some item =>
      refine shown.add (fun callId => ?_) fun other is_response => ?_
      · simp [Item.new, Item.source, reusedMetadata, EntryMetadata.new]
      · cases is_response

end Follow

section Next
variable {provenance : CreationProvenance} {log : List StoredEvent} {event : StoredEvent} {run : RunId}
variable {display : Display} {weight sequence : Nat} {envelope : RunEventEnvelope}

/-- The state, outcome and turn that a header shows after a runtime event. -/
structure HeaderAfter (envelope : RunEventEnvelope) (old new : BlockHeader) : Prop where
  state : new.state = stateAfter old.state envelope.event
  result : new.resultRecorded = old.resultRecorded
  outcome : new.outcome = match envelope.event with
    | .runFinished outcome _ => some (displayOutcome outcome)
    | _ => old.outcome
  turn : (∀ outcome summary, envelope.event ≠ .runFinished outcome summary) →
    (envelope.event = .runStarted → old.currentTurn = none) → new.currentTurn = turnAfter old.currentTurn envelope

/-- The block of a run with another header. -/
def Display.touched (sequence : Nat) (change : BlockHeader → BlockHeader) (row : BlockRow) : BlockRow :=
  { row with changedSequence := sequence, header := change row.header }

/-- The event changes the header of its run's block, and no other block. -/
def Display.Heads (display : Display) (run : RunId) (sequence : Nat) (after : Display)
    (shows : BlockHeader → BlockHeader → Prop) : Prop :=
  ∃ change : BlockHeader → BlockHeader, after.blocks =
      Table.update (fun row => row.runId = run) (Display.touched sequence change) display.blocks ∧
    ∀ header, shows header (change header)

omit [JsonHash] in
theorem Display.heads {middle : Display} (same : middle.blocks = display.blocks) {change : BlockHeader → BlockHeader}
    {shows : BlockHeader → BlockHeader → Prop} (shown : ∀ header, shows header (change header)) :
    display.Heads run sequence (middle.head run sequence change) shows := by
  refine ⟨change, ?_, shown⟩
  rw [← same]
  rfl

omit [JsonHash] in
theorem Display.blocks_withResponse (display : Display) (run : RunId) (sequence : Nat) (turn response : Text) :
    (display.withResponse run sequence turn response).blocks = display.blocks := by
  rw [Display.withResponse]
  split <;> rfl

omit [JsonHash] in
theorem Display.blocks_observe (display : Display) (run : RunId) (sequence : Nat) (turn : Text)
    (failure : Option (Text × UpstreamOutcome)) (closed : Bool) :
    (display.observe run sequence turn failure closed).blocks = display.blocks := by
  rw [Display.observe]
  split <;> rfl

omit [JsonHash] in
theorem Display.blocks_tool (display : Display) (run : RunId) (sequence : Nat) (envelope : RunEventEnvelope)
    (tool : ToolExecutionEvent) : (display.tool run sequence envelope tool).blocks = display.blocks := by
  cases tool with
  | toolResultReused callId toolName =>
    rw [Display.tool]
    split <;> rfl
  | _ => rfl

omit [JsonHash] in
theorem Display.heads_provider {shows : BlockHeader → BlockHeader → Prop} (turn : Text) (provided : ProviderEvent)
    (shown : ∀ header current, shows header { header with currentAssistant := current }) :
    display.Heads run sequence (display.provider run sequence turn provided) shows := by
  have unchanged (header : BlockHeader) : shows header (id header) := shown header header.currentAssistant
  have responded (response : Text) : display.Heads run sequence
      (display.respond run sequence turn response provided) shows :=
    Display.heads (Display.blocks_withResponse display run sequence turn response) fun header => shown header _
  cases provided with
  | requestFailed | sessionClosed => exact Display.heads (Display.blocks_observe display run sequence turn _ _) unchanged
  | providerExtension => exact Display.heads rfl unchanged
  | responseStarted | responseStatus | outputItemStarted | outputItemUpdated | outputItemFinished | responseFinished =>
    exact responded _

omit [JsonHash] in
theorem Display.heads_runtime (named : match envelope.event with
      | .runStarted | .runFinished .. => True
      | _ => ∃ turn, envelope.turnId = some turn) :
    display.Heads run sequence (display.runtime run sequence envelope) (HeaderAfter envelope) := by
  rw [Display.runtime.eq_def]
  cases is_event : envelope.event with
  | runStarted =>
    refine Display.heads rfl fun header => ⟨by rw [is_event]; rfl, rfl, by rw [is_event], fun _ closed => ?_⟩
    simp only [turnAfter, is_event]
    exact closed is_event
  | runFinished outcome summary =>
    exact Display.heads rfl fun header => ⟨by rw [is_event]; rfl, rfl, by rw [is_event], fun no _ =>
      absurd is_event (no outcome summary)⟩
  | turnStarted number =>
    rw [is_event] at named
    obtain ⟨turn, is_turn⟩ := named
    rw [is_turn]
    refine Display.heads rfl fun header => ⟨by rw [is_event]; rfl, rfl, by rw [is_event], fun _ _ => ?_⟩
    simp only [turnAfter, is_event, is_turn]
  | turnFinished number response outcome upstream =>
    rw [is_event] at named
    obtain ⟨turn, is_turn⟩ := named
    rw [is_turn]
    refine Display.heads rfl fun header => ⟨by rw [is_event]; rfl, rfl, by rw [is_event], fun _ _ => ?_⟩
    simp only [turnAfter, is_event]
  | providerEvent provided =>
    rw [is_event] at named
    obtain ⟨turn, is_turn⟩ := named
    rw [is_turn]
    refine Display.heads_provider turn provided.event fun header current =>
      ⟨by rw [is_event]; rfl, rfl, by rw [is_event], fun _ _ => ?_⟩
    simp only [turnAfter, is_event]
  | toolEvent tool =>
    rw [is_event] at named
    obtain ⟨turn, is_turn⟩ := named
    rw [is_turn]
    refine Display.heads (Display.blocks_tool display run sequence envelope tool) fun header =>
      ⟨by rw [is_event]; rfl, rfl, by rw [is_event]; rfl, fun _ _ => ?_⟩
    simp only [turnAfter, is_event, id]

theorem RunShown.observed {row : RunRow} {block : BlockRow} (shown : RunShown log row block)
    (is_runtime : event.runtime row.runId = some envelope) (was : active row.state = true) {header : BlockHeader}
    (after : HeaderAfter envelope block.header header)
    (unstarted : envelope.event = .runStarted → openTurn log row.runId = none) :
    RunShown (log ++ [event]) (RunRow.observed event.sequence envelope row)
      { block with changedSequence := event.sequence, header } where
  run := by rw [RunRow.observed_runId]; exact shown.run
  accepted := by
    have same : (RunRow.observed event.sequence envelope row).acceptedSequence = row.acceptedSequence := by
      rw [RunRow.observed.eq_def]
      split <;> rfl
    rw [same]
    exact shown.accepted
  state := by
    rw [RunRow.observed_state, after.state, shown.state]
  result := by
    have same : (RunRow.observed event.sequence envelope row).resultSequence = row.resultSequence := by
      rw [RunRow.observed.eq_def]
      split <;> rfl
    rw [same, after.result, shown.result]
  outcome := by
    rw [after.outcome]
    cases is_event : envelope.event with
    | runFinished outcome summary => simp [RunRow.observed, is_event, StoredEventPayload.outcome]
    | _ => simpa only [RunRow.observed, is_event] using shown.outcome
  turn := by
    intro still
    rw [RunRow.observed_runId, openTurn_runtime is_runtime, ← shown.turn was]
    refine after.turn (fun outcome summary ends => ?_) fun starts => ?_
    · rw [RunRow.observed_state, ends, stateAfter, active_outcome] at still
      cases still
    · rw [shown.turn was]
      exact unstarted starts

theorem EntriesShown.runtime {ledger : Ledger} (shown : EntriesShown log ledger.tools display.items)
    (earlier : ∀ item ∈ display.items, item.changed ≤ event.sequence) (member : event ∈ log)
    (is_runtime : event.payload = .runtimeObserved envelope)
    (named : match envelope.event with
      | .runStarted | .runFinished .. => True
      | _ => ∃ turn, envelope.turnId = some turn)
    (started : ∀ provided turn, envelope.event = .providerEvent provided → envelope.turnId = some turn →
      StartedTurn log run (some turn))
    (flagged : ∀ row ∈ ledger.tools, row.runId = run → ∀ toolName isError,
      envelope.event = .toolEvent (.toolExecutionFinished row.callId toolName isError) →
      row.resultSequence.isSome = true → row.isError = some isError) :
    EntriesShown log (ledger.observe run event.sequence envelope).tools
      (display.runtime run event.sequence envelope).items := by
  rw [Ledger.observe, Display.runtime.eq_def]
  cases is_event : envelope.event with
  | runStarted => exact shown
  | runFinished outcome summary => exact shown.settle _ earlier
  | turnStarted =>
    rw [is_event] at named
    obtain ⟨turn, is_turn⟩ := named
    rw [is_turn]
    exact shown
  | turnFinished number response outcome upstream =>
    rw [is_event] at named
    obtain ⟨turn, is_turn⟩ := named
    rw [is_turn]
    refine shown.edit_response fun item => ?_
    rw [Item.finishTurn]
    split <;> exact ⟨rfl, rfl⟩
  | providerEvent provided =>
    rw [is_event] at named
    obtain ⟨turn, is_turn⟩ := named
    rw [is_turn]
    exact shown.provider (started provided turn is_event is_turn) provided.event
  | toolEvent tool =>
    rw [is_event] at named
    obtain ⟨turn, is_turn⟩ := named
    rw [is_turn]
    have same : EntriesShown log (ledger.updateRun run (RunRow.observed event.sequence envelope)).tools display.items := shown
    refine EntriesShown.tool same member is_runtime fun row row_member same_run toolName isError is_tool => ?_
    exact flagged row row_member same_run toolName isError (by rw [is_event, is_tool])

theorem Follows.in_turn {id : ApplicationSessionId} (follows : Follows log id event)
    (is_runtime : event.payload = .runtimeObserved envelope) : match envelope.event with
      | .runStarted | .runFinished .. => True
      | _ => ∃ turn, envelope.turnId = some turn := by
  have turn := follows.turn is_runtime
  cases is_event : envelope.event <;> rw [is_event] at turn <;> first | trivial | exact turn trivial

theorem Linked.observe (lawful : Lawful provenance log) (follows : Follows log provenance.sessionId event)
    (linked : Linked log (Ledger.ofLog log) display) (sound : display.Sound weight)
    (applied : display.applied = log.length) (of_run : event.runId = some run)
    (is_runtime : event.payload = .runtimeObserved envelope) :
    Linked (log ++ [event]) ((Ledger.ofLog log).observe run event.sequence envelope)
      (display.runtime run event.sequence envelope) := by
  have rows := lawful.ledger
  have allowed := follows.allowed
  rw [of_run, is_runtime] at allowed
  obtain ⟨row, found, allows⟩ := allowed
  have known := rows.find_run.1 found
  refine ⟨?_, ?_⟩
  · rw [Ledger.runs_observe]
    obtain ⟨change, blocks, shows⟩ : display.Heads run event.sequence (display.runtime run event.sequence envelope)
        (HeaderAfter envelope) := Display.heads_runtime (follows.in_turn is_runtime)
    rw [blocks]
    refine RunShown.update linked.runs ?_ fun other different own => different ?_
    · intro other block member named shown
      cases Option.some.inj ((rows.find_run.2 ⟨member, named⟩).symm.trans found)
      refine shown.observed (StoredEvent.runtime_eq_some.2 ⟨is_runtime, by rw [named, of_run]⟩) allows.active
        (shows block.header) fun starts => ?_
      rw [AllowsRuntime.eq_def, starts] at allows
      have unobserved : runtimes row.runId log = [] := lawful.unobserved fun other other_found => by
        rw [named] at other_found
        rw [← Option.some.inj (found.symm.trans other_found)]
        exact allows
      rw [openTurn, unobserved]
      rfl
    · exact (Option.some.inj (of_run.symm.trans own)).symm
  · have shown := linked.entries.later event
    refine shown.runtime (fun item member => ?_) (by simp) is_runtime (follows.in_turn is_runtime) ?_ ?_
    · have := (sound.items item member).seen
      have := follows.next
      omega
    · intro provided turn is_event is_turn
      rw [AllowsRuntime.eq_def, is_event] at allows
      exact (openTurn_started (allows.2.trans is_turn)).mono event
    · intro call member same_run toolName isError is_event recorded
      rw [AllowsRuntime.eq_def, is_event] at allows
      obtain ⟨-, -, other, other_found, -, -, -, agrees, -⟩ := allows
      cases Option.some.inj ((rows.find_tool.2 ⟨member, same_run, rfl⟩).symm.trans other_found)
      have flagged := (rows.tools call member).error
      rw [recorded, Bool.true_or] at flagged
      obtain ⟨flag, is_flag⟩ := Option.isSome_iff_exists.1 flagged.symm
      rw [is_flag, agrees flag is_flag]

theorem RunRow.Sound.state_of_outcome {row : RunRow} (sound : row.Sound log) (inactive : active row.state = false)
    {outcome : RunOutcome} {session : Option Text}
    (same : row.terminal.bind StoredEventPayload.outcome = some (outcome, session)) : outcomeState outcome = row.state := by
  obtain ⟨ending, -, -, is_terminal, -, -, ends⟩ := sound.ended inactive
  rw [is_terminal, Option.bind_some] at same
  split at ends
  · cases is_payload : ending.payload with
    | runInterrupted => rw [is_payload] at same; cases same
    | _ => rw [is_payload] at ends; cases ends
  · obtain ⟨other, is_outcome, is_state⟩ := ends
    cases is_outcome.symm.trans same
    exact is_state

theorem Linked.next (lawful : Lawful provenance log) (follows : Follows log provenance.sessionId event)
    (linked : Linked log (Ledger.ofLog log) display) (sound : display.Sound weight)
    (applied : display.applied = log.length) :
    Linked (log ++ [event]) ((Ledger.ofLog log).apply event) (display.apply event.shown) := by
  have rows := lawful.ledger
  have allowed := follows.allowed
  have earlier (item : Item) (member : item ∈ display.items) : item.changed ≤ event.sequence := by
    have := (sound.items item member).seen
    have := follows.next
    omega
  have quiet (no_runtime : ∀ envelope, event.payload ≠ .runtimeObserved envelope) (run : RunId) :
      event.runtime run = none := by
    cases is_runtime : event.runtime run with
    | none => rfl
    | some envelope => exact absurd (StoredEvent.runtime_eq_some.1 is_runtime).1 (no_runtime envelope)
  have is_shown : event.shown.run = event.runId ∧ event.shown.input = event.payload.input := ⟨rfl, rfl⟩
  rw [Ledger.apply, Display.apply, is_shown.1, is_shown.2]
  cases of_run : event.runId with
  | none => exact ⟨RunShown.keep linked.runs fun run => StoredEvent.runtime_of_other (by rw [of_run]; simp),
      linked.entries.later event⟩
  | some run =>
    rw [of_run] at allowed
    have others (other : RunId) (different : other ≠ run) : event.runId ≠ some other := by
      rw [of_run]
      exact fun same => different (Option.some.inj same).symm
    cases is_payload : event.payload with
    | sessionCreated | sessionRenamed =>
      rw [is_payload] at allowed
      exact allowed.elim
    | runHistorySelected => exact ⟨RunShown.keep linked.runs (quiet (by simp [is_payload])), linked.entries.later event⟩
    | runProviderBound binding =>
      refine ⟨?_, linked.entries.later event⟩
      have kept : Table.update (fun block : BlockRow => block.runId = run) id display.blocks = display.blocks :=
        Table.update_eq_self fun _ _ _ => rfl
      change List.Forall₂ _ _ display.blocks
      rw [← kept]
      refine RunShown.update linked.runs (fun row block _ _ shown => ?_) others
      have later := shown.later fun _ => openTurn_other (quiet (by simp [is_payload]) row.runId)
      exact { later with }
    | runAccepted accepted input owner =>
      rw [is_payload] at allowed
      have unobserved : runtimes run log = [] := lawful.unobserved fun row found => by
        rw [allowed.1] at found
        cases found
      refine ⟨List.rel_append (RunShown.keep linked.runs (quiet (by simp [is_payload]))) (.cons ?_ .nil), ?_⟩
      · refine ⟨rfl, rfl, rfl, rfl, rfl, fun _ => ?_⟩
        change none = openTurn (log ++ [event]) run
        rw [openTurn_other (quiet (by simp [is_payload]) run), openTurn, unobserved]
        rfl
      · refine (linked.entries.later event).add (fun callId is_tool => ?_) fun turn is_response => ?_
        · cases is_tool
        · cases is_response
    | runtimeObserved envelope =>
      have observed := linked.observe lawful follows sound applied of_run is_payload
      exact ⟨observed.runs, observed.entries⟩
    | toolResultRecorded request callId output isError =>
      refine ⟨RunShown.keep linked.runs (quiet (by simp [is_payload])), ?_⟩
      exact (linked.entries.later event).update (fun _ => rfl) (fun _ => ⟨rfl, rfl⟩)
        fun row _ item member _ _ shown => shown.record output isError (earlier item member)
    | runResultRecorded result =>
      rw [is_payload] at allowed
      obtain ⟨row, found, -, -, -, agrees⟩ := allowed
      refine ⟨RunShown.update linked.runs (fun other block member named shown => ?_) others,
        (linked.entries.later event).settle _ earlier⟩
      cases Option.some.inj ((rows.find_run.2 ⟨member, named⟩).symm.trans found)
      have unfinished : active (outcomeState result.outcome) = false := active_outcome _
      rcases agrees with ⟨is_active, -, -⟩ | ⟨inactive, same⟩
      · rw [RunRow.concluded, if_pos is_active]
        exact ⟨shown.run, shown.accepted, rfl, rfl, rfl, fun still => by rw [unfinished] at still; cases still⟩
      · rw [RunRow.concluded, if_neg (by simp [inactive])]
        refine ⟨shown.run, shown.accepted, ?_, rfl, ?_, fun still => ?_⟩
        · exact (rows.runs row member).state_of_outcome inactive same
        · change some (displayOutcome result.outcome) = _
          rw [show row.terminal.bind StoredEventPayload.outcome = _ from same]
          rfl
        · rw [show active row.state = true from still] at inactive
          cases inactive
    | runInterrupted interrupted =>
      rw [is_payload] at allowed
      obtain ⟨row, found, was⟩ := allowed
      refine ⟨RunShown.update linked.runs (fun other block member named shown => ?_) others,
        (linked.entries.later event).settle _ earlier⟩
      cases Option.some.inj ((rows.find_run.2 ⟨member, named⟩).symm.trans found)
      refine ⟨shown.run, shown.accepted, rfl, shown.result, ?_, fun still => by cases still⟩
      change block.header.outcome = none
      rw [shown.outcome, ((rows.runs row member).going was).2.1]
      rfl

end Next

end Wi
