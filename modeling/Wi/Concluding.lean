import Wi.Lifecycle
import Wi.Snapshots

/-! The end of a run. A run that ends settles what its entries still show as going on, and
leaves their content as it is. -/
namespace Wi
open Content Rows Projector

/-- Work that an entry shows as accepted or going on. -/
def State.waiting (state : State) : Bool := state = .accepted || state = .inProgress

theorem State.waiting_response (outcome : ResponseOutcome) : (State.response outcome).waiting = false := by
  cases outcome <;> rfl

theorem State.waiting_unfinished (outcome : RunOutcome) : (State.unfinished outcome).waiting = false := by
  cases outcome <;> rfl

variable {state : State}

theorem waiting_of_unsettled (settled : unsettled state = false) : state.waiting = false := by
  cases state <;> first | rfl | cases settled

/-- A response or a tool call. -/
def Source.isActivity (source : Source) : Bool := source.kind = .assistant || source.kind = .tool

/-- The final response or the failure of a turn's request. -/
def RunEvent.endsResponse : RunEvent → Bool
  | .providerEvent provided =>
    match provided.event with
    | .responseFinished _ | .requestFailed .. => true
    | _ => false
  | _ => false

def RunEvent.isProvider : RunEvent → Bool
  | .providerEvent _ => true
  | _ => false

/-- An entry that is no longer provisional shows its end, and a response that is not has been
finished in its turn. -/
structure Item.Accounted (ended : RunId → Text → Prop) (item : Item) : Prop where
  response : ∀ turn, item.source = .assistant turn → item.metadata.provisional = false → ended item.run turn
  state : item.source.isActivity = true → item.metadata.provisional = false → item.metadata.state.waiting = false

section Items
variable {ended later : RunId → Text → Prop} {item : Item} {run : RunId} {sequence : Nat} {turn : Text}

theorem Item.Accounted.mono (accounted : item.Accounted ended) (grows : ∀ run turn, ended run turn → later run turn) :
    item.Accounted later :=
  ⟨fun turn source final => grows _ _ (accounted.response turn source final), accounted.state⟩

theorem Item.Accounted.of_provisional (open_entry : item.metadata.provisional = true) : item.Accounted ended := by
  constructor
  · intro turn _ final
    rw [open_entry] at final
    cases final
  · intro _ final
    rw [open_entry] at final
    cases final

theorem Item.Accounted.of_other (other : item.source.isActivity = false) : item.Accounted ended := by
  constructor
  · intro turn source _
    rw [source] at other
    cases other
  · intro activity
    rw [other] at activity
    cases activity

theorem Item.Accounted.of_same (accounted : item.Accounted ended) {next : Item} (same_run : next.run = item.run)
    (source : next.source = item.source) (provisional : next.metadata.provisional = item.metadata.provisional)
    (state : item.metadata.provisional = false → next.metadata.state = item.metadata.state) : next.Accounted ended := by
  constructor
  · intro turn is_response final
    rw [same_run]
    exact accounted.response turn (source ▸ is_response) (provisional ▸ final)
  · intro activity final
    rw [provisional] at final
    rw [state final]
    exact accounted.state (source ▸ activity) final

theorem Item.respond_run (response : Text) (event : ProviderEvent) : (item.respond sequence response event).run = item.run := by
  cases event <;> rfl

theorem Item.respond_source (response : Text) (event : ProviderEvent) :
    (item.respond sequence response event).source = item.source := by
  cases event <;> rfl

theorem Item.respond_provisional (response : Text) (event : ProviderEvent) (open_entry : item.metadata.provisional = true) :
    (item.respond sequence response event).metadata.provisional = true ∨
      ∃ final, event = .responseFinished final ∧
        (item.respond sequence response event).metadata.state = .response final.outcome := by
  cases event with
  | responseFinished final => exact .inr ⟨final, rfl, rfl⟩
  | outputItemStarted | outputItemUpdated | outputItemFinished => exact .inl rfl
  | _ => exact .inl open_entry

theorem Item.Accounted.respond (response : Text) (event : ProviderEvent) (open_entry : item.metadata.provisional = true)
    (is_response : item.source = .assistant turn) (ends : ∀ final, event = .responseFinished final → ended item.run turn) :
    (item.respond sequence response event).Accounted ended := by
  rcases item.respond_provisional response event open_entry with still | ⟨final, finished, state⟩
  · exact .of_provisional still
  · constructor
    · intro other source _
      rw [Item.respond_source, is_response] at source
      cases source
      rw [Item.respond_run]
      exact ends final finished
    · intro _ _
      rw [state]
      exact State.waiting_response _

theorem Item.Accounted.observe (accounted : item.Accounted ended) (failure : Option (Text × UpstreamOutcome))
    (closed : Bool) (is_response : item.source = .assistant turn) :
    (item.observe sequence failure closed).Accounted ended := by
  have source : (item.observe sequence failure closed).source = item.source := source_observed failure closed item.metadata
  have kept : (item.observe sequence failure closed).metadata.provisional = item.metadata.provisional := by
    change (observed failure closed item.metadata).provisional = _
    cases failure <;> cases closed <;> rfl
  refine accounted.of_same rfl source kept fun final => ?_
  have no_notice : isNotice item.metadata.source = false := by
    rw [show item.metadata.source = .assistant turn from is_response]
    rfl
  change (observed failure closed item.metadata).state = _
  cases failure <;> cases closed <;> simp [observed, final, no_notice]

theorem Item.Accounted.finishTurn (accounted : item.Accounted ended) (outcome : TurnOutcome)
    (upstream : Option UpstreamOutcome) : (item.finishTurn sequence outcome upstream).Accounted ended := by
  unfold Item.finishTurn
  split
  · rename_i open_entry
    exact .of_provisional open_entry
  · exact accounted

theorem finishedMetadata_shows (isError : Bool) (metadata : EntryMetadata) :
    (finishedMetadata isError metadata).source = metadata.source ∧
      (finishedMetadata isError metadata).provisional = metadata.provisional ∧
      ((finishedMetadata isError metadata).state = .unknown ∨
        (finishedMetadata isError metadata).state = metadata.state) := by
  unfold finishedMetadata
  dsimp only
  split
  · exact ⟨rfl, rfl, .inl rfl⟩
  · exact ⟨rfl, rfl, .inr rfl⟩

theorem Item.Accounted.finishTool (accounted : item.Accounted ended) (isError : Bool) {call : Text}
    (is_tool : item.source = .tool call) : (item.finishTool sequence isError).Accounted ended := by
  obtain ⟨source, provisional, state⟩ := finishedMetadata_shows isError item.metadata
  have tool : (item.finishTool sequence isError).source = .tool call := source.trans is_tool
  constructor
  · intro turn is_response _
    cases tool.symm.trans is_response
  · intro _ final
    rcases state with unknown | same
    · exact (congrArg State.waiting unknown).trans rfl
    · refine (congrArg State.waiting same).trans (accounted.state ?_ (provisional.symm.trans final))
      rw [is_tool]
      rfl

theorem Item.Accounted.recordResult (output : Text) (isError : Bool) {call : Text} (is_tool : item.source = .tool call) :
    (item.recordResult sequence output isError).Accounted ended := by
  constructor
  · intro turn is_response _
    cases is_tool.symm.trans is_response
  · intro _ _
    change State.waiting (if isError then .failed else .completed) = false
    cases isError <;> rfl

theorem Item.settle_waiting (settling : state.waiting = false) :
    (item.settle sequence state).metadata.state.waiting = false := by
  change (settledState state item.metadata).waiting = false
  unfold settledState
  split
  · rfl
  · split
    · exact settling
    · rename_i settled
      exact waiting_of_unsettled (Bool.eq_false_iff.2 settled)

end Items

variable {turn : Text} {envelope : RunEventEnvelope} {input : Input}

section Displays
variable {ended later : RunId → Text → Prop} {display : Display} {run : RunId} {sequence : Nat}

theorem Display.forall_editWhere {P Q : Item → Prop} {selected : Item → Bool} {change : Item → Item}
    (before : ∀ item ∈ display.items, P item) (kept : ∀ item, P item → Q item)
    (changed : ∀ item ∈ display.items, selected item = true → P item → Q (change item)) :
    ∀ item ∈ (display.editWhere selected change).items, Q item := by
  intro item member
  rcases Table.mem_update.1 member with ⟨old, old_member, chosen, rfl⟩ | ⟨old_member, _⟩
  · exact changed old old_member chosen (before old old_member)
  · exact kept item (before item old_member)

theorem Display.forall_add {Q : Item → Prop} {added : Item} (before : ∀ item ∈ display.items, Q item) (new : Q added) :
    ∀ item ∈ (display.add added).items, Q item := by
  intro item member
  rcases List.mem_append.1 member with old | last
  · exact before item old
  · rw [List.mem_singleton.1 last]
    exact new

/-- What may be assumed of the next event of a run: nothing of the provider follows the end of
a turn's response, and an end of a response is counted. -/
structure Counts (display : Display) (run : RunId) (later : RunId → Text → Prop) (envelope : RunEventEnvelope) : Prop where
  provisional : envelope.event.isProvider = true → ∀ turn, envelope.turnId = some turn → ∀ item ∈ display.items,
    item.run = run → item.source = .assistant turn → item.metadata.provisional = true
  ends : envelope.event.endsResponse = true → ∀ turn, envelope.turnId = some turn → later run turn

theorem Display.respond_accounted {response : Text} {event : ProviderEvent}
    (accounted : ∀ item ∈ display.items, item.Accounted later)
    (provisional : ∀ item ∈ display.items, item.run = run → item.source = .assistant turn →
      item.metadata.provisional = true)
    (ends : ∀ final, event = .responseFinished final → later run turn) :
    ∀ item ∈ (display.respond run sequence turn response event).items, item.Accounted later := by
  have opened : ∀ item ∈ (display.withResponse run sequence turn response).items, item.Accounted later ∧
      (item.run = run → item.source = .assistant turn → item.metadata.provisional = true) := by
    unfold Display.withResponse
    split
    · exact fun item member => ⟨accounted item member, provisional item member⟩
    · refine Display.forall_add (fun item member => ⟨accounted item member, provisional item member⟩) ?_
      exact ⟨.of_provisional rfl, fun _ _ => rfl⟩
  refine Display.forall_editWhere opened (fun item facts => facts.1) fun item _ chosen facts => ?_
  simp only [Bool.and_eq_true, decide_eq_true_eq] at chosen
  refine .respond response event (facts.2 chosen.1 chosen.2) chosen.2 fun final finished => ?_
  rw [chosen.1]
  exact ends final finished

theorem Display.observe_accounted {failure : Option (Text × UpstreamOutcome)} {closed : Bool}
    (accounted : ∀ item ∈ display.items, item.Accounted later) :
    ∀ item ∈ (display.observe run sequence turn failure closed).items, item.Accounted later := by
  unfold Display.observe
  split
  · refine Display.forall_editWhere accounted (fun _ held => held) fun item _ chosen held => ?_
    simp only [Bool.and_eq_true, decide_eq_true_eq] at chosen
    exact held.observe failure closed chosen.2
  · refine Display.forall_add accounted (.of_other ?_)
    have source : ((Item.new run sequence (noticeMetadata sequence)).observe sequence failure closed).source =
        .notice sequence 0 := source_observed failure closed _
    rw [source]
    rfl

theorem Display.provider_accounted {event : ProviderEvent}
    (accounted : ∀ item ∈ display.items, item.Accounted later)
    (provisional : ∀ item ∈ display.items, item.run = run → item.source = .assistant turn →
      item.metadata.provisional = true)
    (ends : ∀ final, event = .responseFinished final → later run turn) :
    ∀ item ∈ (display.provider run sequence turn event).items, item.Accounted later := by
  cases event with
  | requestFailed | sessionClosed => exact Display.observe_accounted accounted
  | providerExtension => exact Display.forall_add accounted (.of_other rfl)
  | _ => exact Display.respond_accounted accounted provisional ends

theorem Display.tool_accounted {event : ToolExecutionEvent}
    (accounted : ∀ item ∈ display.items, item.Accounted later) :
    ∀ item ∈ (display.tool run sequence envelope event).items, item.Accounted later := by
  cases event with
  | toolExecutionStarted => exact Display.forall_add accounted (.of_provisional rfl)
  | toolExecutionFinished callId toolName isError =>
    refine Display.forall_editWhere accounted (fun _ held => held) fun item _ chosen held => ?_
    simp only [Bool.and_eq_true, decide_eq_true_eq] at chosen
    exact held.finishTool isError chosen.2
  | toolResultReused callId toolName =>
    rw [Display.tool_reused]
    cases display.find run (.tool callId) with
    | none => exact accounted
    | some item => exact Display.forall_add accounted (.of_other rfl)

theorem Display.settle_accounted (state : State) (accounted : ∀ item ∈ display.items, item.Accounted later) :
    ∀ item ∈ (display.settle run sequence state).items, item.Accounted later := by
  refine Display.forall_editWhere accounted (fun _ held => held) fun item _ chosen _ => ?_
  simp only [Item.unfinished, Bool.and_eq_true] at chosen
  exact .of_provisional chosen.2.2

theorem Display.runtime_accounted (accounted : ∀ item ∈ display.items, item.Accounted later)
    (counts : Counts display run later envelope) :
    ∀ item ∈ (display.runtime run sequence envelope).items, item.Accounted later := by
  unfold Display.runtime
  split
  · exact accounted
  · exact accounted
  · refine Display.forall_editWhere accounted (fun _ held => held) fun item _ _ held => ?_
    exact held.finishTurn _ _
  · exact Display.settle_accounted _ accounted
  · rename_i provided turn is_event in_turn
    refine Display.provider_accounted accounted (counts.provisional (by rw [is_event]; rfl) turn in_turn) ?_
    intro final finished
    refine counts.ends ?_ turn in_turn
    rw [is_event]
    simp only [RunEvent.endsResponse, finished]
  · exact Display.tool_accounted accounted
  · exact accounted

theorem Display.applyRun_accounted (accounted : ∀ item ∈ display.items, item.Accounted later)
    (counts : ∀ envelope, input = .runtime envelope → Counts display run later envelope) :
    ∀ item ∈ (display.applyRun run sequence input).items, item.Accounted later := by
  cases input with
  | accepted => exact Display.forall_add accounted (.of_other rfl)
  | runtime envelope => exact Display.runtime_accounted accounted (counts envelope rfl)
  | toolResult request callId output isError =>
    refine Display.forall_editWhere accounted (fun _ held => held) fun item _ chosen _ => ?_
    simp only [Bool.and_eq_true, decide_eq_true_eq] at chosen
    exact .recordResult output isError chosen.2
  | result | interrupted => exact Display.settle_accounted _ accounted
  | created | renamed | historySelected | providerBound => exact accounted

theorem Display.settle_waiting (accounted : ∀ item ∈ display.items, item.Accounted ended)
    (settling : state.waiting = false) : ∀ item ∈ (display.settle run sequence state).items, item.run = run →
      item.source.isActivity = true → item.metadata.state.waiting = false := by
  intro item member own activity
  rcases Table.mem_update.1 member with ⟨old, old_member, chosen, rfl⟩ | ⟨old_member, other⟩
  · exact Item.settle_waiting settling
  · have final : item.metadata.provisional = false := by
      cases open_entry : item.metadata.provisional with
      | false => rfl
      | true =>
        have selected : (decide (item.run = run) && item.unfinished) = true := by
          simp only [Source.isActivity] at activity
          simp [own, Item.unfinished, activity, open_entry]
        rw [selected] at other
        cases other
    exact (accounted item old_member).state activity final

/-- No entry of a run that has ended is left waiting. -/
def Display.Concluded (display : Display) : Prop :=
  ∀ block ∈ display.blocks, active block.header.state = false → ∀ item ∈ display.items, item.run = block.runId →
    item.source.isActivity = true → item.metadata.state.waiting = false

/-- The record that ends a run, or joins one that has ended. -/
def Input.endsRun : Input → Bool
  | .runtime envelope =>
    match envelope.event with
    | .runFinished .. => true
    | _ => false
  | .result _ | .interrupted => true
  | _ => false

theorem Display.endsRun_settles (ends : input.endsRun = true) (display : Display) (run : RunId) (sequence : Nat) :
    ∃ state : State, state.waiting = false ∧
      (display.applyRun run sequence input).items = (display.settle run sequence state).items := by
  cases input with
  | runtime envelope =>
    rw [Input.endsRun] at ends
    split at ends
    · rename_i outcome summary finished
      refine ⟨.unfinished outcome, State.waiting_unfinished outcome, ?_⟩
      rw [Display.applyRun, Display.runtime, finished]
      rfl
    · cases ends
  | result result => exact ⟨.unfinished result.outcome, State.waiting_unfinished _, rfl⟩
  | interrupted => exact ⟨.interrupted, rfl, rfl⟩
  | _ => cases ends

/-- The blocks after an event change in the header of its run only, which stays open. -/
def Display.KeepsOpen (display : Display) (run : RunId) (sequence : Nat) (after : Display) : Prop :=
  ∃ change : BlockHeader → BlockHeader, (∀ header, active header.state = true → active (change header).state = true) ∧
    after.blocks = display.blocks.map (headed run sequence change)

theorem Display.KeepsOpen.head {after : Display} (same : after.blocks = display.blocks) (change : BlockHeader → BlockHeader)
    (stays : ∀ header, active header.state = true → active (change header).state = true) :
    display.KeepsOpen run sequence (after.head run sequence change) := by
  refine ⟨change, stays, ?_⟩
  rw [Display.blocks_head, same]

theorem Display.provider_open (turn : Text) (event : ProviderEvent) :
    display.KeepsOpen run sequence (display.provider run sequence turn event) := by
  have noticed (failure : Option (Text × UpstreamOutcome)) (closed : Bool) :
      (display.observe run sequence turn failure closed).blocks = display.blocks := by
    unfold Display.observe
    split <;> rfl
  have responded (response : Text) (event : ProviderEvent) : ((display.withResponse run sequence turn response).edit run
      (.assistant turn) (Item.respond sequence response event)).blocks = display.blocks := by
    unfold Display.withResponse
    split <;> rfl
  cases event with
  | requestFailed | sessionClosed => exact .head (noticed _ _) id fun _ still => still
  | providerExtension => exact .head rfl id fun _ still => still
  | _ => exact .head (responded _ _) _ fun _ still => still

theorem Display.runtime_open (goes_on : (Input.runtime envelope).endsRun = false) :
    display.KeepsOpen run sequence (display.runtime run sequence envelope) ∨
      display.runtime run sequence envelope = display := by
  unfold Display.runtime
  split
  · exact .inl (.head rfl _ fun _ _ => rfl)
  · exact .inl (.head rfl _ fun _ still => still)
  · exact .inl (.head rfl _ fun _ still => still)
  · rename_i finished
    simp only [Input.endsRun, finished] at goes_on
    cases goes_on
  · exact .inl (Display.provider_open _ _)
  · rename_i event _ _ _
    have same : (display.tool run sequence envelope event).blocks = display.blocks := by
      cases event with
      | toolExecutionStarted | toolExecutionFinished => rfl
      | toolResultReused =>
        simp only [Display.tool]
        split <;> rfl
    exact .inl (.head same id fun _ still => still)
  · exact .inr rfl

theorem Display.applyRun_open {weight : Nat} (sound : display.Sound weight) (goes_on : input.endsRun = false)
    (admits : display.AdmitsRun run input) (later : ∀ accepted, input ≠ .accepted accepted) {block : BlockRow}
    (member : block ∈ (display.applyRun run sequence input).blocks) (own : block.runId = run) :
    active block.header.state = true ∨ display.applyRun run sequence input = display := by
  cases input with
  | accepted accepted => exact absurd rfl (later accepted)
  | historySelected | providerBound | created | renamed => exact .inr rfl
  | result | interrupted => cases goes_on
  | toolResult request callId output isError =>
    obtain ⟨row, found, running, _⟩ := admits
    rw [sound.block_eq found member own, running]
    exact .inl rfl
  | runtime envelope =>
    obtain ⟨_, _, row, found, is_active, _⟩ := admits
    refine (Display.runtime_open goes_on).imp (fun ⟨change, stays, changed⟩ => ?_) id
    change block ∈ (display.runtime run sequence envelope).blocks at member
    rw [changed] at member
    obtain ⟨old, old_member, rfl⟩ := List.mem_map.1 member
    have old_own : old.runId = run := by
      unfold headed at own
      split at own
      · assumption
      · exact own
    rw [headed, if_pos old_own, sound.block_eq found old_member old_own]
    exact stays _ is_active

theorem Display.Concluded.apply {event : Event} {weight : Nat} (concluded : display.Concluded)
    (sound : display.Sound weight) (accounted : ∀ item ∈ display.items, item.Accounted ended)
    (admits : display.Admits event) (fits : 2 * event.input.weight < 2 ^ 64) : (display.apply event).Concluded := by
  obtain ⟨next, lawful⟩ := admits
  rw [Display.apply]
  cases of_run : event.run with
  | none => exact concluded
  | some run =>
    rw [of_run] at lawful
    dsimp only at lawful ⊢
    by_cases accepts : ∃ accepted, event.input = .accepted accepted
    · obtain ⟨accepted, is_input⟩ := accepts
      rw [is_input]
      intro block member inactive item item_member own activity
      rcases List.mem_append.1 item_member with old_item | human
      · rcases List.mem_append.1 member with old | opening
        · exact concluded block old inactive item old_item own activity
        · rw [List.mem_singleton.1 opening] at inactive
          cases inactive
      · rw [List.mem_singleton.1 human] at activity
        cases activity
    · have later : ∀ accepted, event.input ≠ .accepted accepted := fun accepted same => accepts ⟨accepted, same⟩
      have ahead : display.applied < event.sequence := by omega
      obtain ⟨_, change, added, head, items, blocks, after, _⟩ := Advances.applyRun sound ahead lawful later fits
      intro block member inactive item item_member own activity
      by_cases here : block.runId = run
      · -- The run of the event either ends here or was left open.
        cases ends : event.input.endsRun with
        | true =>
          obtain ⟨state, settling, settled⟩ := Display.endsRun_settles ends display run event.sequence
          change item ∈ (display.applyRun run event.sequence event.input).items at item_member
          rw [settled] at item_member
          exact Display.settle_waiting accounted settling item item_member (own.trans here) activity
        | false =>
          rcases Display.applyRun_open sound ends lawful later member here with still | same
          · rw [still] at inactive
            cases inactive
          · change item ∈ (display.applyRun run event.sequence event.input).items at item_member
            change block ∈ (display.applyRun run event.sequence event.input).blocks at member
            rw [same] at item_member member
            exact concluded block member inactive item item_member own activity
      · -- Other runs keep their block and their entries.
        rw [after] at member item_member
        obtain ⟨old, old_member, rfl⟩ := List.mem_map.1 member
        have kept : head old = old := by
          rcases blocks.touched old old_member with same | ⟨touched, named, _⟩
          · exact same
          · exact absurd (named.trans touched) here
        rw [kept] at inactive own
        rcases List.mem_append.1 item_member with was | new
        · obtain ⟨before, before_member, rfl⟩ := List.mem_map.1 was
          have unchanged : change before = before := by
            rcases items.touched before before_member with same | ⟨touched, named⟩
            · exact same
            · rw [kept] at here
              exact absurd (own.symm.trans (named.run.trans touched)) here
          rw [unchanged] at own activity ⊢
          exact concluded old old_member inactive before before_member own activity
        · rw [kept] at here
          exact absurd (own.symm.trans (items.fresh item new).1) here

end Displays

section Logs
variable [JsonHash] {provenance : CreationProvenance} {log : List StoredEvent}

/-- A turn whose response has finished or failed. -/
def ResponseEnded (log : List StoredEvent) (run : RunId) (turn : Text) : Prop :=
  ∃ envelope ∈ runtimes run log, envelope.event.endsResponse = true ∧ envelope.turnId = some turn

/-- In no turn does a provider event follow the end of the turn's response. -/
def QuietAfterEnd (log : List StoredEvent) : Prop :=
  ∀ run, (runtimes run log).Pairwise fun earlier later => earlier.event.endsResponse = true →
    later.event.isProvider = true → later.turnId ≠ earlier.turnId

theorem QuietAfterEnd.early {before : List StoredEvent} (quiet : QuietAfterEnd log) (early : before <+: log) :
    QuietAfterEnd before :=
  fun run => (quiet run).sublist (early.sublist.filterMap _)

theorem Lawful.accounted (lawful : Lawful provenance log) (quiet : QuietAfterEnd log) :
    ∀ item ∈ (Display.ofLog log).items, item.Accounted (ResponseEnded log) := by
  induction lawful with
  | created => exact fun item member => absurd member List.not_mem_nil
  | @follows log event lawful follows ih =>
    have accounted : ∀ item ∈ (Display.ofLog log).items, item.Accounted (ResponseEnded (log ++ [event])) := by
      refine fun item member => (ih (quiet.early (List.prefix_append _ _)) item member).mono fun run turn ⟨envelope, listed, ended⟩ => ?_
      refine ⟨envelope, ?_, ended⟩
      rw [runtimes_append]
      exact List.mem_append_left _ listed
    rw [Display.ofLog_append lawful.ne_nil, Display.apply]
    cases of_run : event.shown.run with
    | none => exact accounted
    | some run =>
      refine Display.applyRun_accounted accounted fun envelope is_runtime => ?_
      have last : event.runtime run = some envelope := by
        refine StoredEvent.runtime_eq_some.2 ⟨?_, of_run⟩
        cases is_payload : event.payload <;> simp [StoredEvent.shown, StoredEventPayload.input, is_payload] at is_runtime
        rw [is_runtime]
      have whole := quiet run
      rw [runtimes_append, last] at whole
      constructor
      · intro provider turn in_turn item member same_run is_response
        cases final : item.metadata.provisional with
        | true => rfl
        | false =>
          obtain ⟨earlier, listed, ended, there⟩ := (ih (quiet.early (List.prefix_append _ _)) item member).response turn is_response final
          rw [same_run] at listed
          have apart := (List.pairwise_append.1 whole).2.2 earlier listed envelope (by simp) ended provider
          exact absurd (in_turn.trans there.symm) apart
      · intro ends turn in_turn
        refine ⟨envelope, ?_, ends, in_turn⟩
        rw [runtimes_append, last]
        simp

theorem Lawful.concluded (lawful : Lawful provenance log) (quiet : QuietAfterEnd log) : (Display.ofLog log).Concluded := by
  induction lawful with
  | created => exact fun block member => absurd member List.not_mem_nil
  | @follows log event lawful follows ih =>
    have shown := lawful.shown
    have small : 2 * event.shown.input.weight < 2 ^ 64 := by
      have room := follows.room
      rw [eventsWeight_append] at room
      rw [StoredEvent.shown_weight]
      simp only [databaseLimit] at room
      omega
    rw [Display.ofLog_append lawful.ne_nil]
    exact (ih (quiet.early (List.prefix_append _ _))).apply shown.sound (lawful.accounted (quiet.early (List.prefix_append _ _))) (shown.admits lawful follows) small

end Logs

section Tables
variable [JsonHash] {sql next : Conversation} {run : RunId} {sequence : Nat} {state : State}

/-- Two states of the tables with the same content. -/
def Conversation.SameContent (sql next : Conversation) : Prop := next.fields = sql.fields ∧ next.chunks = sql.chunks

theorem Rows.save_content {entry : Entry} (done : Rows.save sql run sequence entry = .ok next) : sql.SameContent next := by
  simp only [Rows.save, bind_eq_ok, pure_eq_ok, Except.ok.injEq] at done
  obtain ⟨_, _, _, _, _, _, rfl⟩ := done
  exact ⟨rfl, rfl⟩

theorem Rows.saveBlock_content {header : BlockHeader} (done : Rows.saveBlock sql run sequence header = .ok next) :
    sql.SameContent next := by
  simp only [Rows.saveBlock, bind_eq_ok, pure_eq_ok, Except.ok.injEq] at done
  obtain ⟨_, _, _, _, rfl⟩ := done
  exact ⟨rfl, rfl⟩

theorem Conversation.SameContent.trans {last : Conversation} (first : sql.SameContent next) (second : next.SameContent last) :
    sql.SameContent last := ⟨second.1.trans first.1, second.2.trans first.2⟩

theorem settleFrom_content {fuel : Nat} {after : Nat × Nat}
    (done : settleFrom run sequence state fuel sql after = .ok next) : sql.SameContent next := by
  induction fuel generalizing sql after with
  | zero => cases done
  | succ fuel ih =>
    rw [settleFrom] at done
    dsimp only at done
    split at done
    · cases done
      exact ⟨rfl, rfl⟩
    · simp only [bind_eq_ok] at done
      obtain ⟨entry, _, saved, saves, _, _, _, _, rest⟩ := done
      exact (Rows.save_content saves).trans (ih rest)

theorem applyRun_content (ends : input.endsRun = true)
    (done : Projector.applyRun sql run sequence input = .ok next) : sql.SameContent next := by
  cases input with
  | runtime envelope =>
    rw [Input.endsRun] at ends
    split at ends
    · rename_i outcome summary finished
      simp only [Projector.applyRun, Projector.observe, finished, bind_eq_ok, pure_eq_ok, Except.ok.injEq] at done
      obtain ⟨_, _, _, _, _, _, settled, settles, _, rfl, saves⟩ := done
      exact (settleFrom_content settles).trans (Rows.saveBlock_content saves)
    · cases ends
  | result result =>
    simp only [Projector.applyRun, Projector.recordResult, bind_eq_ok] at done
    obtain ⟨_, _, _, _, _, _, _, _, settled, settles, saves⟩ := done
    exact (settleFrom_content settles).trans (Rows.saveBlock_content saves)
  | interrupted =>
    simp only [Projector.applyRun, Projector.interrupt, bind_eq_ok] at done
    obtain ⟨_, _, _, _, settled, settles, saves⟩ := done
    exact (settleFrom_content settles).trans (Rows.saveBlock_content saves)
  | _ => cases ends

theorem apply_content {event : Event} (ends : event.input.endsRun = true) (own : event.run = some run)
    (done : Projector.apply sql event = .ok next) : sql.SameContent next := by
  rw [Projector.apply] at done
  cases is_input : event.input with
  | runtime | result | interrupted =>
    rw [is_input] at done ends
    simp only [bind_eq_ok, own, present_some, Except.ok.injEq, pure_eq_ok] at done
    obtain ⟨_, _, _, _, _, _, _, rfl, applied, does, rfl⟩ := done
    have same := applyRun_content ends does
    exact ⟨same.1, same.2⟩
  | _ =>
    rw [is_input] at ends
    cases ends

/-- What the end of a run does to the tables: its responses and tool calls show an end, entries
that were final keep their row, and no text, generation or epoch changes. -/
structure Conversation.Settles (run : RunId) (before after : Conversation) : Prop where
  ended : ∀ row ∈ after.entries, row.runId = run → row.kind = .assistant ∨ row.kind = .tool →
    row.metadata.state ≠ .accepted ∧ row.metadata.state ≠ .inProgress
  kept : List.Forall₂ (fun old new => new.runId = old.runId ∧ new.entryId = old.entryId ∧
    new.contentEpoch = old.contentEpoch ∧ (old.metadata.provisional = false → new = old)) before.entries after.entries
  fields : after.fields = before.fields
  chunks : after.chunks = before.chunks

end Tables

section Ending
variable [JsonHash] {provenance : CreationProvenance} {db : Db} {log : List StoredEvent} {event : StoredEvent}

omit [JsonHash] in
theorem State.not_waiting (settled : state.waiting = false) : state ≠ .accepted ∧ state ≠ .inProgress := by
  constructor <;> rintro rfl <;> cases settled

omit [JsonHash] in
theorem Source.isActivity_iff {source : Source} : source.isActivity = true ↔ source.kind = .assistant ∨ source.kind = .tool := by
  simp [Source.isActivity]

theorem Lawful.settles (lawful : Lawful provenance log) (collision : CollisionFree) (quiet : QuietAfterEnd log)
    (follows : Follows log provenance.sessionId event) {run : RunId} (own : event.runId = some run)
    (ends : event.payload.input.endsRun = true) :
    ∃ old next, Projector.replay log = .ok old ∧ Projector.apply old event.shown = .ok next ∧ old.Settles run next := by
  obtain ⟨old, replayed, represents⟩ := lawful.replay collision
  obtain ⟨next, applied, after⟩ := lawful.project collision represents follows
  refine ⟨old, next, replayed, applied, ?_⟩
  obtain ⟨state, settling, settled⟩ := Display.endsRun_settles ends (Display.ofLog log) run event.sequence
  have items : (Display.ofLog (log ++ [event])).items = ((Display.ofLog log).settle run event.sequence state).items := by
    rw [Display.ofLog_append lawful.ne_nil, ← settled]
    simp only [Display.apply, StoredEvent.shown, own]
    rfl
  have content := apply_content ends own applied
  refine ⟨?_, ?_, content.1, content.2⟩
  · intro row member same activity
    rw [after.entries, items] at member
    obtain ⟨item, item_member, rfl⟩ := List.mem_map.1 member
    exact State.not_waiting (Display.settle_waiting (lawful.accounted quiet) settling item item_member same
      (Source.isActivity_iff.2 activity))
  · rw [represents.entries, after.entries, items, List.forall₂_map_left_iff, List.forall₂_map_right_iff]
    simp only [Display.settle, Display.editWhere, Table.update, List.forall₂_map_right_iff]
    refine List.forall₂_same.2 fun item _ => ?_
    split
    · rename_i chosen
      refine ⟨rfl, rfl, rfl, fun final => ?_⟩
      simp only [Item.unfinished, Bool.and_eq_true] at chosen
      cases chosen.2.2.symm.trans final
    · exact ⟨rfl, rfl, rfl, fun _ => rfl⟩

/-- In a session where nothing of the provider follows the end of a turn's response, the record
that ends a run settles its entries, and a run that has ended shows no unfinished work. -/
theorem terminal_runs_settled (collision : CollisionFree) (reachable : Reachable provenance db)
    (quiet : QuietAfterEnd db.events) :
    (∀ before event, before ++ [event] <+: db.events → ∀ run, event.runId = some run →
      event.payload.input.endsRun = true →
      ∃ old next, Projector.replay before = .ok old ∧ Projector.apply old event.shown = .ok next ∧ old.Settles run next) ∧
    ∀ row ∈ db.runs, active row.state = false → ∀ entry ∈ db.conversation.entries, entry.runId = row.runId →
      entry.kind = .assistant ∨ entry.kind = .tool →
      entry.metadata.state ≠ .accepted ∧ entry.metadata.state ≠ .inProgress := by
  have recorded := (reachable.committed collision).recorded
  have lawful := recorded.lawful
  constructor
  · intro before event early run own ends
    have grown := lawful.of_prefix early (by simp)
    have started : before ≠ [] := by
      -- The first event creates the session.
      rintro rfl
      have member : event ∈ [] ++ [event] := by simp
      have first := grown.mem_sequence member
      have created := (valid_eq_ok.1 (grown.valid member)).2.2.1
      rw [show event.sequence = 1 by simp at first; omega] at created
      cases is_payload : event.payload <;> rw [is_payload] at created ends <;>
        first | (cases ends; done) | cases created
    obtain ⟨earlier, follows⟩ := grown.inv started
    have early_before : before <+: db.events := (List.prefix_append _ _).trans early
    exact earlier.settles collision (quiet.early early_before) follows own ends
  · intro row member inactive entry entry_member same activity
    have represents := recorded.represents collision
    rw [represents.entries] at entry_member
    obtain ⟨item, item_member, rfl⟩ := List.mem_map.1 entry_member
    rw [recorded.runs] at member
    obtain ⟨block, found, shown⟩ := RunShown.find lawful.shown.linked.runs (lawful.ledger.find_run.2 ⟨member, rfl⟩)
    have block_member : block ∈ (Display.ofLog db.events).blocks := List.mem_of_find?_eq_some found
    refine State.not_waiting (lawful.concluded quiet block block_member ?_ item item_member ?_
      (Source.isActivity_iff.2 activity))
    · rwa [shown.state]
    · exact same.trans shown.run.symm

theorem quietAfterEnd_of_open (none_ends : log.all fun event =>
    (event.runId.bind event.runtime).all fun envelope => !envelope.event.endsResponse) : QuietAfterEnd log := by
  refine fun run => List.pairwise_of_forall_mem_list fun earlier listed later _ ends => ?_
  obtain ⟨event, member, is_runtime⟩ := List.mem_filterMap.1 listed
  have each := List.all_eq_true.1 none_ends event member
  simp [(StoredEvent.runtime_eq_some.1 is_runtime).2, is_runtime, ends] at each

end Ending

theorem terminal_runs_settled_reopened : letI := JsonHash.ideal
    Reachable .ideal reopened ∧ QuietAfterEnd reopened.events ∧ ∃ before event, before ++ [event] <+: reopened.events ∧
      event.runId = some Uuid.one ∧ event.payload.input.endsRun = true ∧
      ∃ old next, Projector.replay before = .ok old ∧ Projector.apply old event.shown = .ok next ∧
        old.Settles Uuid.one next := by
  let _ := JsonHash.ideal
  have evaluated : (reopened.events.all fun event =>
        (event.runId.bind event.runtime).all fun envelope => !envelope.event.endsResponse) = true ∧
      reopened.events.getLast?.map (fun event => (event.runId, event.payload.input.endsRun)) = some (some Uuid.one, true) := by
    decide +kernel
  have quiet : QuietAfterEnd reopened.events := quietAfterEnd_of_open evaluated.1
  obtain ⟨event, last, facts⟩ := Option.map_eq_some_iff.1 evaluated.2
  simp only [Prod.mk.injEq] at facts
  have early : reopened.events.dropLast ++ [event] <+: reopened.events := by
    rw [List.dropLast_append_getLast? event last]
  exact ⟨reopened_reachable, quiet, _, event, early, facts.1, facts.2,
    (terminal_runs_settled JsonHash.ideal_collisionFree reopened_reachable quiet).1 _ event early _ facts.1 facts.2⟩

end Wi
