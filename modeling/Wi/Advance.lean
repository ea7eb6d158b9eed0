import Wi.Sound

/-! Every admitted event advances the display: it touches entries and the block of its own
run, and creates at most one entry. -/
namespace Wi
open Utf8 Content Rows Projector

def Input.weight : Input → Nat
  | .accepted input => bytes input.userText + 1
  | .runtime event => event.event.weight + 1
  | .toolResult _ _ output _ => bytes output + 1
  | _ => 1

/-- What an event of a run, other than its acceptance, may do to the display. -/
def Advances (display : Display) (run : RunId) (sequence growth : Nat) (after : Display) : Prop :=
  ∃ change added head, ItemStep display run sequence growth change added ∧ BlockStep display run sequence head ∧
    after = ⟨sequence, display.titled, display.blocks.map head, display.items.map change ++ added⟩ ∧
    (∀ item ∈ added, item.source ≠ .human) ∧
    ∀ row ∈ display.blocks, (head row).header.currentAssistant =
      (head row).header.currentTurn.bind (after.assistantId row.runId)

section Steps
variable {display : Display} {run : RunId} {sequence weight growth : Nat}

theorem Advances.sound {after : Display} (advances : Advances display run sequence growth after)
    (sound : display.Sound weight) (next : sequence = display.applied + 1)
    (block : ∃ row, display.block run = some row) : after.Sound (weight + growth) := by
  obtain ⟨change, added, head, items, blocks, rfl, others, current⟩ := advances
  exact sound.advance next items blocks block others current

theorem ItemStep.edit {selected : Item → Bool} {change : Item → Item}
    (each : ∀ item ∈ display.items, selected item = true → item.run = run ∧
      (change item = item ∨ Item.Touched sequence growth item (change item))) :
    ItemStep display run sequence growth (fun item => if selected item then change item else item) [] := by
  refine ⟨fun item member => ?_, by simp, by simp⟩
  by_cases chosen : selected item = true
  · simp only [chosen, if_true]
    obtain ⟨same_run, unchanged | touched⟩ := each item member chosen
    · exact .inl unchanged
    · exact .inr ⟨same_run, touched⟩
  · simp only [chosen]
    exact .inl rfl

theorem ItemStep.add {item : Item} (same_run : item.run = run) (fresh : item.Fresh sequence growth)
    (absent : display.find run item.source = none) (refers : display.Refers item) :
    ItemStep display run sequence growth id [item] := by
  refine ⟨fun _ _ => .inl rfl, fun new member => ?_, by simp⟩
  rw [List.mem_singleton.1 member]
  exact ⟨same_run, fresh, absent, refers⟩

/-- The row of the run with its header changed, and every other row as it is. -/
def headed (run : RunId) (sequence : Nat) (change : BlockHeader → BlockHeader) (row : BlockRow) : BlockRow :=
  if row.runId = run then { row with changedSequence := sequence, header := change row.header } else row

theorem BlockStep.idle : BlockStep display run sequence id := ⟨fun _ _ => .inl rfl⟩

theorem BlockStep.head {change : BlockHeader → BlockHeader}
    (each : ∀ row ∈ display.blocks, row.runId = run →
      (change row.header).human = row.header.human ∧ safeOutcome (change row.header).outcome = true) :
    BlockStep display run sequence (headed run sequence change) := by
  refine ⟨fun row member => ?_⟩
  rw [headed]
  by_cases own : row.runId = run
  · rw [if_pos own]
    exact .inr ⟨own, rfl, rfl, rfl, each row member own⟩
  · rw [if_neg own]
    exact .inl rfl

theorem Display.blocks_head (display : Display) (run : RunId) (sequence : Nat) (change : BlockHeader → BlockHeader) :
    (display.head run sequence change).blocks = display.blocks.map (headed run sequence change) := by
  rw [Display.head, Table.update]
  refine List.map_congr_left fun row _ => ?_
  rw [headed]
  by_cases own : row.runId = run <;> simp [own]

theorem current_headed {change : BlockHeader → BlockHeader} (sound : display.Sound weight)
    (each : ∀ row ∈ display.blocks, row.runId = run → (change row.header).currentAssistant =
      (change row.header).currentTurn.bind (display.assistantId run)) :
    ∀ row ∈ display.blocks, (headed run sequence change row).header.currentAssistant =
      (headed run sequence change row).header.currentTurn.bind (display.assistantId row.runId) := by
  intro row member
  rw [headed]
  by_cases own : row.runId = run
  · rw [if_pos own, own]
    exact each row member own
  · rw [if_neg own]
    exact sound.current row member

theorem Advances.edit_head (sound : display.Sound weight) {selected : Item → Bool} {change : Item → Item}
    {head : BlockHeader → BlockHeader}
    (each : ∀ item ∈ display.items, selected item = true → item.run = run ∧
      (change item = item ∨ Item.Touched sequence growth item (change item)))
    (header : ∀ row ∈ display.blocks, row.runId = run →
      (head row.header).human = row.header.human ∧ safeOutcome (head row.header).outcome = true)
    (current : ∀ row ∈ display.blocks, row.runId = run → (head row.header).currentAssistant =
      (head row.header).currentTurn.bind (display.assistantId run)) :
    Advances display run sequence growth
      (((display.editWhere selected change).head run sequence head).upTo sequence) := by
  have step : ItemStep display run sequence growth _ [] := ItemStep.edit each
  refine ⟨_, [], headed run sequence head, step, .head header, ?_, by simp, ?_⟩
  · exact Display.ext rfl rfl (Display.blocks_head ..) (List.append_nil _).symm
  · intro row member
    rw [current_headed sound current row member]
    congr 1
    funext turn
    exact (step.assistantId (List.append_nil _).symm (by simp) row.runId turn).symm

/-- An event that creates an entry other than a response, and touches the header of its run. -/
theorem Advances.add_head (sound : display.Sound weight) {item : Item} (same_run : item.run = run)
    (fresh : item.Fresh sequence growth) (absent : display.find run item.source = none)
    (refers : display.Refers item) (other : item.source ≠ .human) (no_response : ∀ turn, item.source ≠ .assistant turn) :
    Advances display run sequence growth (((display.add item).head run sequence id).upTo sequence) := by
  have step : ItemStep display run sequence growth id [item] := ItemStep.add same_run fresh absent refers
  have header : ∀ row ∈ display.blocks, row.runId = run →
      (id row.header).human = row.header.human ∧ safeOutcome (id row.header).outcome = true :=
    fun row member _ => ⟨rfl, (blockValid_iff.1 (sound.blocks row member)).2.2.2.2⟩
  have items : (((display.add item).head run sequence id).upTo sequence).items = display.items.map id ++ [item] := by
    rw [List.map_id]
    rfl
  refine ⟨id, [item], headed run sequence id, step, .head header, ?_, by simpa using other, ?_⟩
  · exact Display.ext rfl rfl (Display.blocks_head ..) items
  · intro row member
    have kept : ∀ row ∈ display.blocks, row.runId = run →
        (id row.header).currentAssistant = (id row.header).currentTurn.bind (display.assistantId run) :=
      fun row member own => own ▸ sound.current row member
    rw [current_headed sound kept row member]
    congr 1
    funext turn
    exact (step.assistantId items (by simpa using no_response) row.runId turn).symm

theorem Advances.edit (sound : display.Sound weight) {selected : Item → Bool} {change : Item → Item}
    (each : ∀ item ∈ display.items, selected item = true → item.run = run ∧
      (change item = item ∨ Item.Touched sequence growth item (change item))) :
    Advances display run sequence growth ((display.editWhere selected change).upTo sequence) := by
  have step : ItemStep display run sequence growth _ [] := ItemStep.edit each
  refine ⟨_, [], id, step, .idle, ?_, by simp, ?_⟩
  · exact Display.ext rfl rfl (List.map_id _).symm (List.append_nil _).symm
  · intro row member
    rw [id, sound.current row member]
    congr 1
    funext turn
    exact (step.assistantId (List.append_nil _).symm (by simp) row.runId turn).symm

theorem Advances.quiet (sound : display.Sound weight) :
    Advances display run sequence growth (display.upTo sequence) := by
  have nothing : display.editWhere (fun _ => false) id = display := by
    rw [Display.editWhere, Table.update_eq_self (by simp)]
  have quiet : Advances display run sequence growth ((display.editWhere (fun _ => false) id).upTo sequence) :=
    Advances.edit sound (by simp)
  rwa [nothing] at quiet

end Steps

theorem Display.edit_add {display : Display} {item : Item} {run : RunId} {source : Source}
    (missing : display.find run source = none) (same_run : item.run = run) (same_source : item.source = source)
    (change : Item → Item) : (display.add item).edit run source change = display.add (change item) := by
  have untouched : Table.update (fun item => item.run = run && item.source = source) change display.items =
      display.items := congrArg Display.items (Display.edit_of_none missing change)
  refine Display.ext rfl rfl rfl ?_
  have split : ((display.add item).edit run source change).items =
      Table.update (fun item => item.run = run && item.source = source) change display.items ++
        Table.update (fun item => item.run = run && item.source = source) change [item] := by
    simp [Display.edit, Display.editWhere, Display.add, Table.update]
  rw [split, untouched]
  simp [Table.update, same_run, same_source, Display.add]

section Respond
variable {display : Display} {run : RunId} {sequence weight growth : Nat} {row : BlockRow} {turn : Text}

theorem Display.Sound.header_kept (sound : display.Sound weight) (change : BlockHeader → BlockHeader)
    (human : ∀ header, (change header).human = header.human) (outcome : ∀ header, (change header).outcome = header.outcome) :
    ∀ row ∈ display.blocks, row.runId = run →
      (change row.header).human = row.header.human ∧ safeOutcome (change row.header).outcome = true := by
  intro row member _
  rw [outcome]
  exact ⟨human _, (blockValid_iff.1 (sound.blocks row member)).2.2.2.2⟩

theorem Display.Sound.block_eq (sound : display.Sound weight) (found : display.block run = some row) {other : BlockRow}
    (member : other ∈ display.blocks) (own : other.runId = run) : other = row := by
  have row_own : row.runId = run := by simpa using List.find?_some found
  exact List.inj_on_of_nodup_map sound.runs member (List.mem_of_find?_eq_some found) (own.trans row_own.symm)

theorem Item.assistant_written {turn : Text} {source : Source} (assistant : source = .assistant turn) : source.Written := by
  rw [assistant]
  trivial

theorem Advances.add_response (sound : display.Sound weight) (found : display.block run = some row)
    (current : row.header.currentTurn = some turn) {item : Item} (same_run : item.run = run)
    (fresh : item.Fresh sequence growth) (source : item.source = .assistant turn)
    (absent : display.find run (.assistant turn) = none) (no_reference : item.metadata.reference = none) :
    Advances display run sequence growth (((display.add item).head run sequence fun header =>
      { header with currentAssistant := some item.id }).upTo sequence) := by
  have step : ItemStep display run sequence growth id [item] := by
    refine ItemStep.add same_run fresh (source ▸ absent) fun target is_target => ?_
    rw [no_reference] at is_target
    cases is_target
  have items : (((display.add item).head run sequence fun header =>
      { header with currentAssistant := some item.id }).upTo sequence).items = display.items.map id ++ [item] := by
    rw [List.map_id]
    rfl
  refine ⟨id, [item], headed run sequence fun header => { header with currentAssistant := some item.id }, step,
    .head (sound.header_kept _ (fun _ => rfl) fun _ => rfl), Display.ext rfl rfl ?_ items,
    by simp [source], fun other member => ?_⟩
  · exact Display.blocks_head (display.add item) run sequence fun header =>
      { header with currentAssistant := some item.id }
  rw [headed]
  by_cases own : other.runId = run
  · rw [if_pos own, sound.block_eq found member own]
    have here : row.runId = run := by simpa using List.find?_some found
    simp only [current, Option.bind_some]
    rw [Display.assistantId, step.find items, here, absent]
    simp [same_run, source]
  · rw [if_neg own, sound.current other member]
    congr 1
    funext otherTurn
    rw [Display.assistantId, Display.assistantId, step.find items]
    cases display.find other.runId (.assistant otherTurn) with
    | some known => rfl
    | none =>
      have elsewhere : ¬item.run = other.runId := fun same => own (same.symm.trans same_run)
      simp [elsewhere]

theorem Advances.respond (sound : display.Sound weight) (found : display.block run = some row)
    (current : row.header.currentTurn = some turn) (next : display.applied < sequence) (response : Text)
    (event : ProviderEvent) (fits : 2 * event.weight < 2 ^ 64) :
    Advances display run sequence (event.weight + 1)
      ((display.respond run sequence turn response event).upTo sequence) := by
  rw [Display.respond, Display.withResponse]
  cases existing : display.find run (.assistant turn) with
  | some item =>
    simp only
    rw [Display.edit]
    refine Advances.edit_head sound ?_ (sound.header_kept _ (fun _ => rfl) fun _ => rfl) ?_
    · intro other member selected
      simp only [Bool.and_eq_true, decide_eq_true_eq] at selected
      exact ⟨selected.1, .inr ((sound.items other member).respond (Item.assistant_written selected.2) response event
        fits)⟩
    · intro other member own
      rw [sound.block_eq found member own]
      simp only [current, Option.bind_some, Display.assistantId]
  | none =>
    simp only
    have new_source : (Item.new run sequence (assistantMetadata turn response)).source = .assistant turn := rfl
    rw [Display.edit_add existing rfl new_source]
    have start : (Item.new run sequence (assistantMetadata turn response)).Fresh sequence 0 :=
      Item.fresh_new run (assistantMetadata_valid ..) (Item.shape_written trivial (by simp [Item.new]))
    have touched : Item.Touched sequence (event.weight + 1) _ _ :=
      (start.sound (by omega)).respond (Item.assistant_written new_source) response event fits
    have fresh := start.touched touched
    rw [Nat.zero_add] at fresh
    have source := touched.source.trans new_source
    have no_reference : ((Item.new run sequence (assistantMetadata turn response)).respond sequence response
        event).metadata.reference = none := touched.reference
    have named : ((display.add (Item.new run sequence (assistantMetadata turn response))).find run (.assistant turn)).map
        Item.id = some ((Item.new run sequence (assistantMetadata turn response)).respond sequence response event).id := by
      rw [Item.id, touched.first, Display.find_add existing rfl new_source]
      rfl
    rw [named]
    exact Advances.add_response sound found current touched.run fresh (touched.source.trans new_source) existing
      no_reference

end Respond

theorem safeOutcome_display (outcome : RunOutcome) : safeOutcome (some (displayOutcome outcome)) = true := by
  cases outcome with
  | failed code => simp [displayOutcome, safeOutcome, safeCode_idempotent]
  | _ => rfl

section Admitted
variable {display : Display} {run : RunId} {sequence weight growth : Nat} {row : BlockRow} {turn : Text}

theorem Advances.head (sound : display.Sound weight) {head : BlockHeader → BlockHeader}
    (header : ∀ row ∈ display.blocks, row.runId = run →
      (head row.header).human = row.header.human ∧ safeOutcome (head row.header).outcome = true)
    (current : ∀ row ∈ display.blocks, row.runId = run → (head row.header).currentAssistant =
      (head row.header).currentTurn.bind (display.assistantId run)) :
    Advances display run sequence growth ((display.head run sequence head).upTo sequence) := by
  have nothing : display.editWhere (fun _ => false) id = display := by
    rw [Display.editWhere, Table.update_eq_self (by simp)]
  have step : Advances display run sequence growth
      (((display.editWhere (fun _ => false) id).head run sequence head).upTo sequence) :=
    Advances.edit_head sound (by simp) header current
  rwa [nothing] at step

theorem Advances.finish (sound : display.Sound weight) (state : State) {head : BlockHeader → BlockHeader}
    (human : ∀ header, (head header).human = header.human)
    (outcome : ∀ row ∈ display.blocks, safeOutcome (head row.header).outcome = true)
    (closed : ∀ header, (head header).currentTurn = none ∧ (head header).currentAssistant = none) :
    Advances display run sequence growth (((display.settle run sequence state).head run sequence head).upTo sequence) := by
  rw [Display.settle]
  refine Advances.edit_head sound ?_ (fun row member _ => ⟨human _, outcome row member⟩) ?_
  · intro item member selected
    simp only [Bool.and_eq_true, decide_eq_true_eq] at selected
    exact ⟨selected.1, .inr ((sound.items item member).settle state)⟩
  · intro row _ _
    rw [(closed row.header).1, (closed row.header).2]
    rfl

theorem positionMatches_of_valid {metadata : EntryMetadata} {id : EntryId} (valid : metadataValid metadata id = true) :
    positionMatches metadata.source id = true := by
  simp only [metadataValid, Bool.and_eq_true] at valid
  exact valid.1.1.1.1.1.1.1.2

theorem Display.Sound.no_notice (sound : display.Sound weight) (next : display.applied < sequence) :
    display.find run (.notice sequence 0) = none := by
  cases found : display.find run (.notice sequence 0) with
  | none => rfl
  | some item =>
    obtain ⟨member, -, source⟩ := Display.find_eq_some found
    have valid := (sound.items item member).metadata
    have earlier := sound.earlier member
    have position := positionMatches_of_valid valid
    rw [show item.metadata.source = .notice sequence 0 from source] at position
    simp only [positionMatches, Bool.and_eq_true] at position
    have place : sequence = item.first := of_decide_eq_true position.1
    omega

theorem Display.Sound.no_reuse (sound : display.Sound weight) (next : display.applied < sequence) :
    display.find run (.reuse sequence 0) = none := by
  cases found : display.find run (.reuse sequence 0) with
  | none => rfl
  | some item =>
    obtain ⟨member, -, source⟩ := Display.find_eq_some found
    have valid := (sound.items item member).metadata
    have earlier := sound.earlier member
    have position := positionMatches_of_valid valid
    rw [show item.metadata.source = .reuse sequence 0 from source] at position
    simp only [positionMatches, Bool.and_eq_true] at position
    have place : sequence = item.first := of_decide_eq_true position.1
    omega

theorem Advances.notice (sound : display.Sound weight) (next : display.applied < sequence) (turn : Text)
    (failure : Option (Text × UpstreamOutcome)) (closed : Bool)
    (safe : ∀ failed, failure = some failed → ∃ code, failed.1 = safeCode code) (positive : 0 < growth) :
    Advances display run sequence growth
      (((display.observe run sequence turn failure closed).head run sequence id).upTo sequence) := by
  rw [Display.observe]
  cases existing : display.find run (.assistant turn) with
  | some item =>
    simp only
    rw [Display.edit]
    refine Advances.edit_head sound ?_ (sound.header_kept _ (fun _ => rfl) fun _ => rfl) fun row member own =>
      own ▸ sound.current row member
    intro other member selected
    simp only [Bool.and_eq_true, decide_eq_true_eq] at selected
    exact ⟨selected.1, .inr ((sound.items other member).observe (Item.assistant_written selected.2) failure closed safe
      positive)⟩
  | none =>
    simp only
    have start : (Item.new run sequence (noticeMetadata sequence)).Fresh sequence 0 :=
      Item.fresh_new run (noticeMetadata_valid sequence) (Item.shape_written trivial (by simp [Item.new]))
    have touched : Item.Touched sequence growth _ _ :=
      (start.sound (by omega)).observe trivial failure closed safe positive
    have fresh := start.touched touched
    rw [Nat.zero_add] at fresh
    have source : ((Item.new run sequence (noticeMetadata sequence)).observe sequence failure closed).source =
        .notice sequence 0 := touched.source
    refine Advances.add_head sound touched.run fresh ?_ ?_ (by simp [source]) (by simp [source])
    · rw [source]
      exact sound.no_notice next
    · intro target is_target
      rw [touched.reference] at is_target
      cases is_target

theorem Advances.provider (sound : display.Sound weight) (found : display.block run = some row)
    (current : row.header.currentTurn = some turn) (next : display.applied < sequence) (event : ProviderEvent)
    (fits : 2 * event.weight < 2 ^ 64) :
    Advances display run sequence (event.weight + 1) ((display.provider run sequence turn event).upTo sequence) := by
  cases event with
  | requestFailed code message upstream =>
    exact Advances.notice sound next turn _ false (by rintro _ ⟨⟩; exact ⟨code, rfl⟩) (by omega)
  | sessionClosed reason => exact Advances.notice sound next turn none true (by simp) (by omega)
  | providerExtension type payload =>
    have small : bytes extension.text ≤ 64 * (ProviderEvent.weight (.providerExtension type payload) + 1) := by
      rw [extension, bytes_unsupportedContent]
      omega
    have shape : ((Item.new run sequence (noticeMetadata sequence)).delta sequence extension).Shape :=
      Item.shape_written trivial (by simp [Item.delta, Item.new, Layout.delta_nil, Layout.created])
    exact Advances.add_head sound rfl (Item.fresh_delta run (noticeMetadata_valid sequence) shape small)
      (sound.no_notice next) (by rintro _ ⟨⟩) (by rintro ⟨⟩) (by rintro _ ⟨⟩)
  | responseStarted id => exact Advances.respond sound found current next id _ fits
  | responseStatus id status => exact Advances.respond sound found current next id _ fits
  | outputItemStarted id index item => exact Advances.respond sound found current next id _ fits
  | outputItemUpdated id itemId index content summary kind delta =>
    exact Advances.respond sound found current next id _ fits
  | outputItemFinished id index item => exact Advances.respond sound found current next id _ fits
  | responseFinished response => exact Advances.respond sound found current next response.id _ fits

theorem Advances.tool (sound : display.Sound weight) (next : display.applied < sequence)
    {envelope : RunEventEnvelope} {event : ToolExecutionEvent} (admits : display.AdmitsTool run envelope event) :
    Advances display run sequence (bytes event.toolName + 1)
      (((display.tool run sequence envelope event).head run sequence id).upTo sequence) := by
  cases event with
  | toolExecutionStarted callId toolName =>
    have small : bytes (toolNamePart toolName).text ≤ 64 * (bytes toolName + 1) := by
      simp only [toolNamePart]
      omega
    have shape : ((Item.new run sequence (startedMetadata envelope callId)).delta sequence (toolNamePart toolName)).Shape :=
      ⟨toolName, sequence, rfl, .inl ⟨rfl, rfl⟩⟩
    exact Advances.add_head sound rfl (Item.fresh_delta run (startedMetadata_valid ..) shape small) admits
      (by rintro _ ⟨⟩) (by rintro ⟨⟩) (by rintro _ ⟨⟩)
  | toolExecutionFinished callId toolName isError =>
    refine Advances.edit_head sound ?_ (sound.header_kept _ (fun _ => rfl) fun _ => rfl) fun row member own =>
      own ▸ sound.current row member
    intro other member selected
    simp only [Bool.and_eq_true, decide_eq_true_eq] at selected
    exact ⟨selected.1, .inr ((sound.items other member).finishTool selected.2 isError)⟩
  | toolResultReused callId toolName =>
    obtain ⟨item, found, -, known⟩ := admits
    obtain ⟨member, same_run, source⟩ := Display.find_eq_some found
    have item_sound := sound.items item member
    have earlier : item.first < sequence := (sound.earlier member).trans_lt next
    rw [Display.tool, found]
    refine Advances.add_head sound rfl (Item.fresh_new run (reusedMetadata_valid envelope source item_sound.metadata
      known earlier) rfl) (sound.no_reuse next) ?_ (by rintro ⟨⟩) (by rintro _ ⟨⟩)
    intro target is_target
    cases is_target
    exact ⟨item, member, same_run, rfl, ⟨callId, source⟩, known, rfl⟩

theorem Advances.runtime (sound : display.Sound weight) (next : display.applied < sequence)
    (found : display.block run = some row) {envelope : RunEventEnvelope}
    (admits : display.AdmitsRuntime run row.header envelope) (fits : 2 * envelope.event.weight < 2 ^ 64) :
    Advances display run sequence (envelope.event.weight + 1)
      ((display.runtime run sequence envelope).upTo sequence) := by
  rw [Display.AdmitsRuntime] at admits
  rw [Display.runtime]
  cases kind : envelope.event with
  | runStarted =>
    exact Advances.head sound (sound.header_kept _ (fun _ => rfl) fun _ => rfl) fun row member own =>
      own ▸ sound.current row member
  | turnStarted number =>
    rw [kind] at admits
    obtain ⟨-, turn, is_turn, absent⟩ := admits
    rw [is_turn]
    refine Advances.head sound (sound.header_kept _ (fun _ => rfl) fun _ => rfl) fun row member own => ?_
    rw [Option.bind_some, Display.assistantId, absent]
    rfl
  | turnFinished number responseId outcome upstream =>
    rw [kind] at admits
    obtain ⟨turn, -, is_turn⟩ := admits
    rw [is_turn]
    refine Advances.edit_head sound ?_ (sound.header_kept _ (fun _ => rfl) fun _ => rfl) fun row member own => rfl
    intro item member selected
    simp only [Bool.and_eq_true, decide_eq_true_eq] at selected
    exact ⟨selected.1, (sound.items item member).finishTurn outcome upstream⟩
  | runFinished outcome summary =>
    exact Advances.finish sound _ (fun _ => rfl) (fun _ _ => safeOutcome_display outcome) fun _ => ⟨rfl, rfl⟩
  | providerEvent provided =>
    rw [kind] at admits fits
    obtain ⟨-, turn, current, is_turn⟩ := admits
    rw [is_turn]
    exact Advances.provider sound found current next provided.event fits
  | toolEvent event =>
    rw [kind] at admits
    obtain ⟨⟨turn, -, is_turn⟩, lawful⟩ := admits
    rw [is_turn]
    exact Advances.tool sound next lawful

theorem Advances.applyRun (sound : display.Sound weight) (next : display.applied < sequence) {input : Input}
    (admits : display.AdmitsRun run input) (later : ∀ accepted, input ≠ .accepted accepted)
    (fits : 2 * input.weight < 2 ^ 64) :
    (∃ row, display.block run = some row) ∧
      Advances display run sequence input.weight ((display.applyRun run sequence input).upTo sequence) := by
  cases input with
  | accepted input => exact absurd rfl (later input)
  | historySelected | providerBound => exact ⟨admits, Advances.quiet sound⟩
  | runtime envelope =>
    obtain ⟨-, -, row, found, -, lawful⟩ := admits
    rw [Input.weight] at fits
    exact ⟨⟨row, found⟩, Advances.runtime sound next found lawful (by omega)⟩
  | toolResult request callId output isError =>
    obtain ⟨row, found, -, item, is_item, pending, -⟩ := admits
    refine ⟨⟨row, found⟩, Advances.edit sound fun other member selected => ?_⟩
    simp only [Bool.and_eq_true, decide_eq_true_eq] at selected
    have same : other = item := by
      have located := sound.sourced.find member
      rw [selected.1, selected.2, is_item] at located
      exact (Option.some.inj located).symm
    refine ⟨selected.1, .inr ((sound.items other member).recordResult selected.2 (same ▸ pending) output isError ?_)⟩
    rw [Input.weight]
    omega
  | result result =>
    obtain ⟨-, row, found, -⟩ := admits
    exact ⟨⟨row, found⟩, Advances.finish sound _ (fun _ => rfl) (fun _ _ => safeOutcome_display result.outcome)
      fun _ => ⟨rfl, rfl⟩⟩
  | interrupted =>
    obtain ⟨row, found, -⟩ := admits
    exact ⟨⟨row, found⟩, Advances.finish sound _ (fun _ => rfl)
      (fun row member => (blockValid_iff.1 (sound.blocks row member)).2.2.2.2) fun _ => ⟨rfl, rfl⟩⟩
  | created => exact admits.elim
  | renamed => exact admits.elim

theorem Display.Sound.no_items (sound : display.Sound weight) (missing : display.block run = none) :
    ∀ item ∈ display.items, item.run ≠ run := by
  intro item member same
  obtain ⟨row, row_member, row_run, -⟩ := sound.owned item member
  have absent := List.find?_eq_none.1 missing row row_member
  simp [row_run, same] at absent

theorem Display.Sound.accept (sound : display.Sound weight) (next : sequence = display.applied + 1)
    (missing : display.block run = none) {input : RecordedRunInput} (small : bytes input.userText ≤ 64 * growth) :
    ((display.accept run sequence input).upTo sequence).Sound (weight + growth) := by
  have no_items := sound.no_items missing
  have no_block : ∀ row ∈ display.blocks, row.runId ≠ run := by
    intro row member same
    have absent := List.find?_eq_none.1 missing row member
    simp [same] at absent
  have fresh : (Item.human run sequence input.userText).Fresh sequence growth := Item.fresh_human run input.userText small
  have absent : display.find run (Item.human run sequence input.userText).source = none := by
    cases found : display.find run (Item.human run sequence input.userText).source with
    | none => rfl
    | some item => exact absurd (Display.find_eq_some found).2.1 (no_items item (Display.find_eq_some found).1)
  have step : ItemStep display run sequence growth id [Item.human run sequence input.userText] :=
    ItemStep.add rfl fresh absent (by rintro _ ⟨⟩)
  have items : ((display.accept run sequence input).upTo sequence).items =
      display.items.map id ++ [Item.human run sequence input.userText] := by
    rw [List.map_id]
    rfl
  have earlier : ∀ row ∈ display.blocks, row.acceptedSequence < sequence := by
    intro row member
    have valid := blockValid_iff.1 (sound.blocks row member)
    omega
  constructor
  · exact ⟨sound.titled.1, by have := sound.titled.2; simp only [Display.upTo, Display.accept]; omega⟩
  · rw [Display.Ordered, items]
    exact step.ordered sound (by omega)
  · rw [Display.Sourced, items]
    exact step.sourced sound
  · rw [items]
    exact step.items sound (by omega)
  · exact step.references sound items
  · intro row member
    rcases List.mem_append.1 member with old | new
    · have valid := blockValid_iff.1 (sound.blocks row old)
      rw [blockValid_iff]
      simp only [Display.upTo]
      exact ⟨valid.1, valid.2.1, valid.2.2.1, by omega, valid.2.2.2.2⟩
    · rw [List.mem_singleton.1 new, blockValid_iff]
      exact ⟨by simp only [Display.opening]; omega, rfl, le_rfl, by simp only [Display.upTo, Display.opening]; omega, rfl⟩
  · refine List.pairwise_append.2 ⟨sound.accepted, List.pairwise_singleton _ _, ?_⟩
    simpa [Display.opening] using earlier
  · have runs : ((display.accept run sequence input).upTo sequence).blocks.map BlockRow.runId =
        display.blocks.map BlockRow.runId ++ [run] := by simp [Display.upTo, Display.accept, Display.opening]
    rw [runs, List.nodup_append]
    refine ⟨sound.runs, List.nodup_singleton _, ?_⟩
    intro other other_member last last_member
    obtain ⟨row, row_member, rfl⟩ := List.mem_map.1 other_member
    rw [List.mem_singleton.1 last_member]
    exact no_block row row_member
  · intro item member
    rcases List.mem_append.1 member with old | new
    · obtain ⟨row, row_member, facts⟩ := sound.owned item old
      exact ⟨row, List.mem_append_left _ row_member, facts⟩
    · rw [List.mem_singleton.1 new]
      exact ⟨_, List.mem_append_right _ (List.mem_singleton.2 rfl), rfl, by simp [Item.human, Item.source, EntryMetadata.new, Display.opening]⟩
  · intro row member
    rcases List.mem_append.1 member with old | new
    · obtain ⟨item, item_member, facts⟩ := sound.human row old
      exact ⟨item, List.mem_append_left _ item_member, facts⟩
    · rw [List.mem_singleton.1 new]
      exact ⟨_, List.mem_append_right _ (List.mem_singleton.2 rfl), rfl, rfl⟩
  · intro row member
    rcases List.mem_append.1 member with old | new
    · rw [sound.current row old]
      congr 1
      funext turn
      exact (step.assistantId items (by simp [Item.human, Item.source, EntryMetadata.new]) row.runId turn).symm
    · rw [List.mem_singleton.1 new]
      rfl

theorem Display.Sound.apply (sound : display.Sound weight) {event : Event} (admits : display.Admits event)
    (fits : 2 * event.input.weight < 2 ^ 64) : (display.apply event).Sound (weight + event.input.weight) := by
  have next := admits.next
  have lawful := admits.lawful
  rw [Display.apply]
  cases of_run : event.run with
  | none =>
    have titled := sound.titled
    refine ⟨⟨by simp only; omega, le_rfl⟩, sound.ordered, sound.sourced, ?_, sound.references, ?_, sound.accepted,
      sound.runs, sound.owned, sound.human, sound.current⟩
    · exact fun item member => (sound.items item member).mono (by simp only; omega) (by omega)
    · intro row member
      have valid := blockValid_iff.1 (sound.blocks row member)
      exact blockValid_iff.2 ⟨valid.1, valid.2.1, valid.2.2.1, by simp only; omega, valid.2.2.2.2⟩
  | some run =>
    rw [of_run] at lawful
    by_cases accepts : ∃ input, event.input = .accepted input
    · obtain ⟨input, is_input⟩ := accepts
      rw [is_input] at lawful ⊢
      exact sound.accept next lawful (by rw [Input.weight]; omega)
    · have later : display.applied < event.sequence := by omega
      obtain ⟨block, advances⟩ := Advances.applyRun sound later lawful
        (fun input is_input => accepts ⟨input, is_input⟩) fits
      exact advances.sound sound next block

end Admitted
end Wi
