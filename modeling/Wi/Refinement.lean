import Wi.Settling

/-! The projector carries out on the tables what an event means for the display. -/
namespace Wi
open Utf8 Content Rows Projector Fields
variable [JsonHash]

/-- The tables represent a sound display, and the next event is being applied. -/
structure Ongoing (sql : Conversation) (display : Display) (weight sequence : Nat) : Prop where
  represents : Represents sql display
  sound : display.Sound weight
  collision : CollisionFree
  next : sequence = display.applied + 1
  fits : sequence ≤ maxInteger

variable {metadata : EntryMetadata} {envelope : RunEventEnvelope} {turn : Text}

section Primitives
variable {sql : Conversation} {display : Display} {weight sequence : Nat} {run : RunId} {source : Source} {item : Item}
  {row : BlockRow}

theorem Ongoing.valid (ongoing : Ongoing sql display weight sequence) {item : Item} (member : item ∈ display.items) :
    item.Valid sequence :=
  ((ongoing.sound.items item member).mono (by have := ongoing.next; omega) le_rfl).toValid

theorem Ongoing.fresh (ongoing : Ongoing sql display weight sequence) : ∀ old ∈ display.items, old.first < sequence := by
  intro old member
  have := ongoing.sound.earlier member
  have := ongoing.next
  omega

theorem Ongoing.positive (ongoing : Ongoing sql display weight sequence) : sequence ≠ 0 := by
  have := ongoing.next
  omega

theorem Ongoing.writable (ongoing : Ongoing sql display weight sequence) (member : item ∈ display.items)
    (other : item.source ≠ .human) : item.Writable sequence where
  valid := ongoing.valid member
  fits := ongoing.fits
  other := other
  indexed := (ongoing.sound.items item member).indexed other
  generations field field_member := by
    have bounds := (ongoing.sound.items item member).generations field field_member
    have seen := (ongoing.sound.items item member).seen
    have := ongoing.next
    exact ⟨bounds.1, bounds.2, by omega⟩

omit [JsonHash] in
theorem Item.writable_new (run : RunId) (positive : sequence ≠ 0) (fits : sequence ≤ maxInteger)
    (valid : metadataValid metadata ⟨sequence, 0⟩ = true) (other : metadata.source ≠ .human) :
    (Item.new run sequence metadata).Writable sequence :=
  ⟨⟨Nat.pos_of_ne_zero positive, le_rfl, le_rfl, le_rfl, valid⟩, fits, other, by simp [Item.new], by simp [Item.new]⟩

theorem Ongoing.block (ongoing : Ongoing sql display weight sequence) (found : display.block run = some row) :
    Rows.block sql run sequence = .ok row.header := by
  refine ongoing.represents.block found ?_
  rw [ongoing.next]
  exact ongoing.sound.blocks row (List.mem_of_find?_eq_some found)

theorem Ongoing.lookup (ongoing : Ongoing sql display weight sequence) (run : RunId) (source : Source) :
    Rows.lookup sql run sequence source = .ok ((display.find run source).map Item.entry) := by
  cases found : display.find run source with
  | none => exact ongoing.represents.lookup_none ongoing.collision found
  | some item =>
    exact ongoing.represents.lookup_some ongoing.collision found (ongoing.valid (Display.find_eq_some found).1)

theorem Ongoing.create (ongoing : Ongoing sql display weight sequence)
    (missing : display.find run metadata.source = none) :
    ∃ next, Rows.create sql run sequence metadata = .ok (next, (Item.new run sequence metadata).entry) ∧
      Represents next (display.add (Item.new run sequence metadata)) :=
  ongoing.represents.create ongoing.collision ongoing.sound.ordered missing ongoing.fresh ongoing.positive ongoing.fits

theorem Ongoing.add_ordered (ongoing : Ongoing sql display weight sequence) (metadata : EntryMetadata) :
    (display.add (Item.new run sequence metadata)).Ordered := by
  rw [Display.Ordered, Display.add, List.pairwise_append]
  refine ⟨ongoing.sound.ordered, List.pairwise_singleton _ _, fun old member last last_member => ?_⟩
  rw [List.mem_singleton.1 last_member]
  exact ongoing.fresh old member

omit [JsonHash] in
theorem currentTurn_ok {header : BlockHeader} (in_turn : Display.InTurn header envelope turn) :
    currentTurn header envelope = .ok turn := by
  rw [currentTurn, in_turn.1, present_some, ok_bind, in_turn.2]
  simp

theorem Ongoing.assistant_id (ongoing : Ongoing sql display weight sequence)
    (found : display.block run = some row) (current : row.header.currentTurn = some turn) :
    row.header.currentAssistant = (display.find run (.assistant turn)).map Item.id := by
  have own : row.runId = run := by simpa using List.find?_some found
  rw [ongoing.sound.current row (List.mem_of_find?_eq_some found), current, Option.bind_some, own]
  rfl

theorem Ongoing.turnFinished (ongoing : Ongoing sql display weight sequence)
    (found : display.block run = some row) (in_turn : Display.InTurn row.header envelope turn)
    (outcome : TurnOutcome) (upstream : Option UpstreamOutcome) :
    ∃ next, turnFinished sql run sequence row.header envelope outcome upstream = .ok next ∧
      Represents next (display.edit run (.assistant turn) (Item.finishTurn sequence outcome upstream)) := by
  rw [Projector.turnFinished, currentTurn_ok in_turn, ok_bind, ongoing.lookup, ok_bind, ongoing.assistant_id found in_turn.1]
  have named : ((display.find run (.assistant turn)).map Item.entry).map Entry.id =
      (display.find run (.assistant turn)).map Item.id := by
    rw [Option.map_map]
    rfl
  simp only [named, decide_true, require_true, ok_bind]
  cases existing : display.find run (.assistant turn) with
  | none =>
    rw [Display.edit_of_none existing]
    exact ⟨sql, rfl, ongoing.represents⟩
  | some item =>
    obtain ⟨member, same_run, -⟩ := Display.find_eq_some existing
    simp only [Option.map_some]
    have place : (item.finishTurn sequence outcome upstream).first = item.first := by
      rw [Item.finishTurn]
      split <;> rfl
    rw [Display.edit_eq_put ongoing.sound.ordered ongoing.sound.sourced existing place, Item.finishTurn]
    by_cases provisional : item.metadata.provisional = true
    · have open_entry : item.entry.metadata.provisional = true := provisional
      rw [if_pos provisional]
      simp only [open_entry, Bool.not_true, Bool.false_eq_true, if_false]
      rw [← same_run]
      exact ongoing.represents.write ongoing.sound.ordered member (ongoing.valid member) rfl ongoing.fits
    · have settled : item.entry.metadata.provisional = false := Bool.eq_false_iff.2 provisional
      rw [if_neg provisional, Display.put_self ongoing.sound.ordered member]
      simp only [settled, Bool.not_false, if_true]
      exact ⟨sql, rfl, ongoing.represents⟩

end Primitives

section Provider
variable {sql : Conversation} {display : Display} {weight sequence : Nat} {run : RunId} {item : Item} {row : BlockRow}

/-- What the projector needs to know to write an entry of the display. -/
structure Writing (sql : Conversation) (display : Display) (item : Item) (sequence limit : Nat) : Prop where
  represents : Represents sql display
  ordered : display.Ordered
  member : item ∈ display.items
  writable : item.Writable sequence
  collision : CollisionFree
  room : Layout.textBytes item.fields + 64 * limit ≤ maxInteger

theorem Writing.delta_save (writing : Writing sql display item sequence limit) {part : Part}
    (direct : part.order.rank ≠ .fallback) (small : bytes part.text ≤ 64 * limit)
    (same_source : metadata.source = item.source) :
    ∃ middle epoch next, Content.delta sql item.run { item.entry with metadata } sequence part =
        .ok (middle, ⟨item.id, epoch, item.changed, metadata⟩) ∧
      Rows.save middle item.run sequence ⟨item.id, epoch, item.changed, metadata⟩ = .ok next ∧
      Represents next (display.put ((item.write sequence metadata).delta sequence part)) := by
  have fits := writing.writable.fits
  have room := writing.room
  obtain ⟨middle, done, filled⟩ := writing.represents.delta writing.collision writing.ordered writing.member
    writing.writable direct (by omega) metadata
  have epoch_fits : (if Layout.deltaMoves part item.fields then sequence else item.epoch) ≤ maxInteger := by
    split
    · exact fits
    · exact (writing.writable.valid.fits fits).2
  obtain ⟨next, saves, holds⟩ := filled.save_filled writing.ordered writing.member same_source fits epoch_fits
  exact ⟨middle, _, next, done, saves, holds⟩

theorem Writing.snapshot (writing : Writing sql display item sequence limit) {output : Option UInt64}
    {parts : List Part} (coherent : Layout.Coherent output parts) (small : Layout.partBytes parts ≤ 64 * limit)
    (before : EntryMetadata) :
    ∃ middle epoch, Content.snapshot sql item.run { item.entry with metadata := before } sequence output parts =
        .ok (middle, ⟨item.id, epoch, item.changed, before⟩) ∧
      ∀ metadata : EntryMetadata, metadata.source = item.source →
        ∃ next, Rows.save middle item.run sequence ⟨item.id, epoch, item.changed, metadata⟩ = .ok next ∧
          Represents next (display.put
            (((item.write sequence before).snapshot sequence output parts).write sequence metadata)) := by
  have fits := writing.writable.fits
  have room := writing.room
  have each : ∀ part ∈ parts, bytes part.text ≤ maxInteger := by
    intro part member
    have : bytes part.text ≤ Layout.partBytes parts :=
      List.single_le_sum (by simp) _ (List.mem_map.2 ⟨part, member, rfl⟩)
    omega
  obtain ⟨middle, done, filled⟩ := writing.represents.snapshot writing.collision writing.ordered writing.member
    writing.writable coherent (by omega) each before
  have epoch_fits : (if Layout.snapshotMoves sequence output parts item.fields then sequence else item.epoch) ≤
      maxInteger := by
    split
    · exact fits
    · exact (writing.writable.valid.fits fits).2
  refine ⟨middle, _, done, fun metadata same_source => ?_⟩
  obtain ⟨next, saves, holds⟩ := filled.save_filled writing.ordered writing.member same_source fits epoch_fits
  exact ⟨next, saves, holds⟩

omit [JsonHash] in
theorem updated_direct (outputIndex : UInt64) (contentIndex summaryIndex : Option UInt64) (kind : DeltaKind)
    (text : Text) : (updated outputIndex contentIndex summaryIndex kind text).order.rank ≠ .fallback := by
  cases kind <;> simp [updated, deltaField]

omit [JsonHash] in
theorem source_opened (response : Text) (event : ProviderEvent) (metadata : EntryMetadata) :
    (opened response event metadata).source = metadata.source := (opened_facts response event metadata).1.source

/-- Content and metadata of a response event, from the entry found or created to the saved one. -/
theorem Writing.responseContent (writing : Writing sql display item sequence limit) {response : Text}
    {event : ProviderEvent} (is_response : responseId event = some response) (bounded : event.weight + 1 ≤ limit) :
    ∃ middle entry next, responseContent sql item.run sequence
        { item.entry with metadata := opened response event item.metadata } event = .ok (middle, entry) ∧
      Rows.save middle item.run sequence entry = .ok next ∧
      Represents next (display.put (item.respond sequence response event)) := by
  have fits := writing.writable.fits
  have room := writing.room
  have plain (metadata : EntryMetadata) (same_source : metadata.source = item.source) :=
    writing.represents.write writing.ordered writing.member writing.writable.valid same_source fits
  have source := source_opened response event item.metadata
  have limit_room : 2 * limit < 2 ^ 64 := by
    have : maxInteger < 2 ^ 63 := by decide
    omega
  cases event with
  | responseStarted id =>
    obtain ⟨next, saves, holds⟩ := plain _ source
    exact ⟨sql, _, next, rfl, saves, holds⟩
  | responseStatus id status =>
    obtain ⟨next, saves, holds⟩ := plain
      { opened response (.responseStatus id status) item.metadata with state := .status status } source
    exact ⟨sql, _, next, rfl, saves, holds⟩
  | outputItemUpdated id itemId outputIndex contentIndex summaryIndex kind text =>
    have size := bytes_updated outputIndex contentIndex summaryIndex kind text
    have direct := updated_direct outputIndex contentIndex summaryIndex kind text
    rw [ProviderEvent.weight] at bounded
    obtain ⟨middle, epoch, next, done, saves, holds⟩ := writing.delta_save direct (by omega) source
    exact ⟨middle, _, next, done, saves, holds⟩
  | outputItemStarted id outputIndex output | outputItemFinished id outputIndex output =>
    have size := Layout.itemParts_size outputIndex output
    rw [ProviderEvent.weight] at bounded
    have small : 2 * output.weight ≤ 2 ^ 64 := by omega
    obtain ⟨middle, epoch, done, saving⟩ := writing.snapshot (Layout.itemParts_coherent small outputIndex) (by omega)
      (opened response _ item.metadata)
    obtain ⟨next, saves, holds⟩ := saving _ source
    refine ⟨middle, _, next, ?_, saves, holds⟩
    rw [Projector.responseContent, Layout.itemParts_ok small, ok_bind]
    exact done
  | responseFinished final =>
    have size := Layout.responseParts_size final
    rw [ProviderEvent.weight] at bounded
    have small : 2 * final.weight < 2 ^ 64 := by omega
    obtain ⟨middle, epoch, done, saving⟩ := writing.snapshot (Layout.responseParts_coherent small) (by omega)
      (opened response (.responseFinished final) item.metadata)
    obtain ⟨next, saves, holds⟩ := saving (finished final (opened response (.responseFinished final) item.metadata)) source
    refine ⟨middle, _, next, ?_, saves, holds⟩
    rw [Projector.responseContent, Layout.responseParts_ok small, ok_bind, done]
    rfl
  | requestFailed _ _ _ | sessionClosed _ | providerExtension _ _ => cases is_response

theorem Ongoing.writing (ongoing : Ongoing sql display weight sequence) (member : item ∈ display.items)
    (other : item.source ≠ .human) (room : 64 * (weight + limit) ≤ maxInteger) :
    Writing sql display item sequence limit where
  represents := ongoing.represents
  ordered := ongoing.sound.ordered
  member := member
  writable := ongoing.writable member other
  collision := ongoing.collision
  room := by
    have := (ongoing.sound.items item member).size
    omega

theorem Ongoing.writing_new (ongoing : Ongoing sql display weight sequence) {next : Conversation}
    (represents : Represents next (display.add (Item.new run sequence metadata)))
    (valid : metadataValid metadata ⟨sequence, 0⟩ = true) (other : metadata.source ≠ .human)
    (room : 64 * (weight + limit) ≤ maxInteger) :
    Writing next (display.add (Item.new run sequence metadata)) (Item.new run sequence metadata) sequence limit where
  represents := represents
  ordered := ongoing.add_ordered metadata
  member := by simp [Display.add]
  writable := Item.writable_new run ongoing.positive ongoing.fits valid other
  collision := ongoing.collision
  room := by
    have empty : Layout.textBytes (Item.new run sequence metadata).fields = 0 := rfl
    omega

theorem Ongoing.put_new (ongoing : Ongoing sql display weight sequence) {item : Item}
    (first : item.first = sequence) : (display.add (Item.new run sequence metadata)).put item = display.add item :=
  Display.add_put first fun old member => (ongoing.fresh old member).ne

theorem Ongoing.create_delta (ongoing : Ongoing sql display weight sequence) {part : Part}
    (missing : display.find run metadata.source = none) (valid : metadataValid metadata ⟨sequence, 0⟩ = true)
    (other : metadata.source ≠ .human) (direct : part.order.rank ≠ .fallback)
    (small : bytes part.text ≤ 64 * limit) (room : 64 * (weight + limit) ≤ maxInteger) :
    ∃ created entry next, Rows.create sql run sequence metadata =
        .ok (created, (Item.new run sequence metadata).entry) ∧
      Content.delta created run (Item.new run sequence metadata).entry sequence part = .ok (next, entry) ∧
      Represents next (display.add ((Item.new run sequence metadata).delta sequence part)) := by
  obtain ⟨created, creates, represents⟩ := ongoing.create missing
  have writing := ongoing.writing_new represents valid other room
  have space := writing.room
  obtain ⟨next, done, holds⟩ := writing.represents.delta writing.collision writing.ordered writing.member
    writing.writable direct (by omega) metadata
  refine ⟨created, _, next, creates, done, ?_⟩
  have placed : (display.add (Item.new run sequence metadata)).put ((Item.new run sequence metadata).delta sequence part) =
      display.add _ := ongoing.put_new rfl
  rw [← placed]
  exact holds

theorem Ongoing.assistant (ongoing : Ongoing sql display weight sequence) (found : display.block run = some row)
    (current : row.header.currentTurn = some turn) (response : Text) (room : 64 * (weight + limit) ≤ maxInteger) :
    ∃ next middle item, assistant sql run sequence turn response row.header.currentAssistant = .ok (next, item.entry) ∧
      Writing next middle item sequence limit ∧ item.run = run ∧
      middle = display.withResponse run sequence turn response ∧
      middle.find run (.assistant turn) = some item ∧ middle.Sourced := by
  rw [Projector.assistant, ongoing.lookup, ok_bind, ongoing.assistant_id found current, Display.withResponse]
  cases existing : display.find run (.assistant turn) with
  | some item =>
    obtain ⟨member, same_run, source⟩ := Display.find_eq_some existing
    have named : (some item.entry.id : Option EntryId) = some item.id := rfl
    refine ⟨sql, display, item, ?_, ongoing.writing member (by simp [source]) room, same_run, rfl, existing,
      ongoing.sound.sourced⟩
    simp only [Option.map_some, named, decide_true, require_true, ok_bind, pure_eq_ok]
  | none =>
    have absent : display.find run (assistantMetadata turn response).source = none := existing
    obtain ⟨next, created, represents⟩ := ongoing.create absent
    have writing := ongoing.writing_new represents (assistantMetadata_valid ..) (by rintro ⟨⟩) room
    refine ⟨next, _, _, ?_, writing, rfl, rfl, ?_, ?_⟩
    · simp only [Option.map_none, Option.isNone_none, require_true, ok_bind]
      exact created
    · exact Display.find_add existing rfl rfl
    · exact ongoing.sound.sourced.add existing

/-- What the projector's work on the tables of one run must achieve before the header is saved. -/
def Achieves (display : Display) (run : RunId) (sequence : Nat) (header : BlockHeader) (after : Display)
    (result : Result (Conversation × BlockHeader)) : Prop :=
  ∃ next middle change, result = .ok (next, change header) ∧ Represents next middle ∧
    middle.blocks = display.blocks ∧ after = middle.head run sequence change

theorem Ongoing.respond (ongoing : Ongoing sql display weight sequence) (found : display.block run = some row)
    (current : row.header.currentTurn = some turn) {event : ProviderEvent} {response : Text}
    (is_response : responseId event = some response) (room : 64 * (weight + (event.weight + 1)) ≤ maxInteger) :
    Achieves display run sequence row.header (display.respond run sequence turn response event) (do
      let (sql, entry) ← Projector.assistant sql run sequence turn response row.header.currentAssistant
      let (sql, saved) ← Projector.responseContent sql run sequence
        { entry with metadata := opened response event entry.metadata } event
      return (← Rows.save sql run sequence saved, { row.header with currentAssistant := some entry.id })) := by
  obtain ⟨opened_sql, middle, item, finds, writing, same_run, is_middle, located, sourced⟩ :=
    ongoing.assistant found current response room
  obtain ⟨filled, entry, next, done, saves, holds⟩ := writing.responseContent is_response le_rfl
  rw [same_run] at done saves
  have place : (item.respond sequence response event).first = item.first := by
    cases event <;> rfl
  refine ⟨next, _, fun header => { header with currentAssistant := (middle.find run (.assistant turn)).map Item.id },
    ?_, holds, ?_, ?_⟩
  · rw [finds, ok_bind]
    simp only [located, Option.map_some]
    rw [show item.entry.metadata = item.metadata from rfl, done, ok_bind, saves]
    rfl
  · rw [is_middle, Display.withResponse]
    cases display.find run (.assistant turn) <;> rfl
  · rw [Display.respond]
    simp only [← is_middle]
    rw [Display.edit_eq_put writing.ordered sourced located place]

omit [JsonHash] in
theorem source_observed (failure : Option (Text × UpstreamOutcome)) (closed : Bool) (metadata : EntryMetadata) :
    (observed failure closed metadata).source = metadata.source := by
  cases failure <;> cases closed <;> rfl

theorem Ongoing.observation (ongoing : Ongoing sql display weight sequence)
    (found : display.block run = some row) (in_turn : Display.InTurn row.header envelope turn)
    (failure : Option (Text × UpstreamOutcome)) (closed : Bool) (room : 64 * (weight + 1) ≤ maxInteger) :
    ∃ next, Projector.observation sql run sequence row.header envelope failure closed = .ok next ∧
      Represents next (display.observe run sequence turn failure closed) := by
  have direct : (notice sequence closed).order.rank ≠ .fallback := by
    rw [show (notice sequence closed).order.rank = .notice from rfl]
    decide
  have small := bytes_notice sequence closed
  have named : ((display.find run (.assistant turn)).map Item.entry).map Entry.id =
      (display.find run (.assistant turn)).map Item.id := by
    rw [Option.map_map]
    rfl
  rw [Projector.observation]
  simp only [currentTurn_ok in_turn, ongoing.lookup run (.assistant turn), ongoing.assistant_id found in_turn.1, ok_bind,
    named, decide_true, require_true, pure_eq_ok]
  rw [Display.observe]
  cases existing : display.find run (.assistant turn) with
  | some item =>
    obtain ⟨member, same_run, source⟩ := Display.find_eq_some existing
    have writing : Writing sql display item sequence 1 := ongoing.writing member (by simp [source]) room
    obtain ⟨middle, epoch, next, done, saves, holds⟩ := writing.delta_save direct (by omega)
      (source_observed failure closed item.metadata)
    rw [same_run] at done saves
    refine ⟨next, ?_, ?_⟩
    · simp only [Option.map_some]
      rw [show item.entry.metadata = item.metadata from rfl, done, ok_bind]
      exact saves
    · have place : (item.observe sequence failure closed).first = item.first := rfl
      simp only
      rw [Display.edit_eq_put ongoing.sound.ordered ongoing.sound.sourced existing place]
      exact holds
  | none =>
    have absent : display.find run (noticeMetadata sequence).source = none :=
      ongoing.sound.no_notice (by have := ongoing.next; omega)
    obtain ⟨created_sql, creates, represents⟩ := ongoing.create absent
    have writing : Writing created_sql _ _ sequence 1 :=
      ongoing.writing_new represents (noticeMetadata_valid sequence) (by rintro ⟨⟩) room
    obtain ⟨middle, epoch, next, done, saves, holds⟩ := writing.delta_save direct (by omega)
      (source_observed failure closed (noticeMetadata sequence))
    refine ⟨next, ?_, ?_⟩
    · simp only [Option.map_none, creates, ok_bind]
      exact (congrArg (· >>= _) done).trans saves
    · have first : (((Item.new run sequence (noticeMetadata sequence)).write sequence (observed failure closed
          (noticeMetadata sequence))).delta sequence (notice sequence closed)).first = sequence := rfl
      rw [ongoing.put_new first] at holds
      exact holds

theorem Ongoing.providerEvent (ongoing : Ongoing sql display weight sequence)
    (found : display.block run = some row) (in_turn : Display.InTurn row.header envelope turn)
    (event : ProviderEvent) (room : 64 * (weight + (event.weight + 1)) ≤ maxInteger) :
    Achieves display run sequence row.header (display.provider run sequence turn event)
      (Projector.providerEvent sql run sequence row.header envelope event) := by
  have own_turn := currentTurn_ok in_turn
  have blocks (failure : Option (Text × UpstreamOutcome)) (closed : Bool) :
      (display.observe run sequence turn failure closed).blocks = display.blocks := by
    rw [Display.observe]
    cases display.find run (.assistant turn) <;> rfl
  cases event with
  | requestFailed code message upstream =>
    obtain ⟨next, done, holds⟩ := ongoing.observation found in_turn (some (safeCode code, upstream)) false (by omega)
    refine ⟨next, _, id, ?_, holds, blocks _ _, rfl⟩
    simp only [Projector.providerEvent, done, ok_bind, pure_eq_ok, id]
  | sessionClosed reason =>
    obtain ⟨next, done, holds⟩ := ongoing.observation found in_turn none true (by omega)
    refine ⟨next, _, id, ?_, holds, blocks _ _, rfl⟩
    simp only [Projector.providerEvent, done, ok_bind, pure_eq_ok, id]
  | providerExtension type payload =>
    have absent : display.find run (noticeMetadata sequence).source = none :=
      ongoing.sound.no_notice (by have := ongoing.next; omega)
    have direct : extension.order.rank ≠ .fallback := by decide
    have small : bytes extension.text ≤ 64 * 1 := by
      rw [extension, bytes_unsupportedContent]
      omega
    obtain ⟨created, entry, next, creates, done, holds⟩ := ongoing.create_delta absent (noticeMetadata_valid sequence)
      (by rintro ⟨⟩) direct small (by omega)
    refine ⟨next, _, id, ?_, holds, rfl, rfl⟩
    simp only [Projector.providerEvent, creates, ok_bind, done, pure_eq_ok, id]
  | responseStarted id | responseStatus id status | outputItemStarted id index item
  | outputItemUpdated id itemId index content summary kind delta | outputItemFinished id index item =>
    simp only [Projector.providerEvent, responseId, present_some, ok_bind, own_turn]
    exact ongoing.respond found in_turn.1 (by rfl) room
  | responseFinished response =>
    simp only [Projector.providerEvent, responseId, present_some, ok_bind, own_turn]
    exact ongoing.respond found in_turn.1 (by rfl) room

end Provider

section Tools
variable {sql : Conversation} {display : Display} {weight sequence : Nat} {run : RunId} {item : Item} {row : BlockRow}

theorem Ongoing.same_name (ongoing : Ongoing sql display weight sequence) (member : item ∈ display.items)
    {call toolName : Text} (tool : item.source = .tool call) (shows_name : item.ShowsTool toolName) :
    ∃ key, FieldKey.new item.run item.id (.indexed (toolOrder .toolName)) .toolName = .ok key ∧
      sameText sql key item.entry toolName = .ok true := by
  obtain ⟨field, field_member, order, kind, text⟩ := shows_name
  have sound := ongoing.sound.items item member
  have writable := ongoing.writable member (by simp [tool])
  have ready := ongoing.represents.ready ongoing.sound.ordered member writable item.metadata
  have host : Hosts sql item.run item.id (field.order = .human) := ready.host.of_false (by simp [order])
  have bounds := writable.generations field field_member
  have fits : field.generation ≤ maxInteger := by
    have := ongoing.fits
    omega
  refine ⟨field.fieldKey item.run item.id, ?_, ?_⟩
  · rw [LogicalField.fieldKey, order, kind]
    exact host.key_new (by simp)
  · have seen : field.generation ≤ item.entry.revision := bounds.2.1
    have compared : sameText sql (field.fieldKey item.run item.id) item.entry toolName =
        .ok (decide (field.text = toolName)) := ready.stores.sameText field_member host bounds.1 fits seen toolName
    rw [compared, text]
    simp

theorem Ongoing.toolEvent (ongoing : Ongoing sql display weight sequence) {event : ToolExecutionEvent}
    (admits : display.AdmitsTool run envelope event)
    (room : 64 * (weight + (bytes event.toolName + 1)) ≤ maxInteger) :
    ∃ next, Projector.toolEvent sql run sequence envelope event = .ok next ∧
      Represents next (display.tool run sequence envelope event) := by
  cases event with
  | toolExecutionStarted callId toolName =>
    have direct : (toolNamePart toolName).order.rank ≠ .fallback := by
      rw [show (toolNamePart toolName).order.rank = .toolName from rfl]
      decide
    have small : bytes (toolNamePart toolName).text ≤ 64 * (bytes toolName + 1) := by
      simp only [toolNamePart]
      omega
    have absent : display.find run (startedMetadata envelope callId).source = none := admits
    obtain ⟨created, entry, next, creates, done, holds⟩ := ongoing.create_delta absent (startedMetadata_valid ..)
      (by rintro ⟨⟩) direct small room
    refine ⟨next, ?_, holds⟩
    simp only [Projector.toolEvent, ToolExecutionEvent.callId, creates, ok_bind, done, pure_eq_ok]
  | toolExecutionFinished callId toolName isError =>
    obtain ⟨item, found, shows_name, pending, turn, request⟩ := admits
    obtain ⟨member, same_run, source⟩ := Display.find_eq_some found
    obtain ⟨key, is_key, same_text⟩ := ongoing.same_name member source shows_name
    have same_source : (finishedMetadata isError item.metadata).source = item.source := by
      rw [finishedMetadata]
      split <;> rfl
    obtain ⟨next, saves, holds⟩ := ongoing.represents.write ongoing.sound.ordered member (ongoing.valid member)
      same_source ongoing.fits
    rw [same_run] at saves is_key
    refine ⟨next, ?_, ?_⟩
    · have facts : (decide (item.entry.metadata.finishRecorded = some false) &&
          decide (item.entry.metadata.turnId = envelope.turnId) &&
          decide (item.entry.metadata.requestId = envelope.requestId)) = true := by
        rw [Bool.and_eq_true, Bool.and_eq_true]
        exact ⟨⟨decide_eq_true pending, decide_eq_true turn⟩, decide_eq_true request⟩
      simp only [Projector.toolEvent, ToolExecutionEvent.callId, ToolExecutionEvent.toolName,
        ongoing.lookup run (.tool callId), found, Option.map_some, ok_bind, present_some]
      rw [show item.entry.id = item.id from rfl, is_key, ok_bind, same_text, ok_bind, require_true, ok_bind, facts,
        require_true, ok_bind]
      exact saves
    · have place : (item.finishTool sequence isError).first = item.first := rfl
      rw [Display.tool, Display.edit_eq_put ongoing.sound.ordered ongoing.sound.sourced found place]
      exact holds
  | toolResultReused callId toolName =>
    obtain ⟨item, found, shows_name, known⟩ := admits
    obtain ⟨member, same_run, source⟩ := Display.find_eq_some found
    obtain ⟨key, is_key, same_text⟩ := ongoing.same_name member source shows_name
    have absent : display.find run (reusedMetadata sequence envelope item.entry).source = none :=
      ongoing.sound.no_reuse (by have := ongoing.next; omega)
    obtain ⟨next, creates, holds⟩ := ongoing.create absent
    rw [same_run] at is_key
    have recorded : decide (item.entry.metadata.resultRecorded = some true) = true := decide_eq_true known
    refine ⟨next, ?_, ?_⟩
    · simp only [Projector.toolEvent, ToolExecutionEvent.callId, ToolExecutionEvent.toolName,
        ongoing.lookup run (.tool callId), found, Option.map_some, ok_bind, present_some]
      rw [show item.entry.id = item.id from rfl, is_key, ok_bind, same_text, ok_bind, require_true, ok_bind, recorded,
        require_true, ok_bind, creates, ok_bind]
      rfl
    · rw [Display.tool, found]
      exact holds

theorem Ongoing.toolResult (ongoing : Ongoing sql display weight sequence) (found : display.block run = some row)
    (running : row.header.state = .running) {callId output : Text} {request : Option Text} {isError : Bool}
    (located : display.find run (.tool callId) = some item) (pending : item.metadata.resultRecorded = some false)
    (requested : item.metadata.requestId = request) (room : 64 * (weight + (bytes output + 1)) ≤ maxInteger) :
    ∃ next, Projector.toolResult sql run sequence request callId output isError = .ok next ∧
      Represents next (display.edit run (.tool callId) (Item.recordResult sequence output isError)) := by
  obtain ⟨member, same_run, source⟩ := Display.find_eq_some located
  have writable := ongoing.writable member (by simp [source])
  have ready := ongoing.represents.ready ongoing.sound.ordered member writable item.metadata
  have shape := (ongoing.sound.items item member).shape
  rw [Item.Shape, source] at shape
  have absent : ∀ field ∈ item.fields, field.order ≠ .indexed (Item.toolOutput output).order := by
    obtain ⟨name, generation, head, only | ⟨known, -⟩⟩ := shape
    · have fields := List.eq_cons_of_mem_head? (by rw [head]; rfl)
      intro field field_member
      rw [fields, only.2, List.mem_singleton] at field_member
      rw [field_member]
      simp [Item.toolOutput, toolOrder]
    · rw [pending] at known
      cases known
  have direct : (Item.toolOutput output).order.rank ≠ .fallback := by
    rw [show (Item.toolOutput output).order.rank = .toolOutput from rfl]
    decide
  obtain ⟨middle, inserts, stored, same⟩ := ready.stores.insertPart ready.host ready.first ready.fits absent
    (absent_id ongoing.collision direct absent) (by
      show bytes output ≤ maxInteger
      omega)
  have filled := ongoing.represents.fill ongoing.sound.ordered member same stored
  have epoch_fits := (writable.valid.fits ongoing.fits).2
  have same_source : (resultMetadata isError item.metadata).source = item.source := rfl
  obtain ⟨next, saves, holds⟩ : ∃ next, Rows.save middle item.run sequence ⟨item.id, item.epoch, item.changed,
      resultMetadata isError item.metadata⟩ = .ok next ∧ _ :=
    filled.save_filled ongoing.sound.ordered member same_source ongoing.fits epoch_fits
  have key : FieldKey.new item.run item.id (.indexed (toolOrder .toolOutput)) .toolResult =
      .ok (fieldKey item.run item.id (.indexed (toolOrder .toolOutput)) .toolResult) := ready.host.key_new (by simp)
  rw [same_run] at key saves inserts
  refine ⟨next, ?_, ?_⟩
  · have facts : (decide (item.entry.metadata.resultRecorded = some false) &&
        decide (item.entry.metadata.requestId = request)) = true := by
      rw [Bool.and_eq_true]
      exact ⟨decide_eq_true pending, decide_eq_true requested⟩
    simp only [Projector.toolResult, ongoing.block found, ok_bind, running, decide_true, require_true,
      ongoing.lookup run (.tool callId), located, Option.map_some, present_some]
    rw [facts, require_true, ok_bind, show item.entry.id = item.id from rfl, key, ok_bind]
    exact (congrArg (· >>= _) inserts).trans saves
  · have place : (item.recordResult sequence output isError).first = item.first := rfl
    rw [Display.edit_eq_put ongoing.sound.ordered ongoing.sound.sourced located place]
    exact holds

end Tools
section Apply
variable {sql : Conversation} {display : Display} {weight sequence : Nat} {run : RunId} {item : Item} {row : BlockRow}

theorem Ongoing.saved (ongoing : Ongoing sql display weight sequence) (found : display.block run = some row)
    {after : Display} {result : Result (Conversation × BlockHeader)}
    (achieves : Achieves display run sequence row.header after result) :
    ∃ next, (result >>= fun pair => Rows.saveBlock pair.1 run sequence pair.2) = .ok next ∧ Represents next after := by
  obtain ⟨middle_sql, middle, change, rfl, holds, blocks, rfl⟩ := achieves
  have runs : (middle.blocks.map BlockRow.runId).Nodup := by
    rw [blocks]
    exact ongoing.sound.runs
  have located : middle.block run = some row := by
    rw [Display.block, blocks]
    exact found
  exact holds.saveBlock runs located ongoing.fits change

theorem Ongoing.settled (ongoing : Ongoing sql display weight sequence) (run : RunId) (state : State) :
    ∃ next, Projector.settle sql run sequence state = .ok next ∧
      Represents next (display.settle run sequence state) :=
  ongoing.represents.settle ongoing.sound.ordered ongoing.fits (fun _ member => ongoing.valid member) state

theorem Ongoing.observe (ongoing : Ongoing sql display weight sequence) (found : display.block run = some row)
    (own : envelope.runId = run.text) (version : envelope.schemaVersion = 2)
    (is_active : active row.header.state = true) (admits : display.AdmitsRuntime run row.header envelope)
    (room : 64 * (weight + (envelope.event.weight + 1)) ≤ maxInteger) :
    ∃ next, Projector.observe sql run sequence envelope = .ok next ∧
      Represents next (display.runtime run sequence envelope) := by
  rw [Display.AdmitsRuntime] at admits
  have saved {next : Conversation} {middle : Display} (change : BlockHeader → BlockHeader) (holds : Represents next middle)
      (blocks : middle.blocks = display.blocks) :
      ∃ final, Rows.saveBlock next run sequence (change row.header) = .ok final ∧
        Represents final (middle.head run sequence change) :=
    ongoing.saved found ⟨next, middle, change, rfl, holds, blocks, rfl⟩
  simp only [Projector.observe, own, version, decide_true, Bool.and_self, require_true, ok_bind, ongoing.block found,
    is_active]
  rw [Display.runtime]
  cases kind : envelope.event with
  | runStarted =>
    rw [kind] at admits
    simp only [show row.header.state = .accepted from admits, decide_true, require_true, ok_bind, pure_eq_ok]
    exact saved (fun header => { header with state := .running }) ongoing.represents rfl
  | turnStarted number =>
    rw [kind] at admits
    obtain ⟨closed, turn, is_turn, -⟩ := admits
    simp only [is_turn, closed, Option.isNone_none, require_true, present_some, ok_bind, pure_eq_ok]
    exact saved (fun header => { header with currentTurn := some turn, currentAssistant := none }) ongoing.represents rfl
  | turnFinished number responseId outcome upstream =>
    rw [kind] at admits
    obtain ⟨turn, in_turn⟩ := admits
    obtain ⟨next, done, holds⟩ := ongoing.turnFinished found in_turn outcome upstream
    simp only [in_turn.2, done, ok_bind, pure_eq_ok]
    exact saved (fun header => { header with currentTurn := none, currentAssistant := none }) holds rfl
  | runFinished outcome summary =>
    obtain ⟨next, done, holds⟩ := ongoing.settled run (.unfinished outcome)
    simp only [done, ok_bind, pure_eq_ok]
    exact saved (fun header => { header with
      state := outcomeState outcome
      outcome := some (displayOutcome outcome)
      summary := some summary
      currentTurn := none
      currentAssistant := none }) holds rfl
  | providerEvent provided =>
    rw [kind] at admits room
    obtain ⟨supported, turn, in_turn⟩ := admits
    simp only [in_turn.2, supported, decide_true, require_true, ok_bind]
    exact ongoing.saved found (ongoing.providerEvent found in_turn provided.event room)
  | toolEvent event =>
    rw [kind] at admits room
    obtain ⟨⟨turn, in_turn⟩, lawful⟩ := admits
    obtain ⟨next, done, holds⟩ := ongoing.toolEvent lawful room
    simp only [in_turn.2, currentTurn_ok in_turn, discard_ok, ok_bind, done, pure_eq_ok]
    refine saved id holds ?_
    cases event with
    | toolResultReused callId toolName =>
      rw [Display.tool]
      cases display.find run (.tool callId) <;> rfl
    | _ => rfl

theorem Ongoing.recordResult (ongoing : Ongoing sql display weight sequence) (found : display.block run = some row)
    {result : RunResult} (own : result.runId = run.text) (open_result : row.header.resultRecorded = false)
    (not_interrupted : row.header.state ≠ .interrupted)
    (agrees : row.header.outcome = none ∧ result.eventsComplete = false ∨
      row.header.outcome = some (displayOutcome result.outcome)) :
    ∃ next, Projector.recordResult sql run sequence result = .ok next ∧
      Represents next (display.applyRun run sequence (.result result)) := by
  obtain ⟨settled_sql, settles, holds⟩ := ongoing.settled run (.unfinished result.outcome)
  have achieves : Achieves display run sequence row.header (display.applyRun run sequence (.result result))
      (.ok (settled_sql, Display.concluded result row.header)) := ⟨settled_sql, _, _, rfl, holds, rfl, rfl⟩
  obtain ⟨next, saves, final⟩ := ongoing.saved found achieves
  refine ⟨next, ?_, final⟩
  have outcomes : (row.header.outcome.all (· = displayOutcome result.outcome) &&
      (row.header.outcome.isSome || !result.eventsComplete)) = true := by
    rcases agrees with ⟨unknown, missing⟩ | same
    · simp [unknown, missing]
    · simp [same]
  simp only [Projector.recordResult, own, decide_true, require_true, ok_bind, ongoing.block found, open_result,
    Bool.not_false, not_interrupted, ne_eq, not_false_eq_true, Bool.and_self, outcomes, settles]
  exact saves

theorem Ongoing.interrupt (ongoing : Ongoing sql display weight sequence) (found : display.block run = some row)
    (is_active : active row.header.state = true) :
    ∃ next, Projector.interrupt sql run sequence = .ok next ∧
      Represents next (display.applyRun run sequence .interrupted) := by
  obtain ⟨settled_sql, settles, holds⟩ := ongoing.settled run .interrupted
  have achieves : Achieves display run sequence row.header (display.applyRun run sequence .interrupted)
      (.ok (settled_sql, { row.header with state := .interrupted, currentTurn := none, currentAssistant := none })) :=
    ⟨settled_sql, _, fun header => { header with state := .interrupted, currentTurn := none, currentAssistant := none },
      rfl, holds, rfl, rfl⟩
  obtain ⟨next, saves, final⟩ := ongoing.saved found achieves
  refine ⟨next, ?_, final⟩
  simp only [Projector.interrupt, ongoing.block found, ok_bind, is_active, require_true, settles]
  exact saves

theorem Ongoing.accept (ongoing : Ongoing sql display weight sequence) (missing : display.block run = none)
    (input : RecordedRunInput) (small : bytes input.userText ≤ maxInteger) :
    ∃ next, Projector.accept sql run sequence input = .ok next ∧
      Represents next (display.accept run sequence input) := by
  have id : EntryId.new sequence 0 = .ok ⟨sequence, 0⟩ := if_neg ongoing.positive
  have free : (sql.blocks.all fun old => !(decide (old.runId = run) || decide (old.acceptedSequence = sequence))) =
      true := by
    rw [ongoing.represents.blocks, List.all_eq_true]
    intro old member
    have absent := List.find?_eq_none.1 missing old member
    have valid := blockValid_iff.1 (ongoing.sound.blocks old member)
    have := ongoing.next
    have apart : ¬old.acceptedSequence = sequence := by omega
    simp only [decide_eq_true_eq] at absent
    simp [absent, apart]
  -- The block is inserted first; the human entry and its text follow.
  have opened : Represents { sql with blocks := sql.blocks ++ [Display.opening run sequence] }
      { display with blocks := display.blocks ++ [Display.opening run sequence] } := by
    refine ⟨ongoing.represents.projection, by rw [ongoing.represents.blocks], ongoing.represents.entries, ?_⟩
    exact fun otherRun otherId => (ongoing.represents.content otherRun otherId).of_slices rfl fun _ => rfl
  have no_items := ongoing.sound.no_items missing
  have absent : Display.find { display with blocks := display.blocks ++ [Display.opening run sequence] } run
      (EntryMetadata.new .human .accepted false).source = none := by
    rw [Display.find, List.find?_eq_none]
    intro item member
    simp [no_items item member]
  obtain ⟨created, creates, represents⟩ := opened.create ongoing.collision ongoing.sound.ordered absent ongoing.fresh
    ongoing.positive ongoing.fits
  have ordered : (Display.add { display with blocks := display.blocks ++ [Display.opening run sequence] }
      (Item.new run sequence (EntryMetadata.new .human .accepted false))).Ordered := ongoing.add_ordered _
  have member : Item.new run sequence (EntryMetadata.new .human .accepted false) ∈ (Display.add { display with
      blocks := display.blocks ++ [Display.opening run sequence] }
      (Item.new run sequence (EntryMetadata.new .human .accepted false))).items := by simp [Display.add]
  have human := ((Item.fresh_human run [] (Nat.zero_le (64 * 0))).sound (Nat.pos_of_ne_zero ongoing.positive)).toValid
  have valid : (Item.new run sequence (EntryMetadata.new .human .accepted false)).Valid sequence :=
    ⟨human.first, human.epoch, human.changed, human.seen, human.metadata⟩
  have host : Hosts created run ⟨sequence, 0⟩ (LogicalField.order ⟨.human, .text, sequence, input.userText⟩ = .human) := by
    have host := represents.hosts ordered member valid ongoing.fits
    have same : ((Item.new run sequence (EntryMetadata.new .human .accepted false)).source = .human) =
        (LogicalField.order ⟨.human, .text, sequence, input.userText⟩ = .human) :=
      propext ⟨fun _ => rfl, fun _ => rfl⟩
    rw [same] at host
    exact host
  have stores : Stores created run ⟨sequence, 0⟩ [] := by
    have stores := represents.content run ⟨sequence, 0⟩
    have empty : (Display.add { display with blocks := display.blocks ++ [Display.opening run sequence] }
        (Item.new run sequence (EntryMetadata.new .human .accepted false))).content run ⟨sequence, 0⟩ = [] :=
      Display.content_of_mem ordered member
    rwa [empty] at stores
  obtain ⟨next, inserts, stored, same⟩ := stores.insert host (by simp) (by simp) le_rfl ongoing.fits small
  have filled := represents.fill ordered member same stored
  have key : FieldKey.new run ⟨sequence, 0⟩ .human .text =
      .ok (LogicalField.fieldKey run ⟨sequence, 0⟩ ⟨.human, .text, sequence, input.userText⟩) := host.key_new (by simp)
  refine ⟨next, ?_, ?_⟩
  · simp only [Projector.accept, id, ok_bind, integer_ok ongoing.fits, insertBlock, free, require_true, pure_eq_ok]
    rw [show (⟨run, sequence, sequence, ⟨⟨sequence, 0⟩, .accepted, false, none, none, none, none, none, none⟩⟩ : BlockRow) =
      Display.opening run sequence from rfl, creates, ok_bind]
    rw [show (Item.new run sequence (EntryMetadata.new .human .accepted false)).entry.id = ⟨sequence, 0⟩ from rfl, key,
      ok_bind]
    exact (congrArg (· >>= _) inserts).trans rfl
  · have placed : (Display.add { display with blocks := display.blocks ++ [Display.opening run sequence] }
        (Item.new run sequence (EntryMetadata.new .human .accepted false))).put
          (Item.human run sequence input.userText) = display.accept run sequence input :=
      Display.add_put rfl fun old old_member => (ongoing.fresh old old_member).ne
    rw [← placed]
    exact filled

theorem Represents.upTo {after : Display} {next : Conversation} (represents : Represents next after) (sequence : Nat) :
    Represents { next with projection := next.projection.map fun head => { head with appliedSequence := sequence } }
      (after.upTo sequence) where
  projection := by
    rw [represents.projection]
    rfl
  blocks := represents.blocks
  entries := represents.entries
  content run id := (represents.content run id).of_slices rfl fun _ => rfl

/-- Applying an admitted event to the tables of a display gives the tables of the next one. -/
theorem Represents.apply (represents : Represents sql display) (sound : display.Sound weight)
    (collision : CollisionFree) {event : Event} (admits : display.Admits event) (fits : event.sequence ≤ maxInteger)
    (room : 64 * (weight + event.input.weight) ≤ maxInteger) :
    ∃ next, Projector.apply sql event = .ok next ∧ Represents next (display.apply event) := by
  have ongoing : Ongoing sql display weight event.sequence := ⟨represents, sound, collision, admits.next, fits⟩
  have lawful := admits.lawful
  have titled := sound.titled
  have ahead : (decide (1 = 1) && decide (display.applied + 1 = event.sequence) && decide (display.titled ≠ 0) &&
      decide (display.titled ≤ display.applied)) = true := by
    have := admits.next
    have positive : display.titled ≠ 0 := by omega
    simp [positive, titled.2, admits.next]
  rw [Display.apply]
  cases of_run : event.run with
  | none =>
    rw [of_run] at lawful
    refine ⟨{ sql with projection := some ⟨1, event.sequence, event.sequence⟩ }, ?_, ?_⟩
    · rw [Projector.apply, integer_ok fits, ok_bind, lawful, represents.projection]
      dsimp only
      rw [present_some, ok_bind]
      dsimp only
      rw [ahead, require_true, ok_bind, of_run]
      rfl
    · exact ⟨rfl, represents.blocks, represents.entries, fun run id => (represents.content run id).of_slices rfl
        fun _ => rfl⟩
  | some run =>
    rw [of_run] at lawful
    have finish {input : Input} (is_input : event.input = input) (later : input ≠ .created ∧ input ≠ .renamed)
        (applied : ∃ next, Projector.applyRun sql run event.sequence input = .ok next ∧
          Represents next (display.applyRun run event.sequence input)) :
        ∃ next, Projector.apply sql event = .ok next ∧
          Represents next ((display.applyRun run event.sequence event.input).upTo event.sequence) := by
      obtain ⟨next, done, holds⟩ := applied
      refine ⟨_, ?_, is_input ▸ holds.upTo event.sequence⟩
      have unfolds : Projector.apply sql event = (do
          let sql ← Projector.applyRun sql run event.sequence input
          return { sql with projection := sql.projection.map fun head => { head with
            appliedSequence := event.sequence } }) := by
        rw [Projector.apply, integer_ok fits, ok_bind, is_input, represents.projection]
        cases input <;> first
          | exact absurd rfl later.1
          | exact absurd rfl later.2
          | dsimp only
            rw [present_some, ok_bind]
            dsimp only
            rw [ahead, require_true, ok_bind, of_run]
            rfl
      rw [unfolds, done]
      rfl
    cases is_input : event.input with
    | created =>
      rw [is_input] at lawful
      exact lawful.elim
    | renamed =>
      rw [is_input] at lawful
      exact lawful.elim
    | accepted input =>
      rw [is_input, Input.weight] at room
      rw [is_input] at lawful
      exact is_input ▸ finish is_input (by simp) (ongoing.accept lawful input (by omega))
    | historySelected | providerBound =>
      rw [is_input] at lawful
      obtain ⟨row, found⟩ := lawful
      refine is_input ▸ finish is_input (by simp) ⟨sql, ?_, represents⟩
      simp only [Projector.applyRun, ongoing.block found, discard_ok, ok_bind, pure_eq_ok]
    | runtime envelope =>
      rw [is_input] at lawful room
      obtain ⟨own, version, row, found, is_active, lawful⟩ := lawful
      exact is_input ▸ finish is_input (by simp) (ongoing.observe found own version is_active lawful room)
    | toolResult request callId output isError =>
      rw [is_input] at lawful room
      obtain ⟨row, found, running, item, located, pending, requested⟩ := lawful
      exact is_input ▸ finish is_input (by simp) (ongoing.toolResult found running located pending requested room)
    | result result =>
      rw [is_input] at lawful
      obtain ⟨own, row, found, open_result, not_interrupted, agrees⟩ := lawful
      exact is_input ▸ finish is_input (by simp) (ongoing.recordResult found own open_result not_interrupted agrees)
    | interrupted =>
      rw [is_input] at lawful
      obtain ⟨row, found, is_active⟩ := lawful
      exact is_input ▸ finish is_input (by simp) (ongoing.interrupt found is_active)

end Apply

end Wi
