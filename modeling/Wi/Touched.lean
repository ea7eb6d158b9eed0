import Wi.Represent

/-! What one event may do to one entry: an old entry is touched, a new one starts at the
event's own sequence. -/
namespace Wi
open Utf8 Content Rows Projector

/-- The fields an entry of each source has. A tool entry shows its name, and its output once
the result is recorded; a reuse entry shows nothing of its own. -/
def Item.Shape (item : Item) : Prop :=
  match item.source with
  | .human => ∃ text, item.fields = [⟨.human, .text, item.first, text⟩]
  | .tool _ => ∃ name generation, item.fields.head? = some ⟨.indexed (toolOrder .toolName), .toolName, generation, name⟩ ∧
      (item.metadata.resultRecorded = some false ∧ item.fields.tail = [] ∨
        item.metadata.resultRecorded = some true ∧ ∃ output sequence,
          item.fields.tail = [⟨.indexed (toolOrder .toolOutput), .toolResult, sequence, output⟩])
  | .reuse .. => item.fields = []
  | .assistant _ | .notice .. => ∀ field ∈ item.fields, field.order ≠ .human

/-- What holds of every entry between two events. -/
structure Item.Sound (item : Item) (applied weight : Nat) : Prop extends item.Valid applied where
  ascending : Keyed.Ascending LogicalField.key item.fields
  generations : ∀ field ∈ item.fields, item.first ≤ field.generation ∧ field.generation ≤ item.changed
  shape : item.Shape
  size : Layout.textBytes item.fields ≤ 64 * weight

/-- An old entry after an event. -/
structure Item.Touched (sequence weight : Nat) (old new : Item) : Prop where
  run : new.run = old.run
  first : new.first = old.first
  source : new.source = old.source
  changed : new.changed = sequence
  layout : ∃ moved, Layout.Evolves sequence moved old.fields new.fields ∧
    new.epoch = if moved then sequence else old.epoch
  ascending : Keyed.Ascending LogicalField.key new.fields
  metadata : metadataValid new.metadata new.id = true
  shape : new.Shape
  size : Layout.textBytes new.fields ≤ Layout.textBytes old.fields + 64 * weight
  reference : new.metadata.reference = old.metadata.reference
  recorded : old.metadata.resultRecorded = some true →
    new.metadata.resultRecorded = some true ∧ new.metadata.isError = old.metadata.isError

/-- An entry that an event creates. -/
structure Item.Fresh (sequence weight : Nat) (item : Item) : Prop where
  first : item.first = sequence
  epoch : item.epoch = sequence
  changed : item.changed = sequence
  generations : ∀ field ∈ item.fields, field.generation = sequence
  ascending : Keyed.Ascending LogicalField.key item.fields
  metadata : metadataValid item.metadata item.id = true
  shape : item.Shape
  size : Layout.textBytes item.fields ≤ 64 * weight

variable {new : Item} {weight : Nat}

theorem Item.Touched.sound {old : Item} {sequence applied growth : Nat}
    (touched : Item.Touched sequence growth old new) (sound : old.Sound applied weight)
    (next : applied < sequence) : new.Sound sequence (weight + growth) := by
  obtain ⟨moved, evolves, epoch⟩ := touched.layout
  have bounds : old.first ≤ old.epoch ∧ old.epoch ≤ old.changed ∧ old.changed ≤ applied :=
    ⟨sound.epoch, sound.changed, sound.seen⟩
  have epochs : old.first ≤ new.epoch ∧ new.epoch ≤ sequence := by
    rw [epoch]
    split
    · exact ⟨by omega, le_rfl⟩
    · exact ⟨bounds.1, by omega⟩
  refine ⟨⟨by rw [touched.first]; exact sound.first, by rw [touched.first]; exact epochs.1,
    by rw [touched.changed]; exact epochs.2, touched.changed.le, touched.metadata⟩, touched.ascending, ?_,
    touched.shape, ?_⟩
  · intro field member
    rw [touched.first, touched.changed]
    rcases evolves.grown field member with now | ⟨before, before_member, -, -, same, -⟩
    · exact ⟨by omega, now.le⟩
    · have old_bounds := sound.generations before before_member
      exact ⟨by omega, by omega⟩
  · have := touched.size
    have := sound.size
    omega

theorem Item.Fresh.sound {item : Item} {sequence : Nat} (fresh : item.Fresh sequence weight)
    (positive : 0 < sequence) : item.Sound sequence weight := by
  refine ⟨⟨by rw [fresh.first]; exact positive, by rw [fresh.first, fresh.epoch], by rw [fresh.epoch, fresh.changed],
    fresh.changed.le, fresh.metadata⟩, fresh.ascending, fun field member => ?_, fresh.shape, fresh.size⟩
  rw [fresh.generations field member, fresh.first, fresh.changed]
  exact ⟨le_rfl, le_rfl⟩

theorem Item.Sound.mono {item : Item} {applied later more : Nat} (sound : item.Sound applied weight)
    (seen : applied ≤ later) (heavier : weight ≤ more) : item.Sound later more where
  first := sound.first
  epoch := sound.epoch
  changed := sound.changed
  seen := sound.seen.trans seen
  metadata := sound.metadata
  ascending := sound.ascending
  generations := sound.generations
  shape := sound.shape
  size := sound.size.trans (by omega)

theorem metadataValid_congr {a b : EntryMetadata} (source : a.source = b.source) (failure : a.failure = b.failure)
    (resultRecorded : a.resultRecorded = b.resultRecorded) (finishRecorded : a.finishRecorded = b.finishRecorded)
    (isError : a.isError = b.isError) (finishIsError : a.finishIsError = b.finishIsError)
    (reference : a.reference = b.reference) (id : EntryId) : metadataValid a id = metadataValid b id := by
  simp only [metadataValid, source, failure, resultRecorded, finishRecorded, isError, finishIsError, reference]


section Touch
variable {item : Item} {sequence applied weight growth : Nat} {metadata : EntryMetadata} {part : Part}

/-- The facts that fix an entry's identity and that only tool events change. -/
structure EntryMetadata.SameFacts (a b : EntryMetadata) : Prop where
  source : a.source = b.source
  resultRecorded : a.resultRecorded = b.resultRecorded
  finishRecorded : a.finishRecorded = b.finishRecorded
  isError : a.isError = b.isError
  finishIsError : a.finishIsError = b.finishIsError
  reference : a.reference = b.reference

theorem EntryMetadata.SameFacts.valid {a b : EntryMetadata} (same : a.SameFacts b) {id : EntryId}
    (valid : metadataValid b id = true) (failure : a.failure = b.failure ∨ ∃ code, a.failure = some (safeCode code)) :
    metadataValid a id = true := by
  rcases failure with kept | ⟨code, safe⟩
  · rw [metadataValid_congr same.source kept same.resultRecorded same.finishRecorded same.isError same.finishIsError
      same.reference]
    exact valid
  · simp only [metadataValid, same.source, same.resultRecorded, same.finishRecorded, same.isError, same.finishIsError,
      same.reference, safe, Option.all_some, safeCode_idempotent, beq_self_eq_true, Bool.true_and]
    simp only [metadataValid, Bool.and_eq_true] at valid
    simp only [Bool.and_eq_true]
    tauto

theorem Item.Shape.congr {a b : Item} (shape : b.Shape) (source : a.source = b.source) (first : a.first = b.first)
    (fields : a.fields = b.fields) (recorded : a.metadata.resultRecorded = b.metadata.resultRecorded) : a.Shape := by
  simp only [Item.Shape, source, first, fields, recorded]
  exact shape

theorem Item.Sound.touched_write (sound : item.Sound applied weight) (same : metadata.SameFacts item.metadata)
    (failure : metadata.failure = item.metadata.failure ∨ ∃ code, metadata.failure = some (safeCode code)) :
    Item.Touched sequence growth item (item.write sequence metadata) where
  run := rfl
  first := rfl
  source := same.source
  changed := rfl
  layout := ⟨false, .refl sequence item.fields, rfl⟩
  ascending := sound.ascending
  metadata := same.valid sound.metadata failure
  shape := sound.shape.congr same.source rfl rfl same.resultRecorded
  size := Nat.le_add_right _ _
  reference := same.reference
  recorded known := ⟨same.resultRecorded.trans known, same.isError⟩

/-- An assistant response or a notice, whose content events write. -/
def Source.Written : Source → Prop
  | .assistant _ | .notice .. => True
  | _ => False

theorem Item.shape_written (written : new.source.Written) (indexed : ∀ field ∈ new.fields, field.order ≠ .human) :
    new.Shape := by
  rw [Item.Shape]
  cases source : new.source with
  | assistant _ | notice _ _ => exact indexed
  | _ =>
    rw [source] at written
    exact written.elim

theorem Item.Sound.indexed (sound : item.Sound applied weight) (other : item.source ≠ .human) :
    ∀ field ∈ item.fields, field.order ≠ .human := by
  have shape := sound.shape
  rw [Item.Shape] at shape
  cases source : item.source with
  | human => exact absurd source other
  | assistant _ | notice _ _ =>
    rw [source] at shape
    exact shape
  | reuse _ _ =>
    rw [source] at shape
    simp [show item.fields = [] from shape]
  | tool _ =>
    rw [source] at shape
    obtain ⟨name, generation, head, rest⟩ := shape
    have fields := List.eq_cons_of_mem_head? (by rw [head]; rfl)
    intro field member
    rw [fields] at member
    rcases List.mem_cons.1 member with rfl | later
    · simp
    · rcases rest with ⟨-, none⟩ | ⟨-, output, sequence, one⟩
      · rw [none] at later
        cases later
      · rw [one, List.mem_singleton] at later
        simp [later]

theorem Source.Written.ne_human {source : Source} (written : source.Written) : source ≠ .human := by
  rintro rfl
  exact written

theorem Item.Sound.touched_delta (sound : item.Sound applied weight) (written : item.source.Written)
    (same : metadata.SameFacts item.metadata)
    (failure : metadata.failure = item.metadata.failure ∨ ∃ code, metadata.failure = some (safeCode code))
    (small : bytes part.text ≤ 64 * growth) :
    Item.Touched sequence growth item ((item.write sequence metadata).delta sequence part) where
  run := rfl
  first := rfl
  source := same.source
  changed := rfl
  layout := ⟨_, Layout.delta_evolves sound.ascending (.of_ascending sound.ascending), rfl⟩
  ascending := Layout.ascending_delta sound.ascending
  metadata := same.valid sound.metadata failure
  shape := by
    refine Item.shape_written ?_ fun field member => ?_
    · have source : ((item.write sequence metadata).delta sequence part).source = item.source := same.source
      rwa [source]
    · rcases Layout.order_delta member with new | ⟨old, old_member, order⟩
      · simp [new]
      · rw [← order]
        exact sound.indexed written.ne_human old old_member
  size := (Layout.textBytes_delta (.of_ascending sound.ascending)).trans (by
    show Layout.textBytes item.fields + bytes part.text ≤ _
    omega)
  reference := same.reference
  recorded known := ⟨same.resultRecorded.trans known, same.isError⟩

theorem Item.Sound.touched_snapshot (sound : item.Sound applied weight) (written : item.source.Written)
    {before : EntryMetadata} (same : metadata.SameFacts item.metadata)
    (failure : metadata.failure = item.metadata.failure ∨ ∃ code, metadata.failure = some (safeCode code))
    {output : Option UInt64} {parts : List Part} (coherent : Layout.Coherent output parts)
    (small : Layout.partBytes parts ≤ 64 * growth) :
    Item.Touched sequence growth item
      (((item.write sequence before).snapshot sequence output parts).write sequence metadata) where
  run := rfl
  first := rfl
  source := same.source
  changed := rfl
  layout := ⟨_, Layout.snapshot_evolves, rfl⟩
  ascending := Layout.ascending_snapshot sound.ascending coherent
  metadata := same.valid sound.metadata failure
  shape := by
    refine Item.shape_written ?_ fun field member => ?_
    · have source : (((item.write sequence before).snapshot sequence output parts).write sequence metadata).source =
          item.source := same.source
      rwa [source]
    · rcases Layout.order_snapshot member with ⟨part, -, new⟩ | ⟨old, old_member, order⟩
      · simp [new]
      · rw [← order]
        exact sound.indexed written.ne_human old old_member
  size := (Layout.textBytes_snapshot coherent (.of_ascending sound.ascending)).trans (by
    show Layout.textBytes item.fields + Layout.partBytes parts ≤ _
    omega)
  reference := same.reference
  recorded known := ⟨same.resultRecorded.trans known, same.isError⟩

end Touch

variable {metadata : EntryMetadata} {call : Text}

section Events
variable {item : Item} {sequence applied weight growth : Nat}

theorem opened_facts (response : Text) (event : ProviderEvent) (metadata : EntryMetadata) :
    (opened response event metadata).SameFacts metadata ∧
      (opened response event metadata).failure = metadata.failure := by
  rw [opened]
  split <;> exact ⟨⟨rfl, rfl, rfl, rfl, rfl, rfl⟩, rfl⟩

theorem bytes_updated (outputIndex : UInt64) (contentIndex summaryIndex : Option UInt64) (kind : DeltaKind)
    (text : Text) : bytes (updated outputIndex contentIndex summaryIndex kind text).text ≤ 64 * (bytes text + 1) := by
  simp only [updated]
  split
  · rw [bytes_unsupportedContent]
    omega
  · omega

theorem Item.Sound.respond (sound : item.Sound applied weight) (written : item.source.Written)
    (response : Text) (event : ProviderEvent) (fits : 2 * event.weight < 2 ^ 64) :
    Item.Touched sequence (event.weight + 1) item (item.respond sequence response event) := by
  obtain ⟨same, failure⟩ := opened_facts response event item.metadata
  cases event with
  | responseStatus id status =>
    refine sound.touched_write ?_ (.inl failure)
    exact ⟨same.source, same.resultRecorded, same.finishRecorded, same.isError, same.finishIsError, same.reference⟩
  | outputItemUpdated id itemId outputIndex contentIndex summaryIndex kind text =>
    exact sound.touched_delta written same (.inl failure) (bytes_updated ..)
  | outputItemStarted id outputIndex output | outputItemFinished id outputIndex output =>
    have size := Layout.itemParts_size outputIndex output
    have bound : 2 * output.weight < 2 ^ 64 := fits
    refine sound.touched_snapshot written same (.inl failure) (Layout.itemParts_coherent bound.le outputIndex) ?_
    rw [ProviderEvent.weight]
    omega
  | responseFinished final =>
    have size := Layout.responseParts_size final
    have kept : (finished final (opened response (.responseFinished final) item.metadata)).SameFacts item.metadata :=
      ⟨same.source, same.resultRecorded, same.finishRecorded, same.isError, same.finishIsError, same.reference⟩
    refine sound.touched_snapshot written kept (.inl failure) (Layout.responseParts_coherent fits) ?_
    rw [ProviderEvent.weight]
    omega
  | responseStarted _ | requestFailed _ _ _ | sessionClosed _ | providerExtension _ _ =>
    exact sound.touched_write same (.inl failure)

theorem observed_facts (failure : Option (Text × UpstreamOutcome)) (closed : Bool) (metadata : EntryMetadata)
    (safe : ∀ failed, failure = some failed → ∃ code, failed.1 = safeCode code) :
    (observed failure closed metadata).SameFacts metadata ∧
      ((observed failure closed metadata).failure = metadata.failure ∨
        ∃ code, (observed failure closed metadata).failure = some (safeCode code)) := by
  cases failure with
  | none => cases closed <;> exact ⟨⟨rfl, rfl, rfl, rfl, rfl, rfl⟩, .inl rfl⟩
  | some failed =>
    obtain ⟨code, is_safe⟩ := safe failed rfl
    cases closed <;>
      exact ⟨⟨rfl, rfl, rfl, rfl, rfl, rfl⟩, .inr ⟨code, congrArg some is_safe⟩⟩

theorem bytes_notice (sequence : Nat) (closed : Bool) : bytes (notice sequence closed).text ≤ 64 := by
  cases closed <;> simp only [notice] <;> decide

theorem Item.Sound.observe (sound : item.Sound applied weight) (written : item.source.Written)
    (failure : Option (Text × UpstreamOutcome)) (closed : Bool)
    (safe : ∀ failed, failure = some failed → ∃ code, failed.1 = safeCode code) (positive : 0 < growth) :
    Item.Touched sequence growth item (item.observe sequence failure closed) := by
  obtain ⟨same, kept⟩ := observed_facts failure closed item.metadata safe
  have small := bytes_notice sequence closed
  exact sound.touched_delta written same kept (by omega)

theorem Item.Sound.settle (sound : item.Sound applied weight) (state : State) :
    Item.Touched sequence growth item (item.settle sequence state) :=
  sound.touched_write ⟨rfl, rfl, rfl, rfl, rfl, rfl⟩ (.inl rfl)

theorem Item.Sound.finishTurn (sound : item.Sound applied weight) (outcome : TurnOutcome)
    (upstream : Option UpstreamOutcome) : item.finishTurn sequence outcome upstream = item ∨
      Item.Touched sequence growth item (item.finishTurn sequence outcome upstream) := by
  rw [Item.finishTurn]
  split
  · exact .inr (sound.touched_write ⟨rfl, rfl, rfl, rfl, rfl, rfl⟩ (.inl rfl))
  · exact .inl rfl

theorem metadataValid_tool (tool : metadata.source = .tool call) (id : EntryId) : metadataValid metadata id = true ↔
      metadata.failure.all (fun code => safeCode code == code) = true ∧ metadata.resultRecorded.isSome = true ∧
        metadata.finishRecorded.isSome = true ∧ (metadata.resultRecorded = some true → metadata.isError.isSome = true) ∧
        metadata.reference = none := by
  cases failure : metadata.failure.all (fun code => safeCode code == code) <;>
    cases result : metadata.resultRecorded <;> cases finish : metadata.finishRecorded <;>
    cases reference : metadata.reference <;> cases error : metadata.isError <;>
    simp [metadataValid, tool, isTool, isReuse, positionMatches, failure, result, finish, reference, error]

theorem Item.Sound.finishTool (sound : item.Sound applied weight) (tool : item.source = .tool call)
    (isError : Bool) : Item.Touched sequence growth item (item.finishTool sequence isError) := by
  have valid := (metadataValid_tool tool item.id).1 sound.metadata
  have facts : (finishedMetadata isError item.metadata).source = item.metadata.source ∧
      (finishedMetadata isError item.metadata).failure = item.metadata.failure ∧
      (finishedMetadata isError item.metadata).resultRecorded = item.metadata.resultRecorded ∧
      (finishedMetadata isError item.metadata).reference = item.metadata.reference ∧
      (finishedMetadata isError item.metadata).finishRecorded = some true ∧
      (item.metadata.resultRecorded = some true →
        (finishedMetadata isError item.metadata).isError = item.metadata.isError) := by
    rw [finishedMetadata]
    by_cases pending : item.metadata.resultRecorded = some false
    · simp [pending]
    · simp [pending]
  obtain ⟨source, failure, result, reference, finish, error⟩ := facts
  refine ⟨rfl, rfl, source, rfl, ⟨false, .refl sequence item.fields, rfl⟩, sound.ascending, ?_,
    sound.shape.congr source rfl rfl result, Nat.le_add_right _ _, reference,
    fun known => ⟨result.trans known, error known⟩⟩
  refine (metadataValid_tool (source.trans tool) _).2 ⟨?_, ?_, ?_, ?_, ?_⟩
  · rw [failure]
    exact valid.1
  · rw [result]
    exact valid.2.1
  · rw [finish]
    rfl
  · intro known
    have old : item.metadata.resultRecorded = some true := result.symm.trans known
    rw [error old]
    exact valid.2.2.2.1 old
  · exact reference.trans valid.2.2.2.2

theorem toolName_before_toolOutput :
    (FieldOrder.indexed (toolOrder .toolName)).encode < (FieldOrder.indexed (toolOrder .toolOutput)).encode := by
  rw [FieldOrder.encode, FieldOrder.encode, OrderKey.spelling_lt_iff]
  decide

theorem Item.Sound.recordResult (sound : item.Sound applied weight) (tool : item.source = .tool call)
    (pending : item.metadata.resultRecorded = some false) (output : Text) (isError : Bool)
    (small : bytes output ≤ 64 * growth) :
    Item.Touched sequence growth item (item.recordResult sequence output isError) := by
  have valid := (metadataValid_tool tool item.id).1 sound.metadata
  have shape := sound.shape
  rw [Item.Shape, tool] at shape
  obtain ⟨name, generation, head, only | ⟨known, -⟩⟩ := shape
  swap
  · rw [pending] at known
    cases known
  have fields : item.fields = [⟨.indexed (toolOrder .toolName), .toolName, generation, name⟩] := by
    have split := List.eq_cons_of_mem_head? (by rw [head]; rfl)
    rwa [only.2] at split
  have above : ∀ other ∈ item.fields, other.key < (Layout.created (Item.toolOutput output) sequence).key := by
    rw [fields]
    intro other member
    rw [List.mem_singleton.1 member]
    exact toolName_before_toolOutput
  have last : (item.recordResult sequence output isError).fields =
      item.fields ++ [Layout.created (Item.toolOutput output) sequence] := Keyed.place_last sound.ascending above
  refine ⟨rfl, rfl, rfl, rfl, ⟨false, ⟨?_, fun _ => ?_⟩, rfl⟩, ?_, ?_, ?_, ?_, rfl, ?_⟩
  · intro field member
    rw [last, List.mem_append, List.mem_singleton] at member
    rcases member with old | rfl
    · exact .inr ⟨field, old, rfl, rfl, rfl, List.prefix_rfl⟩
    · exact .inl rfl
  · rw [last, List.map_append]
    exact List.prefix_append _ _
  · rw [last, Keyed.Ascending, List.pairwise_append]
    exact ⟨sound.ascending, List.pairwise_singleton _ _, by simpa using above⟩
  · have same : (resultMetadata isError item.metadata).source = .tool call := tool
    exact (metadataValid_tool same _).2 ⟨valid.1, rfl, valid.2.2.1, fun _ => rfl, valid.2.2.2.2⟩
  · have same : (item.recordResult sequence output isError).source = .tool call := tool
    rw [Item.Shape, same]
    refine ⟨name, generation, ?_, .inr ⟨rfl, output, sequence, ?_⟩⟩
    · rw [last, fields]
      rfl
    · rw [last, fields]
      rfl
  · rw [last, Layout.textBytes, List.map_append, List.sum_append, ← Layout.textBytes]
    simp only [List.map_cons, List.map_nil, List.sum_singleton, Layout.created, Item.toolOutput]
    omega
  · intro known
    rw [pending] at known
    cases known

theorem Item.Fresh.touched {more : Nat} (fresh : item.Fresh sequence weight)
    (touched : Item.Touched sequence more item new) : new.Fresh sequence (weight + more) := by
  obtain ⟨moved, evolves, epoch⟩ := touched.layout
  refine ⟨touched.first.trans fresh.first, ?_, touched.changed, fun field member => ?_, touched.ascending,
    touched.metadata, touched.shape, ?_⟩
  · rw [epoch, fresh.epoch, ite_self]
  · rcases evolves.grown field member with now | ⟨before, before_member, -, -, same, -⟩
    · exact now
    · rw [← same, fresh.generations before before_member]
  · have := touched.size
    have := fresh.size
    omega

theorem Item.fresh_new (run : RunId) (valid : metadataValid metadata ⟨sequence, 0⟩ = true)
    (shape : (Item.new run sequence metadata).Shape) : (Item.new run sequence metadata).Fresh sequence weight :=
  ⟨rfl, rfl, rfl, by simp [Item.new], by simp [Item.new, Keyed.Ascending], valid, shape, by simp [Item.new, Layout.textBytes]⟩

theorem Layout.delta_nil (sequence : Nat) (part : Part) :
    Layout.delta sequence part [] = [Layout.created part sequence] := rfl

theorem Item.fresh_delta {part : Part} (run : RunId) (valid : metadataValid metadata ⟨sequence, 0⟩ = true)
    (shape : ((Item.new run sequence metadata).delta sequence part).Shape)
    (small : bytes part.text ≤ 64 * weight) :
    ((Item.new run sequence metadata).delta sequence part).Fresh sequence weight := by
  refine ⟨rfl, rfl, rfl, ?_, ?_, valid, shape, ?_⟩
  · simp [Item.delta, Item.new, Layout.delta_nil, Layout.created]
  · simp [Item.delta, Item.new, Layout.delta_nil, Keyed.Ascending]
  · simpa [Item.delta, Item.new, Layout.delta_nil, Layout.textBytes, Layout.created] using small

theorem noticeMetadata_valid (sequence : Nat) : metadataValid (noticeMetadata sequence) ⟨sequence, 0⟩ = true := by
  simp [metadataValid, noticeMetadata, EntryMetadata.new, isTool, isReuse, positionMatches]

theorem assistantMetadata_valid (turn response : Text) (id : EntryId) :
    metadataValid (assistantMetadata turn response) id = true := by
  simp [metadataValid, assistantMetadata, EntryMetadata.new, isTool, isReuse, positionMatches]

theorem startedMetadata_valid (envelope : RunEventEnvelope) (call : Text) (id : EntryId) :
    metadataValid (startedMetadata envelope call) id = true := by
  simp [metadataValid, startedMetadata, EntryMetadata.new, isTool, isReuse, positionMatches]

theorem reusedMetadata_valid (envelope : RunEventEnvelope) (tool : item.source = .tool call)
    (valid : metadataValid item.metadata item.id = true) (known : item.metadata.resultRecorded = some true)
    (earlier : item.first < sequence) :
    metadataValid (reusedMetadata sequence envelope item.entry) ⟨sequence, 0⟩ = true := by
  have facts := (metadataValid_tool tool item.id).1 valid
  have finish := facts.2.2.1
  have error := facts.2.2.2.1 known
  obtain ⟨flag, error_is⟩ := Option.isSome_iff_exists.1 error
  simp [metadataValid, reusedMetadata, EntryMetadata.new, isTool, isReuse, positionMatches, Item.entry, known, finish,
    error_is, EntryId.before, Item.id, earlier]

theorem Item.fresh_human (run : RunId) (text : Text) (small : bytes text ≤ 64 * weight) :
    (Item.human run sequence text).Fresh sequence weight := by
  refine ⟨rfl, rfl, rfl, by simp [Item.human], by simp [Item.human, Keyed.Ascending], ?_, ⟨text, rfl⟩,
    by simpa [Item.human, Layout.textBytes] using small⟩
  simp [metadataValid, Item.human, EntryMetadata.new, isTool, isReuse, positionMatches]

end Events
end Wi
