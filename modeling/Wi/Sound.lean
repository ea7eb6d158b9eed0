import Wi.Touched

/-! What holds of the display between any two events. -/
namespace Wi
open Utf8 Content Rows Projector

/-- A reference names an earlier tool entry of the same run whose result is recorded. -/
def Display.Refers (display : Display) (item : Item) : Prop :=
  ∀ target, item.metadata.reference = some target → ∃ other ∈ display.items, other.run = item.run ∧
    other.id = target ∧ (∃ call, other.source = .tool call) ∧ other.metadata.resultRecorded = some true ∧
    item.metadata.isError = other.metadata.isError

/-- The human entry opens the block of its run, and every other entry follows it. -/
def Display.Owned (display : Display) (item : Item) : Prop :=
  ∃ row ∈ display.blocks, row.runId = item.run ∧
    if item.source = .human then row.acceptedSequence = item.first else row.acceptedSequence < item.first

def Display.assistantId (display : Display) (run : RunId) (turn : Text) : Option EntryId :=
  (display.find run (.assistant turn)).map Item.id

structure Display.Sound (display : Display) (weight : Nat) : Prop where
  titled : 1 ≤ display.titled ∧ display.titled ≤ display.applied
  ordered : display.Ordered
  sourced : display.Sourced
  items : ∀ item ∈ display.items, item.Sound display.applied weight
  references : ∀ item ∈ display.items, display.Refers item
  blocks : ∀ row ∈ display.blocks, blockValid row (display.applied + 1) = true
  accepted : display.blocks.Pairwise fun a b => a.acceptedSequence < b.acceptedSequence
  runs : (display.blocks.map BlockRow.runId).Nodup
  owned : ∀ item ∈ display.items, display.Owned item
  human : ∀ row ∈ display.blocks, ∃ item ∈ display.items, item.run = row.runId ∧ item.source = .human
  current : ∀ row ∈ display.blocks, row.header.currentAssistant =
    row.header.currentTurn.bind (display.assistantId row.runId)

theorem Display.Sound.earlier {display : Display} {weight : Nat} (sound : display.Sound weight) {item : Item}
    (member : item ∈ display.items) : item.first ≤ display.applied := by
  have valid := sound.items item member
  exact valid.epoch.trans (valid.changed.trans valid.seen)

theorem recorded_of_reference {metadata : EntryMetadata} {id : EntryId} (valid : metadataValid metadata id = true)
    (refers : metadata.reference.isSome = true) : metadata.resultRecorded = some true := by
  simp only [metadataValid, Bool.and_eq_true, beq_iff_eq, Bool.or_eq_true, Bool.not_eq_true'] at valid
  obtain ⟨⟨⟨⟨⟨-, reuse_recorded⟩, -⟩, reuse⟩, -⟩, -⟩ := valid
  rcases reuse_recorded with other | recorded
  · rw [refers, other] at reuse
    cases reuse
  · exact recorded

/-- The entries after an event of one run: some old ones are touched, at most one is new. -/
structure ItemStep (display : Display) (run : RunId) (sequence growth : Nat) (change : Item → Item)
    (added : List Item) : Prop where
  touched : ∀ item ∈ display.items, change item = item ∨
    item.run = run ∧ Item.Touched sequence growth item (change item)
  fresh : ∀ item ∈ added, item.run = run ∧ item.Fresh sequence growth ∧ display.find run item.source = none ∧
    display.Refers item
  single : added.length ≤ 1

namespace ItemStep
variable {display : Display} {run : RunId} {sequence weight growth : Nat} {change : Item → Item} {added : List Item}

theorem same (step : ItemStep display run sequence growth change added) {item : Item} (member : item ∈ display.items) :
    (change item).run = item.run ∧ (change item).first = item.first ∧ (change item).source = item.source := by
  rcases step.touched item member with unchanged | ⟨-, touched⟩
  · rw [unchanged]
    exact ⟨rfl, rfl, rfl⟩
  · exact ⟨touched.run, touched.first, touched.source⟩

theorem ordered (step : ItemStep display run sequence growth change added) (sound : display.Sound weight)
    (next : display.applied < sequence) :
    (display.items.map change ++ added).Pairwise fun a b => a.first < b.first := by
  rw [List.pairwise_append, List.pairwise_map]
  refine ⟨?_, ?_, ?_⟩
  · refine List.Pairwise.imp_of_mem (fun {a b} ha hb less => ?_) sound.ordered
    rwa [(step.same ha).2.1, (step.same hb).2.1]
  · have short := step.single
    match added with
    | [] => exact List.Pairwise.nil
    | [item] => exact List.pairwise_singleton _ _
    | _ :: _ :: _ => simp at short
  · intro item member new new_member
    obtain ⟨old, old_member, rfl⟩ := List.mem_map.1 member
    rw [(step.same old_member).2.1, (step.fresh new new_member).2.1.first]
    exact (sound.earlier old_member).trans_lt next

theorem sourced (step : ItemStep display run sequence growth change added) (sound : display.Sound weight) :
    ((display.items.map change ++ added).map fun item => (item.run, item.source)).Nodup := by
  have kept : (display.items.map change).map (fun item => (item.run, item.source)) =
      display.items.map fun item => (item.run, item.source) := by
    rw [List.map_map]
    refine List.map_congr_left fun item member => ?_
    rw [Function.comp_apply, (step.same member).1, (step.same member).2.2]
  rw [List.map_append, kept, List.nodup_append]
  refine ⟨sound.sourced, ?_, ?_⟩
  · have short := step.single
    match added with
    | [] => exact List.nodup_nil
    | [item] => exact List.nodup_singleton _
    | _ :: _ :: _ => simp at short
  · rintro _ old_named _ new_named rfl
    obtain ⟨old, old_member, old_is⟩ := List.mem_map.1 old_named
    obtain ⟨new, new_member, new_is⟩ := List.mem_map.1 new_named
    have names := Prod.mk.inj (old_is.trans new_is.symm)
    obtain ⟨new_run, -, absent, -⟩ := step.fresh new new_member
    exact Display.find_eq_none absent old old_member (names.1.trans new_run) names.2

theorem items (step : ItemStep display run sequence growth change added) (sound : display.Sound weight)
    (next : display.applied < sequence) :
    ∀ item ∈ display.items.map change ++ added, item.Sound sequence (weight + growth) := by
  intro item member
  rcases List.mem_append.1 member with kept | new
  · obtain ⟨old, old_member, rfl⟩ := List.mem_map.1 kept
    have old_sound := sound.items old old_member
    rcases step.touched old old_member with unchanged | ⟨-, touched⟩
    · rw [unchanged]
      exact old_sound.mono next.le (by omega)
    · exact touched.sound old_sound next
  · exact ((step.fresh item new).2.1.sound (by omega)).mono le_rfl (by omega)

theorem references (step : ItemStep display run sequence growth change added) (sound : display.Sound weight)
    {after : Display} (items : after.items = display.items.map change ++ added) :
    ∀ item ∈ after.items, after.Refers item := by
  -- A recorded result stays recorded with its flag, so an old target still fits.
  have kept (item : Item) (refers : display.Refers item) : after.Refers item := by
    intro target is_target
    obtain ⟨other, member, same_run, same_id, ⟨call, tool⟩, known, error⟩ := refers target is_target
    have same := step.same member
    refine ⟨change other, by rw [items]; exact List.mem_append_left _ (List.mem_map_of_mem member),
      same.1.trans same_run, ?_, ⟨call, same.2.2.trans tool⟩, ?_⟩
    · rw [← same_id, Item.id, Item.id, same.2.1]
    · rcases step.touched other member with unchanged | ⟨-, touched⟩
      · rw [unchanged]
        exact ⟨known, error⟩
      · obtain ⟨still, flag⟩ := touched.recorded known
        exact ⟨still, error.trans flag.symm⟩
  intro item member
  rw [items] at member
  rcases List.mem_append.1 member with old | new
  · obtain ⟨before, before_member, rfl⟩ := List.mem_map.1 old
    have refers := kept before (sound.references before before_member)
    rcases step.touched before before_member with unchanged | ⟨-, touched⟩
    · rwa [unchanged]
    · intro target is_target
      have source_target := touched.reference.symm.trans is_target
      obtain ⟨other, other_member, same_run, same_id, tool, known, error⟩ := refers target source_target
      have recorded := recorded_of_reference (sound.items before before_member).metadata (by rw [source_target]; rfl)
      exact ⟨other, other_member, same_run.trans touched.run.symm, same_id, tool, known,
        (touched.recorded recorded).2.trans error⟩
  · exact kept item (step.fresh item new).2.2.2

end ItemStep

/-- The blocks after an event of one run. -/
structure BlockStep (display : Display) (run : RunId) (sequence : Nat) (change : BlockRow → BlockRow) : Prop where
  touched : ∀ row ∈ display.blocks, change row = row ∨ row.runId = run ∧ (change row).runId = row.runId ∧
    (change row).acceptedSequence = row.acceptedSequence ∧ (change row).changedSequence = sequence ∧
    (change row).header.human = row.header.human ∧ safeOutcome (change row).header.outcome = true

theorem blockValid_iff {row : BlockRow} {sequence : Nat} : blockValid row sequence = true ↔
    row.acceptedSequence ≠ 0 ∧ row.header.human = ⟨row.acceptedSequence, 0⟩ ∧
      row.acceptedSequence ≤ row.changedSequence ∧ row.changedSequence < sequence ∧
      safeOutcome row.header.outcome = true := by
  have human : row.header.human = ⟨row.acceptedSequence, 0⟩ ↔
      row.header.human.sequence = row.acceptedSequence ∧ row.header.human.slot = 0 := by
    cases row.header.human
    rw [EntryId.mk.injEq]
  simp only [blockValid, Bool.and_eq_true, decide_eq_true_eq, human]
  tauto

section Advance
variable {display : Display} {run : RunId} {sequence weight growth : Nat} {change : Item → Item} {added : List Item}
  {head : BlockRow → BlockRow}

theorem BlockStep.same (step : BlockStep display run sequence head) {row : BlockRow} (member : row ∈ display.blocks) :
    (head row).runId = row.runId ∧ (head row).acceptedSequence = row.acceptedSequence := by
  rcases step.touched row member with unchanged | ⟨-, same_run, same_accepted, -⟩
  · rw [unchanged]
    exact ⟨rfl, rfl⟩
  · exact ⟨same_run, same_accepted⟩

theorem BlockStep.blocks (step : BlockStep display run sequence head) (sound : display.Sound weight)
    (next : sequence = display.applied + 1) :
    ∀ row ∈ display.blocks.map head, blockValid row (sequence + 1) = true := by
  intro row member
  obtain ⟨old, old_member, rfl⟩ := List.mem_map.1 member
  have valid := blockValid_iff.1 (sound.blocks old old_member)
  rw [blockValid_iff]
  rcases step.touched old old_member with unchanged | ⟨-, -, accepted, changed, human, safe⟩
  · rw [unchanged]
    exact ⟨valid.1, valid.2.1, valid.2.2.1, by omega, valid.2.2.2.2⟩
  · rw [accepted, changed, human]
    exact ⟨valid.1, valid.2.1, by omega, by omega, safe⟩

theorem BlockStep.accepted (step : BlockStep display run sequence head) (sound : display.Sound weight) :
    (display.blocks.map head).Pairwise fun a b => a.acceptedSequence < b.acceptedSequence := by
  rw [List.pairwise_map]
  refine List.Pairwise.imp_of_mem (fun {a b} ha hb less => ?_) sound.accepted
  rwa [(step.same ha).2, (step.same hb).2]

theorem BlockStep.runs (step : BlockStep display run sequence head) :
    (display.blocks.map head).map BlockRow.runId = display.blocks.map BlockRow.runId := by
  rw [List.map_map]
  exact List.map_congr_left fun row member => (step.same member).1

theorem Display.Sound.advance (sound : display.Sound weight) (next : sequence = display.applied + 1)
    (items : ItemStep display run sequence growth change added) (blocks : BlockStep display run sequence head)
    (block : ∃ row, display.block run = some row) (others : ∀ item ∈ added, item.source ≠ .human)
    (current : ∀ row ∈ display.blocks, (head row).header.currentAssistant = (head row).header.currentTurn.bind
      (Display.assistantId ⟨sequence, display.titled, display.blocks.map head, display.items.map change ++ added⟩
        row.runId)) :
    Display.Sound ⟨sequence, display.titled, display.blocks.map head, display.items.map change ++ added⟩
      (weight + growth) where
  titled := ⟨sound.titled.1, by have := sound.titled.2; simp only; omega⟩
  ordered := items.ordered sound (by omega)
  sourced := items.sourced sound
  items := items.items sound (by omega)
  references := items.references sound rfl
  blocks := blocks.blocks sound next
  accepted := blocks.accepted sound
  runs := by
    rw [blocks.runs]
    exact sound.runs
  owned := by
    intro item member
    rcases List.mem_append.1 member with old | new
    · obtain ⟨before, before_member, rfl⟩ := List.mem_map.1 old
      obtain ⟨row, row_member, same_run, position⟩ := sound.owned before before_member
      have same := items.same before_member
      have kept := blocks.same row_member
      refine ⟨head row, List.mem_map_of_mem row_member, ?_, ?_⟩
      · rw [kept.1, same_run, same.1]
      · rw [kept.2, same.2.1, same.2.2]
        exact position
    · obtain ⟨row, found⟩ := block
      have row_member : row ∈ display.blocks := List.mem_of_find?_eq_some found
      have own : row.runId = run := by simpa using List.find?_some found
      have kept := blocks.same row_member
      obtain ⟨new_run, fresh, -⟩ := items.fresh item new
      have valid := blockValid_iff.1 (sound.blocks row row_member)
      refine ⟨head row, List.mem_map_of_mem row_member, ?_, ?_⟩
      · rw [kept.1, own, new_run]
      · rw [if_neg (others item new), kept.2, fresh.first]
        omega
  human := by
    intro row member
    obtain ⟨old, old_member, rfl⟩ := List.mem_map.1 member
    obtain ⟨item, item_member, same_run, human⟩ := sound.human old old_member
    have same := items.same item_member
    refine ⟨change item, List.mem_append_left _ (List.mem_map_of_mem item_member), ?_, ?_⟩
    · rw [same.1, same_run, (blocks.same old_member).1]
    · rw [same.2.2, human]
  current := by
    intro row member
    obtain ⟨old, old_member, rfl⟩ := List.mem_map.1 member
    rw [(blocks.same old_member).1]
    exact current old old_member

theorem ItemStep.find (step : ItemStep display run sequence growth change added) {after : Display}
    (items : after.items = display.items.map change ++ added) (otherRun : RunId) (source : Source) :
    after.find otherRun source = match display.find otherRun source with
      | some item => some (change item)
      | none => added.find? fun item => item.run = otherRun && item.source = source := by
  have mapped : (display.items.map change).find? (fun item => item.run = otherRun && item.source = source) =
      (display.find otherRun source).map change := by
    rw [List.find?_map, Display.find]
    congr 1
    have same (item : Item) (member : item ∈ display.items) :
        ((fun item : Item => decide (item.run = otherRun) && decide (item.source = source)) ∘ change) item =
          (decide (item.run = otherRun) && decide (item.source = source)) := by
      rw [Function.comp_apply, (step.same member).1, (step.same member).2.2]
    rw [← List.head?_filter, ← List.head?_filter, List.filter_congr same]
  rw [Display.find, items, List.find?_append, mapped]
  cases display.find otherRun source <;> rfl

theorem ItemStep.assistantId (step : ItemStep display run sequence growth change added) {after : Display}
    (items : after.items = display.items.map change ++ added)
    (others : ∀ item ∈ added, ∀ turn, item.source ≠ .assistant turn) (otherRun : RunId) (turn : Text) :
    after.assistantId otherRun turn = display.assistantId otherRun turn := by
  rw [Display.assistantId, step.find items, Display.assistantId]
  cases found : display.find otherRun (.assistant turn) with
  | none =>
    simp only [Option.map_none, Option.map_eq_none_iff, List.find?_eq_none]
    intro item member
    simp [others item member turn]
  | some item =>
    have same := step.same (Display.find_eq_some found).1
    simp [Item.id, same.2.1]

end Advance
end Wi
