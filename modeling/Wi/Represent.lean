import Wi.Display

/-! The tables that hold a display, and the row operations that change them together. -/
namespace Wi
open Utf8 Content Rows Fields

variable {display : Display} {a b item next : Item} {run : RunId} {source : Source}

namespace Display

/-- The display with one item in place of the old item of its position. -/
def put (display : Display) (item : Item) : Display :=
  { display with items := display.items.map fun old => if old.first = item.first then item else old }

/-- Creation order fixes the position of every item. -/
def Ordered (display : Display) : Prop := display.items.Pairwise fun a b => a.first < b.first

/-- Within a run a source names one item. -/
def Sourced (display : Display) : Prop := (display.items.map fun item => (item.run, item.source)).Nodup

def content (display : Display) (run : RunId) (id : EntryId) : Layout.Fields :=
  ((display.items.find? fun item => item.run = run && item.id = id).map Item.fields).getD []

theorem Ordered.firsts (h : display.Ordered) : (display.items.map Item.first).Nodup := by
  rw [List.Nodup, List.pairwise_map]
  exact h.imp fun less => less.ne

theorem Ordered.eq (h : display.Ordered) (ha : a ∈ display.items) (hb : b ∈ display.items)
    (same : a.first = b.first) : a = b :=
  List.inj_on_of_nodup_map h.firsts ha hb same

theorem find_eq_some (found : display.find run source = some item) :
    item ∈ display.items ∧ item.run = run ∧ item.source = source := by
  have selected := List.find?_some found
  simp only [Bool.and_eq_true, decide_eq_true_eq] at selected
  exact ⟨List.mem_of_find?_eq_some found, selected⟩

theorem find_eq_none (missing : display.find run source = none) :
    ∀ item ∈ display.items, item.run = run → item.source ≠ source := by
  intro item member same_run same_source
  have absent := List.find?_eq_none.1 missing item member
  simp [same_run, same_source] at absent

theorem Sourced.find (h : display.Sourced) (member : item ∈ display.items) :
    display.find item.run item.source = some item := by
  cases found : display.find item.run item.source with
  | none => exact absurd rfl (find_eq_none found item member rfl)
  | some other =>
    obtain ⟨other_member, run, source⟩ := find_eq_some found
    rw [List.inj_on_of_nodup_map h other_member member (Prod.ext run source)]

theorem find_add (missing : display.find run source = none) (same_run : item.run = run)
    (same_source : item.source = source) : (display.add item).find run source = some item := by
  rw [find] at missing
  rw [find, add, List.find?_append, missing]
  simp [same_run, same_source]

theorem Sourced.add (h : display.Sourced) (missing : display.find item.run item.source = none) :
    (display.add item).Sourced := by
  rw [Sourced, Display.add, List.map_append, List.nodup_append]
  refine ⟨h, List.nodup_singleton _, ?_⟩
  intro name old_named last last_named same
  obtain ⟨old, old_member, rfl⟩ := List.mem_map.1 old_named
  rw [List.mem_singleton.1 last_named] at same
  have names := Prod.mk.inj same
  exact find_eq_none missing old old_member names.1 names.2

theorem put_put (display : Display) (same : b.first = a.first) : (display.put a).put b = display.put b := by
  simp only [put, List.map_map, Display.mk.injEq, true_and]
  refine List.map_congr_left fun old _ => ?_
  by_cases here : old.first = a.first
  · simp [here, same]
  · simp [here, same]

theorem put_self (h : display.Ordered) (member : item ∈ display.items) : display.put item = display := by
  have same : display.items.map (fun old => if old.first = item.first then item else old) = display.items := by
    conv_rhs => rw [← List.map_id display.items]
    refine List.map_congr_left fun old old_member => ?_
    by_cases here : old.first = item.first
    · rw [if_pos here, h.eq old_member member here]
      rfl
    · rw [if_neg here]
      rfl
  rw [put, same]

theorem mem_put {other : Item} (stored : ∃ old ∈ display.items, old.first = item.first) :
    other ∈ (display.put item).items ↔ other = item ∨ (other ∈ display.items ∧ other.first ≠ item.first) := by
  rw [put, List.mem_map]
  constructor
  · rintro ⟨old, member, rfl⟩
    split
    · exact .inl rfl
    · rename_i different
      exact .inr ⟨member, different⟩
  · rintro (rfl | ⟨member, different⟩)
    · obtain ⟨old, member, same⟩ := stored
      exact ⟨old, member, if_pos same⟩
    · exact ⟨other, member, if_neg different⟩

theorem eq_or_mem_of_put {other : Item} (placed : other ∈ (display.put next).items) :
    other = next ∨ other ∈ display.items := by
  obtain ⟨old, member, rfl⟩ := List.mem_map.1 placed
  split
  · exact .inl rfl
  · exact .inr member

theorem mem_put_self (member : item ∈ display.items) (same : next.first = item.first) :
    next ∈ (display.put next).items :=
  (mem_put ⟨item, member, same.symm⟩).2 (.inl rfl)

theorem Ordered.put (h : display.Ordered) (item : Item) : (display.put item).Ordered := by
  rw [Ordered, Display.put, List.pairwise_map]
  have first (old : Item) : (if old.first = item.first then item else old).first = old.first := by
    split
    · rename_i same
      exact same.symm
    · rfl
  exact h.imp fun less => by rwa [first, first]

theorem edit_eq_put (ordered : display.Ordered) (sourced : display.Sourced)
    (found : display.find run source = some item) {change : Item → Item}
    (place : (change item).first = item.first) : display.edit run source change = display.put (change item) := by
  obtain ⟨member, same_run, same_source⟩ := find_eq_some found
  rw [edit, editWhere, put, Table.update, Display.mk.injEq]
  refine ⟨rfl, rfl, rfl, List.map_congr_left fun old old_member => ?_⟩
  by_cases here : old.first = item.first
  · rw [ordered.eq old_member member here]
    simp [same_run, same_source, place]
  · have apart : ¬(old.run = run ∧ old.source = source) := by
      rintro ⟨old_run, old_source⟩
      refine here (congrArg Item.first (List.inj_on_of_nodup_map sourced old_member member ?_))
      exact Prod.ext (old_run.trans same_run.symm) (old_source.trans same_source.symm)
    rw [place, if_neg here, if_neg (by simpa using apart)]

theorem edit_of_none (missing : display.find run source = none) (change : Item → Item) :
    display.edit run source change = display := by
  rw [edit, editWhere, Table.update_eq_self]
  intro item member selected
  exact absurd selected (List.find?_eq_none.1 missing item member)

theorem add_put (same : b.first = a.first) (fresh : ∀ item ∈ display.items, item.first ≠ a.first) :
    (display.add a).put b = display.add b := by
  simp only [add, put, List.map_append, List.map_cons, List.map_nil, same, if_true, Display.mk.injEq, true_and]
  congr 1
  conv_rhs => rw [← List.map_id display.items]
  exact List.map_congr_left fun old member => if_neg (fresh old member)

end Display

section Content
variable {display : Display} {run : RunId} {id : EntryId} {item : Item}

theorem Display.content_of_mem (ordered : display.Ordered) (member : item ∈ display.items) :
    display.content item.run item.id = item.fields := by
  have found : display.items.find? (fun other => other.run = item.run && other.id = item.id) = some item := by
    cases found : display.items.find? (fun other => other.run = item.run && other.id = item.id) with
    | none =>
      have absent := List.find?_eq_none.1 found item member
      simp at absent
    | some other =>
      have selected := List.find?_some found
      simp only [Bool.and_eq_true, decide_eq_true_eq] at selected
      rw [ordered.eq (List.mem_of_find?_eq_some found) member (congrArg EntryId.sequence selected.2)]
  rw [Display.content, found]
  rfl

theorem Display.content_of_absent (absent : ∀ item ∈ display.items, item.run = run → item.id ≠ id) :
    display.content run id = [] := by
  rw [Display.content, List.find?_eq_none.2]
  · rfl
  · intro item member
    by_cases same : item.run = run
    · simp [same, absent item member same]
    · simp [same]

theorem Display.content_congr {other : Display}
    (same : other.items.map (fun item => (item.run, item.id, item.fields)) =
      display.items.map fun item => (item.run, item.id, item.fields)) (run : RunId) (id : EntryId) :
    other.content run id = display.content run id := by
  have lookup (display : Display) : display.content run id =
      (((display.items.map fun item => (item.run, item.id, item.fields)).find? fun entry =>
        entry.1 = run && entry.2.1 = id).map fun entry => entry.2.2).getD [] := by
    rw [Display.content, List.find?_map, Option.map_map]
    rfl
  rw [lookup, lookup display, same]

end Content

variable [JsonHash]

def Item.row (item : Item) : EntryRow :=
  ⟨item.run, item.id, item.source.key item.run, item.first, 0, item.changed, item.epoch, item.source.kind,
    item.metadata⟩

/-- The tables hold exactly this display. -/
structure Represents (sql : Conversation) (display : Display) : Prop where
  projection : sql.projection = some ⟨1, display.applied, display.titled⟩
  blocks : sql.blocks = display.blocks
  entries : sql.entries = display.items.map Item.row
  content : ∀ run id, Stores sql run id (display.content run id)

/-- What every item keeps, as far as its own row is concerned. -/
structure Item.Valid (item : Item) (sequence : Nat) : Prop where
  first : 0 < item.first
  epoch : item.first ≤ item.epoch
  changed : item.epoch ≤ item.changed
  seen : item.changed ≤ sequence
  metadata : metadataValid item.metadata item.id = true

theorem Source.key_injective (collision : CollisionFree) {a b : Source} {other : RunId}
    (same : a.key run = b.key other) : run = other ∧ a = b := by
  have inputs := collision same
  injection inputs with runs sources
  exact ⟨runs, sources⟩


variable {metadata : EntryMetadata}

section Primitives
variable {sql : Conversation} {display : Display} {run : RunId} {source : Source} {item : Item} {sequence : Nat}

theorem Represents.find_row (represents : Represents sql display) (collision : CollisionFree) (run : RunId)
    (source : Source) :
    (sql.entries.find? fun row => row.runId = run && row.sourceKey = source.key run) =
      (display.find run source).map Item.row := by
  rw [represents.entries, List.find?_map, Display.find]
  congr 1
  refine congrArg (fun p => display.items.find? p) (funext fun item => ?_)
  by_cases same_run : item.run = run
  · have sources : item.source.key run = source.key run ↔ item.source = source :=
      ⟨fun same => (Source.key_injective collision same).2, fun same => by rw [same]⟩
    simp [Item.row, same_run, sources]
  · simp [Item.row, same_run]

theorem Item.Valid.entryRow (valid : item.Valid sequence) :
    entryRow item.row item.run sequence = .ok item.entry := by
  have checks : (item.row.entryId.sequence = item.row.firstSequence && item.row.entryId.slot = item.row.positionSlot &&
      item.row.firstSequence ≤ item.row.contentEpoch && item.row.contentEpoch ≤ item.row.changedSequence &&
      item.row.changedSequence ≤ sequence && item.row.sourceKey = item.row.metadata.source.key item.run &&
      item.row.kind = item.row.metadata.source.kind && metadataValid item.row.metadata item.row.entryId) = true := by
    simp [Item.row, Item.id, valid.epoch, valid.changed, valid.seen, Item.source]
    exact valid.metadata
  rw [Rows.entryRow, checks]
  rfl

theorem Represents.lookup_some (represents : Represents sql display) (collision : CollisionFree)
    (found : display.find run source = some item) (valid : item.Valid sequence) :
    lookup sql run sequence source = .ok (some item.entry) := by
  obtain ⟨-, same_run, same_source⟩ := Display.find_eq_some found
  have row := represents.find_row collision run source
  rw [found, Option.map_some] at row
  have own : item.entry.metadata.source = source := same_source
  have checked := valid.entryRow
  rw [same_run] at checked
  rw [lookup, row]
  simp only [checked, ok_bind, own, decide_true, require_true, pure_eq_ok]

theorem Represents.lookup_none (represents : Represents sql display) (collision : CollisionFree)
    (missing : display.find run source = none) : lookup sql run sequence source = .ok none := by
  have row := represents.find_row collision run source
  rw [missing, Option.map_none] at row
  rw [lookup, row]

omit [JsonHash] in
theorem Display.content_add (ordered : display.Ordered) (fresh : ∀ old ∈ display.items, old.first < item.first)
    (otherRun : RunId) (id : EntryId) : (display.add item).content otherRun id =
      if (otherRun, id) = (item.run, item.id) then item.fields else display.content otherRun id := by
  split
  · rename_i here
    cases here
    have grown : (display.add item).Ordered := by
      rw [Display.Ordered, Display.add, List.pairwise_append]
      exact ⟨ordered, List.pairwise_singleton _ _, by simpa using fresh⟩
    exact Display.content_of_mem grown (by simp [Display.add])
  · rename_i other
    have skip : [item].find? (fun item => item.run = otherRun && item.id = id) = none := by
      rw [List.find?_eq_none]
      intro last member
      rw [List.mem_singleton.1 member]
      simp only [Bool.and_eq_true, decide_eq_true_eq, not_and]
      exact fun runs ids => other (by rw [runs, ids])
    simp only [Display.content, Display.add, List.find?_append, skip, Option.or_none]

theorem Represents.create (represents : Represents sql display) (collision : CollisionFree)
    (ordered : display.Ordered) (missing : display.find run metadata.source = none)
    (fresh : ∀ old ∈ display.items, old.first < sequence) (positive : sequence ≠ 0)
    (fits : sequence ≤ maxInteger) :
    ∃ next, create sql run sequence metadata = .ok (next, (Item.new run sequence metadata).entry) ∧
      Represents next (display.add (Item.new run sequence metadata)) := by
  have id : EntryId.new sequence 0 = .ok ⟨sequence, 0⟩ := if_neg positive
  have free : (sql.entries.all fun old => !(old.runId = run && (old.entryId = ⟨sequence, 0⟩ ||
      old.sourceKey = metadata.source.key run || (old.firstSequence = sequence && old.positionSlot = 0)))) = true := by
    rw [represents.entries, List.all_map, List.all_eq_true]
    intro old member
    have earlier := fresh old member
    have apart : ¬(old.run = run ∧ old.source.key old.run = metadata.source.key run) := by
      rintro ⟨same_run, same_key⟩
      exact Display.find_eq_none missing old member same_run (Source.key_injective collision same_key).2
    by_cases same_run : old.run = run
    · have keys : ¬old.source.key old.run = metadata.source.key run := fun same => apart ⟨same_run, same⟩
      simp [Item.row, Item.id, earlier.ne, keys]
    · simp [Item.row, same_run]
  refine ⟨{ sql with entries := sql.entries ++ [(Item.new run sequence metadata).row] }, ?_, ?_⟩
  · rw [Rows.create, represents.lookup_none collision missing, ok_bind, Option.isNone_none, require_true, ok_bind, id,
      ok_bind, integer_ok fits, ok_bind, insertEntry, free, require_true]
    rfl
  · refine ⟨represents.projection, represents.blocks, ?_, fun otherRun otherId => ?_⟩
    · simp [represents.entries, Display.add]
    · have stored : Stores { sql with entries := sql.entries ++ [(Item.new run sequence metadata).row] }
          otherRun otherId (display.content otherRun otherId) :=
        (represents.content otherRun otherId).of_slices rfl fun _ => rfl
      rw [Display.content_add ordered fresh]
      split
      · rename_i here
        cases here
        have empty : display.content run ⟨sequence, 0⟩ = [] :=
          Display.content_of_absent fun old member _ same => (fresh old member).ne (congrArg EntryId.sequence same)
        have own : display.content (Item.new run sequence metadata).run (Item.new run sequence metadata).id = [] := empty
        rw [own] at stored
        exact stored
      · exact stored

omit [JsonHash] in
theorem Display.content_put (ordered : display.Ordered) (member : item ∈ display.items)
    (same_run : next.run = item.run) (same_first : next.first = item.first) (otherRun : RunId) (id : EntryId) :
    (display.put next).content otherRun id =
      if (otherRun, id) = (item.run, item.id) then next.fields else display.content otherRun id := by
  have same_id : next.id = item.id := by rw [Item.id, Item.id, same_first]
  split
  · rename_i here
    cases here
    rw [← same_run, ← same_id]
    exact Display.content_of_mem (ordered.put next) ((Display.mem_put ⟨item, member, same_first.symm⟩).2 (.inl rfl))
  · rename_i other
    by_cases present : ∃ old ∈ display.items, old.run = otherRun ∧ old.id = id
    · obtain ⟨old, old_member, rfl, rfl⟩ := present
      have apart : old.first ≠ next.first := by
        intro same
        have equal := ordered.eq old_member member (same.trans same_first)
        exact other (by rw [equal])
      have kept : old ∈ (display.put next).items :=
        (Display.mem_put ⟨item, member, same_first.symm⟩).2 (.inr ⟨old_member, apart⟩)
      rw [Display.content_of_mem (ordered.put next) kept, Display.content_of_mem ordered old_member]
    · have absent : ∀ old ∈ display.items, old.run = otherRun → old.id ≠ id :=
        fun old old_member runs ids => present ⟨old, old_member, runs, ids⟩
      rw [Display.content_of_absent absent, Display.content_of_absent]
      intro old placed runs ids
      rcases (Display.mem_put ⟨item, member, same_first.symm⟩).1 placed with rfl | ⟨old_member, -⟩
      · exact other (by rw [← runs, ← ids, same_run, same_id])
      · exact absent old old_member runs ids

theorem Represents.save (represents : Represents sql display) (ordered : display.Ordered)
    (member : item ∈ display.items) {entry : Entry} (same_id : entry.id = item.id)
    (same_source : entry.metadata.source = item.source) (fits : sequence ≤ maxInteger)
    (epoch_fits : entry.epoch ≤ maxInteger) :
    ∃ next, save sql item.run sequence entry = .ok next ∧ Represents next
      (display.put { item with changed := sequence, epoch := entry.epoch, metadata := entry.metadata }) := by
  have selected (old : Item) (old_member : old ∈ display.items) :
      addresses item.run entry old.row = decide (old.first = item.first) := by
    by_cases here : old.first = item.first
    · rw [ordered.eq old_member member here]
      simp [addresses, Item.row, same_id, same_source]
    · have ids : ¬old.id = item.id := fun same => here (congrArg EntryId.sequence same)
      simp [addresses, Item.row, same_id, ids, here]
  have once : sql.entries.countP (addresses item.run entry) = 1 := by
    rw [represents.entries, List.countP_map]
    have counted : display.items.countP (addresses item.run entry ∘ Item.row) =
        display.items.countP fun old => old.first = item.first :=
      List.countP_congr fun old old_member => by rw [Function.comp_apply, selected old old_member]
    have by_key : (display.items.countP fun old => decide (old.first = item.first)) =
        (display.items.map Item.first).count item.first := by
      rw [List.count, List.countP_map]
      rfl
    rw [counted, by_key, List.count_eq_one_of_mem ordered.firsts (List.mem_map_of_mem member)]
  refine ⟨{ sql with entries := Table.update (addresses item.run entry) (fun row => { row with
    changedSequence := sequence, contentEpoch := entry.epoch, metadata := entry.metadata }) sql.entries }, ?_, ?_⟩
  · rw [Rows.save, integer_ok fits, ok_bind, integer_ok epoch_fits, ok_bind]
    simp [once]
  · refine ⟨represents.projection, represents.blocks, ?_, fun otherRun otherId => ?_⟩
    · rw [represents.entries, Table.update, Display.put, List.map_map, List.map_map]
      refine List.map_congr_left fun old old_member => ?_
      rw [Function.comp_apply, Function.comp_apply, selected old old_member]
      by_cases here : old.first = item.first
      · rw [ordered.eq old_member member here]
        simp [Item.row, Item.source, Item.id, same_source]
      · simp [here]
    · have kept : (display.put { item with
          changed := sequence, epoch := entry.epoch, metadata := entry.metadata }).content otherRun otherId =
          display.content otherRun otherId := by
        refine Display.content_congr ?_ otherRun otherId
        rw [Display.put, List.map_map]
        refine List.map_congr_left fun old old_member => ?_
        by_cases here : old.first = item.first
        · rw [ordered.eq old_member member here]
          simp [Item.id]
        · simp [here]
      rw [kept]
      exact (represents.content otherRun otherId).of_slices rfl fun _ => rfl

theorem Represents.fill (represents : Represents sql display) (ordered : display.Ordered)
    (member : item ∈ display.items) {next : Conversation} {fields : Layout.Fields}
    (same : SameBut item.run item.id sql next) (stored : Stores next item.run item.id fields) :
    Represents next (display.put { item with fields }) := by
  refine ⟨same.projection.trans represents.projection, same.blocks.trans represents.blocks, ?_,
    fun otherRun otherId => ?_⟩
  · rw [same.entries, represents.entries, Display.put, List.map_map]
    refine List.map_congr_left fun old old_member => ?_
    by_cases here : old.first = item.first
    · rw [ordered.eq old_member member here]
      simp [Item.row, Item.source, Item.id]
    · simp [here]
  · have content : (display.put { item with fields }).content otherRun otherId =
        if (otherRun, otherId) = (item.run, item.id) then fields else display.content otherRun otherId := by
      refine Display.content_put ordered member ?_ ?_ otherRun otherId <;> rfl
    rw [content]
    split
    · rename_i here
      cases here
      exact stored
    · rename_i other
      exact (represents.content otherRun otherId).same_but same other

theorem Represents.block (represents : Represents sql display) {row : BlockRow}
    (found : display.block run = some row) (valid : blockValid row sequence = true) :
    block sql run sequence = .ok row.header := by
  have rows : sql.blocks.find? (fun row => row.runId = run) = some row := by
    rw [represents.blocks]
    exact found
  rw [Rows.block, rows, present_some, ok_bind, valid, require_true]
  rfl

theorem Represents.saveBlock (represents : Represents sql display) {row : BlockRow}
    (runs : (display.blocks.map BlockRow.runId).Nodup) (found : display.block run = some row)
    (fits : sequence ≤ maxInteger) (change : BlockHeader → BlockHeader) :
    ∃ next, saveBlock sql run sequence (change row.header) = .ok next ∧
      Represents next (display.head run sequence change) := by
  have member : row ∈ display.blocks := List.mem_of_find?_eq_some found
  have own : row.runId = run := by simpa using List.find?_some found
  have once : sql.blocks.countP (fun row => row.runId = run) = 1 := by
    have by_key : (display.blocks.countP fun row => decide (row.runId = run)) =
        (display.blocks.map BlockRow.runId).count run := by
      rw [List.count, List.countP_map]
      rfl
    rw [represents.blocks, by_key, List.count_eq_one_of_mem runs (own ▸ List.mem_map_of_mem member)]
  refine ⟨{ sql with blocks := Table.update (fun row => row.runId = run) (fun old => { old with
    changedSequence := sequence, header := change row.header }) sql.blocks }, ?_, ?_⟩
  · rw [Rows.saveBlock, integer_ok fits, ok_bind]
    simp [once]
  · refine ⟨represents.projection, ?_, represents.entries, fun otherRun otherId =>
      (represents.content otherRun otherId).of_slices rfl fun _ => rfl⟩
    rw [represents.blocks, Display.head, Table.update, Table.update]
    refine List.map_congr_left fun old old_member => ?_
    by_cases here : old.runId = run
    · rw [List.inj_on_of_nodup_map runs old_member member (here.trans own.symm)]
    · simp [here]

end Primitives

section Writing
variable {sql : Conversation} {display : Display} {item : Item} {sequence : Nat} {part : Part}

/-- An item other than a human one that an event at this sequence may write. -/
structure Item.Writable (item : Item) (sequence : Nat) : Prop where
  valid : item.Valid sequence
  fits : sequence ≤ maxInteger
  other : item.source ≠ .human
  indexed : ∀ field ∈ item.fields, field.order ≠ .human
  generations : ∀ field ∈ item.fields, item.first ≤ field.generation ∧ field.generation ≤ item.changed ∧
    field.generation < sequence

omit [JsonHash] in
theorem Item.Valid.fits (valid : item.Valid sequence) (fits : sequence ≤ maxInteger) :
    item.first ≤ maxInteger ∧ item.epoch ≤ maxInteger := by
  have := valid.epoch
  have := valid.changed
  have := valid.seen
  omega

theorem Represents.write (represents : Represents sql display) (ordered : display.Ordered)
    (member : item ∈ display.items) (valid : item.Valid sequence) (same_source : metadata.source = item.source)
    (fits : sequence ≤ maxInteger) :
    ∃ next, Rows.save sql item.run sequence { item.entry with metadata } = .ok next ∧
      Represents next (display.put (item.write sequence metadata)) := by
  have own : (Entry.mk item.id item.epoch item.changed metadata).id = item.id := rfl
  exact represents.save ordered member own same_source fits (valid.fits fits).2

theorem Represents.hosts (represents : Represents sql display) (ordered : display.Ordered)
    (member : item ∈ display.items) (valid : item.Valid sequence) (fits : sequence ≤ maxInteger) :
    Hosts sql item.run item.id (item.source = .human) := by
  refine ⟨(valid.fits fits).1, Nat.zero_le _, item.row, ?_, rfl, rfl, ?_⟩
  · rw [represents.entries, List.find?_map]
    have found : display.items.find? ((fun row : EntryRow => decide (row.runId = item.run) &&
        decide (row.entryId = item.id)) ∘ Item.row) = some item := by
      cases found : display.items.find? ((fun row : EntryRow => decide (row.runId = item.run) &&
          decide (row.entryId = item.id)) ∘ Item.row) with
      | none =>
        have absent := List.find?_eq_none.1 found item member
        simp [Item.row] at absent
      | some other =>
        have selected := List.find?_some found
        rw [Function.comp_apply, Bool.and_eq_true] at selected
        have ids : other.id = item.id := of_decide_eq_true selected.2
        rw [ordered.eq (List.mem_of_find?_eq_some found) member (congrArg EntryId.sequence ids)]
    rw [found, Option.map_some]
  · cases source : item.source <;> simp [Item.row, source, Source.kind]

theorem Represents.ready (represents : Represents sql display) (ordered : display.Ordered)
    (member : item ∈ display.items) (writable : item.Writable sequence) (metadata : EntryMetadata) :
    Ready sql item.run { item.entry with metadata } sequence item.fields where
  stores := Display.content_of_mem ordered member ▸ represents.content item.run item.id
  host := by
    have host := represents.hosts ordered member writable.valid writable.fits
    have same : (item.source = .human) = False := by simpa using writable.other
    rwa [same] at host
  indexed := writable.indexed
  generations := writable.generations
  first := writable.valid.epoch.trans (writable.valid.changed.trans writable.valid.seen)
  fits := writable.fits

theorem Represents.delta (represents : Represents sql display) (collision : CollisionFree)
    (ordered : display.Ordered) (member : item ∈ display.items) (writable : item.Writable sequence)
    (direct : part.order.rank ≠ .fallback) (small : Layout.textBytes item.fields + bytes part.text ≤ maxInteger)
    (metadata : EntryMetadata) :
    ∃ next, Content.delta sql item.run { item.entry with metadata } sequence part =
        .ok (next, ⟨item.id, if Layout.deltaMoves part item.fields then sequence else item.epoch, item.changed,
          metadata⟩) ∧
      Represents next (display.put { item with fields := Layout.delta sequence part item.fields }) := by
  obtain ⟨next, done, stored, same⟩ :=
    (represents.ready ordered member writable metadata).delta collision direct small
  refine ⟨next, ?_, represents.fill ordered member same stored⟩
  rw [done]
  split <;> rfl

theorem Represents.snapshot (represents : Represents sql display) (collision : CollisionFree)
    (ordered : display.Ordered) (member : item ∈ display.items) (writable : item.Writable sequence)
    {output : Option UInt64} {parts : List Part} (coherent : Layout.Coherent output parts)
    (small : Layout.textBytes item.fields ≤ maxInteger) (parts_small : ∀ part ∈ parts, bytes part.text ≤ maxInteger)
    (metadata : EntryMetadata) :
    ∃ next, Content.snapshot sql item.run { item.entry with metadata } sequence output parts =
        .ok (next, ⟨item.id, if Layout.snapshotMoves sequence output parts item.fields then sequence else item.epoch,
          item.changed, metadata⟩) ∧
      Represents next (display.put { item with fields := Layout.snapshot sequence output parts item.fields }) := by
  obtain ⟨next, done, stored, same⟩ :=
    (represents.ready ordered member writable metadata).snapshot collision coherent small parts_small
  refine ⟨next, ?_, represents.fill ordered member same stored⟩
  rw [done]
  split <;> rfl

theorem Represents.save_filled (ordered : display.Ordered) (member : item ∈ display.items)
    {fields : Layout.Fields} (represents : Represents sql (display.put { item with fields }))
    {epoch changed : Nat} (same_source : metadata.source = item.source) (fits : sequence ≤ maxInteger)
    (epoch_fits : epoch ≤ maxInteger) :
    ∃ next, Rows.save sql item.run sequence ⟨item.id, epoch, changed, metadata⟩ = .ok next ∧
      Represents next (display.put { item with changed := sequence, epoch, metadata, fields }) := by
  have placed : { item with fields } ∈ (display.put { item with fields }).items :=
    Display.mem_put_self member (by rfl)
  have own : (Entry.mk item.id epoch changed metadata).id = Item.id { item with fields } := rfl
  obtain ⟨next, done, saved⟩ := represents.save (ordered.put _) placed own same_source fits epoch_fits
  refine ⟨next, done, ?_⟩
  rwa [Display.put_put _ (by rfl)] at saved

end Writing
end Wi
