import Wi.FieldOps

/-! Any sequence of changes to fields leaves each text in the chunks that one insertion of it
stores, and the comparison with a stored text is exact. -/
namespace Wi.Fields
open Utf8 Chunks
variable [JsonHash]

inductive Change where
  | insert (generation : Nat) (text : Text)
  | append (delta : Text)
  | replace (generation : Nat) (text : Text)
  | remove

def Change.perform (sql : Conversation) (key : FieldKey) : Change → Result Conversation
  | .insert generation text => Prod.fst <$> Fields.insert sql key generation text
  | .append delta => Prod.fst <$> Fields.append sql key delta
  | .replace generation text => Prod.fst <$> Fields.replace sql key generation text
  | .remove => Content.remove sql key

/-- What a change means for the fields of its entry. -/
def Change.applied (order : FieldOrder) (kind : FieldKind) (fields : List LogicalField) : Change → List LogicalField
  | .insert generation text => Keyed.place LogicalField.key ⟨order, kind, generation, text⟩ fields
  | .append delta => fields.map fun field => if field.order = order then { field with text := field.text ++ delta } else field
  | .replace generation text => fields.map fun field => if field.order = order then { field with generation, text } else field
  | .remove => removeField order fields

/-- A change of the field at an order key of an entry. -/
structure Command where
  run : RunId
  entry : EntryId
  order : FieldOrder
  kind : FieldKind
  change : Change

def Command.perform (sql : Conversation) (command : Command) : Result Conversation := do
  let key ← FieldKey.new command.run command.entry command.order command.kind
  command.change.perform sql key

/-- The fields that every entry is meant to have. -/
abbrev Logical := RunId → EntryId → List LogicalField

def Command.applied (logical : Logical) (command : Command) : Logical := fun run id =>
  if (run, id) = (command.run, command.entry) then command.change.applied command.order command.kind (logical run id)
  else logical run id

/-- A command that fails is rolled back. -/
def Command.step (state : Conversation × Logical) (command : Command) : Conversation × Logical :=
  match command.perform state.1 with
  | .ok next => (next, command.applied state.2)
  | .error _ => state

/-- No field yet, whatever the entries are. -/
def start (sql : Conversation) : Conversation × Logical := ({ sql with fields := [], chunks := [] }, fun _ _ => [])

/-! ### What a change that succeeds has checked -/

variable {sql next : Conversation} {run : RunId} {id : EntryId} {order : FieldOrder} {kind : FieldKind}
  {fields : List LogicalField}

variable {key : FieldKey}

theorem key_new_eq_ok (made : FieldKey.new run id order kind = .ok key) :
    key = fieldKey run id order kind ∧ id.sequence ≤ maxInteger ∧ id.slot ≤ maxInteger ∧ (order = .human → kind = .text) := by
  simp only [FieldKey.new, bind_eq_ok, discard_eq_ok, require_eq_ok, pure_eq_ok, Except.ok.injEq, integer_eq_ok] at made
  obtain ⟨_, ⟨_, sequence, _⟩, _, ⟨_, slot, _⟩, _, allowed, rfl⟩ := made
  refine ⟨rfl, sequence, slot, fun human => ?_⟩
  simpa [human] using allowed

theorem generation_eq_ok {generation result : Nat} (checked : key.generation generation = .ok result) :
    key.entry.sequence ≤ generation ∧ generation ≤ maxInteger ∧ result = generation := by
  simp only [FieldKey.generation, bind_eq_ok, require_eq_ok, integer_eq_ok, decide_eq_true_eq] at checked
  obtain ⟨_, first, fits, same⟩ := checked
  exact ⟨first, fits, same⟩

theorem hosts_of_validateEntry {result : Unit} (sequence : id.sequence ≤ maxInteger) (slot : id.slot ≤ maxInteger)
    (valid : (fieldKey run id order kind).validateEntry sql = .ok result) : Hosts sql run id (order = .human) := by
  simp only [FieldKey.validateEntry, bind_eq_ok, require_eq_ok, present_eq_ok, Bool.and_eq_true, decide_eq_true_eq] at valid
  obtain ⟨row, found, ⟨first, place⟩, human⟩ := valid
  exact ⟨sequence, slot, row, found, first, place, human⟩

/-- The conditions of an insertion. -/
structure Insertable (sql : Conversation) (run : RunId) (id : EntryId) (fields : List LogicalField) (field : LogicalField) :
    Prop where
  host : Hosts sql run id (field.order = .human)
  fresh : field.fieldId run id ∉ fields.map (LogicalField.fieldId run id)
  freshKey : field.key ∉ fields.map LogicalField.key
  first : id.sequence ≤ field.generation
  fits : field.generation ≤ maxInteger
  small : bytes field.text ≤ maxInteger

variable {field : LogicalField}

theorem Insertable.insert (able : Insertable sql run id fields field) (h : Stores sql run id fields) :
    ∃ next, Fields.insert sql (field.fieldKey run id) field.generation field.text =
      .ok (next, ⟨field.generation, bytes field.text⟩) := by
  obtain ⟨next, inserted, _⟩ := h.insert able.host able.fresh able.freshKey able.first able.fits able.small
  exact ⟨next, inserted⟩

theorem free_of_insertField (h : Stores sql run id fields)
    (inserted : Fields.insertField sql (field.row run id) = .ok next) :
    field.fieldId run id ∉ fields.map (LogicalField.fieldId run id) ∧ field.key ∉ fields.map LogicalField.key := by
  simp only [insertField, bind_eq_ok, require_eq_ok, List.all_eq_true] at inserted
  obtain ⟨_, free, _⟩ := inserted
  have apart : ∀ old ∈ fields, ¬(old.fieldId run id = field.fieldId run id ∨ old.key = field.key) := by
    intro old member same
    have stored : old.row run id ∈ fieldsAt sql run id := h.rows.mem_iff.2 (List.mem_map.2 ⟨old, member, rfl⟩)
    have unlike := free _ (List.mem_filter.1 stored).1
    rw [Bool.not_eq_true', ← Bool.not_eq_true] at unlike
    refine unlike ?_
    simp only [Bool.and_eq_true, Bool.or_eq_true, decide_eq_true_eq]
    exact ⟨⟨rfl, rfl⟩, same⟩
  constructor
  · intro known
    obtain ⟨old, member, same⟩ := List.mem_map.1 known
    exact apart old member (.inl same)
  · intro known
    obtain ⟨old, member, same⟩ := List.mem_map.1 known
    exact apart old member (.inr same)

theorem insert_eq_ok (h : Stores sql run id fields) (sequence : id.sequence ≤ maxInteger) (slot : id.slot ≤ maxInteger)
    (field : LogicalField) {result : Conversation × FieldDescriptor}
    (done : Fields.insert sql (field.fieldKey run id) field.generation field.text = .ok result) :
    Insertable sql run id fields field ∧ result.2 = ⟨field.generation, bytes field.text⟩ ∧
      Stores result.1 run id (Keyed.place LogicalField.key field fields) ∧ SameBut run id sql result.1 := by
  have inverted := done
  simp only [Fields.insert, bind_eq_ok] at inverted
  obtain ⟨generation, checked, size, measured, _, valid, between, inserted, _⟩ := inverted
  obtain ⟨first, fits, rfl⟩ := generation_eq_ok checked
  obtain ⟨small, rfl⟩ := integer_eq_ok.1 measured
  obtain ⟨fresh, freshKey⟩ := free_of_insertField h inserted
  have host := hosts_of_validateEntry sequence slot valid
  obtain ⟨next, succeeded, stores, same⟩ := h.insert host fresh freshKey first fits small
  cases done.symm.trans succeeded
  exact ⟨⟨host, fresh, freshKey, first, fits, small⟩, rfl, stores, same⟩

theorem field_of_load (h : Stores sql run id fields) (sequence : id.sequence ≤ maxInteger) (slot : id.slot ≤ maxInteger)
    {descriptor : FieldDescriptor} (loaded : Fields.load sql (fieldKey run id order kind) = .ok descriptor) :
    ∃ old ∈ fields, old.order = order ∧ old.kind = kind ∧ Hosts sql run id (old.order = .human) ∧
      id.sequence ≤ old.generation ∧ old.generation ≤ maxInteger ∧ descriptor = ⟨old.generation, bytes old.text⟩ := by
  simp only [Fields.load, bind_eq_ok, discard_eq_ok, present_eq_ok, require_eq_ok, Bool.and_eq_true, decide_eq_true_eq,
    pure_eq_ok, Except.ok.injEq] at loaded
  obtain ⟨_, valid, row, found, _, ⟨_, checked⟩, _, ⟨sameOrder, sameKind⟩, rfl⟩ := loaded
  obtain ⟨first, fits, _⟩ := generation_eq_ok checked
  have stored : row ∈ fieldsAt sql run id := by
    rw [find_field] at found
    exact List.mem_of_find?_eq_some found
  obtain ⟨old, member, rfl⟩ := List.mem_map.1 (h.rows.mem_iff.1 stored)
  have sameOrder : old.order = order := sameOrder
  have host := hosts_of_validateEntry sequence slot valid
  exact ⟨old, member, sameOrder, sameKind, sameOrder ▸ host, first, fits, rfl⟩

theorem fieldKey_of_same {old : LogicalField} (sameOrder : old.order = order) (sameKind : old.kind = kind) :
    fieldKey run id order kind = old.fieldKey run id := by
  rw [LogicalField.fieldKey, sameOrder, sameKind]

theorem append_eq_ok (h : Stores sql run id fields) (sequence : id.sequence ≤ maxInteger) (slot : id.slot ≤ maxInteger)
    {delta : Text} {result : Conversation × FieldDescriptor}
    (done : Fields.append sql (fieldKey run id order kind) delta = .ok result) :
    ∃ old ∈ fields, old.order = order ∧ old.kind = kind ∧ Hosts sql run id (old.order = .human) ∧
      id.sequence ≤ old.generation ∧ old.generation ≤ maxInteger ∧ bytes old.text + bytes delta ≤ maxInteger ∧
      result.2 = ⟨old.generation, bytes old.text + bytes delta⟩ ∧
      Stores result.1 run id (rewriteField { old with text := old.text ++ delta } fields) ∧ SameBut run id sql result.1 := by
  have inverted := done
  simp only [Fields.append, bind_eq_ok] at inverted
  obtain ⟨descriptor, loaded, size, measured, total, counted, _⟩ := inverted
  obtain ⟨old, member, sameOrder, sameKind, host, first, fits, rfl⟩ := field_of_load h sequence slot loaded
  obtain ⟨_, rfl⟩ := integer_eq_ok.1 measured
  obtain ⟨small, _⟩ := integer_eq_ok.1 counted
  obtain ⟨next, succeeded, stores, same⟩ := h.append member host first fits delta small
  rw [fieldKey_of_same sameOrder sameKind] at done
  cases done.symm.trans succeeded
  exact ⟨old, member, sameOrder, sameKind, host, first, fits, small, rfl, stores, same⟩

theorem replace_eq_ok (h : Stores sql run id fields) (sequence : id.sequence ≤ maxInteger) (slot : id.slot ≤ maxInteger)
    {generation : Nat} {text : Text} {result : Conversation × FieldDescriptor}
    (done : Fields.replace sql (fieldKey run id order kind) generation text = .ok result) :
    ∃ old ∈ fields, old.order = order ∧ Hosts sql run id (old.order = .human) ∧
      id.sequence ≤ generation ∧ generation ≤ maxInteger ∧ bytes text ≤ maxInteger ∧
      Stores result.1 run id (rewriteField { old with generation, text } fields) ∧ SameBut run id sql result.1 := by
  have inverted := done
  simp only [Fields.replace, bind_eq_ok] at inverted
  obtain ⟨stored, checked, size, measured, descriptor, loaded, _, newer, _⟩ := inverted
  obtain ⟨first, fits, rfl⟩ := generation_eq_ok checked
  obtain ⟨small, rfl⟩ := integer_eq_ok.1 measured
  obtain ⟨old, member, sameOrder, sameKind, host, oldFirst, _, rfl⟩ := field_of_load h sequence slot loaded
  have later : old.generation < stored := by simpa using require_eq_ok.1 newer
  obtain ⟨next, succeeded, stores, same⟩ := h.replace member host oldFirst later fits small
  rw [fieldKey_of_same sameOrder sameKind] at done
  cases done.symm.trans succeeded
  exact ⟨old, member, sameOrder, host, first, fits, small, stores, same⟩

theorem remove_eq_ok (h : Stores sql run id fields) (sequence : id.sequence ≤ maxInteger) (slot : id.slot ≤ maxInteger)
    (done : Content.remove sql (fieldKey run id order kind) = .ok next) :
    Stores next run id (removeField order fields) ∧ SameBut run id sql next := by
  have inverted := done
  simp only [Content.remove, bind_eq_ok] at inverted
  obtain ⟨checked, appended, _⟩ := inverted
  obtain ⟨old, member, sameOrder, sameKind, host, first, fits, small, _⟩ := append_eq_ok h sequence slot appended
  obtain ⟨after, succeeded, stores, same⟩ := h.remove member host first fits (by simpa using small)
  rw [fieldKey_of_same sameOrder sameKind] at done
  cases done.symm.trans succeeded
  exact ⟨sameOrder ▸ stores, same⟩

/-! ### Any sequence of changes -/

/-- What the checks of an insertion keep true of a stored field. -/
def Sane (sql : Conversation) (run : RunId) (id : EntryId) (field : LogicalField) : Prop :=
  Hosts sql run id (field.order = .human) ∧ (field.order = .human → field.kind = .text) ∧
    id.sequence ≤ field.generation ∧ field.generation ≤ maxInteger

/-- The tables store the fields of every entry. -/
structure Tracks (sql : Conversation) (logical : Logical) : Prop where
  stores : ∀ run id, Stores sql run id (logical run id)
  sane : ∀ run id, ∀ field ∈ logical run id, Sane sql run id field

theorem Sane.same_but {otherRun : RunId} {otherId : EntryId} (sane : Sane sql run id field)
    (same : SameBut otherRun otherId sql next) : Sane next run id field :=
  ⟨sane.1.same_but same, sane.2⟩

theorem rewriteField_eq_map (h : Stores sql run id fields) {old : LogicalField} (member : old ∈ fields)
    (change : LogicalField → LogicalField) (keeps : (change old).order = old.order) :
    rewriteField (change old) fields = fields.map fun field => if field.order = old.order then change field else field := by
  refine List.map_congr_left fun field present => ?_
  rw [keeps]
  split
  · rename_i same
    rw [List.inj_on_of_nodup_map h.ascending.unique present member (congrArg FieldOrder.encode same)]
  · rfl

theorem perform_stores (h : Stores sql run id fields) (sane : ∀ field ∈ fields, Sane sql run id field)
    (made : FieldKey.new run id order kind = .ok key) {change : Change}
    (done : change.perform sql key = .ok next) :
    Stores next run id (change.applied order kind fields) ∧ SameBut run id sql next ∧
      ∀ field ∈ change.applied order kind fields, Sane next run id field := by
  obtain ⟨rfl, sequence, slot, allowed⟩ := key_new_eq_ok made
  cases change with
  | insert generation text =>
    obtain ⟨result, inserted, rfl⟩ := map_eq_ok.1 done
    have facts := insert_eq_ok h sequence slot ⟨order, kind, generation, text⟩ inserted
    obtain ⟨able, _, stores, same⟩ := facts
    refine ⟨stores, same, fun field member => ?_⟩
    rcases Keyed.mem_place.1 member with rfl | old
    · exact ⟨able.host.same_but same, allowed, able.first, able.fits⟩
    · exact (sane field old).same_but same
  | append delta =>
    obtain ⟨result, appended, rfl⟩ := map_eq_ok.1 done
    obtain ⟨old, member, rfl, _, _, _, _, _, _, stores, same⟩ := append_eq_ok h sequence slot appended
    rw [rewriteField_eq_map h member (fun field => { field with text := field.text ++ delta }) rfl] at stores
    refine ⟨stores, same, fun field written => ?_⟩
    obtain ⟨before, present, rfl⟩ := List.mem_map.1 written
    have kept := (sane before present).same_but same
    split
    · exact kept
    · exact kept
  | replace generation text =>
    obtain ⟨result, replaced, rfl⟩ := map_eq_ok.1 done
    obtain ⟨old, member, rfl, _, first, fits, _, stores, same⟩ := replace_eq_ok h sequence slot replaced
    rw [rewriteField_eq_map h member (fun field => { field with generation, text }) rfl] at stores
    refine ⟨stores, same, fun field written => ?_⟩
    obtain ⟨before, present, rfl⟩ := List.mem_map.1 written
    have kept := (sane before present).same_but same
    split
    · exact ⟨kept.1, kept.2.1, first, fits⟩
    · exact kept
  | remove =>
    obtain ⟨stores, same⟩ := remove_eq_ok h sequence slot done
    refine ⟨stores, same, fun field left => ?_⟩
    exact (sane field (mem_removeField.1 left).1).same_but same

theorem Tracks.step {state : Conversation × Logical} (tracks : Tracks state.1 state.2) (command : Command) :
    Tracks (command.step state).1 (command.step state).2 := by
  unfold Command.step
  split
  · rename_i next done
    obtain ⟨key, made, performed⟩ := bind_eq_ok.1 done
    obtain ⟨stores, same, sane⟩ := perform_stores (tracks.stores _ _) (tracks.sane _ _) made performed
    constructor
    · intro run id
      dsimp only [Command.applied]
      split
      · rename_i here
        cases here
        exact stores
      · rename_i other
        exact (tracks.stores run id).same_but same other
    · intro run id field
      dsimp only [Command.applied]
      split
      · rename_i here
        cases here
        exact sane field
      · exact fun member => (tracks.sane run id field member).same_but same
  · exact tracks

theorem tracks_start (sql : Conversation) : Tracks (start sql).1 (start sql).2 where
  stores run id := by
    refine ⟨.nil, List.Pairwise.nil, .nil, fun _ member => absurd member List.not_mem_nil, fun _ _ => rfl⟩
  sane _ _ _ member := absurd member List.not_mem_nil

theorem run_tracks (sql : Conversation) (commands : List Command) :
    Tracks (commands.foldl Command.step (start sql)).1 (commands.foldl Command.step (start sql)).2 := by
  suffices general : ∀ state : Conversation × Logical, Tracks state.1 state.2 →
      Tracks (commands.foldl Command.step state).1 (commands.foldl Command.step state).2 from general _ (tracks_start sql)
  induction commands with
  | nil => exact fun state tracks => tracks
  | cons command commands ih => exact fun state tracks => ih _ (tracks.step command)

/-! ### Canonical chunks -/

/-- Consecutive nonempty chunks of bounded size that make up a text. -/
structure Canonical (rows : List ChunkRow) (text : Text) : Prop where
  bounded : ∀ row ∈ rows, row.bytes ≠ [] ∧ bytes row.bytes ≤ 8192
  tiles : ∀ before row after, rows = before ++ row :: after → row.startByte = bytes (before.map ChunkRow.bytes).flatten
  joined : (rows.map ChunkRow.bytes).flatten = text

theorem canonical_chunkRows (run : RunId) (id : EntryId) (fieldId : FieldId) (text : Text) :
    Canonical (chunkRows run id fieldId 0 (pieces chunkBytes text)) text where
  bounded row member := by
    obtain ⟨_, found, rfl⟩ := List.mem_map.1 member
    have piece := List.mem_map_of_mem (f := Prod.snd) found
    rw [map_snd_locate] at piece
    exact pieces_bounds chunkBytes_room piece
  tiles before row after split := by
    have general : ∀ (ps : List Text) (origin : Nat) (before : List ChunkRow), chunkRows run id fieldId origin ps = before ++ row :: after →
        row.startByte = origin + bytes (before.map ChunkRow.bytes).flatten := by
      intro ps
      induction ps with
      | nil => intro origin before impossible; simp [chunkRows] at impossible
      | cons piece ps ih =>
        intro origin before split
        cases before with
        | nil =>
          rw [chunkRows, locate_cons, List.map_cons, List.nil_append, List.cons.injEq] at split
          rw [← split.1]
          simp
        | cons first before =>
          rw [chunkRows, locate_cons, List.map_cons, List.cons_append, List.cons.injEq] at split
          have later := ih (origin + bytes piece) before split.2
          rw [later, ← split.1]
          simp [Nat.add_assoc]
    have placed := general _ _ _ split
    rwa [Nat.zero_add] at placed
  joined := by
    have texts : (chunkRows run id fieldId 0 (pieces chunkBytes text)).map ChunkRow.bytes = pieces chunkBytes text := by
      rw [chunkRows, List.map_map]
      exact map_snd_locate 0 _
    rw [texts, pieces_flatten chunkBytes_room]

/-! ### Building a text -/

/-- One insertion, then appends. -/
def build (sql : Conversation) (key : FieldKey) (generation : Nat) (text : Text) (deltas : List Text) :
    Result (Conversation × FieldDescriptor) := do
  let inserted ← Fields.insert sql key generation text
  deltas.foldlM (fun state delta => Fields.append state.1 key delta) inserted

/-- The same rows in every table. -/
structure SameRows (a b : Conversation) : Prop where
  projection : a.projection = b.projection
  blocks : a.blocks = b.blocks
  entries : a.entries = b.entries
  fields : ∀ run id, (fieldsAt a run id).Perm (fieldsAt b run id)
  chunks : ∀ run id fieldId, chunksAt a run id fieldId = chunksAt b run id fieldId

/-- Both fail, or both give the same descriptor and the same rows. -/
def Agree : Result (Conversation × FieldDescriptor) → Result (Conversation × FieldDescriptor) → Prop
  | .ok a, .ok b => a.2 = b.2 ∧ SameRows a.1 b.1
  | .error _, .error _ => True
  | _, _ => False

theorem sameRows_of_stores {a b : Conversation} (left : Stores a run id fields) (right : Stores b run id fields)
    (sameLeft : SameBut run id sql a) (sameRight : SameBut run id sql b) : SameRows a b where
  projection := sameLeft.projection.trans sameRight.projection.symm
  blocks := sameLeft.blocks.trans sameRight.blocks.symm
  entries := sameLeft.entries.trans sameRight.entries.symm
  fields otherRun otherId := by
    by_cases here : (otherRun, otherId) = (run, id)
    · cases here
      exact left.rows.trans right.rows.symm
    · rw [sameLeft.fields _ _ here, sameRight.fields _ _ here]
  chunks otherRun otherId fieldId := by
    by_cases here : (otherRun, otherId) = (run, id)
    · cases here
      by_cases known : fieldId ∈ fields.map (LogicalField.fieldId run id)
      · obtain ⟨field, member, rfl⟩ := List.mem_map.1 known
        rw [left.chunks field member, right.chunks field member]
      · rw [left.rest fieldId known, right.rest fieldId known]
    · rw [sameLeft.chunks _ _ here, sameRight.chunks _ _ here]

omit [JsonHash] in
theorem rewriteField_place (grown : LogicalField) (ascending : Keyed.Ascending LogicalField.key fields)
    (fresh : field.key ∉ fields.map LogicalField.key) (same : grown.order = field.order) :
    rewriteField grown (Keyed.place LogicalField.key field fields) = Keyed.place LogicalField.key grown fields := by
  have key : grown.key = field.key := congrArg FieldOrder.encode same
  have others : rewriteField grown fields = fields := by
    refine (List.map_congr_left fun old member => if_neg ?_).trans (List.map_id _)
    intro equal
    refine fresh (List.mem_map.2 ⟨old, member, ?_⟩)
    exact (congrArg FieldOrder.encode equal).trans key
  have rewritten : Keyed.Ascending LogicalField.key (rewriteField grown (Keyed.place LogicalField.key field fields)) :=
    (ascending.place fresh).map _ fun old => key_rewrite grown old
  refine rewritten.eq_of_perm (ascending.place (key ▸ fresh)) ?_
  refine ((Keyed.place_perm field fields).map _).trans ?_
  rw [List.map_cons, if_pos same.symm]
  show (grown :: rewriteField grown fields).Perm _
  rw [others]
  exact (Keyed.place_perm grown fields).symm

/-- The outcome of storing a whole text, in whatever pieces. -/
def Holds (sql : Conversation) (run : RunId) (id : EntryId) (fields : List LogicalField) (field : LogicalField) :
    Result (Conversation × FieldDescriptor) → Prop
  | .ok result => bytes field.text ≤ maxInteger ∧ result.2 = ⟨field.generation, bytes field.text⟩ ∧
      Stores result.1 run id (Keyed.place LogicalField.key field fields) ∧ SameBut run id sql result.1
  | .error _ => maxInteger < bytes field.text

theorem appends_hold (field : LogicalField) (ascending : Keyed.Ascending LogicalField.key fields)
    (fresh : field.key ∉ fields.map LogicalField.key) (first : id.sequence ≤ field.generation)
    (fits : field.generation ≤ maxInteger) {next : Conversation} (host : Hosts next run id (field.order = .human))
    {state : Conversation × FieldDescriptor} (held : Holds sql run id fields field (.ok state))
    (same : next.entries = state.1.entries) (deltas : List Text) :
    Holds sql run id fields { field with text := field.text ++ deltas.flatten }
      (deltas.foldlM (fun state delta => Fields.append state.1 (field.fieldKey run id) delta) state) := by
  induction deltas generalizing field state with
  | nil =>
    rw [List.foldlM_nil, List.flatten_nil, List.append_nil]
    exact held
  | cons delta deltas ih =>
    obtain ⟨_, _, stores, others⟩ := held
    have placed : field ∈ Keyed.place LogicalField.key field fields := Keyed.mem_place.2 (.inl rfl)
    have host' : Hosts state.1 run id (field.order = .human) := ⟨host.sequence, host.slot, same ▸ host.found⟩
    rw [List.foldlM_cons, List.flatten_cons, ← List.append_assoc]
    by_cases room : bytes field.text + bytes delta ≤ maxInteger
    · obtain ⟨grown, appended, kept, changed⟩ := stores.append placed host' first fits delta room
      rw [rewriteField_place { field with text := field.text ++ delta } ascending fresh rfl] at kept
      rw [appended, ok_bind]
      refine ih { field with text := field.text ++ delta } fresh first fits host ⟨?_, ?_, kept, others.trans changed⟩ ?_
      · rwa [bytes_append]
      · rw [bytes_append]
      · rw [same, changed.entries]
    · cases appended : Fields.append state.1 (field.fieldKey run id) delta with
      | error error =>
        rw [error_bind]
        show maxInteger < bytes (field.text ++ delta ++ deltas.flatten)
        simp only [bytes_append]
        omega
      | ok result =>
        -- an append checks the length first
        obtain ⟨old, member, sameOrder, _, _, _, _, small, _⟩ := append_eq_ok stores host.sequence host.slot appended
        have equal : old = field := List.inj_on_of_nodup_map stores.ascending.unique member placed
          (congrArg FieldOrder.encode sameOrder)
        subst equal
        exact absurd small room

/-- A text built by one insertion and appends is stored as one insertion of the whole text stores it. -/
theorem build_agrees (stores : Stores sql run id fields) (made : FieldKey.new run id order kind = .ok key)
    (generation : Nat) (text : Text) (deltas : List Text) :
    Agree (build sql key generation text deltas) (Fields.insert sql key generation (text ++ deltas.flatten)) := by
  obtain ⟨rfl, sequence, slot, _⟩ := key_new_eq_ok made
  let first : LogicalField := ⟨order, kind, generation, text⟩
  let whole : LogicalField := ⟨order, kind, generation, text ++ deltas.flatten⟩
  have built : ∀ state, Fields.insert sql (fieldKey run id order kind) generation text = .ok state →
      Insertable sql run id fields first ∧ Holds sql run id fields whole
        (deltas.foldlM (fun state delta => Fields.append state.1 (fieldKey run id order kind) delta) state) := by
    intro state inserted
    obtain ⟨able, descriptor, kept, same⟩ := insert_eq_ok stores sequence slot first inserted
    exact ⟨able, appends_hold first stores.ascending able.freshKey able.first able.fits able.host
      ⟨able.small, descriptor, kept, same⟩ same.entries.symm deltas⟩
  have fits : bytes text ≤ bytes (text ++ deltas.flatten) := by
    rw [bytes_append]
    exact Nat.le_add_right _ _
  unfold build
  cases direct : Fields.insert sql (fieldKey run id order kind) generation (text ++ deltas.flatten) with
  | ok result =>
    obtain ⟨able, descriptor, kept, same⟩ := insert_eq_ok stores sequence slot whole direct
    have shorter : Insertable sql run id fields first :=
      ⟨able.host, able.fresh, able.freshKey, able.first, able.fits, fits.trans able.small⟩
    obtain ⟨next, inserted⟩ := shorter.insert stores
    have inserted : Fields.insert sql (fieldKey run id order kind) generation text = .ok _ := inserted
    have held := (built _ inserted).2
    rw [inserted, ok_bind]
    cases appended : deltas.foldlM (fun state delta => Fields.append state.1 (fieldKey run id order kind) delta)
        (next, (⟨first.generation, bytes first.text⟩ : FieldDescriptor)) with
    | ok final =>
      rw [appended] at held
      exact ⟨held.2.1.trans descriptor.symm, sameRows_of_stores held.2.2.1 kept held.2.2.2 same⟩
    | error error =>
      rw [appended] at held
      exact absurd able.small (Nat.not_le_of_lt held)
  | error error =>
    cases inserted : Fields.insert sql (fieldKey run id order kind) generation text with
    | error error => exact trivial
    | ok state =>
      obtain ⟨able, held⟩ := built state inserted
      rw [ok_bind]
      cases appended : deltas.foldlM (fun state delta => Fields.append state.1 (fieldKey run id order kind) delta) state with
      | error error => exact trivial
      | ok final =>
        rw [appended] at held
        have longer : Insertable sql run id fields whole :=
          ⟨able.host, able.fresh, able.freshKey, able.first, able.fits, held.1⟩
        obtain ⟨next, succeeded⟩ := longer.insert stores
        cases direct.symm.trans succeeded

/-! ### Every run -/

/-- What the store holds of a field: its descriptor, its canonical chunks, and an exact comparison. -/
structure Exact (sql : Conversation) (run : RunId) (id : EntryId) (field : LogicalField) : Prop where
  descriptor : Content.stored sql (field.fieldKey run id) = some (field.row run id)
  chunks : Canonical (chunksAt sql run id (field.fieldId run id)) field.text
  compared : ∀ (entry : Entry) (text : Text), (do
      let key ← FieldKey.new run id field.order field.kind
      Content.sameText sql key entry text) =
    if field.generation ≤ entry.revision then .ok (decide (field.text = text)) else integrity

theorem Tracks.exact {logical : Logical} (tracks : Tracks sql logical) (member : field ∈ logical run id) :
    Exact sql run id field := by
  obtain ⟨host, allowed, first, fits⟩ := tracks.sane run id field member
  have stores := tracks.stores run id
  refine ⟨stores.find_some member rfl rfl rfl, ?_, fun entry text => ?_⟩
  · rw [stores.chunks field member]
    exact canonical_chunkRows _ _ _ _
  · rw [host.key_new allowed, ok_bind]
    split
    · rename_i seen
      exact stores.sameText member host first fits seen text
    · rename_i unseen
      have loaded := stores.load member host first fits
      rw [LogicalField.fieldKey] at loaded
      rw [Content.sameText, loaded, ok_bind]
      simp [unseen, integrity]

/-- After any sequence of field changes every text is stored canonically and compared exactly, and
what an insertion and appends build is what one insertion stores. -/
theorem chunks_canonical (sql : Conversation) (commands : List Command) :
    let state := commands.foldl Command.step (start sql)
    (∀ run id, ∀ field ∈ state.2 run id, Exact state.1 run id field) ∧
      ∀ run id order kind key generation text deltas, FieldKey.new run id order kind = .ok key →
        Agree (build state.1 key generation text deltas) (Fields.insert state.1 key generation (text ++ deltas.flatten)) := by
  have tracks := run_tracks sql commands
  exact ⟨fun run id field member => tracks.exact member,
    fun run id _ _ _ generation text deltas made => build_agrees (tracks.stores run id) made generation text deltas⟩

omit [JsonHash] in
/-- A human text inserted and appended to, across the end of its first chunk. -/
theorem chunks_canonical_appended : letI := JsonHash.ideal
    let run : RunId := ⟨"00000000-0000-4000-8000-000000000001".toList, by decide⟩
    let id : EntryId := ⟨1, 0⟩
    let row : EntryRow := ⟨run, id, Source.human.key run, 1, 0, 1, 1, .human, .new .human .accepted false⟩
    let smile := Char.ofNat 0x1f600
    let commands : List Command :=
      [⟨run, id, .human, .text, .insert 1 (List.replicate 2047 smile)⟩, ⟨run, id, .human, .text, .append ['a', 'b', smile]⟩]
    let state := commands.foldl Command.step (start { Conversation.empty with entries := [row] })
    state.1.chunks.length = 2 ∧ ∃ field, state.2 run id = [field] ∧ bytes field.text = 8194 ∧ Exact state.1 run id field := by
  let _ := JsonHash.ideal
  intro run id row smile commands state
  have evaluated : state.1.chunks.length = 2 ∧ (state.2 run id).map (fun field => bytes field.text) = [8194] := by decide +kernel
  have canonical (sql : Conversation) (commands : List Command) (state) (is_state : state = commands.foldl Command.step (start sql)) :
      ∀ run id, ∀ field ∈ state.2 run id, Exact state.1 run id field := is_state ▸ (chunks_canonical sql commands).1
  replace canonical := canonical _ commands state rfl
  clear_value state
  obtain ⟨field, logical, size⟩ := List.map_eq_singleton_iff.1 evaluated.2
  exact ⟨evaluated.1, field, logical, size, canonical run id field (by rw [logical]; exact List.mem_singleton.2 rfl)⟩

end Wi.Fields
