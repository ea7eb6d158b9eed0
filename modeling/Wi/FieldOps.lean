import Wi.Content
import Wi.Stored

/-! Every field operation of the store, as an operation on logical fields. -/
namespace Wi
open Utf8 Chunks Fields

/-- The last piece with its offset. -/
def lastPiece (text : Text) : Option Tail :=
  (locate 0 (pieces chunkBytes text)).getLast?.map fun chunk => ⟨chunk.1, chunk.2⟩

theorem lastPiece_nil : lastPiece [] = none := rfl

variable {text : Text}

theorem pieces_split (h : text ≠ []) :
    ∃ front last, pieces chunkBytes text = front ++ [last] ∧
      lastPiece text = some ⟨bytes front.flatten, last⟩ ∧ text = front.flatten ++ last := by
  have nonempty : pieces chunkBytes text ≠ [] := by
    rw [ne_eq, pieces_eq_nil chunkBytes_room]
    exact h
  obtain ⟨front, last, split⟩ := List.eq_nil_or_concat' (pieces chunkBytes text) |>.resolve_left nonempty
  refine ⟨front, last, split, ?_, ?_⟩
  · simp [lastPiece, split]
  · rw [← pieces_flatten chunkBytes_room text, split]
    simp

variable [JsonHash]
variable {start : Nat} {ps : List Text}

section Chunks
variable {sql : Conversation} {run : RunId} {id : EntryId} {fieldId : FieldId}

theorem chunkRows_append (start : Nat) (a b : List Text) :
    chunkRows run id fieldId start (a ++ b) =
      chunkRows run id fieldId start a ++ chunkRows run id fieldId (start + bytes a.flatten) b := by
  simp [chunkRows]

theorem mem_chunkRows {row : ChunkRow} (member : row ∈ chunkRows run id fieldId start ps) :
    row.runId = run ∧ row.entryId = id ∧ row.fieldId = fieldId ∧ start ≤ row.startByte ∧
      row.startByte + bytes row.bytes ≤ start + bytes ps.flatten ∧ row.bytes ∈ ps := by
  obtain ⟨chunk, located, rfl⟩ := List.mem_map.1 member
  have bounds := locate_bounds located
  refine ⟨rfl, rfl, rfl, bounds.1, bounds.2, ?_⟩
  have texts : chunk.2 ∈ (locate start ps).map Prod.snd := List.mem_map.2 ⟨chunk, located, rfl⟩
  rwa [map_snd_locate] at texts

theorem chunkRows_ascending (nonempty : ∀ p ∈ ps, p ≠ []) :
    Keyed.Ascending (fun row : ChunkRow => row.startByte) (chunkRows run id fieldId start ps) := by
  rw [chunkRows, Keyed.Ascending, List.pairwise_map]
  exact (locate_pairwise nonempty).imp fun h => h.2

theorem insertChunks_ok (sql : Conversation) (key : FieldKey) (text : Text) (start : Nat)
    (fits : start + bytes text ≤ maxInteger)
    (after : ∀ row ∈ chunksAt sql key.run key.entry key.fieldId, row.startByte < start) :
    insertChunks sql key text start = .ok { sql with
      chunks := sql.chunks ++ chunkRows key.run key.entry key.fieldId start (pieces chunkBytes text) } := by
  have bounded : bytes text ≤ maxInteger := by omega
  rw [insertChunks, length, integer_ok bounded, ok_bind, integer_ok fits, discard_ok, ok_bind]
  have flat := pieces_flatten chunkBytes_room text
  have bounds := fun piece => @pieces_bounds chunkBytes chunkBytes_room text piece
  generalize pieces chunkBytes text = ps at flat bounds
  have total : start + bytes ps.flatten ≤ maxInteger := by rw [flat]; exact fits
  clear flat fits bounded
  induction ps generalizing sql start with
  | nil => simp [chunkRows]
  | cons piece rest ih =>
    have piece_bounds := bounds piece (by simp)
    have nonempty := bytes_pos.2 piece_bounds.1
    simp only [List.flatten_cons, bytes_append] at total
    have fresh : (sql.chunks.all fun old => !(old.runId = key.run && old.entryId = key.entry &&
        old.fieldId = key.fieldId && old.startByte = start)) = true := by
      rw [List.all_eq_true]
      intro old member
      by_contra same
      simp only [Bool.not_eq_true, Bool.not_eq_false', Bool.and_eq_true, decide_eq_true_eq] at same
      have stored : old ∈ chunksAt sql key.run key.entry key.fieldId :=
        List.mem_filter.2 ⟨member, by simp [same]⟩
      exact absurd same.2 (after old stored).ne
    rw [locate_cons, List.foldlM_cons, integer_ok (by omega), ok_bind, insertChunk]
    simp only [fresh, require_true, ok_bind, ne_eq, piece_bounds, not_false_eq_true, decide_true,
      Bool.and_self, pure_eq_ok]
    rw [ih _ (start + bytes piece) ?_ (fun p member => bounds p (by simp [member])) (by omega)]
    · simp [chunkRows]
    · intro row member
      simp only [chunksAt, List.filter_append, List.mem_append] at member
      rcases member with old | new
      · have := after row old
        omega
      · obtain ⟨member, -⟩ := List.mem_filter.1 new
        rw [List.mem_singleton.1 member]
        simp only
        omega

end Chunks

/-- The entry row that the field keys of an entry are checked against. -/
structure Hosts (sql : Conversation) (run : RunId) (id : EntryId) (human : Prop) : Prop where
  sequence : id.sequence ≤ maxInteger
  slot : id.slot ≤ maxInteger
  found : ∃ row, sql.entries.find? (fun row => row.runId = run && row.entryId = id) = some row ∧
    row.firstSequence = id.sequence ∧ row.positionSlot = id.slot ∧ (row.kind = .human ↔ human)

theorem Hosts.same_but {sql next : Conversation} {run otherRun : RunId} {id otherId : EntryId} {human : Prop}
    (host : Hosts sql run id human) (same : SameBut otherRun otherId sql next) : Hosts next run id human :=
  ⟨host.sequence, host.slot, by rw [same.entries]; exact host.found⟩

def fieldKey (run : RunId) (id : EntryId) (order : FieldOrder) (kind : FieldKind) : FieldKey :=
  ⟨run, id, fieldIdOf run id order, order, kind⟩

def LogicalField.fieldKey (run : RunId) (id : EntryId) (field : LogicalField) : FieldKey :=
  Wi.fieldKey run id field.order field.kind

variable {field : LogicalField} {key : FieldKey}

section Load
variable {sql : Conversation} {run : RunId} {id : EntryId} {fields : List LogicalField}

theorem Hosts.key_new {human : Prop} (host : Hosts sql run id human) {order : FieldOrder} {kind : FieldKind}
    (allowed : order = .human → kind = .text) :
    FieldKey.new run id order kind = .ok (fieldKey run id order kind) := by
  have condition : (decide (order ≠ .human) || decide (kind = .text)) = true := by
    by_cases human : order = .human <;> simp [human, allowed]
  rw [FieldKey.new, integer_ok host.sequence, discard_ok, ok_bind, integer_ok host.slot, discard_ok, ok_bind,
    condition, require_true, ok_bind]
  rfl

theorem Hosts.validateEntry {order : FieldOrder} (host : Hosts sql run id (order = .human)) (kind : FieldKind) :
    (fieldKey run id order kind).validateEntry sql = .ok () := by
  obtain ⟨row, found, first, slot, human⟩ := host.found
  have rows : sql.entries.find? (fun row => row.runId = (fieldKey run id order kind).run &&
      row.entryId = (fieldKey run id order kind).entry) = some row := found
  rw [FieldKey.validateEntry, rows, present_some, ok_bind]
  simp [fieldKey, first, slot, human]

theorem find_field (key : FieldKey) :
    sql.fields.find? key.addressesField =
      (fieldsAt sql key.run key.entry).find? (fun row => row.fieldId = key.fieldId) := by
  rw [fieldsAt, List.find?_filter]
  congr 1
  funext row
  simp [FieldKey.addressesField, Bool.and_assoc]

theorem Stores.rows_unique (h : Stores sql run id fields) :
    ((fieldsAt sql run id).map FieldRow.fieldId).Nodup := by
  rw [(h.rows.map FieldRow.fieldId).nodup_iff, List.map_map]
  exact h.distinct

theorem Stores.find_some (h : Stores sql run id fields) (member : field ∈ fields) (same_run : key.run = run)
    (same_id : key.entry = id) (named : key.fieldId = field.fieldId run id) :
    sql.fields.find? key.addressesField = some (field.row run id) := by
  rw [find_field, same_run, same_id, Keyed.find_eq_some h.rows_unique]
  refine ⟨h.rows.mem_iff.2 (List.mem_map.2 ⟨field, member, rfl⟩), ?_⟩
  rw [named]
  rfl

theorem Stores.find_none (h : Stores sql run id fields) (same_run : key.run = run) (same_id : key.entry = id)
    (absent : key.fieldId ∉ fields.map (LogicalField.fieldId run id)) :
    sql.fields.find? key.addressesField = none := by
  rw [find_field, same_run, same_id, Keyed.find_eq_none, (h.rows.map FieldRow.fieldId).mem_iff, List.map_map]
  exact absent

theorem Stores.load (h : Stores sql run id fields) (member : field ∈ fields)
    (host : Hosts sql run id (field.order = .human)) (first : id.sequence ≤ field.generation)
    (fits : field.generation ≤ maxInteger) :
    Fields.load sql (field.fieldKey run id) = .ok ⟨field.generation, bytes field.text⟩ := by
  have found : sql.fields.find? (field.fieldKey run id).addressesField = some (field.row run id) :=
    h.find_some member rfl rfl rfl
  rw [Fields.load, LogicalField.fieldKey, host.validateEntry, ok_bind]
  rw [LogicalField.fieldKey] at found
  rw [found, present_some, ok_bind, FieldKey.generation]
  simp [LogicalField.row, fieldKey, first, integer_ok fits]

end Load

variable {front : List Text} {last : Text}

section Tail
variable {sql : Conversation} {run : RunId} {id : EntryId} {fieldId : FieldId} {fields : List LogicalField}

theorem orderByDesc_chunkRows (nonempty : ∀ p ∈ ps, p ≠ []) :
    Table.orderByDesc (fun row : ChunkRow => row.startByte) (chunkRows run id fieldId start ps) =
      (chunkRows run id fieldId start ps).reverse :=
  Table.orderByDesc_eq (List.Perm.refl _) (chunkRows_ascending nonempty)

theorem chunkRows_concat (start : Nat) (front : List Text) (last : Text) :
    chunkRows run id fieldId start (front ++ [last]) =
      chunkRows run id fieldId start front ++ [⟨run, id, fieldId, start + bytes front.flatten, last⟩] := by
  rw [chunkRows_append]
  rfl

theorem filter_before_last (nonempty : ∀ p ∈ front, p ≠ []) :
    (chunkRows run id fieldId 0 (front ++ [last])).filter
        (fun row => decide (row.startByte < bytes front.flatten)) =
      chunkRows run id fieldId 0 front := by
  rw [chunkRows_concat, List.filter_append, List.filter_eq_self.2, List.filter_eq_nil_iff.2, List.append_nil]
  · intro row member
    rw [List.mem_singleton.1 member]
    simp
  · intro row member
    have facts := mem_chunkRows member
    have positive := bytes_pos.2 (nonempty _ facts.2.2.2.2.2)
    simp only [decide_eq_true_eq]
    omega

theorem Stores.tail (h : Stores sql run id fields) (member : field ∈ fields) :
    Fields.tail sql (field.fieldKey run id) (bytes field.text) = .ok (lastPiece field.text) := by
  have rows : sql.chunks.filter (field.fieldKey run id).addressesChunk =
      chunkRows run id (field.fieldId run id) 0 (pieces chunkBytes field.text) := h.chunks field member
  have bounds := fun piece => @pieces_bounds chunkBytes chunkBytes_room field.text piece
  rw [Fields.tail]
  simp only [rows]
  by_cases empty : field.text = []
  · simp [empty, chunkRows, Table.orderByDesc, lastPiece_nil]
  obtain ⟨front, last, split, piece, whole⟩ := pieces_split empty
  rw [split] at bounds
  have front_bounds : ∀ p ∈ front, p ≠ [] := fun p member => (bounds p (by simp [member])).1
  have last_bounds := bounds last (by simp)
  have nonempty : ∀ p ∈ front ++ [last], p ≠ [] := fun p member => (bounds p member).1
  have small : bytes last ≤ maxInteger := last_bounds.2.trans (by decide)
  rw [split, orderByDesc_chunkRows nonempty, chunkRows_concat, List.reverse_append]
  simp only [List.reverse_cons, List.reverse_nil, List.nil_append, List.singleton_append, List.head?_cons]
  rw [← chunkRows_concat]
  simp only [Nat.zero_add, filter_before_last front_bounds, orderByDesc_chunkRows front_bounds]
  have total : bytes field.text = bytes front.flatten + bytes last := by rw [whole, bytes_append]
  simp only [ne_eq, last_bounds, not_false_eq_true, decide_true, Bool.and_self, require_true, ok_bind,
    length, integer_ok small, total, piece]
  rcases List.eq_nil_or_concat' front with rfl | ⟨before, previous, rfl⟩
  · simp [chunkRows]
  · have previous_bounds := bounds previous (by simp)
    have positive := bytes_pos.2 previous_bounds.1
    rw [chunkRows_concat, List.reverse_append]
    simp [previous_bounds, positive.ne']

end Tail

variable {fieldId : FieldId}

section Slices
variable {sql next : Conversation} {run : RunId} {id : EntryId} {fields : List LogicalField}

/-- Descriptor rows of every other entry. -/
def otherFields (run : RunId) (id : EntryId) (rows : List FieldRow) : List FieldRow :=
  rows.filter fun row => !(row.runId = run && row.entryId = id)

/-- Chunk rows of every other entry. -/
def otherChunks (run : RunId) (id : EntryId) (rows : List ChunkRow) : List ChunkRow :=
  rows.filter fun row => !(row.runId = run && row.entryId = id)

theorem SameBut.of_others (projection : next.projection = sql.projection) (blocks : next.blocks = sql.blocks)
    (entries : next.entries = sql.entries)
    (rows : otherFields run id next.fields = otherFields run id sql.fields)
    (chunks : otherChunks run id next.chunks = otherChunks run id sql.chunks) : SameBut run id sql next where
  projection := projection
  blocks := blocks
  entries := entries
  fields otherRun otherId other := by
    have inside (rows : List FieldRow) : rows.filter (fun row => row.runId = otherRun && row.entryId = otherId) =
        (otherFields run id rows).filter (fun row => row.runId = otherRun && row.entryId = otherId) := by
      rw [otherFields, List.filter_filter]
      refine List.filter_congr fun row _ => ?_
      by_cases here : row.runId = otherRun ∧ row.entryId = otherId
      · have apart : (!(decide (row.runId = run) && decide (row.entryId = id))) = true := by
          rw [here.1, here.2]
          rw [ne_eq, Prod.mk.injEq, not_and_or] at other
          simpa using other
        rw [apart, Bool.and_true]
      · have away : (decide (row.runId = otherRun) && decide (row.entryId = otherId)) = false := by simpa using here
        rw [away, Bool.false_and]
    rw [fieldsAt, fieldsAt, inside, rows, ← inside]
  chunks otherRun otherId other fieldId := by
    have inside (rows : List ChunkRow) :
        rows.filter (fun row => row.runId = otherRun && row.entryId = otherId && row.fieldId = fieldId) =
          (otherChunks run id rows).filter
            (fun row => row.runId = otherRun && row.entryId = otherId && row.fieldId = fieldId) := by
      rw [otherChunks, List.filter_filter]
      refine List.filter_congr fun row _ => ?_
      by_cases here : row.runId = otherRun ∧ row.entryId = otherId
      · have apart : (!(decide (row.runId = run) && decide (row.entryId = id))) = true := by
          rw [here.1, here.2]
          rw [ne_eq, Prod.mk.injEq, not_and_or] at other
          simpa using other
        rw [apart, Bool.and_true]
      · have away : (decide (row.runId = otherRun) && decide (row.entryId = otherId)) = false := by simpa using here
        rw [away, Bool.false_and, Bool.false_and]
    rw [chunksAt, chunksAt, inside, chunks, ← inside]

theorem otherChunks_append_rows (rows : List ChunkRow) (fieldId : FieldId) (start : Nat) (ps : List Text) :
    otherChunks run id (rows ++ chunkRows run id fieldId start ps) = otherChunks run id rows := by
  have own : otherChunks run id (chunkRows run id fieldId start ps) = [] := by
    rw [otherChunks, List.filter_eq_nil_iff]
    intro row member
    have facts := mem_chunkRows member
    simp [facts.1, facts.2.1]
  rw [otherChunks, List.filter_append, ← otherChunks, ← otherChunks, own, List.append_nil]

theorem chunksAt_append_rows (sql : Conversation) (fieldId : FieldId) (start : Nat) (ps : List Text)
    (appended : next.chunks = sql.chunks ++ chunkRows run id fieldId start ps) :
    chunksAt next run id fieldId = chunksAt sql run id fieldId ++ chunkRows run id fieldId start ps := by
  have own : (chunkRows run id fieldId start ps).filter (fun row =>
      row.runId = run && row.entryId = id && row.fieldId = fieldId) = chunkRows run id fieldId start ps := by
    rw [List.filter_eq_self]
    intro row member
    have facts := mem_chunkRows member
    simp [facts.1, facts.2.1, facts.2.2.1]
  rw [chunksAt, appended, List.filter_append, own, chunksAt]

theorem chunksAt_append_other (sql : Conversation) {other : FieldId} (different : other ≠ fieldId) (start : Nat)
    (ps : List Text) (appended : next.chunks = sql.chunks ++ chunkRows run id fieldId start ps) :
    chunksAt next run id other = chunksAt sql run id other := by
  have own : (chunkRows run id fieldId start ps).filter (fun row =>
      row.runId = run && row.entryId = id && row.fieldId = other) = [] := by
    rw [List.filter_eq_nil_iff]
    intro row member
    have facts := mem_chunkRows member
    simp [facts.2.2.1, different.symm]
  rw [chunksAt, appended, List.filter_append, own, List.append_nil, chunksAt]

theorem Stores.insertField (h : Stores sql run id fields)
    (fresh : field.fieldId run id ∉ fields.map (LogicalField.fieldId run id))
    (fresh_key : field.key ∉ fields.map LogicalField.key) :
    Fields.insertField sql (field.row run id) = .ok { sql with fields := sql.fields ++ [field.row run id] } := by
  have free : (sql.fields.all fun old => !(old.runId = (field.row run id).runId &&
      old.entryId = (field.row run id).entryId && (old.fieldId = (field.row run id).fieldId ||
        old.orderKey.encode = (field.row run id).orderKey.encode))) = true := by
    rw [List.all_eq_true]
    intro old member
    by_contra same
    simp only [Bool.not_eq_true, Bool.not_eq_false', Bool.and_eq_true, Bool.or_eq_true, decide_eq_true_eq]
      at same
    obtain ⟨⟨here, there⟩, same⟩ := same
    have stored : old ∈ fieldsAt sql run id := List.mem_filter.2 ⟨member, by
      rw [here, there]
      simp [LogicalField.row]⟩
    obtain ⟨other, other_member, rfl⟩ := List.mem_map.1 (h.rows.mem_iff.1 stored)
    rcases same with same | same
    · exact fresh (List.mem_map.2 ⟨other, other_member, same⟩)
    · exact fresh_key (List.mem_map.2 ⟨other, other_member, same⟩)
  rw [Fields.insertField, free, require_true, ok_bind]
  rfl

theorem Stores.insert (h : Stores sql run id fields) (host : Hosts sql run id (field.order = .human))
    (fresh : field.fieldId run id ∉ fields.map (LogicalField.fieldId run id))
    (fresh_key : field.key ∉ fields.map LogicalField.key) (first : id.sequence ≤ field.generation)
    (fits : field.generation ≤ maxInteger) (small : bytes field.text ≤ maxInteger) :
    ∃ next, Fields.insert sql (field.fieldKey run id) field.generation field.text =
        .ok (next, ⟨field.generation, bytes field.text⟩) ∧
      Stores next run id (Keyed.place LogicalField.key field fields) ∧ SameBut run id sql next := by
  have empty := h.rest _ fresh
  have generation : (field.fieldKey run id).generation field.generation = .ok field.generation := by
    simp [FieldKey.generation, LogicalField.fieldKey, fieldKey, first, integer_ok fits]
  have chunks := insertChunks_ok { sql with fields := sql.fields ++ [field.row run id] }
    (field.fieldKey run id) field.text 0 (by omega) (by
      intro row member
      have member : row ∈ chunksAt sql run id (field.fieldId run id) := member
      simp [empty] at member)
  have inserted := h.insertField fresh fresh_key
  refine ⟨{ sql with
    fields := sql.fields ++ [field.row run id]
    chunks := sql.chunks ++ chunkRows run id (field.fieldId run id) 0 (pieces chunkBytes field.text) }, ?_, ?_, ?_⟩
  · rw [Fields.insert, generation, ok_bind, length, integer_ok small, ok_bind, LogicalField.fieldKey,
      host.validateEntry, ok_bind]
    rw [LogicalField.fieldKey] at chunks
    exact bind_eq_ok.2 ⟨_, inserted, bind_eq_ok.2 ⟨_, chunks, rfl⟩⟩
  · have perm : (Keyed.place LogicalField.key field fields).Perm (field :: fields) := Keyed.place_perm field fields
    constructor
    · have rows : fieldsAt { sql with
          fields := sql.fields ++ [field.row run id]
          chunks := sql.chunks ++ chunkRows run id (field.fieldId run id) 0 (pieces chunkBytes field.text) } run id =
          fieldsAt sql run id ++ [field.row run id] := by
        simp [fieldsAt, LogicalField.row]
      rw [rows]
      refine (List.perm_append_singleton _ _).trans ?_
      refine (List.Perm.cons _ h.rows).trans ?_
      exact (perm.map (LogicalField.row run id)).symm
    · exact h.ascending.place fresh_key
    · rw [(perm.map _).nodup_iff, List.map_cons, List.nodup_cons]
      exact ⟨fresh, h.distinct⟩
    · intro other member
      rcases List.mem_cons.1 (perm.mem_iff.1 member) with rfl | member
      · rw [chunksAt_append_rows sql _ _ _ rfl, empty, List.nil_append]
      · have different : other.fieldId run id ≠ field.fieldId run id :=
          fun same => fresh (same ▸ List.mem_map.2 ⟨other, member, rfl⟩)
        rw [chunksAt_append_other sql different _ _ rfl, h.chunks other member]
    · intro other absent
      rw [(perm.map _).mem_iff, List.map_cons, List.mem_cons, not_or] at absent
      rw [chunksAt_append_other sql absent.1 _ _ rfl, h.rest other absent.2]
  · refine SameBut.of_others rfl rfl rfl ?_ (otherChunks_append_rows _ _ _ _)
    simp [otherFields, LogicalField.row]
end Slices

variable {old : LogicalField}

section Rewrite
variable {sql next : Conversation} {run : RunId} {id : EntryId} {fields : List LogicalField}

theorem fieldId_rewrite (field old : LogicalField) :
    LogicalField.fieldId run id (if old.order = field.order then field else old) = old.fieldId run id := by
  split
  · rename_i same
    rw [LogicalField.fieldId, LogicalField.fieldId, same]
  · rfl

theorem Stores.rewrite (h : Stores sql run id fields) (member : old ∈ fields) (same : old.order = field.order)
    {set : FieldRow → FieldRow}
    (rows : next.fields = Table.update (old.fieldKey run id).addressesField set sql.fields)
    (keeps : ∀ row, (set row).runId = row.runId ∧ (set row).entryId = row.entryId)
    (sets : set (old.row run id) = field.row run id) (chunks : chunksAt next run id (field.fieldId run id) =
      chunkRows run id (field.fieldId run id) 0 (pieces chunkBytes field.text))
    (others : ∀ fieldId, fieldId ≠ field.fieldId run id → chunksAt next run id fieldId = chunksAt sql run id fieldId) :
    Stores next run id (rewriteField field fields) := by
  have ids : (rewriteField field fields).map (LogicalField.fieldId run id) =
      fields.map (LogicalField.fieldId run id) := by
    rw [rewriteField, List.map_map]
    exact List.map_congr_left fun other _ => fieldId_rewrite field other
  constructor
  · have slice : fieldsAt next run id =
        Table.update (old.fieldKey run id).addressesField set (fieldsAt sql run id) := by
      rw [fieldsAt, rows]
      refine Table.filter_update sql.fields fun row _ => ?_
      rw [(keeps row).1, (keeps row).2]
    rw [slice]
    refine (h.rows.map _).trans (List.Perm.of_eq ?_)
    rw [rewriteField, List.map_map, List.map_map]
    refine List.map_congr_left fun other other_member => ?_
    simp only [Function.comp_apply]
    by_cases hit : other.order = field.order
    · have equal : other = old :=
        List.inj_on_of_nodup_map h.distinct other_member member
          (by rw [LogicalField.fieldId, LogicalField.fieldId, hit, same])
      subst equal
      have addressed : (other.fieldKey run id).addressesField (other.row run id) = true := by
        simp [FieldKey.addressesField, LogicalField.fieldKey, fieldKey, LogicalField.row, LogicalField.fieldId]
      rw [if_pos addressed, if_pos hit, sets]
    · have away : (old.fieldKey run id).addressesField (other.row run id) = false := by
        by_contra addressed
        simp only [FieldKey.addressesField, LogicalField.fieldKey, fieldKey, LogicalField.row,
          Bool.not_eq_false, Bool.and_eq_true, decide_eq_true_eq] at addressed
        have equal := List.inj_on_of_nodup_map h.distinct other_member member (of_decide_eq_true addressed.2)
        exact hit (equal ▸ same)
      rw [away, if_neg hit]
      rfl
  · exact h.ascending.map _ (key_rewrite field)
  · rw [ids]
    exact h.distinct
  · intro other other_member
    rcases (mem_rewriteField ⟨old, member, same⟩).1 other_member with rfl | ⟨other_member, different⟩
    · exact chunks
    · have apart : other.fieldId run id ≠ field.fieldId run id := by
        intro equal
        have : other = old := List.inj_on_of_nodup_map h.distinct other_member member
          (equal.trans (by rw [LogicalField.fieldId, LogicalField.fieldId, same]))
        exact different (this ▸ same)
      rw [others _ apart, h.chunks other other_member]
  · intro fieldId absent
    rw [ids] at absent
    have apart : fieldId ≠ field.fieldId run id := by
      rintro rfl
      exact absent (List.mem_map.2 ⟨old, member, by rw [LogicalField.fieldId, LogicalField.fieldId, same]⟩)
    rw [others _ apart, h.rest fieldId absent]

theorem otherFields_update (key : FieldKey) (set : FieldRow → FieldRow) (rows : List FieldRow)
    (keeps : ∀ row, (set row).runId = row.runId ∧ (set row).entryId = row.entryId) :
    otherFields key.run key.entry (Table.update key.addressesField set rows) =
      otherFields key.run key.entry rows := by
  rw [otherFields, Table.filter_update rows fun row _ => by rw [(keeps row).1, (keeps row).2], ← otherFields]
  refine Table.update_eq_self fun row member addressed => ?_
  have outside := (List.mem_filter.1 member).2
  simp only [FieldKey.addressesField, Bool.and_eq_true, decide_eq_true_eq] at addressed
  simp [addressed] at outside

end Rewrite

section Append
variable {sql next : Conversation} {run : RunId} {id : EntryId} {fields : List LogicalField}

theorem rewriteField_self (h : Stores sql run id fields) (member : field ∈ fields) :
    rewriteField field fields = fields := by
  rw [rewriteField]
  conv_rhs => rw [← List.map_id fields]
  refine List.map_congr_left fun other other_member => ?_
  split
  · rename_i same
    exact (List.inj_on_of_nodup_map h.distinct other_member member
      (by rw [LogicalField.fieldId, LogicalField.fieldId, same])).symm
  · rfl

theorem update_last_chunk (same : key.run = run ∧ key.entry = id ∧ key.fieldId = fieldId)
    (nonempty : ∀ p ∈ front, p ≠ []) :
    Table.update (fun row => key.addressesChunk row && row.startByte = bytes front.flatten)
        (fun row => { row with bytes := text }) (chunkRows run id fieldId 0 (front ++ [last])) =
      chunkRows run id fieldId 0 (front ++ [text]) := by
  obtain ⟨rfl, rfl, rfl⟩ := same
  rw [chunkRows_concat, chunkRows_concat, Table.update, List.map_append]
  congr 1
  · refine Table.update_eq_self fun row member hit => ?_
    have facts := mem_chunkRows member
    have positive := bytes_pos.2 (nonempty _ facts.2.2.2.2.2)
    simp only [Bool.and_eq_true, decide_eq_true_eq] at hit
    omega
  · simp [FieldKey.addressesChunk]

theorem otherChunks_update (key : FieldKey) {condition : ChunkRow → Bool} {set : ChunkRow → ChunkRow}
    (rows : List ChunkRow) (addressed : ∀ row, condition row = true → key.addressesChunk row = true)
    (keeps : ∀ row, (set row).runId = row.runId ∧ (set row).entryId = row.entryId) :
    otherChunks key.run key.entry (Table.update condition set rows) = otherChunks key.run key.entry rows := by
  rw [otherChunks, Table.filter_update rows fun row _ => by rw [(keeps row).1, (keeps row).2], ← otherChunks]
  refine Table.update_eq_self fun row member hit => ?_
  have outside := (List.mem_filter.1 member).2
  have addressed := addressed row hit
  simp only [FieldKey.addressesChunk, Bool.and_eq_true, decide_eq_true_eq] at addressed
  simp [addressed] at outside

theorem chunksAt_updateChunk (key : FieldKey) (start : Nat) (text : Text) (fieldId : FieldId) :
    chunksAt (updateChunk sql key start text) run id fieldId =
      Table.update (fun row => key.addressesChunk row && row.startByte = start)
        (fun row => { row with bytes := text }) (chunksAt sql run id fieldId) :=
  Table.filter_update sql.chunks fun _ _ => rfl

theorem appended_chunks {delta : Text} (split : pieces chunkBytes text = front ++ [last]) :
    chunkRows run id fieldId 0 (front ++ [last ++ take (chunkBytes - bytes last) delta]) ++
        chunkRows run id fieldId (bytes text + bytes (take (chunkBytes - bytes last) delta))
          (pieces chunkBytes (drop (chunkBytes - bytes last) delta)) =
      chunkRows run id fieldId 0 (pieces chunkBytes (text ++ delta)) := by
  have whole : bytes text = bytes front.flatten + bytes last := by
    conv_lhs => rw [← pieces_flatten chunkBytes_room text, split]
    simp
  have next : 0 + bytes (front ++ [last ++ take (chunkBytes - bytes last) delta]).flatten =
      bytes text + bytes (take (chunkBytes - bytes last) delta) := by
    simp only [List.flatten_append, List.flatten_cons, List.flatten_nil, List.append_nil, bytes_append]
    omega
  conv_rhs => rw [pieces_append chunkBytes_room split, List.append_cons, chunkRows_append 0, next]

/-- The table between the update of the last chunk and the insertion of new ones. -/
structure Grown (sql base : Conversation) (run : RunId) (id : EntryId) (fieldId : FieldId) (text delta : Text)
    (consumed : Nat) : Prop where
  projection : base.projection = sql.projection
  blocks : base.blocks = sql.blocks
  entries : base.entries = sql.entries
  fields : base.fields = sql.fields
  outside : otherChunks run id base.chunks = otherChunks run id sql.chunks
  others : ∀ other ≠ fieldId, chunksAt base run id other = chunksAt sql run id other
  below : ∀ row ∈ chunksAt base run id fieldId, row.startByte < bytes text + consumed
  total : consumed + bytes (drop consumed delta) = bytes delta
  rows : chunksAt base run id fieldId ++
      chunkRows run id fieldId (bytes text + consumed) (pieces chunkBytes (drop consumed delta)) =
    chunkRows run id fieldId 0 (pieces chunkBytes (text ++ delta))

theorem grown_empty (h : Stores sql run id fields) (member : old ∈ fields) (empty : old.text = [])
    (delta : Text) : Grown sql sql run id (old.fieldId run id) old.text delta 0 := by
  have rows : chunksAt sql run id (old.fieldId run id) = [] := by
    rw [h.chunks old member, empty]
    rfl
  refine ⟨rfl, rfl, rfl, rfl, rfl, fun _ _ => rfl, ?_, by simp, ?_⟩
  · intro row found
    simp [rows] at found
  · simp [rows, empty]

theorem grown_last (h : Stores sql run id fields) (member : old ∈ fields)
    (split : pieces chunkBytes old.text = front ++ [last]) (delta : Text) :
    Grown sql (updateChunk sql (old.fieldKey run id) (bytes front.flatten)
        (last ++ take (chunkBytes - bytes last) delta)) run id (old.fieldId run id) old.text delta
      (bytes (take (chunkBytes - bytes last) delta)) := by
  have bounds := fun piece => @pieces_bounds chunkBytes chunkBytes_room old.text piece
  rw [split] at bounds
  have nonempty : ∀ p ∈ front, p ≠ [] := fun p found => (bounds p (by simp [found])).1
  have whole : bytes old.text = bytes front.flatten + bytes last := by
    conv_lhs => rw [← pieces_flatten chunkBytes_room old.text, split]
    simp
  have changed : chunksAt (updateChunk sql (old.fieldKey run id) (bytes front.flatten)
      (last ++ take (chunkBytes - bytes last) delta)) run id (old.fieldId run id) =
        chunkRows run id (old.fieldId run id) 0 (front ++ [last ++ take (chunkBytes - bytes last) delta]) := by
    rw [chunksAt_updateChunk, h.chunks old member, split]
    exact update_last_chunk ⟨rfl, rfl, rfl⟩ nonempty
  refine ⟨rfl, rfl, rfl, rfl, ?_, ?_, ?_, ?_, ?_⟩
  · refine otherChunks_update (old.fieldKey run id) sql.chunks (fun row hit => ?_) fun row => ⟨rfl, rfl⟩
    exact (Bool.and_eq_true_iff.1 hit).1
  · intro other different
    rw [chunksAt_updateChunk]
    refine Table.update_eq_self fun row found hit => ?_
    have here := (List.mem_filter.1 found).2
    simp only [FieldKey.addressesChunk, LogicalField.fieldKey, fieldKey, Bool.and_eq_true,
      decide_eq_true_eq] at hit here
    exact absurd (here.2.symm.trans (of_decide_eq_true hit.1.2)) different
  · intro row found
    rw [changed] at found
    have facts := mem_chunkRows found
    have positive : 0 < bytes row.bytes := by
      rw [bytes_pos]
      rcases List.mem_append.1 facts.2.2.2.2.2 with inside | final
      · exact nonempty _ inside
      · rw [List.mem_singleton.1 final]
        simp [(bounds last (by simp)).1]
    simp only [List.flatten_append, List.flatten_cons, List.flatten_nil, List.append_nil, bytes_append] at facts
    omega
  · rw [drop_bytes_take, bytes_take_add_drop]
  · rw [changed, drop_bytes_take]
    exact appended_chunks split

theorem Stores.append (h : Stores sql run id fields) (member : old ∈ fields)
    (host : Hosts sql run id (old.order = .human)) (first : id.sequence ≤ old.generation)
    (fits : old.generation ≤ maxInteger) (delta : Text) (small : bytes old.text + bytes delta ≤ maxInteger) :
    ∃ next, Fields.append sql (old.fieldKey run id) delta =
        .ok (next, ⟨old.generation, bytes old.text + bytes delta⟩) ∧
      Stores next run id (rewriteField { old with text := old.text ++ delta } fields) ∧
      SameBut run id sql next := by
  have loaded := h.load member host first fits
  have tailed := h.tail member
  have rows := h.chunks old member
  have bounded : bytes delta ≤ maxInteger := by omega
  have start : Fields.append sql (old.fieldKey run id) delta = (do
      if delta = [] then return (sql, ⟨old.generation, bytes old.text⟩)
      let consumed := (lastPiece old.text).elim 0 fun last =>
        floorBoundary delta (min (chunkBytes - bytes last.text) (bytes delta))
      let grown := (lastPiece old.text).elim sql fun last =>
        if consumed > 0 then updateChunk sql (old.fieldKey run id) last.start (last.text ++ take consumed delta) else sql
      let sql ← insertChunks grown (old.fieldKey run id) (drop consumed delta) (bytes old.text + consumed)
      let sql := updateField sql (old.fieldKey run id)
        fun row => { row with byteLength := bytes old.text + bytes delta }
      return (sql, ⟨old.generation, bytes old.text + bytes delta⟩)) := by
    rw [Fields.append, loaded, ok_bind, length, integer_ok bounded, ok_bind, integer_ok small, ok_bind, tailed,
      ok_bind]
    cases lastPiece old.text <;> rfl
  by_cases empty : delta = []
  · subst empty
    refine ⟨sql, by rw [start]; simp, ?_, SameBut.refl run id sql⟩
    have same : ({ old with text := old.text ++ [] } : LogicalField) = old := by simp
    rw [same, rewriteField_self h member]
    exact h
  -- Which table the new pieces go to, and how much of the delta the last piece took.
  obtain ⟨base, consumed, grown, step⟩ : ∃ base consumed,
      Grown sql base run id (old.fieldId run id) old.text delta consumed ∧
      (do let sql ← insertChunks base (old.fieldKey run id) (drop consumed delta) (bytes old.text + consumed)
          let sql := updateField sql (old.fieldKey run id)
            fun row => { row with byteLength := bytes old.text + bytes delta }
          return (sql, (⟨old.generation, bytes old.text + bytes delta⟩ : FieldDescriptor))) =
      Fields.append sql (old.fieldKey run id) delta := by
    rw [start, if_neg empty]
    by_cases fresh : old.text = []
    · refine ⟨sql, 0, grown_empty h member fresh delta, ?_⟩
      rw [fresh, lastPiece_nil]
      rfl
    · obtain ⟨front, last, split, piece, whole⟩ := pieces_split fresh
      refine ⟨_, _, grown_last h member split delta, ?_⟩
      rw [piece]
      simp only [Option.elim_some, floorBoundary_eq, take_min_bytes, take_bytes_take]
      split
      · rfl
      · rename_i nothing
        have taken : take (chunkBytes - bytes last) delta = [] := by
          rw [← bytes_eq_zero]
          omega
        have untouched : updateChunk sql (old.fieldKey run id) (bytes front.flatten) last = sql := by
          rw [updateChunk, Table.update_eq_self]
          intro row found hit
          simp only [Bool.and_eq_true, decide_eq_true_eq] at hit
          have stored : row ∈ chunksAt sql run id (old.fieldId run id) := List.mem_filter.2 ⟨found, hit.1⟩
          rw [h.chunks old member, split, chunkRows_concat, List.mem_append, List.mem_singleton] at stored
          rcases stored with earlier | rfl
          · have facts := mem_chunkRows earlier
            have positive := bytes_pos.2 (pieces_bounds chunkBytes_room (split ▸ List.mem_append_left _
              facts.2.2.2.2.2 : row.bytes ∈ pieces chunkBytes old.text)).1
            omega
          · rfl
        rw [taken, List.append_nil, untouched]
  have inserted := insertChunks_ok base (old.fieldKey run id) (drop consumed delta) (bytes old.text + consumed)
    (by have := grown.total; omega) grown.below
  rw [← step, inserted, ok_bind]
  refine ⟨_, rfl, ?_, ?_⟩
  · refine h.rewrite member rfl (congrArg (Table.update _ _) grown.fields) (fun row => ⟨rfl, rfl⟩) ?_ ?_ ?_
    · simp [LogicalField.row]
      rfl
    · exact (chunksAt_append_rows _ _ _ _ rfl).trans grown.rows
    · intro other different
      exact (chunksAt_append_other _ different _ _ rfl).trans (grown.others other different)
  · refine SameBut.of_others grown.projection grown.blocks grown.entries ?_ ?_
    · refine (otherFields_update (old.fieldKey run id) _ base.fields ?_).trans ?_
      · exact fun row => ⟨rfl, rfl⟩
      · exact congrArg (otherFields run id) grown.fields
    · exact (otherChunks_append_rows _ _ _ _).trans grown.outside

end Append

section Replace
variable {sql next : Conversation} {run : RunId} {id : EntryId} {fields : List LogicalField}

theorem chunksAt_delete (key : FieldKey) : chunksAt (deleteChunks sql key) key.run key.entry key.fieldId = [] := by
  rw [chunksAt, deleteChunks, Table.delete, List.filter_filter, List.filter_eq_nil_iff]
  intro row member both
  simp only [FieldKey.addressesChunk, Bool.and_eq_true] at both
  simp [both.1] at both

theorem chunksAt_delete_other (key : FieldKey) (different : fieldId ≠ key.fieldId) :
    chunksAt (deleteChunks sql key) run id fieldId = chunksAt sql run id fieldId := by
  rw [chunksAt, deleteChunks, Table.delete, List.filter_filter, chunksAt]
  refine List.filter_congr fun row _ => ?_
  by_cases here : row.fieldId = fieldId
  · simp [FieldKey.addressesChunk, here, different]
  · simp [here]

theorem otherChunks_delete (key : FieldKey) :
    otherChunks key.run key.entry (deleteChunks sql key).chunks = otherChunks key.run key.entry sql.chunks := by
  rw [otherChunks, deleteChunks, Table.delete, List.filter_filter, otherChunks]
  refine List.filter_congr fun row _ => ?_
  simp only [FieldKey.addressesChunk]
  cases decide (row.runId = key.run) <;> cases decide (row.entryId = key.entry) <;> simp

theorem otherFields_delete (key : FieldKey) (rows : List FieldRow) :
    otherFields key.run key.entry (Table.delete key.addressesField rows) = otherFields key.run key.entry rows := by
  rw [otherFields, Table.delete, List.filter_filter, otherFields]
  refine List.filter_congr fun row _ => ?_
  simp only [FieldKey.addressesField]
  cases decide (row.runId = key.run) <;> cases decide (row.entryId = key.entry) <;> simp

theorem Stores.replace (h : Stores sql run id fields) (member : old ∈ fields)
    (host : Hosts sql run id (old.order = .human)) (first : id.sequence ≤ old.generation) {generation : Nat}
    (later : old.generation < generation) (fits : generation ≤ maxInteger) (small : bytes text ≤ maxInteger) :
    ∃ next, Fields.replace sql (old.fieldKey run id) generation text =
        .ok (next, ⟨generation, bytes text⟩) ∧
      Stores next run id (rewriteField { old with generation, text } fields) ∧ SameBut run id sql next := by
  have loaded := h.load member host first (by omega)
  have tailed := h.tail member
  have checked : (old.fieldKey run id).generation generation = .ok generation := by
    have enough : id.sequence ≤ generation := by omega
    simp [FieldKey.generation, LogicalField.fieldKey, fieldKey, enough, integer_ok fits]
  have empty : chunksAt (deleteChunks sql (old.fieldKey run id)) run id (old.fieldId run id) = [] :=
    chunksAt_delete (old.fieldKey run id)
  have inserted := insertChunks_ok (updateField (deleteChunks sql (old.fieldKey run id))
      (old.fieldKey run id) fun row => { row with generation, byteLength := bytes text })
    (old.fieldKey run id) text 0 (by omega) (by
      intro row found
      have found : row ∈ chunksAt (deleteChunks sql (old.fieldKey run id)) run id (old.fieldId run id) := found
      simp [empty] at found)
  have newer : decide (old.generation < generation) = true := decide_eq_true later
  refine ⟨{ updateField (deleteChunks sql (old.fieldKey run id)) (old.fieldKey run id)
      fun row => { row with generation, byteLength := bytes text } with
    chunks := (deleteChunks sql (old.fieldKey run id)).chunks ++
      chunkRows run id (old.fieldId run id) 0 (pieces chunkBytes text) }, ?_, ?_, ?_⟩
  · rw [Fields.replace, checked, ok_bind, length, integer_ok small, ok_bind, loaded, ok_bind]
    simp only [newer, require_true, ok_bind, tailed, discard_ok]
    rw [inserted, ok_bind, pure_eq_ok]
    rfl
  · refine h.rewrite member rfl rfl (fun row => ⟨rfl, rfl⟩) rfl ?_ ?_
    · refine (chunksAt_append_rows (deleteChunks sql (old.fieldKey run id)) _ _ _ rfl).trans ?_
      exact congrArg (· ++ _) empty
    · intro other different
      refine (chunksAt_append_other (deleteChunks sql (old.fieldKey run id)) different _ _ rfl).trans ?_
      exact chunksAt_delete_other (old.fieldKey run id) different
  · refine SameBut.of_others rfl rfl rfl ?_ ?_
    · exact otherFields_update (old.fieldKey run id) _ sql.fields fun row => ⟨rfl, rfl⟩
    · exact (otherChunks_append_rows _ _ _ _).trans (otherChunks_delete (old.fieldKey run id))

theorem Stores.remove (h : Stores sql run id fields) (member : old ∈ fields)
    (host : Hosts sql run id (old.order = .human)) (first : id.sequence ≤ old.generation)
    (fits : old.generation ≤ maxInteger) (small : bytes old.text ≤ maxInteger) :
    ∃ next, Content.remove sql (old.fieldKey run id) = .ok next ∧
      Stores next run id (removeField old.order fields) ∧ SameBut run id sql next := by
  obtain ⟨checked, appended, stored, same⟩ := h.append member host first fits [] (by simpa using small)
  have unchanged : ({ old with text := old.text ++ [] } : LogicalField) = old := by simp
  rw [unchanged, rewriteField_self h member] at stored
  have removed : Content.remove sql (old.fieldKey run id) = .ok { deleteChunks checked (old.fieldKey run id) with
      fields := Table.delete (old.fieldKey run id).addressesField checked.fields } := by
    rw [Content.remove, appended]
    rfl
  refine ⟨_, removed, ?_, same.trans ?_⟩
  · have kept (other : LogicalField) (other_member : other ∈ fields) :
        (old.fieldKey run id).addressesField (other.row run id) = true ↔ other.order = old.order := by
      constructor
      · intro hit
        simp only [FieldKey.addressesField, Bool.and_eq_true] at hit
        have equal := List.inj_on_of_nodup_map h.distinct other_member member (of_decide_eq_true hit.2)
        rw [equal]
      · intro equal
        simp [FieldKey.addressesField, LogicalField.fieldKey, fieldKey, LogicalField.row, LogicalField.fieldId, equal]
    constructor
    · have slice : fieldsAt { deleteChunks checked (old.fieldKey run id) with
          fields := Table.delete (old.fieldKey run id).addressesField checked.fields } run id =
          (fieldsAt checked run id).filter fun row => !(old.fieldKey run id).addressesField row := by
        rw [fieldsAt, fieldsAt, Table.delete, List.filter_filter, List.filter_filter]
        exact List.filter_congr fun row _ => Bool.and_comm _ _
      rw [slice]
      refine (stored.rows.filter _).trans (List.Perm.of_eq ?_)
      rw [List.filter_map, removeField]
      congr 1
      refine List.filter_congr fun other other_member => ?_
      have iff := kept other other_member
      by_cases equal : other.order = old.order
      · simp [iff.2 equal, equal]
      · have away : (old.fieldKey run id).addressesField (other.row run id) = false := by
          rw [← Bool.not_eq_true]
          exact fun hit => equal (iff.1 hit)
        simp [away, equal]
    · exact h.ascending.sublist List.filter_sublist
    · exact List.Nodup.sublist (List.Sublist.map _ List.filter_sublist) h.distinct
    · intro other other_member
      obtain ⟨other_member, different⟩ := mem_removeField.1 other_member
      have apart : other.fieldId run id ≠ old.fieldId run id := by
        intro equal
        exact different (congrArg _ (List.inj_on_of_nodup_map h.distinct other_member member equal))
      refine (chunksAt_delete_other (old.fieldKey run id) apart).trans ?_
      exact stored.chunks other other_member
    · intro fieldId absent
      by_cases here : fieldId = old.fieldId run id
      · subst here
        exact chunksAt_delete (old.fieldKey run id)
      · refine (chunksAt_delete_other (old.fieldKey run id) here).trans (stored.rest fieldId ?_)
        intro present
        obtain ⟨other, other_member, rfl⟩ := List.mem_map.1 present
        refine absent (List.mem_map.2 ⟨other, mem_removeField.2 ⟨other_member, ?_⟩, rfl⟩)
        exact fun equal => here (by rw [LogicalField.fieldId, LogicalField.fieldId, equal])
  · refine SameBut.of_others rfl rfl rfl ?_ (otherChunks_delete (old.fieldKey run id))
    exact otherFields_delete (old.fieldKey run id) checked.fields
end Replace

section Same
variable {sql next : Conversation} {run : RunId} {id : EntryId} {fieldId : FieldId} {fields : List LogicalField}

theorem filter_from {rest : List Text} (nonempty : ∀ p ∈ front, p ≠ []) :
    (chunkRows run id fieldId 0 (front ++ rest)).filter (fun row => decide (bytes front.flatten ≤ row.startByte)) =
      chunkRows run id fieldId (bytes front.flatten) rest := by
  rw [chunkRows_append, List.filter_append, List.filter_eq_nil_iff.2, List.filter_eq_self.2, List.nil_append,
    Nat.zero_add]
  · intro row member
    have facts := mem_chunkRows member
    simp only [decide_eq_true_eq]
    omega
  · intro row member
    have facts := mem_chunkRows member
    have positive := bytes_pos.2 (nonempty _ facts.2.2.2.2.2)
    simp only [decide_eq_true_eq]
    omega

theorem sameChunks_eq (front rest : List Text) (remaining : Text)
    (bounds : ∀ p ∈ front ++ rest, p ≠ [] ∧ bytes p ≤ chunkBytes)
    (length : bytes rest.flatten = bytes remaining) (fuel : Nat) (enough : rest.length < fuel) :
    Content.sameChunks (chunkRows run id fieldId 0 (front ++ rest)) (bytes (front ++ rest).flatten)
        (front.flatten ++ remaining) fuel (bytes front.flatten) =
      .ok (decide (rest.flatten = remaining)) := by
  induction rest generalizing front remaining fuel with
  | nil =>
    obtain ⟨fuel, rfl⟩ : ∃ n, fuel = n + 1 := ⟨fuel - 1, by simp at enough; omega⟩
    have empty : remaining = [] := by
      rw [← bytes_eq_zero, ← length]
      rfl
    rw [Content.sameChunks, filter_from fun p member => (bounds p (by simp [member])).1]
    simp [chunkRows, Table.orderBy, empty]
  | cons piece rest ih =>
    obtain ⟨fuel, rfl⟩ : ∃ n, fuel = n + 1 := ⟨fuel - 1, by simp at enough; omega⟩
    have piece_bounds := bounds piece (by simp)
    have suffix_nonempty : ∀ p ∈ piece :: rest, p ≠ [] := fun p member => (bounds p (by simp_all)).1
    have sorted : Table.orderBy (fun row : ChunkRow => row.startByte)
        (chunkRows run id fieldId (bytes front.flatten) (piece :: rest)) =
        chunkRows run id fieldId (bytes front.flatten) (piece :: rest) :=
      Table.orderBy_eq (List.Perm.refl _) (chunkRows_ascending suffix_nonempty)
    have head : (chunkRows run id fieldId (bytes front.flatten) (piece :: rest)).head? =
        some ⟨run, id, fieldId, bytes front.flatten, piece⟩ := rfl
    have inside : bytes front.flatten + bytes piece ≤ bytes (front ++ piece :: rest).flatten := by
      simp
    rw [Content.sameChunks, filter_from fun p member => (bounds p (by simp [member])).1, sorted, head]
    simp only [ne_eq, piece_bounds, not_false_eq_true, decide_true, Bool.and_self, require_true, ok_bind, inside]
    have boundary : isBoundary (bytes front.flatten) (front.flatten ++ remaining) = true := by simp [isBoundary]
    simp only [Content.sliceMatches, boundary, drop_append_bytes, Bool.true_and, List.flatten_cons]
    by_cases matched : piece.isPrefixOf remaining = true
    · obtain ⟨later, rfl⟩ := List.isPrefixOf_iff_prefix.1 matched
      have shift := ih (front ++ [piece]) later (fun p member => bounds p (by simp_all))
        (by simpa using length) fuel (by simp at enough; omega)
      simp only [List.flatten_append, List.flatten_cons, List.flatten_nil, List.append_nil, bytes_append,
        List.append_assoc, List.singleton_append] at shift
      rw [if_pos matched]
      simp only [List.flatten_append, List.flatten_cons, bytes_append, shift, List.append_cancel_left_eq]
    · rw [if_neg matched, pure_eq_ok, Except.ok.injEq, eq_comm, decide_eq_false_iff_not]
      intro equal
      exact matched (List.isPrefixOf_iff_prefix.2 ⟨_, equal⟩)

theorem Stores.sameText (h : Stores sql run id fields) (member : old ∈ fields)
    (host : Hosts sql run id (old.order = .human)) (first : id.sequence ≤ old.generation)
    (fits : old.generation ≤ maxInteger) {entry : Entry} (seen : old.generation ≤ entry.revision) (text : Text) :
    Content.sameText sql (old.fieldKey run id) entry text = .ok (decide (old.text = text)) := by
  have loaded := h.load member host first fits
  have rows : sql.chunks.filter (old.fieldKey run id).addressesChunk =
      chunkRows run id (old.fieldId run id) 0 (pieces chunkBytes old.text) := h.chunks old member
  rw [Content.sameText, loaded, ok_bind]
  simp only [seen, decide_true, require_true, ok_bind, rows]
  by_cases length : bytes old.text = bytes text
  · have flat := pieces_flatten chunkBytes_room old.text
    have compared := @sameChunks_eq _ run id (old.fieldId run id) [] (pieces chunkBytes old.text) text
      (fun p found => pieces_bounds chunkBytes_room found) (by rw [flat]; exact length)
      ((chunkRows run id (old.fieldId run id) 0 (pieces chunkBytes old.text)).length + 1)
      (by simp [chunkRows])
    simp only [List.nil_append, List.flatten_nil, flat, bytes_nil] at compared
    rw [if_neg (by simp [length]), compared]
  · have different : old.text ≠ text := fun equal => length (congrArg bytes equal)
    simp [length, different]

end Same
end Wi
