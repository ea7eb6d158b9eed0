import Wi.Fields
import Wi.Keyed

/-! The logical content of an entry, and the descriptor and chunk rows that store it. -/
namespace Wi
open Utf8 Chunks Fields

/-- A field as a reader understands it. -/
structure LogicalField where
  order : FieldOrder
  kind : FieldKind
  generation : Nat
  text : Text
  deriving DecidableEq

theorem chunkBytes_room : 4 ≤ chunkBytes := by decide

theorem FieldOrder.encode_injective : Function.Injective FieldOrder.encode := by
  have short (key : OrderKey) : (['0'] : Text) ≠ key.spelling := by
    intro same
    have length := congrArg List.length same
    simp only [OrderKey.spelling, List.length_append, List.length_cons, List.length_nil] at length
    omega
  intro a b same
  cases a <;> cases b <;> simp only [FieldOrder.encode] at same
  · rfl
  · exact absurd same (short _)
  · exact absurd same.symm (short _)
  · rw [OrderKey.spelling_injective same]

def LogicalField.key (field : LogicalField) : Text := field.order.encode

/-- The fields with one of them replaced by a field of the same order key. -/
def rewriteField (field : LogicalField) (fields : List LogicalField) : List LogicalField :=
  fields.map fun old => if old.order = field.order then field else old

theorem key_rewrite (field old : LogicalField) :
    LogicalField.key (if old.order = field.order then field else old) = old.key := by
  split
  · rename_i same
    rw [LogicalField.key, LogicalField.key, same]
  · rfl

variable {fields : List LogicalField}

theorem mem_rewriteField {field other : LogicalField} (stored : ∃ old ∈ fields, old.order = field.order) :
    other ∈ rewriteField field fields ↔ other = field ∨ (other ∈ fields ∧ other.order ≠ field.order) := by
  rw [rewriteField, List.mem_map]
  constructor
  · rintro ⟨old, member, rfl⟩
    split
    · exact .inl rfl
    · rename_i different
      exact .inr ⟨member, different⟩
  · rintro (rfl | ⟨member, different⟩)
    · obtain ⟨old, member, same⟩ := stored
      exact ⟨old, member, if_pos same⟩
    · exact ⟨other, member, if_neg different⟩

/-- The fields without the one at an order key. -/
def removeField (order : FieldOrder) (fields : List LogicalField) : List LogicalField :=
  fields.filter fun field => field.order ≠ order

theorem mem_removeField {order : FieldOrder} {field : LogicalField} :
    field ∈ removeField order fields ↔ field ∈ fields ∧ field.order ≠ order := by
  simp [removeField]

variable [JsonHash]

namespace LogicalField

def fieldId (run : RunId) (id : EntryId) (field : LogicalField) : FieldId := fieldIdOf run id field.order

/-- The descriptor row of the field. -/
def row (run : RunId) (id : EntryId) (field : LogicalField) : FieldRow :=
  ⟨run, id, field.fieldId run id, field.order, field.generation, bytes field.text, field.kind⟩

end LogicalField

/-- Chunk rows of consecutive pieces. -/
def chunkRows (run : RunId) (id : EntryId) (fieldId : FieldId) (start : Nat) (pieces : List Text) :
    List ChunkRow :=
  (locate start pieces).map fun chunk => ⟨run, id, fieldId, chunk.1, chunk.2⟩

def fieldsAt (sql : Conversation) (run : RunId) (id : EntryId) : List FieldRow :=
  sql.fields.filter fun row => row.runId = run && row.entryId = id

def chunksAt (sql : Conversation) (run : RunId) (id : EntryId) (fieldId : FieldId) : List ChunkRow :=
  sql.chunks.filter fun row => row.runId = run && row.entryId = id && row.fieldId = fieldId

/-- The tables hold exactly these fields for the entry, in greedy chunks. -/
structure Stores (sql : Conversation) (run : RunId) (id : EntryId) (fields : List LogicalField) : Prop where
  rows : (fieldsAt sql run id).Perm (fields.map (LogicalField.row run id))
  ascending : Keyed.Ascending LogicalField.key fields
  distinct : (fields.map (LogicalField.fieldId run id)).Nodup
  chunks : ∀ field ∈ fields, chunksAt sql run id (field.fieldId run id) =
    chunkRows run id (field.fieldId run id) 0 (pieces chunkBytes field.text)
  rest : ∀ fieldId ∉ fields.map (LogicalField.fieldId run id), chunksAt sql run id fieldId = []

/-- Only the content of one entry may differ. -/
structure SameBut (run : RunId) (id : EntryId) (sql next : Conversation) : Prop where
  projection : next.projection = sql.projection
  blocks : next.blocks = sql.blocks
  entries : next.entries = sql.entries
  fields : ∀ otherRun otherId, (otherRun, otherId) ≠ (run, id) →
    fieldsAt next otherRun otherId = fieldsAt sql otherRun otherId
  chunks : ∀ otherRun otherId, (otherRun, otherId) ≠ (run, id) → ∀ fieldId,
    chunksAt next otherRun otherId fieldId = chunksAt sql otherRun otherId fieldId

variable {run : RunId} {id : EntryId}

namespace SameBut

theorem refl (run : RunId) (id : EntryId) (sql : Conversation) : SameBut run id sql sql :=
  ⟨rfl, rfl, rfl, fun _ _ _ => rfl, fun _ _ _ _ => rfl⟩

theorem trans {a b c : Conversation} (ab : SameBut run id a b) (bc : SameBut run id b c) : SameBut run id a c where
  projection := bc.projection.trans ab.projection
  blocks := bc.blocks.trans ab.blocks
  entries := bc.entries.trans ab.entries
  fields r e other := (bc.fields r e other).trans (ab.fields r e other)
  chunks r e other fieldId := (bc.chunks r e other fieldId).trans (ab.chunks r e other fieldId)

end SameBut

theorem Stores.of_slices {sql next : Conversation} (h : Stores sql run id fields)
    (rows : fieldsAt next run id = fieldsAt sql run id)
    (chunks : ∀ fieldId, chunksAt next run id fieldId = chunksAt sql run id fieldId) :
    Stores next run id fields where
  rows := rows ▸ h.rows
  ascending := h.ascending
  distinct := h.distinct
  chunks field member := (chunks _).trans (h.chunks field member)
  rest fieldId absent := (chunks _).trans (h.rest fieldId absent)

theorem Stores.same_but {sql next : Conversation} {otherRun : RunId} {otherId : EntryId}
    (h : Stores sql otherRun otherId fields) (same : SameBut run id sql next)
    (other : (otherRun, otherId) ≠ (run, id)) : Stores next otherRun otherId fields :=
  h.of_slices (same.fields _ _ other) (same.chunks _ _ other)

end Wi
