import Wi.Cursors

/-! Display values. Each constructor re-checks what its caller assembled; a rejected value
is reported as an integrity error. -/
namespace Wi
open Utf8
variable [JsonHash]

structure FieldFragment where
  fieldId : FieldId
  orderKey : FieldOrder
  kind : FieldKind
  generation : Nat
  totalBytes : Nat
  fromByte : Nat
  toByte : Nat
  text : Text
  deriving DecidableEq

namespace FieldFragment

def new (field : FieldFragment) : Result FieldFragment := do
  require (validFieldId field.fieldId.spelling && field.generation ≠ 0 && field.fromByte ≤ field.toByte &&
    field.toByte ≤ field.totalBytes && bytes field.text = field.toByte - field.fromByte) .integrity
  return field

def hasEarlier (field : FieldFragment) : Bool := 0 < field.fromByte
def hasLater (field : FieldFragment) : Bool := field.toByte < field.totalBytes

/-- The fragment is the field's whole text. -/
def whole (field : FieldFragment) : Bool := !field.hasEarlier && !field.hasLater

end FieldFragment

structure EntryReference where
  runId : RunId
  entryId : EntryId
  deriving DecidableEq

structure EntryView where
  runId : RunId
  entryId : EntryId
  revision : Nat
  contentEpoch : Nat
  kind : EntryKind
  recordedState : State
  provisional : Bool
  reference : Option EntryReference
  resultRecorded : Option Bool
  finishRecorded : Option Bool
  isError : Option Bool
  fields : List FieldFragment
  earlierContent : Option ContentCursor
  contentComplete : Bool
  deriving DecidableEq

/-- `pairs.windows(2).any(..)` negated: every neighbouring pair satisfies the relation. -/
def ascending (less : α → α → Bool) : List α → Bool
  | a :: b :: rest => less a b && ascending less (b :: rest)
  | _ => true

namespace EntryView

/-- A human entry shows exactly its one text field. -/
def humanValid (entry : EntryView) : Bool :=
  entry.kind ≠ .human ||
    match entry.fields with
    | [field] => field.fieldId = .text && field.orderKey = .human && field.kind = .text
    | _ => false

def referenceValid (entry : EntryView) : Bool :=
  decide (entry.kind = .reuse) == entry.reference.isSome &&
    entry.reference.all fun reference => reference.runId = entry.runId && reference.entryId.before entry.entryId

def toolFactsValid (entry : EntryView) : Bool :=
  entry.kind = .tool || entry.kind = .reuse ||
    (entry.resultRecorded.isNone && entry.finishRecorded.isNone && entry.isError.isNone)

def fieldValid (entry : EntryView) (field : FieldFragment) : Bool :=
  entry.entryId.sequence ≤ field.generation && field.generation ≤ entry.revision &&
    (entry.kind = .human || field.orderKey.encode ≠ ['0']) && (!entry.contentComplete || field.whole)

def fieldsValid (entry : EntryView) : Bool :=
  entry.fields.all entry.fieldValid && (entry.fields.map (·.fieldId)).Nodup &&
    ascending (fun a b => decide (a.orderKey.encode < b.orderKey.encode)) entry.fields

def cursorValid (entry : EntryView) (cursor : ContentCursor) : Bool :=
  cursor.runId = entry.runId && cursor.entryId = entry.entryId && cursor.contentEpoch = entry.contentEpoch &&
    cursor.upperGeneration ≤ entry.revision &&
    entry.fields.all fun field => field.fieldId ≠ cursor.upperFieldId ||
      (field.generation = cursor.upperGeneration && cursor.exclusiveUpperByte ≤ field.totalBytes)

def new (entry : EntryView) : Result EntryView := do
  require entry.humanValid .integrity
  require (entry.entryId.sequence ≤ entry.contentEpoch && entry.contentEpoch ≤ entry.revision &&
    entry.referenceValid && entry.toolFactsValid && entry.fieldsValid &&
    !(entry.contentComplete && entry.earlierContent.isSome) && entry.earlierContent.all entry.cursorValid)
    .integrity
  return entry

end EntryView

end Wi
