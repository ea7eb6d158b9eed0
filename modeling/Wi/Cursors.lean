import Wi.Fields

/-! Opaque continuation tokens. A token is a prefix and the base 64 text of a JSON array;
the reads below take the decoded cursor. -/
namespace Wi
open Utf8

inductive ConversationError where
  | storage (kind : StorageErrorKind)
  | cursorInvalid
  | cursorStale
  | displayUnavailable
  deriving DecidableEq, Repr

abbrev Read := Except ConversationError

/-- A storage error inside a read. -/
def storage (result : Result α) : Read α := result.mapError .storage

/-- A check inside a read. -/
def expect (condition : Bool) (error : ConversationError) : Read Unit :=
  if condition then .ok () else .error error

def corrupt : ConversationError := .storage .integrity

def maxCursorBytes : Nat := 4096

/-- `encode`: the fields after the version number are all strings. -/
def token [JsonHash] (prefixed : Text) (fields : List Text) : Text :=
  prefixed ++ Spelling.Base64.encode (Spelling.utf8 (render (.array
    (.number ['1'] :: fields.map Json.string))))

/-- `valid_field_id`: the human field, or a lowercase digest. -/
def validFieldId (id : Text) : Bool :=
  id = "text".toList || (id.length = 64 && id.all lowerHex)

section Content
variable [JsonHash]

theorem validFieldId_spelling (id : FieldId) : validFieldId id.spelling = true := by
  cases id with
  | text => rfl
  | hash value => simp [validFieldId, FieldId.spelling, JsonHash.hex_length, JsonHash.hex_lower]

structure ContentCursor where
  sessionId : ApplicationSessionId
  runId : RunId
  entryId : EntryId
  contentEpoch : Nat
  upperFieldId : FieldId
  upperGeneration : Nat
  exclusiveUpperByte : Nat
  deriving DecidableEq

namespace ContentCursor

def spelling (cursor : ContentCursor) : Text :=
  token "g11c.".toList [cursor.sessionId.text, cursor.runId.text, cursor.entryId.spelling,
    Spelling.decimal cursor.contentEpoch, cursor.upperFieldId.spelling,
    Spelling.decimal cursor.upperGeneration, Spelling.decimal cursor.exclusiveUpperByte]

/-- Construction never emits a token that the bounded parser rejects. -/
def new (cursor : ContentCursor) : Result ContentCursor := do
  require (cursor.entryId.sequence ≤ cursor.contentEpoch &&
    cursor.entryId.sequence ≤ cursor.upperGeneration && validFieldId cursor.upperFieldId.spelling) .integrity
  require (bytes cursor.spelling ≤ maxCursorBytes) .integrity
  return cursor

end ContentCursor
end Content

end Wi
