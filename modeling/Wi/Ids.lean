import Wi.Except
import Wi.Spelling

/-! Identifiers, error kinds and the integer checks shared by storage and projection. -/
namespace Wi
open Utf8

inductive StorageErrorKind where
  | invalidInput | busy | closed | notFound | unavailable | unsupportedVersion | integrity
  | commandConflict | invalidTransition | activeRunExists | staleHistory
  | catalogRepairRequired | creationIncomplete | io | commitUnknown
  deriving DecidableEq, Repr

inductive CommitCertainty where
  | notApplicable | notCommitted | unknown
  deriving DecidableEq, Repr

structure StorageError where
  kind : StorageErrorKind
  certainty : CommitCertainty
  deriving DecidableEq, Repr

def StorageError.new (kind : StorageErrorKind) : StorageError :=
  ⟨kind, if kind = .commitUnknown then .unknown else .notApplicable⟩

def StorageError.notCommitted (error : StorageError) : StorageError :=
  { error with certainty := .notCommitted }

abbrev Result := Except StorageErrorKind

def integrity : Result α := .error .integrity
def invalid : Result α := .error .invalidInput
def transition : Result α := .error .invalidTransition

/-- `condition.ok_or(kind)`: go on only when the check holds. -/
def require (condition : Bool) (kind : StorageErrorKind) : Result Unit :=
  if condition then .ok () else .error kind

/-- `option.ok_or_else(..)?` -/
def present (value : Option α) (kind : StorageErrorKind) : Result α :=
  match value with
  | some value => .ok value
  | none => .error kind

@[simp] theorem require_true (kind : StorageErrorKind) : require true kind = .ok () := rfl
@[simp] theorem require_false (kind : StorageErrorKind) : require false kind = .error kind := rfl
@[simp] theorem present_some (value : α) (kind : StorageErrorKind) : present (some value) kind = .ok value := rfl
@[simp] theorem present_none (kind : StorageErrorKind) : (present none kind : Result α) = .error kind := rfl

theorem require_eq_ok {condition : Bool} {kind : StorageErrorKind} {result : Unit} :
    require condition kind = .ok result ↔ condition = true := by
  cases condition <;> simp

theorem present_eq_ok {value : Option α} {kind : StorageErrorKind} {result : α} :
    present value kind = .ok result ↔ value = some result := by
  cases value <;> simp

def maxInteger : Nat := 2 ^ 63 - 1

/-- `i64::try_from(value)`, which the projector reports as an integrity error. -/
def integer (value : Nat) : Result Nat := if value ≤ maxInteger then .ok value else integrity

theorem integer_ok (fits : value ≤ maxInteger) : integer value = .ok value := if_pos fits

theorem integer_eq_ok : integer value = .ok result ↔ value ≤ maxInteger ∧ result = value := by
  unfold integer integrity
  split
  · rename_i fits
    simp [fits, eq_comm]
  · rename_i past
    simp [past]

/-- `text.len()` as a stored integer. -/
def length (text : Text) : Result Nat := integer (bytes text)

def hexDigits : List Char := "0123456789abcdef".toList

def lowerHex (c : Char) : Bool := c ∈ hexDigits

def hyphens : List Nat := [8, 13, 18, 23]

def uuidShape (text : Text) : Bool :=
  text.length == 36 &&
    text.zipIdx.all fun (c, index) => if index ∈ hyphens then c == '-' else lowerHex c

def nilUuid : Text := "00000000-0000-0000-0000-000000000000".toList

/-- The canonical hyphenated lowercase spelling of a UUID other than the nil one. -/
def isCanonicalUuid (text : Text) : Bool := uuidShape text && text != nilUuid

/-- A checked identifier. Sessions, operations, runs and stored events all use it. -/
structure Uuid where
  text : Text
  canonical : isCanonicalUuid text = true
  deriving DecidableEq

abbrev ApplicationSessionId := Uuid
abbrev OperationId := Uuid
abbrev RunId := Uuid
abbrev StoredEventId := Uuid

/-- `value.parse::<RunId>()` and its siblings. -/
def Uuid.parse (text : Text) : Result Uuid :=
  if h : isCanonicalUuid text = true then .ok ⟨text, h⟩ else invalid

/-- A fixed identifier. -/
def Uuid.one : Uuid := ⟨"00000000-0000-4000-8000-000000000001".toList, by decide⟩

/-- Fixed identifiers. -/
def Uuid.ending (last : Char) : Uuid :=
  let text := "00000000-0000-4000-8000-00000000000".toList ++ [last]
  if valid : isCanonicalUuid text = true then ⟨text, valid⟩ else .one

/-- The provider adapter's own event counter, spelled `session:sequence`. -/
def isLocalEventId (event session : Text) (sequence : Nat) : Bool :=
  isCanonicalUuid session && sequence != 0 && decide (bytes event ≤ 57) &&
    event == session ++ ':' :: Spelling.decimal sequence

/-- A position in a run: the sequence of the event that created the entry, and a slot. -/
structure EntryId where
  sequence : Nat
  slot : Nat
  deriving DecidableEq, Repr

namespace EntryId

def new (firstSequence positionSlot : Nat) : Result EntryId :=
  if firstSequence = 0 then integrity else .ok ⟨firstSequence, positionSlot⟩

/-- The derived order: first the sequence, then the slot. -/
def before (a b : EntryId) : Bool :=
  decide (a.sequence < b.sequence) || (a.sequence == b.sequence && decide (a.slot < b.slot))

def spelling (id : EntryId) : Text :=
  "e:".toList ++ Spelling.decimal id.sequence ++ ':' :: Spelling.decimal id.slot

end EntryId
end Wi
