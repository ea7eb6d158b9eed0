import Wi.Codec
import Wi.Projection

/-! Recovery of the finalized output items of a stream. Partial events never become
executable output: they only have to agree with the items that were finished. -/
namespace Wi.Codec
open Utf8

/-- `value["type"] == name`. -/
def isKind (value : Json) (name : String) : Bool := stringMember value "type" == some name.toList

def has (value : Json) (field : String) : Bool := (value.get field.toList).isSome

/-- `value[field]`. -/
def member (value : Json) (field : String) : Json := value.index field.toList

def startsWith (text : Text) (start : String) : Bool := start.toList.isPrefixOf text

def endsWith (text : Text) (ending : String) : Bool := ending.toList.isSuffixOf text

/-- Whether an event is about an output item. -/
def associated (value : Json) : Bool :=
  let kind := (stringMember value "type").getD []
  ["item", "item_id", "output_index", "content_index", "summary_index", "call_id"].any (has value) ||
    ["response.output_item.", "response.output_text.", "response.refusal.", "response.content_part.",
      "response.function_call_arguments.", "response.reasoning_", "response.custom_tool_call_input."].any
      (startsWith kind)

def contentKinds : List String := [
  "response.output_text.delta", "response.output_text.done", "response.refusal.delta",
  "response.refusal.done", "response.content_part.added", "response.content_part.done",
  "response.reasoning_text.delta", "response.reasoning_text.done",
  "response.reasoning_text_part.added", "response.reasoning_text_part.done"]

def summaryKinds : List String := [
  "response.reasoning_summary_text.delta", "response.reasoning_summary_text.done",
  "response.reasoning_summary_part.added", "response.reasoning_summary_part.done"]

def argumentKinds : List String := [
  "response.function_call_arguments.delta", "response.function_call_arguments.done"]

def itemKinds : List String := ["response.output_item.added", "response.output_item.done"]

def isAnyKind (value : Json) (names : List String) : Bool := names.any (isKind value)

def knownKind (value : Json) : Bool :=
  isAnyKind value (itemKinds ++ contentKinds ++ summaryKinds ++ argumentKinds)

structure FinalizedItems where
  events : List Json
  count : Nat
  bytes : Nat
  invalid : Bool
  evidence : Bool

section
variable [JsonText]

namespace FinalizedItems

def empty : FinalizedItems := ⟨[], 0, 0, false, false⟩

/-- An earlier event of the same item that this one may not follow. -/
def duplicate (items : FinalizedItems) (value : Json) : Bool :=
  items.events.any fun old => member old "output_index" == member value "output_index" &&
    (isKind old "response.output_item.done" ||
      (isKind old "response.output_item.added" && isKind value "response.output_item.added"))

def acceptable (items : FinalizedItems) (value : Json) : Bool :=
  knownKind value && (member value "output_index").asU64.any (fun index => decide (index.toNat < 512)) &&
    !items.duplicate value &&
    (!isKind value "response.output_item.done" || complete (member value "item"))

/-- An associated event is kept within the byte limit, and only if it is acceptable. -/
def record (items : FinalizedItems) (value : Json) : FinalizedItems :=
  if limit - items.bytes < value.size then { items with invalid := true }
  else
    let items := { items with bytes := items.bytes + value.size }
    if items.acceptable value then { items with events := items.events ++ [value] }
    else { items with invalid := true }

/-- One more event of the stream, which may have too many. -/
def counted (items : FinalizedItems) (value : Json) : FinalizedItems :=
  { items with
    count := items.count + 1
    evidence := items.evidence || associated value
    invalid := items.invalid || decide (4096 < items.count + 1) }

/-- An invalid stream keeps no event. -/
def cleared (items : FinalizedItems) : FinalizedItems := if items.invalid then { items with events := [] } else items

def observe (items : FinalizedItems) (value : Json) : FinalizedItems :=
  let items := items.counted value
  (if !items.invalid && associated value then items.record value else items).cleared

end FinalizedItems

/-! ### Agreement of the kept events with the finished items -/

/-- The finished items by output index, with the item and call ids seen. -/
structure Collected where
  done : List (Nat × Json)
  ids : List Text
  calls : List Text

/-- The insertion of an ordered map; the caller has checked that the key is new. -/
def insertDone (done : List (Nat × Json)) (index : Nat) (item : Json) : List (Nat × Json) :=
  done.takeWhile (·.1 < index) ++ (index, item) :: done.dropWhile (·.1 < index)

def foreignResponse (responseId : Text) (value : Json) : Bool :=
  (value.get "response_id".toList).any (·.asStr != some responseId) ||
    ((value.get "response".toList).bind (·.get "id".toList)).any (·.asStr != some responseId)

def collectCall (calls : List Text) (item : Json) : Option (List Text) :=
  if isKind item "function_call" then do
    let call ← stringMember item "call_id"
    guard (!calls.contains call)
    return call :: calls
  else some calls

def collectDone (state : Collected) (value : Json) : Option Collected := do
  let index ← (member value "output_index").asU64
  guard (decide (index.toNat < 512))
  let item ← value.get "item".toList
  guard (complete item)
  let id ← stringMember item "id"
  guard (!state.ids.contains id && !(state.done.map (·.1)).contains index.toNat)
  let calls ← collectCall state.calls item
  return ⟨insertDone state.done index.toNat item, id :: state.ids, calls⟩

def collect (responseId : Text) (state : Collected) (value : Json) : Option Collected :=
  if foreignResponse responseId value then none
  else if isKind value "response.output_item.done" then collectDone state value
  else some state

/-- A field of an earlier event may grow, but call authority may not change. -/
def compatible (value item : Json) : Bool :=
  ["call_id", "name", "caller", "namespace", "arguments"].all (fun field =>
    (value.get field.toList).all fun present =>
      isKind item "function_call" && (field == "arguments" || some present == item.get field.toList)) &&
  !((value.get "role".toList).any (fun role =>
      !isKind item "message" || role.asStr != some "assistant".toList ||
        (item.get "role".toList).any (role != ·)) ||
    (has value "content" && isKind item "function_call") ||
    (has value "summary" && !isKind item "reasoning"))

/-- The string member of a part that an item of this type shows. -/
def provisionalField (item : Json) (array : String) (part : Json) : Option String :=
  if isKind item "message" && array == "content" && isKind part "output_text" then some "text"
  else if isKind item "reasoning" && array == "content" && isKind part "reasoning_text" then some "text"
  else if isKind item "reasoning" && array == "summary" && isKind part "summary_text" then some "text"
  else if isKind item "message" && array == "content" && isKind part "refusal" then some "refusal"
  else none

def provisionalPart (item : Json) (array : String) (part target : Json) : Bool :=
  (provisionalField item array part).any fun field =>
    member part "type" == member target "type" &&
      (stringMember target field).any fun final => (stringMember part field).any (·.isPrefixOf final)

def provisionalArray (value item : Json) (array : String) : Bool :=
  (value.get array.toList).all fun provided => provided.asArray.any fun provided =>
    let finalized := match item.get array.toList with
      | some parts => parts.asArray
      | none => some []
    finalized.any fun finalized => decide (provided.length ≤ finalized.length) &&
      (provided.zip finalized).all fun (part, target) => provisionalPart item array part target

/-- Supplied text may grow, but must not contradict the finalized item. -/
def provisionalContent (value item : Json) : Bool :=
  (value.get "arguments".toList).all (fun arguments =>
    (stringMember item "arguments").any fun final => arguments.asStr.any (·.isPrefixOf final)) &&
  ["content", "summary"].all (provisionalArray value item)

inductive Family where
  | arguments | content | summary
  deriving DecidableEq

inductive Mark where
  | field | part | added
  deriving DecidableEq

abbrev PartKey := Nat × Family × Nat

structure Agreement where
  added : List Nat
  finished : List Nat
  finals : List (PartKey × Mark)
  fragments : List (PartKey × Text)

/-- The item type and the string member of a content part of this type. -/
def contentTarget (type : Text) : Option (String × String) :=
  if type = "output_text".toList then some ("message", "text")
  else if type = "refusal".toList then some ("message", "refusal")
  else if type = "reasoning_text".toList then some ("reasoning", "text")
  else none

def matchesFamily (kind type : Text) : Bool :=
  if startsWith kind "response.content_part." then true
  else if startsWith kind "response.reasoning_text_part." then type = "reasoning_text".toList
  else ("response.".toList ++ type ++ ".".toList).isPrefixOf kind

/-- The final part that an event is about, and its string member. -/
def finalPart (value item : Json) (kind : Text) : Option (Family × String × Nat × Json) :=
  if isAnyKind value argumentKinds then do
    guard (isKind item "function_call")
    return (.arguments, "arguments", 0, item)
  else if isAnyKind value contentKinds then do
    let index ← (member value "content_index").asU64
    let target ← (← (member item "content").asArray)[index.toNat]?
    let type ← stringMember target "type"
    let (expected, field) ← contentTarget type
    guard (isKind item expected && matchesFamily kind type)
    return (.content, field, index.toNat, target)
  else if isAnyKind value summaryKinds then do
    guard (isKind item "reasoning")
    let index ← (member value "summary_index").asU64
    let target ← (← (member item "summary").asArray)[index.toNat]?
    return (.summary, "text", index.toNat, target)
  else none

def agreeDelta (state : Agreement) (value : Json) (key : PartKey) (final : Text) : Option Agreement := do
  guard (!state.finals.contains (key, .field) && !state.finals.contains (key, .part))
  let old := ((state.fragments.find? fun entry => entry.1 == key).map (·.2)).getD []
  let text := old ++ (← stringMember value "delta")
  guard (text.isPrefixOf final)
  return { state with fragments := (key, text) :: state.fragments.filter fun entry => entry.1 != key }

def agreePart (state : Agreement) (value : Json) (kind : Text) (key : PartKey) (field : String) (final : Text)
    (target : Json) : Option Agreement := do
  let part := member value "part"
  guard (member part "type" == member target "type")
  let text ← stringMember part field
  if endsWith kind ".done" then
    guard (!state.finals.contains (key, .part) && part == target)
    return { state with finals := (key, .part) :: state.finals }
  else
    guard (!state.finals.contains (key, .added) && !state.finals.contains (key, .part) && text.isPrefixOf final)
    return { state with finals := (key, .added) :: state.finals }

def agreeField (state : Agreement) (value : Json) (key : PartKey) (field : String) (final : Text) :
    Option Agreement := do
  guard (!state.finals.contains (key, .field))
  guard ((← stringMember value field) == final)
  return { state with finals := (key, .field) :: state.finals }

/-- An event about a part of a finished item. -/
def agreeContent (state : Agreement) (value item : Json) (kind : Text) (index : Nat) : Option Agreement := do
  guard (member value "item_id" == member item "id")
  let (family, field, part, target) ← finalPart value item kind
  guard (!(family != .content && has value "content_index") && !(family != .summary && has value "summary_index"))
  let key : PartKey := (index, family, part)
  let final ← stringMember target field
  if endsWith kind ".delta" then agreeDelta state value key final
  else if Text.contains kind "part.".toList then agreePart state value kind key field final target
  else agreeField state value key field final

/-- The associations of an event, checked before its content. -/
def agreeItem (value item : Json) : Bool :=
  (value.get "item_id".toList).all (· == member item "id") && compatible value item &&
    if isAnyKind value itemKinds then
      !(["content_index", "summary_index", "part", "delta", "text", "refusal", "arguments"].any (has value)) &&
        (value.get "item".toList).any fun nested => compatible nested item &&
          ["id", "type"].all fun field => nested.get field.toList == item.get field.toList
    else !has value "item"

def agree (done : List (Nat × Json)) (state : Agreement) (value : Json) : Option Agreement := do
  let index := (← (member value "output_index").asU64).toNat
  let item ← (done.find? fun entry => entry.1 == index).map (·.2)
  let kind ← stringMember value "type"
  guard (agreeItem value item)
  if isKind value "response.output_item.done" then return { state with finished := index :: state.finished }
  else
    guard (!state.finished.contains index)
    if isKind value "response.output_item.added" then
      guard (provisionalContent (member value "item") item && !state.added.contains index)
      return { state with added := index :: state.added }
    else agreeContent state value item kind index

/-- The finished items in output order, if every kept event agrees with them. -/
def validate (events : List Json) (responseId : Text) : Option (List Json) := do
  let collected ← events.foldlM (collect responseId) ⟨[], [], []⟩
  guard (!collected.done.isEmpty && collected.done.map (·.1) == List.range collected.done.length)
  discard (events.foldlM (agree collected.done) ⟨[], [], [], []⟩)
  return collected.done.map (·.2)

namespace FinalizedItems

/-- The items to use in place of an empty terminal output: none without any evidence. -/
def recovered (items : FinalizedItems) (responseId : Text) : Option (List Json) :=
  if items.invalid then none
  else if !items.evidence then some []
  else validate items.events responseId

def recover (items : FinalizedItems) (responseId : Text) : FinalizedItems × GatewayResult (List Json) :=
  let result := items.recovered responseId
  ({ items with events := [], invalid := items.invalid || result.isNone },
    obtained result (.protocol "invalid finalized output recovery"))

end FinalizedItems
end
end Wi.Codec
