import Wi.Codec
import Wi.Except

/-! Adapter consistency checks: what was streamed of a response is held against its terminal
output, and never becomes output itself. -/
namespace Wi.Codex
open Utf8 Codec

namespace Serialized

def itemKind : ItemKind → String
  | .message => "message"
  | .reasoning => "reasoning"
  | .functionCall => "function_call"
  | .customToolCall => "custom_tool_call"
  | .toolSearchCall => "tool_search_call"
  | .toolSearchOutput => "tool_search_output"
  | .program => "program"
  | .programOutput => "program_output"
  | .unknown => "unknown"

def callOrigin : CallOrigin → String
  | .direct => "direct"
  | .programmatic => "programmatic"
  | .unknown => "unknown"

def deltaKind : DeltaKind → String
  | .text => "text"
  | .refusal => "refusal"
  | .reasoningSummary => "reasoning_summary"
  | .reasoningText => "reasoning_text"
  | .functionArguments => "function_arguments"
  | .customToolInput => "custom_tool_input"

def optional (value : Option α) (write : α → Json) : Json := (value.map write).getD .null

def number (value : UInt64) : Json := .number (Spelling.decimal value.toNat)

/-- A record with its members in the order of their declaration. -/
def record (members : List (String × Json)) : Json := .object (members.map fun member => (member.1.toList, member.2))

def functionCall (call : FunctionCall) : Json := record [
  ("call_id", .string call.callId), ("name", .string call.name), ("arguments", .string call.arguments),
  ("origin", .string (callOrigin call.origin).toList), ("namespace", optional call.callNamespace .string),
  ("complete", .bool call.complete)]

def outputItem (item : OutputItem) : Json := record [
  ("id", optional item.id .string), ("kind", .string (itemKind item.kind).toList),
  ("native_type", .string item.nativeType), ("function_call", optional item.functionCall functionCall),
  ("native", item.native)]

/-- The events about output items as they are written; no other event is charged for its text. -/
def event : ProviderEvent → Option Json
  | .outputItemStarted response index item => some <| record [
      ("type", .string "output_item_started".toList), ("response_id", .string response),
      ("output_index", number index), ("item", outputItem item)]
  | .outputItemUpdated response id index content summary kind delta => some <| record [
      ("type", .string "output_item_updated".toList), ("response_id", .string response), ("item_id", .string id),
      ("output_index", number index), ("content_index", optional content number),
      ("summary_index", optional summary number), ("kind", .string (deltaKind kind).toList), ("delta", .string delta)]
  | .outputItemFinished response index item => some <| record [
      ("type", .string "output_item_finished".toList), ("response_id", .string response),
      ("output_index", number index), ("item", outputItem item)]
  | _ => none

end Serialized

/-- The text streamed for one content part of one output item. -/
structure StreamedPart where
  index : UInt64
  content : Nat
  kind : DeltaKind
  text : Text
  deriving DecidableEq

structure Lifecycle where
  bytes : Nat
  events : Nat
  identities : List (UInt64 × Text)
  kinds : List (UInt64 × ItemKind)
  parts : List StreamedPart
  finalized : List (UInt64 × Json)
  rendered : Text
  deriving DecidableEq

namespace Lifecycle

def maxBytes : Nat := 1024 * 1024
def maxEvents : Nat := 4096
def maxItems : Nat := 512

def invalid : GatewayError :=
  .protocol "streamed output is inconsistent with terminal output or exceeds tracking limits"

def empty : Lifecycle := ⟨0, 0, [], [], [], [], []⟩

/-- Every write of a text must fit into what is left, which is so when the whole text does. -/
def charge (state : Lifecycle) (size : Nat) : GatewayResult Lifecycle := do
  demand (decide (size ≤ maxBytes - state.bytes)) invalid
  return { state with bytes := state.bytes + size }

def identity (state : Lifecycle) (index : UInt64) (id : Text) : GatewayResult Lifecycle := do
  demand (!(id.isEmpty || decide (maxItems ≤ index.toNat))) invalid
  match state.identities.find? fun old => old.1 == index || old.2 == id with
  | some old =>
    demand (old.1 == index && old.2 == id) invalid
    return state
  | none => return { state with identities := state.identities ++ [(index, id)] }

def kind (state : Lifecycle) (index : UInt64) (kind : ItemKind) : GatewayResult Lifecycle := do
  demand (decide (index.toNat < maxItems)) invalid
  match state.kinds.find? fun old => old.1 == index with
  | some old =>
    demand (old.2 == kind) invalid
    return state
  | none => return { state with kinds := state.kinds ++ [(index, kind)] }

/-- The native type of the items whose identity is tracked. -/
def expectedType : ItemKind → Option Text
  | .message => some "message".toList
  | .functionCall => some "function_call".toList
  | _ => none

def finalize (state : Lifecycle) (index : UInt64) (native : Json) : GatewayResult Lifecycle := do
  demand (decide (state.finalized.length < maxItems)) invalid
  demand (!state.finalized.any fun old => old.1 == index && old.2 != native) invalid
  return { state with finalized := state.finalized ++ [(index, native)] }

def item (state : Lifecycle) (index : UInt64) (item : OutputItem) (finished : Bool) : GatewayResult Lifecycle := do
  let state ← state.kind index item.kind
  match expectedType item.kind with
  | none => return state
  | some expected =>
    demand (item.nativeType == expected && stringMember item.native "type" == some expected) invalid
    let state ← state.identity index (← obtained item.id invalid)
    demand (stringMember item.native "id" == item.id) invalid
    if finished then state.finalize index item.native else return state

/-- The first part at this place grows, or a new one is listed. -/
def pushText (parts : List StreamedPart) (index : UInt64) (content : Nat) (kind : DeltaKind) (delta : Text) :
    List StreamedPart :=
  match parts with
  | [] => [⟨index, content, kind, delta⟩]
  | part :: parts =>
    if part.index = index ∧ part.content = content then { part with text := part.text ++ delta } :: parts
    else part :: pushText parts index content kind delta

def update (state : Lifecycle) (index : UInt64) (id : Text) (contentIndex : Option UInt64) (kind : DeltaKind)
    (delta : Text) : GatewayResult Lifecycle := do
  if delta.isEmpty then return state
  let state ← state.identity index id
  let state ← state.kind index .message
  -- the rendered copy is separate from the copy of the part
  let state ← state.charge (Utf8.bytes delta)
  let content := (← obtained contentIndex invalid).toNat
  demand (decide (content < maxItems)) invalid
  let old := state.parts.find? fun part => part.index == index && part.content == content
  demand (old.all (·.kind == kind)) invalid
  return { state with
    parts := pushText state.parts index content kind delta
    rendered := state.rendered ++ delta }

def tracked (kind : DeltaKind) : Bool := kind == .text || kind == .refusal

def observe [JsonPrint] (state : Lifecycle) (event : ProviderEvent) : GatewayResult Lifecycle := do
  let state := { state with events := state.events + 1 }
  demand (decide (state.events ≤ maxEvents)) invalid
  let state ← state.charge (((Serialized.event event).map Json.size).getD 0)
  match event with
  | .outputItemStarted _ index item => state.item index item false
  | .outputItemFinished _ index item => state.item index item true
  | .outputItemUpdated _ id index content _ kind delta =>
    if tracked kind then state.update index id content kind delta else return state
  | _ => return state

/-- The type of a content part for a kind of text, and its string member. -/
def partField (kind : DeltaKind) : String × String :=
  if kind = .text then ("output_text", "text") else ("refusal", "refusal")

def partAgrees (state : Lifecycle) (response : ModelResponse) (streamed : StreamedPart) : Bool :=
  (response.output[streamed.index.toNat]?).any fun item =>
    let id := (state.identities.find? fun old => old.1 == streamed.index).map (·.2)
    item.kind == .message && item.nativeType == "message".toList &&
      stringMember item.native "type" == some "message".toList && item.id == id &&
      stringMember item.native "id" == id &&
      (((item.native.get "content".toList).bind Json.asArray).bind (·[streamed.content]?)).any fun part =>
        stringMember part "type" == some (partField streamed.kind).1.toList &&
          (stringMember part (partField streamed.kind).2).any (streamed.text.isPrefixOf ·)

/-- Exact equality of finished items is deliberately conservative; parts may arrive interleaved,
so each is checked by itself. -/
def validate (state : Lifecycle) (response : ModelResponse) : GatewayResult Unit :=
  if response.outcome ≠ .completed then .ok ()
  else do
    demand (state.finalized.all fun entry =>
      (response.output[entry.1.toNat]?).map (·.native) == some entry.2) invalid
    demand (state.parts.all (state.partAgrees response)) invalid

end Lifecycle
end Wi.Codex
