import Wi.Gateway

/-! Decoding of native output items and terminal responses of the Codex adapter. -/
namespace Wi
open Utf8

/-- `serde_json::from_str::<Value>`, with the printer of the same library. -/
class JsonText extends JsonPrint where
  parse : Text → Option Json

/-- A parser that knows the empty object only. -/
@[reducible] def Codex.emptyObjectText : JsonText where
  toJsonPrint := Json.written
  parse text := if text = "\x7b\x7d".toList then some (.object []) else none

namespace Codec

def maxItems : Nat := 512

def stringMember (value : Json) (field : String) : Option Text := (value.get field.toList).bind Json.asStr

def requiredStr (value : Json) (field : String) : GatewayResult Text :=
  obtained (stringMember value field) (.protocol "required string missing")

def requiredU64 (value : Json) (field : String) : GatewayResult UInt64 :=
  obtained ((value.get field.toList).bind Json.asU64) (.protocol "required integer missing")

def requiredResponseId (value : Json) : GatewayResult Text := do
  let id ← requiredStr value "id"
  demand (!id.isEmpty) (.protocol "empty response identity")
  return id

def itemKind (nativeType : Text) : ItemKind :=
  if nativeType = "message".toList then .message
  else if nativeType = "reasoning".toList then .reasoning
  else if nativeType = "function_call".toList then .functionCall
  else if nativeType = "custom_tool_call".toList then .customToolCall
  else if nativeType = "tool_search_call".toList then .toolSearchCall
  else if nativeType = "tool_search_output".toList then .toolSearchOutput
  else if nativeType = "program".toList then .program
  else if nativeType = "program_output".toList then .programOutput
  else .unknown

def callOrigin : Option Json → CallOrigin
  | none | some .null => .direct
  | some caller =>
    if stringMember caller "type" = some "direct".toList then .direct
    else if stringMember caller "type" = some "program".toList then .programmatic
    else .unknown

/-- An omitted status is compatible; a malformed one cannot authorize execution. -/
def callComplete : Option Json → Bool
  | none => true
  | some (.string status) => status = "completed".toList
  | some _ => false

def parseCall (native : Json) : GatewayResult FunctionCall := do
  let callId ← requiredStr native "call_id"
  let name ← requiredStr native "name"
  return {
    callId, name
    arguments := (stringMember native "arguments").getD []
    origin := callOrigin (native.get "caller".toList)
    callNamespace := stringMember native "namespace"
    complete := callComplete (native.get "status".toList) }

def parseFunctionCall (kind : ItemKind) (native : Json) : GatewayResult (Option FunctionCall) :=
  if kind = .functionCall then some <$> parseCall native else .ok none

def parseItem (native : Json) : GatewayResult OutputItem := do
  let nativeType ← requiredStr native "type"
  let kind := itemKind nativeType
  let functionCall ← parseFunctionCall kind native
  return ⟨stringMember native "id", kind, nativeType, functionCall, native⟩

def parseOutcome (native : Json) : GatewayResult ResponseOutcome := do
  let status ← requiredStr native "status"
  if status = "completed".toList then return .completed
  else if status = "incomplete".toList then
    return .incomplete ((native.get "incomplete_details".toList).bind (stringMember · "reason"))
  else if status = "failed".toList then return .failed
  else if status = "cancelled".toList then return .cancelled
  else .error (.protocol "non-terminal or unknown terminal status")

def parseOutput (native : Json) (outcome : ResponseOutcome) : GatewayResult (List OutputItem) :=
  match native.get "output".toList with
  | some (.array items) =>
    if items.length ≤ maxItems then items.mapM parseItem else .error .streamTooLarge
  | none | some .null =>
    if outcome = .failed ∨ outcome = .cancelled then .ok []
    else .error (.protocol "invalid response output")
  | some _ => .error (.protocol "invalid response output")

def partText (text : Text) (part : Json) : GatewayResult Text :=
  if stringMember part "type" = some "output_text".toList then (text ++ ·) <$> requiredStr part "text"
  else if stringMember part "type" = some "refusal".toList then (text ++ ·) <$> requiredStr part "refusal"
  else .ok text

def itemText (text : Text) (item : OutputItem) : GatewayResult Text :=
  match item.kind, (item.native.get "content".toList).bind Json.asArray with
  | .message, some parts => parts.foldlM partText text
  | _, _ => .ok text

def parseUsage (native : Json) : GatewayResult (Option Usage) :=
  match native.get "usage".toList with
  | none | some .null => .ok none
  | some usage => do
    let input ← requiredU64 usage "input_tokens"
    let output ← requiredU64 usage "output_tokens"
    let total ← requiredU64 usage "total_tokens"
    let detail := fun details name =>
      ((usage.get (String.toList details)).bind (·.get (String.toList name))).bind Json.asU64
    return some ⟨input, output, total, detail "input_tokens_details" "cached_tokens",
      detail "output_tokens_details" "reasoning_tokens"⟩

def parseResponse (native : Json) : GatewayResult ModelResponse := do
  let id ← requiredResponseId native
  let outcome ← parseOutcome native
  let output ← parseOutput native outcome
  let text ← output.foldlM itemText []
  let usage ← parseUsage native
  return {
    outputProvenance := .nativeTerminal
    id, outcome, output, text, usage, native
    model := stringMember native "model" }

/-- `effective["output"] = ..`: the native response with other output items. -/
def withOutput (native : Json) (items : List Json) : Json := native.set "output".toList (.array items)

/-- The responses that the decoder publishes: a parsed terminal, whose empty output may have
been replaced by the finalized items of the stream. -/
inductive Terminal : ModelResponse → Prop where
  | native (parsed : parseResponse native = .ok response) : Terminal response
  | recovered (parsed : parseResponse native = .ok response)
      (effective : parseResponse (withOutput native items) = .ok other) :
      Terminal { response with output := other.output, text := other.text
                               outputProvenance := .validatedOutputItemDone }

def limit : Nat := 1024 * 1024

def bounded (value : Json) : Bool := value.asStr.any fun text => !text.isEmpty && decide (bytes text ≤ 512)

/-- Every part has one of the given types with its string member, and well-formed lists. -/
def partsValid (value : Json) (kinds : List (String × String)) : Bool :=
  value.asArray.any fun parts => parts.all fun part =>
    (stringMember part "type").any (fun kind =>
      (kinds.find? fun entry => entry.1.toList == kind).any fun entry => (stringMember part entry.2).isSome) &&
    (part.get "annotations".toList).all (·.asArray.isSome) && (part.get "logprobs".toList).all (·.asArray.isSome)

variable [JsonText]

def objectText (text : Text) : Bool := (JsonText.parse text).any Json.isObject

/-- Native terminal items can omit an identity; recovered items must have one. -/
def ordinaryItem (item : Json) : Bool :=
  (item.get "status".toList).all (fun status => status.asStr == some "completed".toList) &&
  match stringMember item "type" with
  | none => false
  | some type =>
    if type = "message".toList then
      (item.get "role".toList).all (fun role => role.asStr == some "assistant".toList) &&
        partsValid (item.index "content".toList) [("output_text", "text"), ("refusal", "refusal")]
    else if type = "reasoning".toList then
      !((item.get "summary".toList).isNone && (item.get "content".toList).isNone &&
          (item.get "encrypted_content".toList).all Json.isNull) &&
        (item.get "summary".toList).all (partsValid · [("summary_text", "text")]) &&
        (item.get "content".toList).all (partsValid · [("reasoning_text", "text")]) &&
        (item.get "encrypted_content".toList).all (fun value => value.isNull || value.asStr.isSome)
    else if type = "function_call".toList then
      bounded (item.index "call_id".toList) && bounded (item.index "name".toList) &&
        (stringMember item "arguments").any (fun args => decide (bytes args ≤ limit) && objectText args) &&
        (item.get "namespace".toList).all Json.isNull &&
        (item.get "caller".toList).all fun caller =>
          caller.isNull || stringMember caller "type" == some "direct".toList
    else false

def complete (item : Json) : Bool := bounded (item.index "id".toList) && ordinaryItem item

end Codec
end Wi
