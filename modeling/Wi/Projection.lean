import Wi.OrderKey

/-! The display interpretation of provider output: which named strings of an output item
or a finished response become fields, and where each field is placed. -/
namespace Wi

inductive PartSource where
  | summary (index : Option Nat)
  | content (index : Option Nat)
  | functionName
  | functionArguments
  | fallback (index : Option Nat)
  | unsupported
  deriving DecidableEq, Repr

structure DisplayPart where
  kind : FieldKind
  text : Text
  source : PartSource
  deriving DecidableEq

def unsupportedContent : Text := "Unsupported content".toList

namespace DisplayPart

def unsupported (source : PartSource) : DisplayPart := ⟨.unsupported, unsupportedContent, source⟩

def answer (part : DisplayPart) : Bool := part.kind = .text || part.kind = .refusal

end DisplayPart

/-- The kind and the member name of the one string a content part displays. -/
def scalar (reasoning : Bool) (type : Option Text) : Option (FieldKind × Text) :=
  if reasoning then
    if type = some "summary_text".toList then some (.reasoningSummary, "text".toList)
    else if type = some "reasoning_text".toList then some (.reasoningText, "text".toList)
    else none
  else if type = some "output_text".toList then some (.text, "text".toList)
  else if type = some "refusal".toList then some (.refusal, "refusal".toList)
  else none

def displayPart (reasoning : Bool) (source : PartSource) (part : Json) : DisplayPart :=
  let display := do
    let (kind, field) ← scalar reasoning ((part.get "type".toList).bind Json.asStr)
    let text ← (part.get field).bind Json.asStr
    some (DisplayPart.mk kind text source)
  display.getD (.unsupported source)

/-- The source's `parts`; it appends to the vector it is given. -/
def parts (value : Option Json) (reasoning summary : Bool) : List DisplayPart :=
  let source := fun index => if summary then PartSource.summary index else .content index
  match value.bind Json.asArray with
  | none => [.unsupported (source none)]
  | some values => values.zipIdx.map fun (part, index) => displayPart reasoning (source (some index)) part

def projectItem (item : OutputItem) : List DisplayPart :=
  match item.kind with
  | .message => parts (item.native.get "content".toList) false false
  | .reasoning =>
    let summary := item.native.get "summary".toList
    let content := item.native.get "content".toList
    (if summary.isNone && content.isNone then [.unsupported .unsupported] else []) ++
      (if summary.isSome then parts summary true true else []) ++
      (if content.isSome then parts content true false else [])
  | .functionCall =>
    match item.functionCall with
    | some call =>
      [⟨.functionName, call.name, .functionName⟩, ⟨.functionArguments, call.arguments, .functionArguments⟩]
    | none => [.unsupported .unsupported]
  | _ => [.unsupported .unsupported]

structure ResponseField where
  outputIndex : Nat
  part : DisplayPart
  deriving DecidableEq

def Text.contains (text part : Text) : Bool := decide (part <:+: text)

def responseFields (output : List OutputItem) : List ResponseField :=
  output.zipIdx.flatMap fun (item, index) => (projectItem item).map fun part => ⟨index, part⟩

/-- Whether the answers among the fields already show the provider's effective text. -/
def represented (text : Text) (fields : List ResponseField) : Bool :=
  let answers := (fields.filter (·.part.answer)).map (·.part.text)
  text.isEmpty || answers.any (Text.contains · text) || Text.contains answers.flatten text ||
    Text.contains (List.intercalate "\n".toList answers) text

/-- The effective text placed before the first answer it replaces. -/
def fallbackField (response : ModelResponse) (fields : List ResponseField) : ResponseField :=
  match fields.find? (·.part.answer) with
  | some field => ⟨field.outputIndex, .authoritativeText, response.text,
      .fallback (match field.part.source with | .content index => index | _ => none)⟩
  | none => ⟨response.output.length, .authoritativeText, response.text, .fallback none⟩

def covered (text : Text) (field : ResponseField) : Bool :=
  field.part.answer && !field.part.text.isEmpty && Text.contains text field.part.text

def projectResponse (response : ModelResponse) : List ResponseField :=
  let fields := responseFields response.output
  if represented response.text fields then fields
  else
    let first := (fields.findIdx? (·.part.answer)).getD fields.length
    let keep := List.filter fun field => !covered response.text field
    keep (fields.take first) ++ fallbackField response fields :: keep (fields.drop first)

theorem displayPart_shape (reasoning : Bool) (source : PartSource) (part : Json) :
    displayPart reasoning source part.shape = displayPart reasoning source part := by
  have member (key : Text) : (part.shape.get key).bind Json.asStr = (part.get key).bind Json.asStr := by
    rw [Json.get_shape]
    cases part.get key <;> simp [Json.asStr_shape]
  simp only [displayPart, member]

theorem parts_shape (value : Option Json) (reasoning summary : Bool) :
    parts (value.map Json.shape) reasoning summary = parts value reasoning summary := by
  have array : (value.map Json.shape).bind Json.asArray = (value.bind Json.asArray).map (List.map Json.shape) := by
    cases value <;> simp [Json.asArray_shape]
  rw [parts, parts, array]
  cases value.bind Json.asArray with
  | none => rfl
  | some values => simp [List.zipIdx_map, displayPart_shape, Function.comp_def]

theorem projectItem_shape (item : OutputItem) : projectItem item.shape = projectItem item := by
  simp only [projectItem, OutputItem.shape, Json.get_shape, parts_shape, Option.isNone_map, Option.isSome_map]

theorem projectResponse_shape (response : ModelResponse) : projectResponse response.shape = projectResponse response := by
  have fields : responseFields response.shape.output = responseFields response.output := by
    simp [responseFields, ModelResponse.shape, List.zipIdx_map, List.flatMap_map, projectItem_shape, Prod.map]
  have fallback (fields : List ResponseField) : fallbackField response.shape fields = fallbackField response fields := by
    simp only [fallbackField, ModelResponse.shape, List.length_map]
  rw [projectResponse, projectResponse, fields]
  simp only [fallback]
  rfl

/-- `u64::try_from(index)`. -/
def index64 (index : Nat) : Result UInt64 :=
  if index < 2 ^ 64 then .ok (UInt64.ofNat index) else integrity

def optionalIndex : Option Nat → Result (Option UInt64)
  | none => .ok none
  | some index => do return some (← index64 index)

def partOrder (output : UInt64) : PartSource → Result OrderKey
  | .summary value => do return ⟨some output, .summary, ← optionalIndex value, none⟩
  | .content value => do return ⟨some output, .content, none, ← optionalIndex value⟩
  | .functionName => .ok ⟨some output, .functionName, none, none⟩
  | .functionArguments => .ok ⟨some output, .functionArguments, none, none⟩
  | .fallback value => do return ⟨some output, .fallback, none, ← optionalIndex value⟩
  | .unsupported => .ok ⟨some output, .unsupported, none, none⟩

def deltaField (output : UInt64) (summary content : Option UInt64) (kind : DeltaKind) :
    OrderKey × FieldKind :=
  let (rank, kind) := match kind with
    | .text => (FieldRank.content, FieldKind.text)
    | .refusal => (.content, .refusal)
    | .reasoningSummary => (.summary, .reasoningSummary)
    | .reasoningText => (.content, .reasoningText)
    | .functionArguments => (.functionArguments, .functionArguments)
    | .customToolInput => (.unsupported, .unsupported)
  (⟨some output, rank, summary, content⟩, kind)

inductive State where
  | accepted | inProgress | completed | incomplete | failed | cancelled | interrupted | unknown
  deriving DecidableEq, Repr

namespace State

def response : ResponseOutcome → State
  | .completed => .completed
  | .incomplete _ => .incomplete
  | .failed => .failed
  | .cancelled => .cancelled

def status (status : Text) : State :=
  if status = "queued".toList || status = "in_progress".toList then .inProgress
  else if status = "completed".toList then .completed
  else if status = "incomplete".toList then .incomplete
  else if status = "failed".toList then .failed
  else if status = "cancelled".toList then .cancelled
  else .unknown

def unfinished : RunOutcome → State
  | .completed => .unknown
  | .failed _ => .failed
  | .cancelledLocally => .cancelled

end State

def safeCodes : List Text := [
  "unauthorized", "forbidden", "rate_limited", "auth_expired", "auth_account_changed", "timeout",
  "transport_error", "unexpected_content_type", "locally_cancelled", "slow_consumer",
  "unexpected_end", "protocol_error", "provider_error", "invalid_request", "output_limit",
  "unsupported_output", "unsupported_feature", "http_error", "gateway_error", "event_sink",
  "counter_overflow", "tool_execution", "provider_open", "provider_request_failed",
  "provider_correlation", "history_identity", "history_restore"].map String.toList

/-- A fixed literal in place of the provider's diagnostic text. -/
def safeCode (code : Text) : Text := if safeCodes.contains code then code else "upstream_error".toList

theorem safeCode_idempotent (code : Text) : safeCode (safeCode code) = safeCode code := by
  unfold safeCode
  split
  · simp_all
  · decide

end Wi
