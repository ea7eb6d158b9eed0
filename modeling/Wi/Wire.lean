import Wi.Values

/-! The closed display JSON and its transfer bounds, shared by storage sizing and HTTP output. -/
namespace Wi.Wire
open Spelling
variable [JsonHash]

def entryBytes : Nat := 32768
def fieldLimit : Nat := 64

def named (key : String) (value : Json) : Text × Json := (key.toList, value)
def literal (value : String) : Json := .string value.toList
def decimals (value : Nat) : Json := .string (decimal value)

def optional (encode : α → Json) : Option α → Json
  | none => .null
  | some value => encode value

def entryKind : EntryKind → String
  | .human => "human"
  | .assistant => "assistant"
  | .tool => "tool"
  | .reuse => "reuse"
  | .notice => "notice"

def recordedState : State → String
  | .accepted => "accepted"
  | .inProgress => "in_progress"
  | .completed => "completed"
  | .incomplete => "incomplete"
  | .failed => "failed"
  | .cancelled => "cancelled"
  | .interrupted => "interrupted"
  | .unknown => "unknown"

def fieldKind : FieldKind → String
  | .text => "text"
  | .refusal => "refusal"
  | .reasoningSummary => "reasoning_summary"
  | .reasoningText => "reasoning_text"
  | .functionName => "function_name"
  | .functionArguments => "function_arguments"
  | .toolName => "tool_name"
  | .toolResult => "tool_result"
  | .authoritativeText => "authoritative_text"
  | .unsupported => "unsupported"
  | .notice => "notice"

def field (f : FieldFragment) : Json := .object [
  named "field_id" (.string f.fieldId.spelling),
  named "order_key" (.string f.orderKey.encode),
  named "kind" (literal (fieldKind f.kind)),
  named "generation" (decimals f.generation),
  named "total_bytes" (decimals f.totalBytes),
  named "from_byte" (decimals f.fromByte),
  named "to_byte" (decimals f.toByte),
  named "text" (.string f.text),
  named "has_earlier" (.bool f.hasEarlier),
  named "has_later" (.bool f.hasLater)]

def position (id : EntryId) : Json :=
  .object [named "sequence" (decimals id.sequence), named "slot" (decimals id.slot)]

def reference (target : EntryReference) : Json := .object [
  named "run_id" (.string target.runId.text),
  named "entry_id" (.string target.entryId.spelling)]

def contentToken (cursor : ContentCursor) : Json := .string cursor.spelling

def entry (e : EntryView) : Json := .object [
  named "run_id" (.string e.runId.text),
  named "entry_id" (.string e.entryId.spelling),
  named "position" (position e.entryId),
  named "revision" (decimals e.revision),
  named "content_epoch" (decimals e.contentEpoch),
  named "kind" (literal (entryKind e.kind)),
  named "recorded_state" (literal (recordedState e.recordedState)),
  named "provisional" (.bool e.provisional),
  named "reference" (optional reference e.reference),
  named "result_recorded" (optional .bool e.resultRecorded),
  named "finish_recorded" (optional .bool e.finishRecorded),
  named "is_error" (optional .bool e.isError),
  named "fields" (.array (e.fields.map field)),
  named "earlier_content" (optional contentToken e.earlierContent),
  named "content_complete" (.bool e.contentComplete)]

/-- `count`: the serialized length, unless it exceeds the limit. -/
def count (value : Json) (limit : Nat) : Option Nat := if value.size ≤ limit then some value.size else none

def entrySize (e : EntryView) : Option Nat :=
  if fieldLimit < e.fields.length then none else count (entry e) entryBytes

def entryFits (e : EntryView) : Bool := (entrySize e).isSome

end Wi.Wire
