import Wi.Provider

/-! The provider-neutral request contracts: session options, input items and their
admission rules. -/
namespace Wi
open Utf8

/-- Diagnostics of the gateway. The I/O kinds that no code reads are left out. -/
inductive GatewayError where
  | invalidRequest (message : String)
  | unknownProvider
  | duplicateProvider
  | unsupportedFeature (name : String)
  | busy
  | sessionClosed
  | homeUnavailable
  | authRead
  | authFileType
  | authFileTooLarge
  | authPermissions
  | invalidAuth (message : String)
  | authExpired
  | authAccountChanged
  | clock
  | clientConfiguration
  | timeout
  | transport
  | unauthorized
  | forbidden
  | rateLimited (retryAfterSeconds : Option Nat)
  | http (status : Nat)
  | unexpectedContentType
  | protocol (message : String)
  | providerFailed
  | unexpectedEnd
  | streamTooLarge
  | slowConsumer
  | cancelled
  | unsupportedOutput
  | notCompleted
  | unknownTool
  | invalidToolArguments
  | toolFailed
  | noToolCall
  | turnLimit
  | io
  | serialization
  deriving DecidableEq

def GatewayError.code : GatewayError → String
  | .unauthorized => "unauthorized"
  | .forbidden => "forbidden"
  | .rateLimited _ => "rate_limited"
  | .authExpired => "auth_expired"
  | .authAccountChanged => "auth_account_changed"
  | .timeout => "timeout"
  | .transport => "transport_error"
  | .unexpectedContentType => "unexpected_content_type"
  | .cancelled => "locally_cancelled"
  | .slowConsumer => "slow_consumer"
  | .unexpectedEnd => "unexpected_end"
  | .protocol _ => "protocol_error"
  | .providerFailed => "provider_error"
  | .invalidRequest _ => "invalid_request"
  | .streamTooLarge => "output_limit"
  | .unsupportedOutput => "unsupported_output"
  | .unsupportedFeature _ => "unsupported_feature"
  | .http _ => "http_error"
  | _ => "gateway_error"

abbrev GatewayResult := Except GatewayError

/-- Go on only when the check holds. -/
def demand (condition : Bool) (error : GatewayError) : GatewayResult Unit :=
  if condition then .ok () else .error error

/-- `option.ok_or(error)?` -/
def obtained (value : Option α) (error : GatewayError) : GatewayResult α :=
  match value with
  | some value => .ok value
  | none => .error error

@[simp] theorem demand_true (error : GatewayError) : demand true error = .ok () := rfl
@[simp] theorem demand_false (error : GatewayError) : demand false error = .error error := rfl

theorem demand_eq_ok {condition : Bool} {error : GatewayError} {result : Unit} :
    demand condition error = .ok result ↔ condition = true := by
  cases condition <;> simp

theorem obtained_eq_ok {value : Option α} {error : GatewayError} {result : α} :
    obtained value error = .ok result ↔ value = some result := by
  cases value <;> simp [obtained]

/-- The characters that `trim` removes: those with the Unicode property `White_Space`. -/
def whiteSpace (c : Char) : Bool :=
  let code := c.toNat
  (0x09 ≤ code && code ≤ 0x0d) || code == 0x20 || code == 0x85 || code == 0xa0 || code == 0x1680 ||
    (0x2000 ≤ code && code ≤ 0x200a) || code == 0x2028 || code == 0x2029 || code == 0x202f ||
    code == 0x205f || code == 0x3000

/-- `text.trim().is_empty()`. -/
def blank (text : Text) : Bool := text.all whiteSpace

def maxInputBytes : Nat := 1024 * 1024
def maxInputItems : Nat := 128
def maxHistoryBytes : Nat := 8 * 1024 * 1024
def maxTools : Nat := 32

inductive Transport where
  | webSocket | sse
  deriving DecidableEq, Repr

def Transport.spelling : Transport → String
  | .webSocket => "web_socket"
  | .sse => "sse"

inductive Feature where
  | nativeSteering | toolSearch | programmaticTools | asyncTools
  deriving DecidableEq, Repr

def Feature.name : Feature → String
  | .nativeSteering => "native_steering"
  | .toolSearch => "tool_search"
  | .programmaticTools => "programmatic_tools"
  | .asyncTools => "async_tools"

/-- The advanced features of a provider, each with whether it is implemented. -/
structure ProviderCapabilities where
  advanced : List (Feature × Bool)

def ProviderCapabilities.require (capabilities : ProviderCapabilities) (features : List Feature) :
    GatewayResult Unit :=
  features.forM fun feature =>
    demand (capabilities.advanced.any fun entry => entry.1 == feature && entry.2)
      (.unsupportedFeature feature.name)

structure ToolDefinition where
  name : Text
  description : Text
  parameters : Json
  strict : Bool
  deriving DecidableEq

namespace ToolDefinition

def nameCharacter (c : Char) : Bool := c.isAlphanum || c == '_' || c == '-'

def validate (tool : ToolDefinition) : GatewayResult Unit := do
  demand (!tool.name.isEmpty && decide (bytes tool.name ≤ 64) && tool.name.all nameCharacter)
    (.invalidRequest "invalid tool name")
  demand (decide (bytes tool.description ≤ 8192) &&
      (tool.parameters.get "type".toList).bind Json.asStr == some "object".toList)
    (.invalidRequest "tool requires an object parameter schema and bounded description")

/-- The tool as session options serialize it. -/
def json (tool : ToolDefinition) : Json := .object [
  ("name".toList, .string tool.name), ("description".toList, .string tool.description),
  ("parameters".toList, tool.parameters), ("strict".toList, .bool tool.strict)]

end ToolDefinition

structure SessionOptions where
  model : Text
  instructions : Text
  tools : List ToolDefinition
  transport : Transport
  requiredFeatures : List Feature
  deriving DecidableEq

namespace SessionOptions

def new (model : Text) : SessionOptions :=
  ⟨model, "You are a helpful assistant.".toList, [], .webSocket, []⟩

def json (options : SessionOptions) : Json := .object [
  ("model".toList, .string options.model), ("instructions".toList, .string options.instructions),
  ("tools".toList, .array (options.tools.map ToolDefinition.json)),
  ("transport".toList, .string options.transport.spelling.toList),
  ("required_features".toList,
    .array (options.requiredFeatures.map fun feature => .string feature.name.toList))]

/-- Each tool is valid and its name has not been used before. -/
def validateTool (names : List Text) (tool : ToolDefinition) : GatewayResult (List Text) := do
  tool.validate
  demand (!names.contains tool.name) (.invalidRequest "duplicate tool name")
  return tool.name :: names

def validate [JsonPrint] (options : SessionOptions) : GatewayResult Unit := do
  demand (!blank options.model && decide (bytes options.model ≤ 256) && !blank options.instructions)
    (.invalidRequest "model and instructions are required")
  demand (decide (options.tools.length ≤ maxTools)) (.invalidRequest "too many tools")
  discard (options.tools.foldlM validateTool [])
  demand (decide (options.json.size ≤ maxInputBytes))
    (.invalidRequest "session configuration exceeds 1 MiB")

end SessionOptions

inductive InputItem where
  | user (text : Text)
  | toolResult (callId output : Text)
  deriving DecidableEq

namespace InputItem

def json : InputItem → Json
  | .user text => .object [("kind".toList, .string "user".toList), ("text".toList, .string text)]
  | .toolResult callId output => .object [("kind".toList, .string "tool_result".toList),
      ("call_id".toList, .string callId), ("output".toList, .string output)]

def validate : InputItem → GatewayResult Unit
  | .user text => demand (!blank text) (.invalidRequest "empty user input")
  | .toolResult callId _ => demand (!callId.isEmpty && decide (bytes callId ≤ 512))
      (.invalidRequest "invalid tool call identifier")

end InputItem

def validateInput [JsonPrint] (input : List InputItem) : GatewayResult Unit := do
  demand (!input.isEmpty && decide (input.length ≤ maxInputItems))
    (.invalidRequest "input must contain 1..128 items")
  input.forM InputItem.validate
  demand (decide ((Json.array (input.map InputItem.json)).size ≤ maxInputBytes))
    (.invalidRequest "input exceeds 1 MiB")

end Wi
