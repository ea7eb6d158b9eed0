import Wi.Codec
import Wi.Decoder
import Wi.Reading

/-! Server-sent events of the Codex adapter: the incremental decoder, the loop that hands its
frames to the session, and the admission of a response without a media type. -/
namespace Wi.Codex

/-- `std::str::from_utf8` -/
def fromUtf8 (bytes : List UInt8) : Option Text := (ByteArray.utf8Decode? ⟨bytes.toArray⟩).map Array.toList

def maxFrameBytes : Nat := 8 * 1024 * 1024

structure SseDecoder where
  line : List UInt8
  data : Text
  afterCr : Bool
  firstLineSeen : Bool
  frameBytes : Nat
  strictProlog : Bool
  eventLabel : Text
  dispatchedLabel : Text
  deriving DecidableEq

/-- `text.strip_prefix(' ').unwrap_or(text)` -/
def stripSpace : Text → Text
  | ' ' :: text => text
  | text => text

def stripMark : Text → Text
  | '\ufeff' :: text => text
  | text => text

def startsWith (text : Text) (start : String) : Bool := start.toList.isPrefixOf text

/-- `char::is_control` -/
def control (c : Char) : Bool := c.toNat < 0x20 || (0x7f ≤ c.toNat && c.toNat < 0xa0)

/-- `text.split_once(':').unwrap_or((text, ""))` -/
def splitColon (text : Text) : Text × Text := (text.takeWhile (· != ':'), (text.dropWhile (· != ':')).drop 1)

namespace SseDecoder

def default : SseDecoder := ⟨[], [], false, false, 0, false, [], []⟩

def strict : SseDecoder := { default with strictProlog := true }

def dispatch (decoder : SseDecoder) : SseDecoder × List Text :=
  let frames := if decoder.data.isEmpty then [] else [decoder.data.dropLast]
  if decoder.strictProlog then
    ({ decoder with data := [], dispatchedLabel := decoder.eventLabel, eventLabel := [], frameBytes := 0 }, frames)
  else ({ decoder with data := [], frameBytes := 0 }, frames)

/-- The additional rules for a response whose media type is missing. -/
def checkProlog (decoder : SseDecoder) (text : Text) : GatewayResult SseDecoder :=
  if !decoder.strictProlog then .ok decoder
  else if text.any fun c => control c && c != '\t' then .error .unexpectedContentType
  else if text.isEmpty || startsWith text ":" then .ok decoder
  else
    let field := (splitColon text).1
    let value := stripSpace (splitColon text).2
    if field = "data".toList ∨ field = "id".toList then .ok decoder
    else if field = "event".toList then .ok { decoder with eventLabel := value }
    else if field = "retry".toList ∧ !value.isEmpty ∧ value.all Char.isDigit then .ok decoder
    else .error .unexpectedContentType

/-- What a line of text does to a decoder. -/
def acceptLine (decoder : SseDecoder) (text : Text) : SseDecoder × List Text :=
  if text.isEmpty then decoder.dispatch
  else if startsWith text "data:" then
    ({ decoder with data := decoder.data ++ stripSpace (text.drop 5) ++ ['\n'] }, [])
  else if text = "data".toList then ({ decoder with data := decoder.data ++ ['\n'] }, [])
  else (decoder, [])

def finishLine (decoder : SseDecoder) : GatewayResult (SseDecoder × List Text) := do
  let text ← obtained (fromUtf8 decoder.line) (.protocol "SSE line is not UTF-8")
  let text := if decoder.firstLineSeen then text else stripMark text
  let decoder ← { decoder with line := [], firstLineSeen := true }.checkProlog text
  return decoder.acceptLine text

/-- One turn of the loop of `feed`. -/
def feedByte (decoder : SseDecoder) (byte : UInt8) : GatewayResult (SseDecoder × List Text) :=
  if decoder.afterCr ∧ byte = 10 then .ok ({ decoder with afterCr := false }, [])
  else
    let decoder := { decoder with afterCr := false, frameBytes := decoder.frameBytes + 1 }
    if maxFrameBytes < decoder.frameBytes then .error .streamTooLarge
    else if byte = 13 then do
      let (decoder, frames) ← decoder.finishLine
      return ({ decoder with afterCr := true }, frames)
    else if byte = 10 then decoder.finishLine
    else .ok ({ decoder with line := decoder.line ++ [byte] }, [])

/-- The frames of one network chunk. -/
def feed (decoder : SseDecoder) (bytes : List UInt8) : GatewayResult (SseDecoder × List Text) :=
  bytes.foldlM (fun state byte => do
    let (decoder, frames) ← state.1.feedByte byte
    return (decoder, state.2 ++ frames)) (decoder, [])

def finish (decoder : SseDecoder) : GatewayResult (SseDecoder × List Text) := do
  let (decoder, frames) ← if decoder.line.isEmpty then pure (decoder, []) else decoder.finishLine
  return (decoder.dispatch.1, frames ++ decoder.dispatch.2)

end SseDecoder

/-- The body of a response: its chunks, then its end or the error that cut it off. -/
structure ByteStream where
  chunks : List (List UInt8)
  ending : Option GatewayError
  deriving DecidableEq

/-! ## Receiving -/

def maxResponseBytes : Nat := 32 * 1024 * 1024

def trim (text : Text) : Text := ((text.dropWhile whiteSpace).reverse.dropWhile whiteSpace).reverse

/-- The frames that `receive` passes over. -/
def skipped (frame : Text) : Bool := (trim frame).isEmpty || trim frame == "[DONE]".toList

def notJson : GatewayError := .protocol "SSE data is not valid JSON"

/-- The SSE side of a wire whose request has installed its stream. -/
structure SseWire where
  stream : ByteStream
  decoder : SseDecoder
  frames : List Text
  eof : Bool
  received : Nat

namespace SseWire
variable [JsonText]

def installed (stream : ByteStream) : SseWire := ⟨stream, .default, [], false, 0⟩

/-- The frame at the front that is not passed over. -/
def handed (wire : SseWire) : Option (GatewayResult (Option Json) × SseWire) :=
  match wire.frames.dropWhile skipped with
  | [] => none
  | frame :: frames => some (some <$> obtained (JsonText.parse frame) notJson, { wire with frames := frames })

/-- The loop of `receive` at the end of the stream. -/
def receiveEnd (wire : SseWire) : GatewayResult (Option Json) × SseWire :=
  match wire.handed with
  | some result => result
  | none =>
    if wire.eof then (.ok none, { wire with frames := [] })
    else match wire.stream.ending with
      | some error => (.error error, { wire with frames := [] })
      | none =>
        match wire.decoder.finish with
        | .error error => (.error error, { wire with frames := [] })
        | .ok (decoder, frames) =>
          let wire := { wire with decoder := decoder, frames := frames, eof := true }
          wire.handed.getD (.ok none, { wire with frames := [] })

def receiveFrom (wire : SseWire) : List (List UInt8) → GatewayResult (Option Json) × SseWire
  | [] => wire.receiveEnd
  | chunk :: chunks =>
    match wire.handed with
    | some result => result
    | none =>
      if wire.eof then (.ok none, { wire with frames := [] })
      else
        let wire := { wire with stream := ⟨chunks, wire.stream.ending⟩, received := wire.received + chunk.length }
        if maxResponseBytes < wire.received then (.error .streamTooLarge, { wire with frames := [] })
        else match wire.decoder.feed chunk with
          | .error error => (.error error, { wire with frames := [] })
          | .ok (decoder, frames) => { wire with decoder := decoder, frames := frames }.receiveFrom chunks

def receive (wire : SseWire) : GatewayResult (Option Json) × SseWire := wire.receiveFrom wire.stream.chunks

end SseWire

/-- The values a caller gets from a wire until the stream ends or fails. -/
inductive Delivers [JsonText] : SseWire → List Json → Except GatewayError Unit → Prop where
  | value {wire next : SseWire} {value : Json} {values : List Json} {ending : Except GatewayError Unit}
      (received : wire.receive = (.ok (some value), next)) (rest : Delivers next values ending) :
      Delivers wire (value :: values) ending
  | ended {wire next : SseWire} (received : wire.receive = (.ok none, next)) : Delivers wire [] (.ok ())
  | failed {wire next : SseWire} {error : GatewayError} (received : wire.receive = (.error error, next)) :
      Delivers wire [] (.error error)

end Wi.Codex
