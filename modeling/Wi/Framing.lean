import Wi.Sse

/-! What a stream of server-sent events means, read line by line, and that the decoder reads it
so, byte by byte. -/
namespace Wi.Codex
open Reading

/-! ## The stream, line by line -/

/-- Put bytes in front of the first line. -/
def extend (start : List UInt8) : List (List UInt8) → List (List UInt8)
  | [] => [start]
  | line :: lines => (start ++ line) :: lines

/-- The lines of a stream, each ended by CR, LF or CRLF; the last one is not ended. -/
def lines : List UInt8 → List (List UInt8)
  | [] => [[]]
  | 13 :: 10 :: bytes => [] :: lines bytes
  | byte :: bytes => if byte = 13 ∨ byte = 10 then [] :: lines bytes else extend [byte] (lines bytes)

/-- What is open after the lines read so far: whether no line was read, the bytes and the data
lines of the frame, and the line that was not ended. -/
structure OpenFrame where
  first : Bool
  used : Nat
  data : List Text
  line : List UInt8
  deriving DecidableEq

def OpenFrame.start : OpenFrame := ⟨true, 0, [], []⟩

/-- The data line that a line of text carries; comments and other fields carry none. -/
def dataOf (text : Text) : List Text :=
  if startsWith text "data:" then [stripSpace (text.drop 5)] else if text = "data".toList then [[]] else []

def joined (data : List Text) : List Text := if data = [] then [] else [['\n'].intercalate data]

/-- A byte order mark is removed from the first line only. -/
def lineText (first : Bool) (line : List UInt8) : Option Text :=
  (fromUtf8 line).map fun text => if first then stripMark text else text

def notUtf8 : GatewayError := .protocol "SSE line is not UTF-8"

namespace OpenFrame

/-- The text of an ended line: an empty one ends the frame. -/
def accept (frame : OpenFrame) (length : Nat) (text : Text) : List Text × OpenFrame :=
  if text = [] then (joined frame.data, ⟨false, 0, [], []⟩)
  else ([], ⟨false, frame.used + length + 1, frame.data ++ dataOf text, []⟩)

/-- One ended line. -/
def readLine (frame : OpenFrame) (line : List UInt8) : Reading Text GatewayError OpenFrame :=
  if maxFrameBytes < frame.used + line.length + 1 then fail .streamTooLarge
  else match lineText frame.first line with
    | none => fail notUtf8
    | some text => ((frame.accept line.length text).1, .ok (frame.accept line.length text).2)

/-- The line that is not ended counts too. -/
def readOpen (frame : OpenFrame) (line : List UInt8) : Reading Text GatewayError OpenFrame :=
  if maxFrameBytes < frame.used + line.length then fail .streamTooLarge else done { frame with line := line }

def readLines (frame : OpenFrame) : List (List UInt8) → Reading Text GatewayError OpenFrame
  | [] => done frame
  | [line] => frame.readOpen (frame.line ++ line)
  | line :: next :: lines => bind (frame.readLine (frame.line ++ line)) fun frame => frame.readLines (next :: lines)

/-- The end of the stream ends the line and the frame. -/
def conclude (frame : OpenFrame) : Reading Text GatewayError Unit :=
  if frame.line = [] then (joined frame.data, .ok ())
  else match lineText frame.first frame.line with
    | none => fail notUtf8
    | some text => (joined (frame.data ++ dataOf text), .ok ())

end OpenFrame

/-- The frames of the first bytes of a stream; more may follow. A response has a size limit. -/
def framesSoFar (bytes : List UInt8) : Reading Text GatewayError OpenFrame :=
  if bytes.length ≤ maxResponseBytes then OpenFrame.start.readLines (lines bytes)
  else bind (OpenFrame.start.readLines (lines (bytes.take maxResponseBytes))) fun _ => fail .streamTooLarge

/-- The frames of a whole stream. -/
def referenceFrames (bytes : List UInt8) (ending : Option GatewayError) : Reading Text GatewayError Unit :=
  bind (framesSoFar bytes) fun frame =>
    match ending with
    | some error => fail error
    | none => frame.conclude

/-- The frames handed to the caller, as values, up to one that is not JSON. -/
def handOver [JsonText] : List Text → Reading Json GatewayError Unit
  | [] => done ()
  | frame :: frames =>
    if skipped frame then handOver frames
    else match JsonText.parse frame with
      | none => fail notJson
      | some value => bind ([value], .ok ()) fun _ => handOver frames

def values [JsonText] {α : Type} (reading : Reading Text GatewayError α) : Reading Json GatewayError α :=
  bind (handOver reading.1) fun _ => ([], reading.2)

def reference [JsonText] (bytes : List UInt8) (ending : Option GatewayError) : Reading Json GatewayError Unit :=
  values (referenceFrames bytes ending)

/-! ## The decoder reads the stream byte by byte -/

/-- A result that failed put nothing out. -/
def reading {α : Type} : GatewayResult (α × List Text) → Reading Text GatewayError α
  | .ok (value, frames) => (frames, .ok value)
  | .error error => fail error

def SseDecoder.step (decoder : SseDecoder) (byte : UInt8) : Reading Text GatewayError SseDecoder :=
  reading (decoder.feedByte byte)

/-- A chunk loses its frames when it fails. -/
def SseDecoder.whole : Reading Text GatewayError SseDecoder → GatewayResult (SseDecoder × List Text)
  | (frames, .ok decoder) => .ok (decoder, frames)
  | (_, .error error) => .error error

theorem SseDecoder.feed_eq_read (decoder : SseDecoder) (bytes : List UInt8) :
    decoder.feed bytes = whole (read step decoder bytes) := by
  have general : ∀ (bytes : List UInt8) (decoder : SseDecoder) (frames : List Text),
      bytes.foldlM (fun (state : SseDecoder × List Text) byte => do
        let next ← state.1.feedByte byte
        return (next.1, state.2 ++ next.2)) (decoder, frames) =
        whole (bind (frames, .ok decoder) fun decoder => read step decoder bytes) := by
    intro bytes
    induction bytes with
    | nil =>
      intro decoder frames
      simp [whole, done]
    | cons byte bytes ih =>
      intro decoder frames
      rw [List.foldlM_cons, bind_ok, read_cons, step]
      cases taken : decoder.feedByte byte with
      | error error => rfl
      | ok result =>
        obtain ⟨next, more⟩ := result
        refine (ih next (frames ++ more)).trans ?_
        rw [reading, bind_ok, bind_ok]
        simp
  exact (general bytes decoder []).trans (by rw [bind_ok]; rfl)

/-! ## The decoder and the lines agree -/

/-- The data of a decoder: every data line with its line end. -/
def flat (data : List Text) : Text := data.flatMap (· ++ ['\n'])

theorem flat_concat (data : List Text) (text : Text) : flat (data ++ [text]) = flat data ++ text ++ ['\n'] := by
  simp [flat]

theorem dispatched_eq_joined (data : List Text) :
    (if (flat data).isEmpty then [] else [(flat data).dropLast]) = joined data := by
  cases data with
  | nil => rfl
  | cons first data =>
    have dropped : (flat (first :: data)).dropLast = ['\n'].intercalate (first :: data) := by
      induction data generalizing first with
      | nil => simp [flat]
      | cons second data ih =>
        have filled : flat (second :: data) ≠ [] := by simp [flat]
        have split : flat (first :: second :: data) = (first ++ ['\n']) ++ flat (second :: data) := rfl
        rw [split, List.dropLast_append_of_ne_nil filled, ih]
        simp [List.intercalate]
    have filled : (flat (first :: data)).isEmpty = false := by simp [flat]
    rw [filled, dropped]
    rfl

/-- A decoder in its normal mode stands where the lines have been read to. -/
structure Agrees (decoder : SseDecoder) (frame : OpenFrame) : Prop where
  normal : decoder.strictProlog = false
  line : decoder.line = frame.line
  data : decoder.data = flat frame.data
  first : decoder.firstLineSeen = !frame.first
  bytes : decoder.frameBytes = frame.used + frame.line.length
  bound : decoder.frameBytes ≤ maxFrameBytes

variable {decoder : SseDecoder} {frame : OpenFrame}

theorem Agrees.afterCr (agrees : Agrees decoder frame) (after : Bool) :
    Agrees { decoder with afterCr := after } frame := by
  obtain ⟨normal, line, data, first, bytes, bound⟩ := agrees
  exact ⟨normal, line, data, first, bytes, bound⟩

/-- Two readings with the same outputs and the same failure, or ends that are related. -/
def Same {α β : Type} (related : α → β → Prop) (first : Reading Text GatewayError α) (second : Reading Text GatewayError β) : Prop :=
  first.1 = second.1 ∧
    match first.2, second.2 with
    | .ok value, .ok other => related value other
    | .error error, .error other => error = other
    | _, _ => False

theorem Same.bind {α β γ δ : Type} {related : α → β → Prop} {later : γ → δ → Prop} {first : Reading Text GatewayError α}
    {second : Reading Text GatewayError β} {next : α → Reading Text GatewayError γ} {last : β → Reading Text GatewayError δ}
    (same : Same related first second) (step : ∀ value other, related value other → Same later (next value) (last other)) :
    Same later (first.bind next) (second.bind last) := by
  obtain ⟨frames, error | value⟩ := first <;> obtain ⟨others, failure | other⟩ := second
  · exact same
  · exact same.2.elim
  · exact same.2.elim
  · obtain ⟨rfl, agree⟩ := same
    obtain ⟨outputs, ends⟩ := step value other agree
    exact ⟨congrArg _ outputs, ends⟩

namespace SseDecoder

theorem finishLine_normal (decoder : SseDecoder) (normal : decoder.strictProlog = false) :
    decoder.finishLine = match lineText (!decoder.firstLineSeen) decoder.line with
      | none => .error notUtf8
      | some text => .ok ({ decoder with line := [], firstLineSeen := true }.acceptLine text) := by
  unfold finishLine lineText
  cases fromUtf8 decoder.line with
  | none => rfl
  | some text =>
    cases decoder.firstLineSeen <;> simp [obtained, checkProlog, normal]

theorem acceptLine_agrees {length : Nat} {text : Text} (normal : decoder.strictProlog = false)
    (line : decoder.line = []) (data : decoder.data = flat frame.data) (first : decoder.firstLineSeen = true)
    (bytes : decoder.frameBytes = frame.used + length + 1) (bound : decoder.frameBytes ≤ maxFrameBytes) :
    (decoder.acceptLine text).2 = (frame.accept length text).1 ∧
      Agrees (decoder.acceptLine text).1 (frame.accept length text).2 := by
  unfold acceptLine OpenFrame.accept dataOf
  cases text with
  | nil =>
    simp only [List.isEmpty_nil, if_true, dispatch, normal, data, dispatched_eq_joined, Bool.false_eq_true, if_false]
    exact ⟨trivial, rfl, line, rfl, first, rfl, Nat.zero_le _⟩
  | cons c text =>
    simp only [List.isEmpty_cons, Bool.false_eq_true, if_false, reduceCtorEq]
    split
    · refine ⟨rfl, normal, line, ?_, first, bytes, bound⟩
      rw [flat_concat, ← data]
    · split
      · refine ⟨rfl, normal, line, ?_, first, bytes, bound⟩
        rw [flat_concat, ← data, List.append_nil]
      · refine ⟨rfl, normal, line, ?_, first, bytes, bound⟩
        rw [List.append_nil, ← data]

theorem acceptLine_mode (decoder : SseDecoder) (text : Text) :
    (decoder.acceptLine text).1.afterCr = decoder.afterCr ∧
      (decoder.acceptLine text).1.strictProlog = decoder.strictProlog := by
  unfold acceptLine
  split
  · cases strict : decoder.strictProlog <;> simp [dispatch, strict]
  · split
    · exact ⟨rfl, rfl⟩
    · split <;> exact ⟨rfl, rfl⟩

theorem finishLine_agrees (agrees : Agrees decoder frame) (room : decoder.frameBytes + 1 ≤ maxFrameBytes) :
    Same (fun decoder frame => Agrees decoder frame ∧ decoder.afterCr = false)
      (reading { decoder with afterCr := false, frameBytes := decoder.frameBytes + 1 }.finishLine)
      (frame.readLine frame.line) := by
  obtain ⟨normal, line, data, first, bytes, bound⟩ := agrees
  have fits : ¬maxFrameBytes < frame.used + frame.line.length + 1 := by omega
  have finished := finishLine_normal { decoder with afterCr := false, frameBytes := decoder.frameBytes + 1 } normal
  rw [finished, OpenFrame.readLine, if_neg fits]
  dsimp only
  rw [first, Bool.not_not, line]
  cases lineText frame.first frame.line with
  | none => exact ⟨rfl, rfl⟩
  | some text =>
    refine and_assoc.mp ⟨acceptLine_agrees normal rfl data rfl ?_ room, (acceptLine_mode _ _).1⟩
    dsimp only
    omega

end SseDecoder

namespace OpenFrame

theorem readLines_extend (frame : OpenFrame) (start : List UInt8) {lines : List (List UInt8)} (some : lines ≠ []) :
    frame.readLines (extend start lines) = { frame with line := frame.line ++ start }.readLines lines := by
  match lines with
  | [] => exact absurd rfl some
  | [line] => simp [extend, readLines, readOpen, List.append_assoc]
  | line :: next :: lines =>
    simp only [extend, readLines, List.append_assoc]
    rfl

theorem readLines_full (full : maxFrameBytes < frame.used + frame.line.length) {lines : List (List UInt8)}
    (some : lines ≠ []) : frame.readLines lines = fail .streamTooLarge := by
  match lines with
  | [] => exact absurd rfl some
  | [line] =>
    have long : maxFrameBytes < frame.used + (frame.line ++ line).length := by
      rw [List.length_append]
      omega
    rw [readLines, readOpen, if_pos long]
  | line :: next :: lines =>
    have long : maxFrameBytes < frame.used + (frame.line ++ line).length + 1 := by
      rw [List.length_append]
      omega
    rw [readLines, readLine, if_pos long]
    rfl

end OpenFrame

theorem lines_ne_nil (bytes : List UInt8) : lines bytes ≠ [] := by
  fun_cases lines bytes with
  | case1 => exact List.cons_ne_nil _ _
  | case2 => exact List.cons_ne_nil _ _
  | case3 => exact List.cons_ne_nil _ _
  | case4 =>
    unfold extend
    split <;> exact List.cons_ne_nil _ _

namespace SseDecoder

theorem read_afterCr {bytes : List UInt8} (other : bytes.head? ≠ some 10)
    {frames : Reading Text GatewayError OpenFrame}
    (same : Same Agrees (read step { decoder with afterCr := false } bytes) frames) :
    Same Agrees (read step decoder bytes) frames := by
  cases bytes with
  | nil =>
    obtain ⟨outputs, error | frame⟩ := frames
    · exact same
    · obtain ⟨outputs, normal, line, data, first, bytes, bound⟩ := same
      exact ⟨outputs, normal, line, data, first, bytes, bound⟩
  | cons byte bytes =>
    have ordinary : byte ≠ 10 := fun same => other (congrArg some same)
    have equal : decoder.step byte = { decoder with afterCr := false }.step byte := by
      simp [step, feedByte, ordinary]
    rw [read_cons, equal]
    exact same

theorem step_lf (agrees : Agrees decoder frame) (unmarked : decoder.afterCr = false) :
    Same (fun decoder frame => Agrees decoder frame ∧ decoder.afterCr = false)
      (decoder.step 10) (frame.readLine frame.line) := by
  simp only [step, feedByte, unmarked, Bool.false_eq_true, false_and, if_false]
  by_cases full : maxFrameBytes < decoder.frameBytes + 1
  · have long : maxFrameBytes < frame.used + frame.line.length + 1 := by
      have bytes := agrees.bytes
      omega
    rw [if_pos full, OpenFrame.readLine, if_pos long]
    exact ⟨rfl, rfl⟩
  · rw [if_neg full, if_neg (by decide), if_pos trivial]
    exact finishLine_agrees agrees (Nat.le_of_not_lt full)

theorem step_cr (unmarked : decoder.afterCr = false) :
    decoder.step 13 = bind (decoder.step 10) fun decoder => done { decoder with afterCr := true } := by
  simp only [step, feedByte, unmarked, Bool.false_eq_true, false_and, if_false]
  split
  · rfl
  · rw [if_pos trivial, if_neg (by decide), if_pos trivial]
    cases finishLine _ with
    | error error => rfl
    | ok result => exact Prod.ext (List.append_nil _).symm rfl

theorem step_skip (decoder : SseDecoder) : { decoder with afterCr := true }.step 10 = done { decoder with afterCr := false } := rfl

theorem step_byte {byte : UInt8} (unmarked : decoder.afterCr = false) (ordinary : ¬(byte = 13 ∨ byte = 10))
    (room : decoder.frameBytes + 1 ≤ maxFrameBytes) :
    decoder.step byte = done { decoder with frameBytes := decoder.frameBytes + 1, line := decoder.line ++ [byte] } := by
  rw [not_or] at ordinary
  simp only [step, feedByte, unmarked, Bool.false_eq_true, false_and, if_false]
  rw [if_neg (Nat.not_lt.mpr room), if_neg ordinary.1, if_neg ordinary.2, ← unmarked]
  rfl

theorem step_full {byte : UInt8} (unmarked : decoder.afterCr = false)
    (full : maxFrameBytes < decoder.frameBytes + 1) : decoder.step byte = fail .streamTooLarge := by
  simp only [step, feedByte, unmarked, Bool.false_eq_true, false_and, if_false]
  rw [if_pos full]
  rfl

theorem read_agrees (agrees : Agrees decoder frame) (unmarked : decoder.afterCr = false) (bytes : List UInt8) :
    Same Agrees (read step decoder bytes) (frame.readLines (lines bytes)) := by
  -- The cases are those of `lines`: no byte, a CRLF, another line end, a byte of the line.
  fun_induction lines bytes generalizing decoder frame with
  | case1 =>
    have room : ¬maxFrameBytes < frame.used + (frame.line ++ []).length := by
      have bytes := agrees.bytes
      have bound := agrees.bound
      rw [List.append_nil]
      omega
    rw [OpenFrame.readLines, OpenFrame.readOpen, if_neg room, List.append_nil]
    exact ⟨rfl, agrees⟩
  | case2 bytes ih =>
    obtain ⟨next, rest, split⟩ := List.exists_cons_of_ne_nil (lines_ne_nil bytes)
    rw [split, OpenFrame.readLines, List.append_nil, ← split, read_cons, step_cr unmarked, bind_assoc]
    refine (step_lf agrees unmarked).bind fun other later agree => ?_
    rw [done_bind, read_cons, step_skip, done_bind]
    exact ih (agree.1.afterCr false) rfl
  | case3 byte bytes single lineEnd ih =>
    obtain ⟨next, rest, split⟩ := List.exists_cons_of_ne_nil (lines_ne_nil bytes)
    rw [split, OpenFrame.readLines, List.append_nil, ← split, read_cons]
    rcases lineEnd with rfl | rfl
    · rw [step_cr unmarked, bind_assoc]
      refine (step_lf agrees unmarked).bind fun other later agree => ?_
      rw [done_bind]
      refine read_afterCr (fun front => ?_) (ih (agree.1.afterCr false) rfl)
      obtain ⟨tail, same⟩ := List.head?_eq_some_iff.mp front
      exact single _ rfl same
    · exact (step_lf agrees unmarked).bind fun other later agree => ih agree.1 agree.2
  | case4 byte bytes single ordinary ih =>
    rw [OpenFrame.readLines_extend _ _ (lines_ne_nil bytes), read_cons]
    by_cases room : decoder.frameBytes + 1 ≤ maxFrameBytes
    · rw [step_byte unmarked ordinary room, done_bind]
      refine ih ?_ unmarked
      obtain ⟨normal, line, data, first, bytes, bound⟩ := agrees
      refine ⟨normal, ?_, data, first, ?_, room⟩
      · dsimp only
        rw [line]
      · dsimp only
        rw [List.length_append, List.length_singleton]
        omega
    · have full : maxFrameBytes < decoder.frameBytes + 1 := Nat.lt_of_not_le room
      have long : maxFrameBytes < frame.used + (frame.line ++ [byte]).length := by
        have bytes := agrees.bytes
        rw [List.length_append, List.length_singleton]
        omega
      rw [step_full unmarked full, OpenFrame.readLines_full long (lines_ne_nil bytes)]
      exact ⟨rfl, rfl⟩

theorem default_agrees : Agrees default .start := ⟨rfl, rfl, rfl, rfl, rfl, Nat.zero_le _⟩

theorem dispatch_joined {data : List Text} (same : decoder.data = flat data) :
    decoder.dispatch.2 = joined data := by
  cases strict : decoder.strictProlog <;> simp only [dispatch, strict, same, dispatched_eq_joined] <;> rfl

theorem acceptLine_dispatch {data : List Text} (same : decoder.data = flat data) (text : Text) :
    (decoder.acceptLine text).2 ++ (decoder.acceptLine text).1.dispatch.2 = joined (data ++ dataOf text) := by
  unfold acceptLine dataOf
  cases text with
  | nil =>
    have empty : decoder.dispatch.1.data = flat [] := by
      cases strict : decoder.strictProlog <;> simp [dispatch, strict, flat]
    simp only [List.isEmpty_nil, if_true]
    rw [dispatch_joined same, dispatch_joined empty, if_neg (by decide), if_neg (by decide)]
    simp [joined]
  | cons c text =>
    simp only [List.isEmpty_cons, Bool.false_eq_true, if_false]
    split
    · exact dispatch_joined (by rw [flat_concat, ← same])
    · split
      · exact dispatch_joined (by rw [flat_concat, ← same, List.append_nil])
      · exact dispatch_joined (by rw [List.append_nil, ← same])

theorem finish_agrees (agrees : Agrees decoder frame) :
    Same (fun _ _ => True) (reading decoder.finish) frame.conclude := by
  obtain ⟨normal, line, data, first, bytes, bound⟩ := agrees
  unfold finish OpenFrame.conclude
  rw [← line]
  by_cases empty : decoder.line = []
  · rw [if_pos (by rw [empty]; rfl), if_pos empty]
    exact ⟨dispatch_joined data, trivial⟩
  · rw [if_neg (by rw [List.isEmpty_iff]; exact empty), if_neg empty, finishLine_normal decoder normal, first, Bool.not_not]
    cases lineText frame.first decoder.line with
    | none => exact ⟨rfl, rfl⟩
    | some text =>
      refine ⟨acceptLine_dispatch ?_ text, trivial⟩
      exact data

end SseDecoder

end Wi.Codex
