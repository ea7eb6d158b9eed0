import Wi.Handing

/-! A response without a media type is admitted by its first data frame. The admission looks at
the bytes one by one and hands the untouched chunks on. -/
namespace Wi.Codex
open Reading

def maxBodySample : Nat := 4096
def maxSseProlog : Nat := 65536

inductive BodyClass where
  | empty | jsonLike | htmlLike | textOrOther | binaryOrNonUtf8
  deriving DecidableEq

/-- The states of a sample that admission reports. -/
inductive SampleState where
  | ssePrologAdmitted | ssePrologRejected | ssePrologTimeout | ssePrologReadError | ssePrologTruncated
  deriving DecidableEq

/-- No limit of time or size was reached. -/
def SampleState.Unlimited (state : SampleState) : Prop := state ≠ .ssePrologTimeout ∧ state ≠ .ssePrologTruncated

def bodyClass (bytes : List UInt8) : BodyClass :=
  if bytes.isEmpty then .empty
  else match fromUtf8 bytes with
    | none => .binaryOrNonUtf8
    | some text =>
      if text.any fun c => control c && c != '\r' && c != '\n' && c != '\t' then .binaryOrNonUtf8
      else
        let text := text.dropWhile whiteSpace
        if startsWith text "\x7b" || startsWith text "[" then .jsonLike
        else if startsWith text "<" then .htmlLike
        else .textOrOther

/-- When the k-th item of a stream comes, as the deadline sees it. -/
inductive Arrival where
  | inTime | late | never
  deriving DecidableEq

structure Clock where
  arrival : Nat → Arrival
  /-- The deadline has passed when the first frame was found to qualify. -/
  qualifiedLate : Bool

/-- What the probe has looked at. `decisive` is the first data frame. -/
structure Probe where
  sample : List UInt8
  inspected : Nat
  decoder : SseDecoder
  decisive : Option Text

def Probe.start : Probe := ⟨[], 0, .strict, none⟩

/-- How a probe ended, and the chunks to hand on. -/
structure Probed where
  probe : Probe
  state : SampleState
  tooLarge : Bool
  emptyEof : Bool
  chunks : List (List UInt8)

/-- The end of the stream, or the error that cut it off. -/
def Probe.atEnd (probe : Probe) (arrival : Arrival) : Option GatewayError → Probed
  | none =>
    if arrival = .never then ⟨probe, .ssePrologTimeout, false, false, []⟩
    else ⟨probe, .ssePrologRejected, false, probe.inspected == 0, []⟩
  | some error =>
    if arrival ≠ .inTime then ⟨probe, .ssePrologTimeout, false, false, []⟩
    else if error = .streamTooLarge then ⟨probe, .ssePrologTruncated, true, false, []⟩
    else ⟨probe, .ssePrologReadError, false, false, []⟩

section
variable [JsonText]

def qualifiesSseProlog (data label : Text) : Bool :=
  match JsonText.parse data with
  | none => false
  | some value =>
    match Codec.stringMember value "type" with
    | none => false
    | some kind =>
      if !label.isEmpty && label != kind then false
      else if !(((value.get "response".toList).bind (Codec.stringMember · "id")).any fun id =>
          !id.isEmpty && decide (Utf8.bytes id ≤ 512)) then false
      else
        let created := kind == "response.created".toList
        if !created && !(Codec.ResponseDecoder.terminalKinds.any fun terminal => kind == terminal.toList) then false
        else match (Codec.ResponseDecoder.empty.apply value).2 with
          | .error _ => false
          | .ok events => events.any fun event =>
            match event with
            | .responseStarted _ => created
            | .responseFinished _ => !created
            | _ => false

/-- The bytes of one chunk, up to the one that decides. -/
def Probe.inspect (qualifiedLate : Bool) (probe : Probe) : List UInt8 → Probe × Option SampleState
  | [] => (probe, none)
  | byte :: bytes =>
    let probe := { probe with
      inspected := probe.inspected + 1
      sample := if probe.sample.length < maxBodySample then probe.sample ++ [byte] else probe.sample }
    match probe.decoder.feed [byte] with
    | .error _ => (probe, some .ssePrologRejected)
    | .ok (decoder, frames) =>
      let probe := { probe with decoder := decoder, decisive := frames.head? }
      match frames.head? with
      | some data =>
        -- The first data frame is decisive, even if it is empty.
        if !qualifiesSseProlog data decoder.dispatchedLabel then (probe, some .ssePrologRejected)
        else if qualifiedLate then (probe, some .ssePrologTimeout)
        else (probe, some .ssePrologAdmitted)
      | none =>
        if probe.inspected = maxSseProlog then (probe, some .ssePrologTruncated)
        else probe.inspect qualifiedLate bytes

def Probe.run (clock : Clock) (ending : Option GatewayError) :
    Probe → Nat → Nat → List (List UInt8) → List (List UInt8) → Probed
  | probe, index, _, _, [] => probe.atEnd (clock.arrival index) ending
  | probe, index, fetched, replay, chunk :: chunks =>
    if clock.arrival index ≠ .inTime then ⟨probe, .ssePrologTimeout, false, false, []⟩
    else if maxResponseBytes < fetched + chunk.length then ⟨probe, .ssePrologTruncated, true, false, []⟩
    else match probe.inspect clock.qualifiedLate chunk with
      | (probe, some state) => ⟨probe, state, false, false, replay ++ [chunk] ++ chunks⟩
      | (probe, none) => probe.run clock ending (index + 1) (fetched + chunk.length) (replay ++ [chunk]) chunks

structure Admission where
  result : GatewayResult ByteStream
  state : SampleState
  bodyClass : Option BodyClass
  decisive : Option Text

def admitSseProlog (clock : Clock) (stream : ByteStream) : Admission :=
  let probed := Probe.start.run clock stream.ending 0 0 [] stream.chunks
  { result :=
      if probed.state = .ssePrologAdmitted then .ok ⟨probed.chunks, stream.ending⟩
      else if probed.tooLarge then .error .streamTooLarge
      else .error .unexpectedContentType
    state := probed.state
    bodyClass :=
      if !probed.probe.sample.isEmpty || probed.emptyEof then some (Wi.Codex.bodyClass probed.probe.sample) else none
    decisive := probed.probe.decisive }

end

/-! ## The strict decoder and the normal one -/

variable {decoder next : SseDecoder} {frames : List Text} {bytes : List UInt8} {chunks : List (List UInt8)}

namespace SseDecoder

/-- The decoder without its prolog mode. -/
def relaxed (decoder : SseDecoder) : SseDecoder :=
  { decoder with strictProlog := false, eventLabel := [], dispatchedLabel := [] }

@[simp] theorem relaxed_line (decoder : SseDecoder) : decoder.relaxed.line = decoder.line := rfl
@[simp] theorem relaxed_firstLineSeen (decoder : SseDecoder) : decoder.relaxed.firstLineSeen = decoder.firstLineSeen := rfl

theorem checkProlog_relaxed {text : Text} (checked : decoder.checkProlog text = .ok next) :
    next.relaxed = decoder.relaxed := by
  unfold checkProlog at checked
  split at checked
  · cases checked
    rfl
  · split at checked
    · exact nomatch checked
    · split at checked
      · cases checked
        rfl
      · dsimp only at checked
        split at checked
        · cases checked
          rfl
        · split at checked
          · cases checked
            rfl
          · split at checked <;> cases checked
            rfl

theorem acceptLine_relaxed (decoder : SseDecoder) (text : Text) :
    decoder.relaxed.acceptLine text = ((decoder.acceptLine text).1.relaxed, (decoder.acceptLine text).2) := by
  unfold acceptLine
  split
  · cases strict : decoder.strictProlog <;> simp [dispatch, relaxed, strict]
  · split
    · rfl
    · split <;> rfl

theorem finishLine_relaxed (finished : decoder.finishLine = .ok (next, frames)) :
    decoder.relaxed.finishLine = .ok (next.relaxed, frames) := by
  unfold finishLine at finished
  obtain ⟨text, decoded, rest⟩ := bind_eq_ok.mp finished
  obtain ⟨checked, passed, accepted⟩ := bind_eq_ok.mp rest
  have same : checked.relaxed = { decoder.relaxed with line := [], firstLineSeen := true } := checkProlog_relaxed passed
  have line : lineText (!decoder.firstLineSeen) decoder.line = some (if decoder.firstLineSeen then text else stripMark text) := by
    unfold lineText
    rw [obtained_eq_ok.mp decoded]
    cases decoder.firstLineSeen <;> rfl
  have result : checked.acceptLine (if decoder.firstLineSeen then text else stripMark text) = (next, frames) := by
    rw [pure_eq_ok] at accepted
    exact Except.ok.inj accepted
  rw [finishLine_normal decoder.relaxed rfl, relaxed_line, relaxed_firstLineSeen, line]
  dsimp only
  rw [← same, acceptLine_relaxed, result]

theorem feedByte_relaxed {byte : UInt8} (taken : decoder.feedByte byte = .ok (next, frames)) :
    decoder.relaxed.feedByte byte = .ok (next.relaxed, frames) := by
  unfold feedByte at taken
  by_cases skip : decoder.afterCr ∧ byte = 10
  · rw [if_pos skip] at taken
    cases taken
    exact if_pos skip
  · rw [if_neg skip] at taken
    refine (if_neg skip).trans ?_
    dsimp only at taken
    by_cases full : maxFrameBytes < decoder.frameBytes + 1
    · rw [if_pos full] at taken
      exact nomatch taken
    · rw [if_neg full] at taken
      refine (if_neg full).trans ?_
      by_cases cr : byte = 13
      · rw [if_pos cr] at taken ⊢
        obtain ⟨⟨last, more⟩, finished, result⟩ := bind_eq_ok.mp taken
        cases result
        exact bind_eq_ok.mpr ⟨_, finishLine_relaxed finished, rfl⟩
      · rw [if_neg cr] at taken ⊢
        by_cases lf : byte = 10
        · rw [if_pos lf] at taken ⊢
          exact finishLine_relaxed taken
        · rw [if_neg lf] at taken ⊢
          cases taken
          rfl

theorem step_relaxed {byte : UInt8} (taken : decoder.step byte = (frames, .ok next)) :
    decoder.relaxed.step byte = (frames, .ok next.relaxed) := by
  unfold step at taken ⊢
  cases result : decoder.feedByte byte with
  | error error =>
    rw [result] at taken
    exact nomatch taken
  | ok pair =>
    rw [result] at taken
    cases taken
    rw [feedByte_relaxed result]
    rfl

theorem read_relaxed (taken : read step decoder bytes = (frames, .ok next)) :
    read step decoder.relaxed bytes = (frames, .ok next.relaxed) := by
  induction bytes generalizing decoder frames with
  | nil =>
    cases taken
    rfl
  | cons byte bytes ih =>
    rw [read_cons] at taken ⊢
    rcases first : step decoder byte with ⟨front, error | middle⟩ <;> rw [first] at taken
    · exact nomatch taken
    · rcases rest : read step middle bytes with ⟨back, error | last⟩ <;> rw [bind_ok, rest] at taken
      · exact nomatch taken
      · cases taken
        rw [step_relaxed first, bind_ok, ih rest]

theorem feed_singleton (decoder : SseDecoder) (byte : UInt8) : decoder.feed [byte] = whole (decoder.step byte) := by
  rw [feed_eq_read, read_cons]
  exact congrArg whole (bind_done _)

/-- The chunks of a stream, each fed as a whole. -/
def feedAll (decoder : SseDecoder) : List (List UInt8) → Reading Text GatewayError SseDecoder
  | [] => done decoder
  | chunk :: chunks => bind (reading (decoder.feed chunk)) fun decoder => decoder.feedAll chunks

/-- The chunk that completes the first frame is read to its end. -/
def Shown (decoder : SseDecoder) (chunks : List (List UInt8)) : Prop :=
  ∃ before chunk after next, chunks = before ++ chunk :: after ∧ (read step decoder before.flatten).1 = [] ∧
    (read step decoder (before.flatten ++ chunk)).1 ≠ [] ∧ (read step decoder (before.flatten ++ chunk)).2 = .ok next

theorem not_shown {chunk : List UInt8} {error : GatewayError}
    (failed : read step decoder chunk = (frames, .error error)) : ¬Shown decoder (chunk :: chunks) := by
  rintro ⟨before, piece, after, next, split, _, _, ok⟩
  cases before with
  | nil =>
    cases split
    rw [List.flatten_nil, List.nil_append, failed] at ok
    exact nomatch ok
  | cons first before =>
    cases split
    rw [List.flatten_cons, List.append_assoc, read_append, failed] at ok
    exact nomatch ok

theorem shown_cons {chunk : List UInt8} (silent : read step decoder chunk = ([], .ok next)) :
    Shown decoder (chunk :: chunks) ↔ Shown next chunks := by
  have later : ∀ bytes, read step decoder (chunk ++ bytes) = read step next bytes := fun bytes => by
    rw [read_append, silent]
    rfl
  constructor
  · rintro ⟨before, piece, after, last, split, none, some, ok⟩
    cases before with
    | nil =>
      cases split
      rw [List.flatten_nil, List.nil_append, silent] at some
      exact absurd rfl some
    | cons first before =>
      cases split
      rw [List.flatten_cons, later] at none
      rw [List.flatten_cons, List.append_assoc, later] at some ok
      exact ⟨before, piece, after, last, rfl, none, some, ok⟩
  · rintro ⟨before, piece, after, last, rfl, none, some, ok⟩
    refine ⟨chunk :: before, piece, after, last, rfl, ?_, ?_, ?_⟩
    · rw [List.flatten_cons, later]
      exact none
    · rw [List.flatten_cons, List.append_assoc, later]
      exact some
    · rw [List.flatten_cons, List.append_assoc, later]
      exact ok

/-- The first frame of the bytes is the first frame of the chunks when its chunk is read to the end. -/
theorem feedAll_head {data : Text} (first : (read step decoder chunks.flatten).1.head? = some data) :
    (decoder.feedAll chunks).1.head? = some data ↔ Shown decoder chunks := by
  induction chunks generalizing decoder with
  | nil => exact nomatch first
  | cons chunk chunks ih =>
    rw [List.flatten_cons, read_append] at first
    rw [feedAll, feed_eq_read]
    rcases taken : read step decoder chunk with ⟨frames, error | next⟩
    · exact iff_of_false nofun (not_shown taken)
    · rw [taken, bind_ok] at first
      rw [whole, reading, bind_ok]
      cases frames with
      | nil =>
        rw [shown_cons taken]
        exact ih first
      | cons frame frames =>
        refine iff_of_true first ⟨[], chunk, chunks, next, rfl, rfl, ?_, ?_⟩
        · rw [List.flatten_nil, List.nil_append, taken]
          exact List.cons_ne_nil _ _
        · rw [List.flatten_nil, List.nil_append, taken]

end SseDecoder

/-! ## What the admission looks at -/

theorem Probe.atEnd_not_admitted (probe : Probe) (arrival : Arrival) (ending : Option GatewayError) :
    (probe.atEnd arrival ending).state ≠ .ssePrologAdmitted := by
  cases ending with
  | none =>
    simp only [atEnd]
    split <;> exact SampleState.noConfusion
  | some error =>
    simp only [atEnd]
    split
    · exact SampleState.noConfusion
    · split <;> exact SampleState.noConfusion

variable {probe : Probe} {ending : Option GatewayError}

theorem Probe.atEnd_unlimited {arrival : Arrival} (unlimited : (probe.atEnd arrival ending).state.Unlimited) :
    (probe.atEnd arrival ending).state = if ending = none then .ssePrologRejected else .ssePrologReadError := by
  cases ending with
  | none =>
    simp only [atEnd] at unlimited ⊢
    split at unlimited
    · exact absurd rfl unlimited.1
    · rename_i came
      rw [if_neg came]
      rfl
  | some error =>
    simp only [atEnd] at unlimited ⊢
    split at unlimited
    · exact absurd rfl unlimited.1
    · rename_i inTime
      rw [if_neg inTime]
      split at unlimited
      · exact absurd rfl unlimited.2
      · rename_i other
        rw [if_neg other]
        rfl


section
variable [JsonText]

namespace Probe

theorem inspect_none {qualifiedLate : Bool} {next : Probe}
    (looked : probe.inspect qualifiedLate bytes = (next, none)) :
    read SseDecoder.step probe.decoder bytes = ([], .ok next.decoder) := by
  induction bytes generalizing probe with
  | nil =>
    cases looked
    rfl
  | cons byte bytes ih =>
    rw [inspect] at looked
    dsimp only at looked
    rw [SseDecoder.feed_singleton] at looked
    rw [read_cons]
    rcases taken : probe.decoder.step byte with ⟨frames, error | decoder⟩ <;> rw [taken] at looked
    · exact nomatch looked
    · dsimp only [SseDecoder.whole] at looked
      cases frames with
      | cons frame frames =>
        dsimp only [List.head?_cons] at looked
        split at looked
        · exact nomatch looked
        · split at looked <;> exact nomatch looked
      | nil =>
        dsimp only [List.head?_nil] at looked
        split at looked
        · exact nomatch looked
        · rw [bind_ok]
          have rest := ih looked
          dsimp only at rest
          rw [rest]
          rfl

theorem inspect_admitted {qualifiedLate : Bool} {next : Probe}
    (looked : probe.inspect qualifiedLate bytes = (next, some .ssePrologAdmitted)) :
    ∃ front back data frames decoder, bytes = front ++ back ∧
      read SseDecoder.step probe.decoder front = (data :: frames, .ok decoder) ∧ next.decisive = some data := by
  induction bytes generalizing probe with
  | nil => cases looked
  | cons byte bytes ih =>
    rw [inspect] at looked
    dsimp only at looked
    rw [SseDecoder.feed_singleton] at looked
    rcases taken : probe.decoder.step byte with ⟨frames, error | decoder⟩ <;> rw [taken] at looked
    · cases looked
    · dsimp only [SseDecoder.whole] at looked
      cases frames with
      | cons frame frames =>
        dsimp only [List.head?_cons] at looked
        split at looked
        · cases looked
        · split at looked
          · cases looked
          · cases looked
            refine ⟨[byte], bytes, frame, frames, decoder, rfl, ?_, rfl⟩
            rw [read_cons, taken, bind_ok]
            simp [done]
      | nil =>
        dsimp only [List.head?_nil] at looked
        split at looked
        · cases looked
        · obtain ⟨front, back, data, more, last, rfl, rest, decisive⟩ := ih looked
          refine ⟨byte :: front, back, data, more, last, rfl, ?_, decisive⟩
          dsimp only at rest
          rw [read_cons, taken, bind_ok, rest]
          rfl

theorem run_admitted {clock : Clock} {index fetched : Nat} {replay : List (List UInt8)}
    (admitted : (probe.run clock ending index fetched replay chunks).state = .ssePrologAdmitted) :
    (probe.run clock ending index fetched replay chunks).chunks = replay ++ chunks ∧
      ∃ front back data frames decoder, chunks.flatten = front ++ back ∧
        read SseDecoder.step probe.decoder front = (data :: frames, .ok decoder) ∧
        (probe.run clock ending index fetched replay chunks).probe.decisive = some data := by
  induction chunks generalizing probe index fetched replay with
  | nil => exact absurd admitted (atEnd_not_admitted _ _ _)
  | cons chunk chunks ih =>
    rw [run] at admitted ⊢
    split at admitted
    · exact nomatch admitted
    · rename_i inTime
      rw [if_neg inTime]
      split at admitted
      · exact nomatch admitted
      · rename_i room
        rw [if_neg room]
        rcases looked : probe.inspect clock.qualifiedLate chunk with ⟨next, none | state⟩ <;> rw [looked] at admitted
        · obtain ⟨handed, front, back, data, frames, decoder, split, taken, decisive⟩ := ih admitted
          refine ⟨by rw [handed, List.append_assoc]; rfl, chunk ++ front, back, data, frames, decoder, ?_, ?_, decisive⟩
          · rw [List.flatten_cons, split, List.append_assoc]
          · rw [read_append, inspect_none looked, bind_ok, taken]
            rfl
        · dsimp only at admitted
          subst admitted
          obtain ⟨front, back, data, frames, decoder, split, taken, decisive⟩ := inspect_admitted looked
          refine ⟨by dsimp only; rw [List.append_assoc]; rfl, front, back ++ chunks.flatten, data, frames, decoder, ?_, taken,
            decisive⟩
          rw [List.flatten_cons, split, List.append_assoc]

/-! ## The decision -/

theorem inspect_append (qualifiedLate : Bool) (probe : Probe) (first second : List UInt8) :
    probe.inspect qualifiedLate (first ++ second) =
      match probe.inspect qualifiedLate first with
      | (next, some state) => (next, some state)
      | (next, none) => next.inspect qualifiedLate second := by
  induction first generalizing probe with
  | nil => rfl
  | cons byte first ih =>
    rw [List.cons_append, inspect, inspect]
    dsimp only
    rcases probe.decoder.feed [byte] with error | ⟨decoder, frames⟩
    · rfl
    · dsimp only
      cases frames.head? with
      | some data =>
        dsimp only
        split
        · rfl
        · split <;> rfl
      | none =>
        dsimp only
        split
        · rfl
        · exact ih _

/-- The verdict of the bytes when nothing is late. -/
def verdict (probe : Probe) (bytes : List UInt8) (ending : Option GatewayError) : SampleState :=
  (probe.inspect false bytes).2.getD (if ending = none then .ssePrologRejected else .ssePrologReadError)

theorem inspect_late (qualifiedLate : Bool) (probe : Probe) (bytes : List UInt8)
    (unlimited : (probe.inspect qualifiedLate bytes).2 ≠ some .ssePrologTimeout) :
    probe.inspect qualifiedLate bytes = probe.inspect false bytes := by
  induction bytes generalizing probe with
  | nil => rfl
  | cons byte bytes ih =>
    rw [inspect] at unlimited ⊢
    rw [inspect]
    dsimp only at unlimited ⊢
    rcases fed : probe.decoder.feed [byte] with error | ⟨decoder, frames⟩
    · rfl
    · rw [fed] at unlimited
      dsimp only at unlimited ⊢
      cases front : frames.head? with
      | some data =>
        rw [front] at unlimited
        dsimp only at unlimited ⊢
        split
        · rfl
        · cases qualifiedLate with
          | false => rfl
          | true =>
            rename_i qualifies
            rw [if_neg qualifies] at unlimited
            exact absurd rfl unlimited
      | none =>
        rw [front] at unlimited
        dsimp only at unlimited ⊢
        split
        · rfl
        · rename_i room
          rw [if_neg room] at unlimited
          exact ih _ unlimited

theorem run_verdict {clock : Clock} {index fetched : Nat} {replay : List (List UInt8)}
    (unlimited : (probe.run clock ending index fetched replay chunks).state.Unlimited) :
    (probe.run clock ending index fetched replay chunks).state = probe.verdict chunks.flatten ending := by
  induction chunks generalizing probe index fetched replay with
  | nil => exact atEnd_unlimited unlimited
  | cons chunk chunks ih =>
    rw [run] at unlimited ⊢
    split at unlimited
    · exact absurd rfl unlimited.1
    · rename_i inTime
      rw [if_neg inTime]
      split at unlimited
      · exact absurd rfl unlimited.2
      · rename_i room
        rw [if_neg room, verdict, List.flatten_cons, inspect_append]
        rcases looked : probe.inspect clock.qualifiedLate chunk with ⟨next, none | state⟩ <;> rw [looked] at unlimited
        · have same := inspect_late clock.qualifiedLate probe chunk (by rw [looked]; exact nofun)
          rw [← same, looked]
          exact ih unlimited
        · have same := inspect_late clock.qualifiedLate probe chunk
            (by rw [looked]; exact fun late => unlimited.1 (Option.some.inj late))
          rw [← same, looked]
          rfl

end Probe
end

/-! ## Whole streams -/

/-- The frames of the first bytes of a stream, line by line. -/
def lineFrames (bytes : List UInt8) : Reading Text GatewayError OpenFrame := OpenFrame.start.readLines (lines bytes)

/-- The chunk that completes the first frame of the stream holds no failure. -/
def FirstFrameShown (chunks : List (List UInt8)) : Prop :=
  ∃ before chunk after frame, chunks = before ++ chunk :: after ∧ (lineFrames before.flatten).1 = [] ∧
    (lineFrames (before.flatten ++ chunk)).1 ≠ [] ∧ (lineFrames (before.flatten ++ chunk)).2 = .ok frame

theorem shown_iff (chunks : List (List UInt8)) : SseDecoder.default.Shown chunks ↔ FirstFrameShown chunks := by
  have agrees : ∀ bytes, Same Agrees (read SseDecoder.step .default bytes) (lineFrames bytes) :=
    SseDecoder.read_agrees SseDecoder.default_agrees rfl
  constructor
  · rintro ⟨before, chunk, after, next, split, none, some, ok⟩
    obtain ⟨frame, ends⟩ := (agrees (before.flatten ++ chunk)).ok_left ok
    exact ⟨before, chunk, after, frame, split, (agrees _).1 ▸ none, (agrees _).1 ▸ some, ends⟩
  · rintro ⟨before, chunk, after, frame, split, none, some, ok⟩
    obtain ⟨next, ends⟩ := (agrees (before.flatten ++ chunk)).ok_right ok
    exact ⟨before, chunk, after, next, split, (agrees _).1 ▸ none, (agrees _).1 ▸ some, ends⟩

/-- An admitted stream is handed on unchanged. Its first frame in normal decoding is the one that
was qualified exactly when the chunk of that frame holds no failure. Without limits the decision
does not depend on the chunks. -/
theorem admitSseProlog_transparent [JsonText] (clock again : Clock) (stream other : ByteStream)
    (bytes : stream.chunks.flatten = other.chunks.flatten) (ending : stream.ending = other.ending) :
    ((admitSseProlog clock stream).state = .ssePrologAdmitted →
      (admitSseProlog clock stream).result = .ok stream ∧ ∃ data, (admitSseProlog clock stream).decisive = some data ∧
        ((SseDecoder.default.feedAll stream.chunks).1.head? = some data ↔ FirstFrameShown stream.chunks)) ∧
    ((admitSseProlog clock stream).state.Unlimited → (admitSseProlog again other).state.Unlimited →
      (admitSseProlog clock stream).state = (admitSseProlog again other).state) := by
  constructor
  · intro admitted
    obtain ⟨handed, front, back, data, frames, decoder, split, taken, decisive⟩ := Probe.run_admitted admitted
    refine ⟨?_, data, decisive, ?_⟩
    · simp only [admitSseProlog] at admitted ⊢
      rw [if_pos admitted, handed]
      rfl
    · rw [← shown_iff]
      refine SseDecoder.feedAll_head ?_
      have normal : read SseDecoder.step .default front = (data :: frames, .ok decoder.relaxed) :=
        SseDecoder.read_relaxed taken
      rw [split, read_append, normal]
      rfl
  · intro unlimited likewise
    have first : (admitSseProlog clock stream).state = Probe.start.verdict stream.chunks.flatten stream.ending :=
      Probe.run_verdict unlimited
    have second : (admitSseProlog again other).state = Probe.start.verdict other.chunks.flatten other.ending :=
      Probe.run_verdict likewise
    rw [first, second, bytes, ending]

namespace Qualified

/-- The first event of a response. -/
def event : Text := "\x7b\"response\":\x7b\"id\":\"r\"\x7d,\"type\":\"response.created\"\x7d".toList

/-- A parser that knows the text of that event only. -/
@[reducible] def eventText : JsonText where
  toJsonPrint := Json.written
  parse text := if text = event then some (.build [("response", .build [("id", .string "r".toList)]),
    ("type", .string "response.created".toList)]) else none

def frame : List UInt8 := Spelling.utf8 ("data: ".toList ++ event ++ "\n\n".toList)

def punctual : Clock := ⟨fun _ => .inTime, false⟩

end Qualified

open Qualified in
theorem admitSseProlog_transparent_cut : letI := eventText
    (admitSseProlog punctual ⟨[frame, Malformed.line], none⟩).result = .ok ⟨[frame, Malformed.line], none⟩ ∧
      (admitSseProlog punctual ⟨[frame, Malformed.line], none⟩).state =
        (admitSseProlog punctual ⟨[frame ++ Malformed.line], none⟩).state := by
  let _ := eventText
  have both := admitSseProlog_transparent punctual punctual ⟨[frame, Malformed.line], none⟩ ⟨[frame ++ Malformed.line], none⟩
    (by decide +kernel) rfl
  exact ⟨(both.1 (by decide +kernel)).1, both.2 (by unfold SampleState.Unlimited; decide +kernel)
    (by unfold SampleState.Unlimited; decide +kernel)⟩

open Qualified in
/-- A line that is not UTF-8 in the chunk of the qualified frame hides that frame from normal decoding. -/
theorem admitted_frame_hidden : letI := eventText
    (admitSseProlog punctual ⟨[frame ++ Malformed.line], none⟩).state = .ssePrologAdmitted ∧
      (admitSseProlog punctual ⟨[frame ++ Malformed.line], none⟩).decisive = some event ∧
      SseDecoder.default.feedAll [frame ++ Malformed.line] = ([], .error notUtf8) := by
  refine ⟨by decide +kernel, by decide +kernel, by decide +kernel⟩

end Wi.Codex
