import Wi.Framing

/-! What `receive` hands over, and when it does not depend on the chunks of the stream. -/
namespace Wi.Codex
open Reading

variable {α : Type} {wire : SseWire} {chunks : List (List UInt8)}

section
variable [JsonText]

theorem handOver_append (first second : List Text) :
    handOver (first ++ second) = bind (handOver first) fun _ => handOver second := by
  induction first with
  | nil => rfl
  | cons frame first ih =>
    rw [List.cons_append, handOver, handOver]
    split
    · exact ih
    · cases JsonText.parse frame with
      | none => rfl
      | some value =>
        dsimp only
        rw [ih, bind_assoc]

theorem values_bind {β : Type} (reading : Reading Text GatewayError α) (next : α → Reading Text GatewayError β) :
    values (bind reading next) = bind (values reading) fun value => values (next value) := by
  obtain ⟨frames, error | value⟩ := reading
  · simp only [values, bind_error, bind_assoc]
  · simp only [values, bind_ok, bind_assoc, handOver_append]
    rfl

theorem handOver_dropWhile (frames : List Text) : handOver frames = handOver (frames.dropWhile skipped) := by
  induction frames with
  | nil => rfl
  | cons frame frames ih =>
    rw [List.dropWhile_cons, handOver]
    split
    · exact ih
    · rename_i visible
      rw [handOver, if_neg visible]

/-- The rest of a stream after the chunks were fed to the decoder. -/
def SseDecoder.ended (decoder : SseDecoder) (ending : Option GatewayError) : Reading Text GatewayError Unit :=
  match ending with
  | some error => fail error
  | none => bind (reading decoder.finish) fun _ => done ()

/-- What the wire hands over, chunk by chunk: a chunk that fails hands over none of its frames. -/
def outcome (ending : Option GatewayError) : SseDecoder → Nat → List (List UInt8) → Reading Json GatewayError Unit
  | decoder, _, [] => values (decoder.ended ending)
  | decoder, received, chunk :: chunks =>
    if maxResponseBytes < received + chunk.length then fail .streamTooLarge
    else match decoder.feed chunk with
      | .error error => fail error
      | .ok (decoder, frames) => bind (handOver frames) fun _ => outcome ending decoder (received + chunk.length) chunks

namespace SseWire

/-- What the wire still hands over. -/
def rest (wire : SseWire) : Reading Json GatewayError Unit :=
  bind (handOver wire.frames) fun _ =>
    if wire.eof then done () else outcome wire.stream.ending wire.decoder wire.received wire.stream.chunks

/-- What one call says of the rest. -/
def Answers (reading : Reading Json GatewayError Unit) (answer : GatewayResult (Option Json) × SseWire) : Prop :=
  match answer with
  | (.ok (some value), next) => reading = bind ([value], .ok ()) fun _ => next.rest
  | (.ok none, _) => reading = done ()
  | (.error error, _) => reading = fail error

theorem handed_none (none : wire.handed = none) : handOver wire.frames = done () := by
  unfold handed at none
  rw [handOver_dropWhile]
  split at none
  · rename_i empty
    rw [empty]
    rfl
  · exact nomatch none

theorem handed_some {next : SseWire} {answer : GatewayResult (Option Json)}
    (some : wire.handed = some (answer, next)) : Answers wire.rest (answer, next) := by
  unfold handed at some
  split at some
  · exact nomatch some
  · rename_i frame frames front
    cases some
    have visible : skipped frame = false := by
      have head := List.head?_dropWhile_not skipped wire.frames
      rw [front] at head
      simpa using head
    unfold rest
    rw [handOver_dropWhile, front, handOver, if_neg (Bool.eq_false_iff.mp visible)]
    cases JsonText.parse frame with
    | none => rfl
    | some value => exact bind_assoc _ _ _

theorem receiveEnd_answers (last : wire.stream.chunks = []) : Answers wire.rest wire.receiveEnd := by
  unfold receiveEnd
  cases front : wire.handed with
  | some result => exact handed_some front
  | none =>
    have none := handed_none front
    unfold rest
    rw [none, done_bind, last, outcome]
    dsimp only
    cases wire.eof with
    | true => rfl
    | false =>
      cases wire.stream.ending with
      | some error => rfl
      | none =>
        simp only [SseDecoder.ended, Bool.false_eq_true, if_false]
        cases wire.decoder.finish with
        | error error => rfl
        | ok result =>
          obtain ⟨decoder, frames⟩ := result
          have whole : values (bind (reading (.ok (decoder, frames))) fun _ => done ()) = handOver frames := by
            simp only [reading, bind_ok, values, done, List.append_nil]
            exact bind_done _
          rw [whole]
          dsimp only
          cases last : handed { wire with decoder := decoder, frames := frames, eof := true } with
          | none => exact handed_none last
          | some result =>
            have answers := handed_some last
            have same : rest { wire with decoder := decoder, frames := frames, eof := true } = handOver frames := bind_done _
            rw [same] at answers
            exact answers

theorem receiveFrom_answers (stream : wire.stream.chunks = chunks) :
    Answers wire.rest (wire.receiveFrom chunks) := by
  induction chunks generalizing wire with
  | nil => exact receiveEnd_answers stream
  | cons chunk chunks ih =>
    rw [receiveFrom]
    cases front : wire.handed with
    | some result => exact handed_some front
    | none =>
      have none := handed_none front
      unfold rest
      rw [none, done_bind, stream, outcome]
      dsimp only
      cases wire.eof with
      | true => rfl
      | false =>
        simp only [Bool.false_eq_true, if_false]
        split
        · rfl
        · cases wire.decoder.feed chunk with
          | error error => rfl
          | ok result =>
            obtain ⟨decoder, frames⟩ := result
            exact ih rfl

theorem receive_answers (wire : SseWire) : Answers wire.rest wire.receive := receiveFrom_answers rfl

end SseWire

theorem delivers_iff_rest {values : List Json} {ending : Except GatewayError Unit} :
    Delivers wire values ending ↔ wire.rest = (values, ending) := by
  constructor
  · intro delivers
    induction delivers with
    | @value wire next value values ending received _ ih =>
      have answers := SseWire.receive_answers wire
      rw [received] at answers
      refine Eq.trans answers ?_
      rw [ih]
      rfl
    | @ended wire next received =>
      have answers := SseWire.receive_answers wire
      rw [received] at answers
      exact answers
    | @failed wire next error received =>
      have answers := SseWire.receive_answers wire
      rw [received] at answers
      exact answers
  · intro same
    induction values generalizing wire with
    | nil =>
      have answers := SseWire.receive_answers wire
      rcases received : wire.receive with ⟨error | none | value, next⟩
      · rw [received] at answers
        cases same.symm.trans answers
        exact .failed received
      · rw [received] at answers
        cases same.symm.trans answers
        exact .ended received
      · rw [received] at answers
        exact nomatch same.symm.trans answers
    | cons value values ih =>
      have answers := SseWire.receive_answers wire
      rcases received : wire.receive with ⟨error | none | front, next⟩
      · rw [received] at answers
        exact nomatch same.symm.trans answers
      · rw [received] at answers
        exact nomatch same.symm.trans answers
      · rw [received] at answers
        have split := same.symm.trans answers
        rw [bind_ok] at split
        cases split
        exact .value received (ih rfl)

/-! ## Where the chunks are cut -/

/-- The bytes after a stream was read for a while, up to the size limit of a response. -/
def SseDecoder.opened (decoder : SseDecoder) (received : Nat) (bytes : List UInt8) : Reading Text GatewayError SseDecoder :=
  if received + bytes.length ≤ maxResponseBytes then read step decoder bytes
  else bind (read step decoder (bytes.take (maxResponseBytes - received))) fun _ => fail .streamTooLarge

end

variable {decoder : SseDecoder} {received : Nat} {frames : List Text} {error : GatewayError}

namespace SseDecoder

theorem opened_append (decoder : SseDecoder) (received : Nat) (first second : List UInt8) :
    decoder.opened received (first ++ second) =
      bind (decoder.opened received first) fun decoder => decoder.opened (received + first.length) second := by
  unfold opened
  by_cases within : received + first.length ≤ maxResponseBytes
  · rw [if_pos within]
    by_cases all : received + (first ++ second).length ≤ maxResponseBytes
    · have rest : received + first.length + second.length ≤ maxResponseBytes := by
        rw [List.length_append] at all
        omega
      simp only [if_pos all, if_pos rest]
      exact read_append first second
    · have rest : ¬received + first.length + second.length ≤ maxResponseBytes := by
        rw [List.length_append] at all
        omega
      have cut : (first ++ second).take (maxResponseBytes - received) =
          first ++ second.take (maxResponseBytes - (received + first.length)) := by
        rw [List.take_append, List.take_of_length_le (by omega), Nat.sub_sub]
      simp only [if_neg all, if_neg rest, cut, read_append, bind_assoc]
  · have all : ¬received + (first ++ second).length ≤ maxResponseBytes := by
      rw [List.length_append]
      omega
    have cut : (first ++ second).take (maxResponseBytes - received) = first.take (maxResponseBytes - received) :=
      List.take_append_of_le_length (by omega)
    rw [if_neg within, if_neg all, cut, bind_assoc]
    rfl

/-- What reading can do to a decoder in its normal mode. -/
def Normally : Reading Text GatewayError SseDecoder → Prop
  | (_, .ok next) => next.strictProlog = false
  | (_, .error error) => error = .streamTooLarge ∨ error = notUtf8

theorem finishLine_normally (normal : decoder.strictProlog = false) :
    Normally (reading decoder.finishLine) := by
  rw [finishLine_normal decoder normal]
  cases lineText (!decoder.firstLineSeen) decoder.line with
  | none => exact .inr rfl
  | some text => exact (acceptLine_mode _ text).2.trans normal

theorem step_normally (normal : decoder.strictProlog = false) (byte : UInt8) :
    Normally (decoder.step byte) := by
  simp only [step, feedByte]
  split
  · exact normal
  · have finished : Normally (reading { decoder with afterCr := false, frameBytes := decoder.frameBytes + 1 }.finishLine) :=
      finishLine_normally normal
    split
    · exact .inl rfl
    · split
      · cases result : finishLine { decoder with afterCr := false, frameBytes := decoder.frameBytes + 1 } with
        | error error =>
          rw [result] at finished
          exact finished
        | ok next =>
          rw [result] at finished
          exact finished
      · split
        · exact finished
        · exact normal

theorem read_normally (normal : decoder.strictProlog = false) (bytes : List UInt8) :
    Normally (read step decoder bytes) := by
  induction bytes generalizing decoder with
  | nil => exact normal
  | cons byte bytes ih =>
    have taken := step_normally normal byte
    rw [read_cons]
    rcases result : step decoder byte with ⟨frames, error | next⟩
    · rw [result] at taken
      exact taken
    · rw [result] at taken
      have rest := ih taken
      rcases ended : read step next bytes with ⟨more, error | last⟩ <;> rw [bind_ok, ended] <;> rw [ended] at rest <;>
        exact rest

theorem opened_error (normal : decoder.strictProlog = false) {bytes : List UInt8}
    (failed : decoder.opened received bytes = (frames, .error error)) :
    error = .streamTooLarge ∨ error = notUtf8 := by
  unfold opened at failed
  split at failed
  · have cases := read_normally normal bytes
    rw [failed] at cases
    exact cases
  · have cases := read_normally normal (bytes.take (maxResponseBytes - received))
    rcases taken : read step decoder (bytes.take (maxResponseBytes - received)) with ⟨front, other | next⟩
    · rw [taken] at failed cases
      cases failed
      exact cases
    · rw [taken] at failed
      cases failed
      exact .inl rfl

end SseDecoder

/-- The frames that are not passed over. -/
def visible (frames : List Text) : List Text := frames.filter (!skipped ·)

section
variable [JsonText]

/-- Frames that are passed over do not come before a failure that is not about JSON; others do. -/
theorem values_fail {code : GatewayError} (other : code ≠ notJson) :
    (values (frames, .error error) : Reading Json GatewayError Unit) = fail code ↔ visible frames = [] ∧ error = code := by
  induction frames with
  | nil =>
    constructor
    · intro same
      cases same
      exact ⟨rfl, rfl⟩
    · rintro ⟨_, rfl⟩
      rfl
  | cons frame frames ih =>
    unfold values handOver visible
    rw [List.filter_cons]
    by_cases passed : skipped frame = true
    · rw [if_pos passed, passed]
      exact ih
    · rw [if_neg passed, Bool.eq_false_iff.mpr passed]
      simp only [Bool.not_false, if_true, reduceCtorEq, false_and, iff_false]
      intro same
      cases parsed : JsonText.parse frame with
      | none =>
        rw [parsed] at same
        cases same
        exact other rfl
      | some value =>
        rw [parsed] at same
        dsimp only at same
        rw [bind_assoc, bind_ok] at same
        exact nomatch same

theorem values_error (frames : List Text) (error : GatewayError) (value : α) :
    (values (frames, .error error)).2 ≠ .ok value := by
  unfold values
  dsimp only
  rcases handOver frames with ⟨front, other | ⟨⟩⟩
  · rw [bind_error]
    exact nofun
  · rw [bind_ok]
    exact nofun

omit [JsonText] in
theorem bind_cancel {β ω ε : Type} {front : List ω} {value : α} {first second : α → Reading ω ε β} :
    bind (front, .ok value) first = bind (front, .ok value) second ↔ first value = second value := by
  rw [bind_ok, bind_ok, Prod.ext_iff, Prod.ext_iff]
  simp

/-- No frame is completed in the chunk whose reading fails, and a chunk that goes beyond the
size limit holds no other failure. -/
def Unhidden (decoder : SseDecoder) (received : Nat) (chunks : List (List UInt8)) : Prop :=
  ∀ before chunk after error, chunks = before ++ chunk :: after →
    (∃ next, (values (decoder.opened received before.flatten)).2 = .ok next) →
    (decoder.opened received (before.flatten ++ chunk)).2 = .error error →
    visible (decoder.opened received (before.flatten ++ chunk)).1 = visible (decoder.opened received before.flatten).1 ∧
      (maxResponseBytes < received + (before.flatten ++ chunk).length → error = .streamTooLarge)

theorem unhidden_cons {next : SseDecoder} {chunk : List UInt8}
    (opened : decoder.opened received chunk = (frames, .ok next)) :
    Unhidden decoder received (chunk :: chunks) ↔
      ((handOver frames).2 = .ok () → Unhidden next (received + chunk.length) chunks) := by
  have later : ∀ bytes, decoder.opened received (chunk ++ bytes) =
      bind (frames, .ok next) fun next => next.opened (received + chunk.length) bytes := fun bytes => by
    rw [SseDecoder.opened_append, opened]
  have handed : ∀ bytes, (∃ last, (values (decoder.opened received (chunk ++ bytes))).2 = .ok last) ↔
      (handOver frames).2 = .ok () ∧ ∃ last, (values (next.opened (received + chunk.length) bytes)).2 = .ok last := by
    intro bytes
    rw [later, values_bind]
    unfold values
    rcases handOver frames with ⟨front, error | ⟨⟩⟩
    · simp
    · simp only [bind_ok, true_and]
  constructor
  · intro unhidden good before piece after error split ok failed
    have result := unhidden (chunk :: before) piece after error (by rw [split]; rfl)
    rw [List.flatten_cons, List.append_assoc, handed, later, later] at result
    have clear := result ⟨good, ok⟩ failed
    simp only [bind_ok, visible, List.filter_append, List.append_cancel_left_eq, List.length_append] at clear
    exact ⟨clear.1, fun long => clear.2 (by rw [List.length_append] at long; omega)⟩
  · intro unhidden before piece after error split ok failed
    cases before with
    | nil =>
      cases split
      rw [List.flatten_nil, List.nil_append, opened] at failed
      exact nomatch failed
    | cons first before =>
      cases split
      rw [List.flatten_cons] at ok
      rw [List.flatten_cons, List.append_assoc, later] at failed
      obtain ⟨good, ok⟩ := (handed _).mp ok
      obtain ⟨same, kind⟩ := unhidden good before piece after error rfl ok failed
      rw [List.flatten_cons, List.append_assoc, later, later]
      refine ⟨?_, fun long => kind ?_⟩
      · simp only [bind_ok, visible, List.filter_append] at same ⊢
        rw [same]
      · simp only [List.length_append] at long ⊢
        omega

theorem unhidden_fail {chunk : List UInt8} (room : received ≤ maxResponseBytes)
    (opened : decoder.opened received chunk = (frames, .error error)) :
    Unhidden decoder received (chunk :: chunks) ↔
      visible frames = [] ∧ (maxResponseBytes < received + chunk.length → error = .streamTooLarge) := by
  have start : decoder.opened received [] = done decoder := by
    rw [SseDecoder.opened, if_pos (by simpa using room)]
    rfl
  constructor
  · intro unhidden
    have result := unhidden [] chunk chunks error rfl
    rw [List.flatten_nil, List.nil_append, start, opened] at result
    exact result ⟨decoder, rfl⟩ rfl
  · rintro ⟨clear, kind⟩ before piece after failure split ok failed
    cases before with
    | nil =>
      cases split
      rw [List.flatten_nil, List.nil_append, opened] at failed ⊢
      cases failed
      rw [start]
      exact ⟨clear, kind⟩
    | cons first before =>
      cases split
      obtain ⟨last, ok⟩ := ok
      rw [List.flatten_cons, SseDecoder.opened_append, opened, bind_error] at ok
      exact absurd ok (values_error frames error last)

theorem outcome_eq_iff (ending : Option GatewayError) (chunks : List (List UInt8))
    (normal : decoder.strictProlog = false) (room : received ≤ maxResponseBytes) :
    outcome ending decoder received chunks =
        values (bind (decoder.opened received chunks.flatten) fun decoder => decoder.ended ending) ↔
      Unhidden decoder received chunks := by
  induction chunks generalizing decoder received with
  | nil =>
    have start : decoder.opened received [] = done decoder := by
      rw [SseDecoder.opened, if_pos (by simpa using room)]
      rfl
    rw [List.flatten_nil, start, done_bind, outcome]
    refine iff_of_true rfl fun before chunk after error split => ?_
    exact absurd split (by simp)
  | cons chunk chunks ih =>
    rw [outcome, List.flatten_cons, SseDecoder.opened_append, bind_assoc]
    rcases opened : decoder.opened received chunk with ⟨frames, error | next⟩
    · rw [unhidden_fail room opened, bind_error]
      have kinds := SseDecoder.opened_error normal opened
      by_cases long : maxResponseBytes < received + chunk.length
      · rw [if_pos long, eq_comm, values_fail (by decide)]
        simp only [long, forall_const]
      · have taken : read SseDecoder.step decoder chunk = (frames, .error error) := by
          rw [← opened, SseDecoder.opened, if_pos (Nat.le_of_not_lt long)]
        have other : error ≠ notJson := by
          rcases kinds with rfl | rfl <;> decide
        rw [if_neg long, SseDecoder.feed_eq_read, taken]
        simp only [long, false_imp_iff, and_true, SseDecoder.whole]
        rw [eq_comm, values_fail other]
        simp
    · rw [unhidden_cons opened]
      have within : received + chunk.length ≤ maxResponseBytes := by
        by_contra long
        rw [SseDecoder.opened, if_neg long] at opened
        exact bind_fail_ne_ok _ _ _ _ opened
      have taken : read SseDecoder.step decoder chunk = (frames, .ok next) := by
        rw [← opened, SseDecoder.opened, if_pos within]
      have kept : next.strictProlog = false := by
        have normally := SseDecoder.read_normally normal chunk
        rw [taken] at normally
        exact normally
      rw [if_neg (Nat.not_lt.mpr within), SseDecoder.feed_eq_read, taken, values_bind]
      have handing : values (frames, .ok next) = bind (handOver frames) fun _ => done next := rfl
      rw [handing, Reading.bind_assoc, SseDecoder.whole]
      dsimp only
      rcases handOver frames with ⟨front, error | ⟨⟩⟩
      · exact iff_of_true rfl fun same => by cases same
      · rw [bind_cancel, done_bind, ih kept within]
        exact ⟨fun unhidden _ => unhidden, fun unhidden => unhidden rfl⟩

end

/-! ## Whole streams -/

theorem Same.eq {first second : Reading Text GatewayError Unit} (same : Same (fun _ _ => True) first second) : first = second := by
  obtain ⟨frames, error | ⟨⟩⟩ := first <;> obtain ⟨others, failure | ⟨⟩⟩ := second
  · obtain ⟨rfl, rfl⟩ := same
    rfl
  · exact same.2.elim
  · exact same.2.elim
  · obtain ⟨rfl, _⟩ := same
    rfl

section
variable {α β : Type} {related : α → β → Prop} {first : Reading Text GatewayError α} {second : Reading Text GatewayError β}

theorem Same.error_iff (same : Same related first second) (error : GatewayError) :
    first.2 = .error error ↔ second.2 = .error error := by
  obtain ⟨frames, failure | value⟩ := first <;> obtain ⟨others, other | value⟩ := second
  · have equal : failure = other := same.2
    simp [equal]
  · exact same.2.elim
  · exact same.2.elim
  · exact ⟨nofun, nofun⟩

theorem Same.ok_left (same : Same related first second) {value : α} (ok : first.2 = .ok value) : ∃ other, second.2 = .ok other := by
  obtain ⟨frames, failure | value⟩ := first <;> obtain ⟨others, failure | other⟩ := second
  · exact nomatch ok
  · exact same.2.elim
  · exact same.2.elim
  · exact ⟨other, rfl⟩

theorem Same.ok_right (same : Same related first second) {other : β} (ok : second.2 = .ok other) : ∃ value, first.2 = .ok value := by
  obtain ⟨frames, failure | value⟩ := first <;> obtain ⟨others, failure | other⟩ := second
  · exact nomatch ok
  · exact same.2.elim
  · exact same.2.elim
  · exact ⟨value, rfl⟩

theorem Same.values_ok [JsonText] (same : Same related first second) :
    (∃ value, (values first).2 = .ok value) ↔ ∃ value, (values second).2 = .ok value := by
  obtain ⟨frames, failure | value⟩ := first <;> obtain ⟨others, other | last⟩ := second
  · exact ⟨fun ⟨_, ok⟩ => absurd ok (values_error _ _ _), fun ⟨_, ok⟩ => absurd ok (values_error _ _ _)⟩
  · exact same.2.elim
  · exact same.2.elim
  · obtain ⟨equal, _⟩ := same
    unfold values
    dsimp only at equal ⊢
    rw [equal]
    rcases handOver others with ⟨front, other | ⟨⟩⟩
    · exact ⟨nofun, nofun⟩
    · exact ⟨fun _ => ⟨last, rfl⟩, fun _ => ⟨value, rfl⟩⟩

end

theorem opened_agrees (bytes : List UInt8) : Same Agrees (SseDecoder.default.opened 0 bytes) (framesSoFar bytes) := by
  unfold SseDecoder.opened framesSoFar
  rw [Nat.zero_add]
  split
  · exact SseDecoder.read_agrees SseDecoder.default_agrees rfl bytes
  · exact (SseDecoder.read_agrees SseDecoder.default_agrees rfl _).bind fun _ _ _ => ⟨rfl, rfl⟩

section
variable [JsonText]

theorem reference_eq_read (bytes : List UInt8) (ending : Option GatewayError) :
    reference bytes ending =
      values (bind (SseDecoder.default.opened 0 bytes) fun decoder => decoder.ended ending) := by
  unfold reference referenceFrames
  have same : Same (fun _ _ => True) (bind (SseDecoder.default.opened 0 bytes) fun decoder => decoder.ended ending)
      (bind (framesSoFar bytes) fun frame =>
        match ending with
        | some error => fail error
        | none => frame.conclude) := by
    refine (opened_agrees bytes).bind fun decoder frame agrees => ?_
    cases ending with
    | some error => exact ⟨rfl, rfl⟩
    | none =>
      have finished : Same (fun _ _ => True) (decoder.ended none) (bind frame.conclude done) :=
        (SseDecoder.finish_agrees agrees).bind fun _ _ _ => ⟨rfl, trivial⟩
      rw [bind_done] at finished
      exact finished
  exact congrArg values same.eq.symm

/-- No visible frame is completed in the chunk in which the reading of the stream fails, before
it fails, and a chunk that goes beyond the size limit of a response holds no bad line before. -/
def NothingHidden (chunks : List (List UInt8)) : Prop :=
  ∀ before chunk after error, chunks = before ++ chunk :: after →
    (∃ frame, (values (framesSoFar before.flatten)).2 = .ok frame) →
    (framesSoFar (before.flatten ++ chunk)).2 = .error error →
    visible (framesSoFar (before.flatten ++ chunk)).1 = visible (framesSoFar before.flatten).1 ∧
      (maxResponseBytes < (before.flatten ++ chunk).length → error = .streamTooLarge)

theorem unhidden_iff (chunks : List (List UInt8)) : Unhidden .default 0 chunks ↔ NothingHidden chunks := by
  have outputs : ∀ bytes, (SseDecoder.default.opened 0 bytes).1 = (framesSoFar bytes).1 := fun bytes => (opened_agrees bytes).1
  have errors : ∀ bytes error, (SseDecoder.default.opened 0 bytes).2 = .error error ↔ (framesSoFar bytes).2 = .error error :=
    fun bytes => (opened_agrees bytes).error_iff
  have ends : ∀ bytes, (∃ next, (values (SseDecoder.default.opened 0 bytes)).2 = .ok next) ↔
      ∃ frame, (values (framesSoFar bytes)).2 = .ok frame := fun bytes => (opened_agrees bytes).values_ok
  unfold Unhidden NothingHidden
  simp only [outputs, errors, ends, Nat.zero_add]

/-- A stream handed over in two ways of cutting it gives the same values and the same end, those
of its lines, exactly when neither way hides a frame behind a failure. -/
theorem receive_independent_of_chunks (chunks others : List (List UInt8)) (ending : Option GatewayError)
    (same : chunks.flatten = others.flatten) :
    (∃ values result, Delivers (.installed ⟨chunks, ending⟩) values result ∧
        Delivers (.installed ⟨others, ending⟩) values result ∧ reference chunks.flatten ending = (values, result)) ↔
      NothingHidden chunks ∧ NothingHidden others := by
  have installed : ∀ chunks, (SseWire.installed ⟨chunks, ending⟩).rest = outcome ending .default 0 chunks := fun _ => rfl
  rw [← unhidden_iff, ← unhidden_iff, ← outcome_eq_iff ending chunks rfl (Nat.zero_le _),
    ← outcome_eq_iff ending others rfl (Nat.zero_le _), ← same, ← reference_eq_read]
  simp only [delivers_iff_rest, installed]
  constructor
  · rintro ⟨values, result, first, second, whole⟩
    exact ⟨first.trans whole.symm, second.trans whole.symm⟩
  · rintro ⟨first, second⟩
    exact ⟨_, _, first, second, rfl⟩

end

namespace Malformed

def one : Json := .number ['1']

/-- A parser that knows the number one only. -/
@[reducible] def oneText : JsonText where
  toJsonPrint := Json.written
  parse text := if text = ['1'] then some one else none

/-- One frame and one line that is not UTF-8. -/
def frame : List UInt8 := "data: 1\n\n".toUTF8.toList
def line : List UInt8 := [0xff, 10]

end Malformed

open Malformed in
theorem receive_independent_of_late_cut : letI := oneText
    NothingHidden [frame, line] ∧ NothingHidden [frame, [0xff], [10]] := by
  let _ := oneText
  refine (receive_independent_of_chunks _ _ none (by decide +kernel)).mp ⟨[one], .error notUtf8, ?_, ?_, by decide +kernel⟩
  · exact delivers_iff_rest.mpr (by decide +kernel)
  · exact delivers_iff_rest.mpr (by decide +kernel)

open Malformed in
/-- A line that is not UTF-8 hides the frame before it exactly when they share a chunk. -/
theorem malformed_line_hides_frame : letI := oneText
    Delivers (.installed ⟨[frame ++ line], none⟩) [] (.error notUtf8) ∧
      Delivers (.installed ⟨[frame, line], none⟩) [one] (.error notUtf8) ∧
      reference (frame ++ line) none = ([one], .error notUtf8) := by
  let _ := oneText
  exact ⟨delivers_iff_rest.mpr (by decide +kernel), delivers_iff_rest.mpr (by decide +kernel), by decide +kernel⟩

end Wi.Codex
