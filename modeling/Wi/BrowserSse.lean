import Wi.Json
import Wi.Reading
import Wi.Utf8Stream

/-! The parser of server-sent events in the browser. It decodes through one line end at a time,
so that the records before a bad byte are handed over whatever the chunks are. -/
namespace Wi.Browser
open Reading Utf8Stream

inductive ProtocolErrorCategory where
  | invalidSchema | unsupportedVersion | invalidJson | unexpectedMediaType | invalidIdentity | identityMismatch
  | invalidDecimal | invalidCursor | invalidUtf8 | invalidSse | consumerFailed | invalidToken | invalidRequest
  deriving DecidableEq

/-- What `SseFrames` is given: the JSON parser, the validation of a frame, and the consumer,
which may throw at a record after the records before it. -/
structure Frames (R : Type) where
  parseJson : Text → Except ProtocolErrorCategory Json
  validateFrame : Option Text → Option Text → Json → Except ProtocolErrorCategory (R × Bool)
  onRecord : List R → R → Option ProtocolErrorCategory

structure SseFrames (R : Type) where
  decoder : Decoder
  line : Text
  skipLF : Bool
  event : Option Text
  id : Option Text
  data : List Text
  ended : Bool
  /-- The records the consumer has got. -/
  records : List R

namespace SseFrames
variable {R : Type} (frames : Frames R)

def new : SseFrames R := ⟨.new, [], false, none, none, [], false, []⟩

def stop (s : SseFrames R) : SseFrames R := { s with ended := true, line := [], event := none, id := none, data := [] }

/-- A record counts as handed over also when its consumer throws. -/
def hand (s : SseFrames R) (record : R) : Reading R ProtocolErrorCategory (SseFrames R) :=
  ([record], match frames.onRecord s.records record with
    | some error => .error error
    | none => .ok { s with records := s.records ++ [record] })

def dispatch (s : SseFrames R) : Reading R ProtocolErrorCategory (SseFrames R) :=
  let cleared := { s with event := none, id := none, data := [] }
  if s.event.isNone ∧ s.id.isNone ∧ s.data.isEmpty then done cleared
  else if s.data.isEmpty then fail .invalidSse
  else match frames.parseJson (['\n'].intercalate s.data) with
    | .error error => fail error
    | .ok value =>
      match frames.validateFrame s.event s.id value with
      | .error error => fail error
      | .ok (record, terminal) => (if terminal then cleared.stop else cleared).hand frames record

def acceptLine (s : SseFrames R) (line : Text) : Reading R ProtocolErrorCategory (SseFrames R) :=
  if line.isEmpty then s.dispatch frames
  else if line.head? = some ':' then done s
  else
    let field := line.takeWhile (· != ':')
    let value := (line.dropWhile (· != ':')).drop 1
    let value := if value.head? = some ' ' then value.drop 1 else value
    if field = "event".toList then done { s with event := some value }
    else if field = "id".toList then done { s with id := some value }
    else if field = "data".toList then done { s with data := s.data ++ [value] }
    else done s

/-- One character of `consume`. -/
def take (s : SseFrames R) (character : Char) : Reading R ProtocolErrorCategory (SseFrames R) :=
  if s.ended then done s
  else if s.skipLF ∧ character = '\n' then done { s with skipLF := false }
  else if character = '\r' ∨ character = '\n' then
    { s with line := [], skipLF := character = '\r' }.acceptLine frames s.line
  else done { s with skipLF := false, line := s.line ++ [character] }

def consume (s : SseFrames R) (text : Text) : Reading R ProtocolErrorCategory (SseFrames R) := read (take frames) s text

/-- Decode some bytes and consume their text. -/
def decode (s : SseFrames R) (bytes : List UInt8) : Reading R ProtocolErrorCategory (SseFrames R) :=
  match s.decoder.decode bytes with
  | none => fail .invalidUtf8
  | some (decoder, text) => { s with decoder := decoder }.consume frames text

/-- The loop of `push`: `pending` are the bytes since the last line end. -/
def pushFrom (s : SseFrames R) (pending : List UInt8) : List UInt8 → Reading R ProtocolErrorCategory (SseFrames R)
  | [] => if s.ended ∨ pending = [] then done s else s.decode frames pending
  | byte :: bytes =>
    if s.ended then done s
    else if byte = 10 ∨ byte = 13 then
      bind (s.decode frames (pending ++ [byte])) fun s => s.pushFrom [] bytes
    else s.pushFrom (pending ++ [byte]) bytes

def push (s : SseFrames R) (bytes : List UInt8) : Reading R ProtocolErrorCategory (SseFrames R) :=
  if s.ended then done s else s.pushFrom frames [] bytes

/-- How a stream ended that did not fail. -/
inductive Ending where
  | terminal | clean
  deriving DecidableEq

def finish (s : SseFrames R) : Reading R ProtocolErrorCategory Ending :=
  if s.ended then done .terminal
  else match s.decoder.flush with
    | none => fail .invalidUtf8
    | some tail => bind (s.consume frames tail) fun _ => done .clean

/-- All chunks in order, then the end. After a failure the parser has ended and does nothing more. -/
def parse (chunks : List (List UInt8)) : Reading R ProtocolErrorCategory Ending :=
  bind (read (push frames) new chunks) (finish frames)

/-! ## What a stream means, line by line -/

/-- The value of a line that has the given field name. -/
def valueOf (name : String) (line : Text) : Option Text :=
  if line.takeWhile (· != ':') = name.toList then
    let value := (line.dropWhile (· != ':')).drop 1
    some (if value.head? = some ' ' then value.drop 1 else value)
  else none

/-- The text with each CR, LF or CRLF as one LF. -/
def newlines : Text → Text
  | [] => []
  | '\r' :: '\n' :: text => '\n' :: newlines text
  | character :: text => (if character = '\r' then '\n' else character) :: newlines text

/-- The lines that are ended. -/
def endedLines (text : Text) : List Text := ((newlines text).splitOn '\n').dropLast

/-- The record of the lines between two blank ones, and whether it is the last one. -/
def meaning (block : List Text) : Except ProtocolErrorCategory (Option (R × Bool)) :=
  let event := (block.filterMap (valueOf "event")).getLast?
  let id := (block.filterMap (valueOf "id")).getLast?
  let data := block.filterMap (valueOf "data")
  if event.isNone ∧ id.isNone ∧ data.isEmpty then .ok none
  else if data.isEmpty then .error .invalidSse
  else match frames.parseJson (['\n'].intercalate data) with
    | .error error => .error error
    | .ok value => (frames.validateFrame event id value).map some

/-- The records of the lines, up to the first bad block or the last record, and whether that came. -/
def deliver (seen : List R) (block : List Text) : List Text → Reading R ProtocolErrorCategory Bool
  | [] => done false
  | line :: lines =>
    if line ≠ [] then deliver seen (block ++ [line]) lines
    else match meaning frames block with
      | .error error => fail error
      | .ok none => deliver seen [] lines
      | .ok (some (record, terminal)) =>
        bind ([record], match frames.onRecord seen record with
          | some error => .error error
          | none => .ok ()) fun _ => if terminal then done true else deliver (seen ++ [record]) [] lines

/-- The text before the first byte that no text can have there, and whether the bytes are a whole text. -/
def textOf (decoder : Decoder) : List UInt8 → Text × Bool
  | [] => ([], decoder.needed = 0)
  | byte :: bytes => match decoder.step byte with
    | none => ([], false)
    | some (next, first) => (first ++ (textOf next bytes).1, (textOf next bytes).2)

def reference (bytes : List UInt8) : Reading R ProtocolErrorCategory Ending :=
  bind (deliver frames [] [] (endedLines (textOf .new bytes).1)) fun terminal =>
    if terminal then done .terminal else if (textOf .new bytes).2 then done .clean else fail .invalidUtf8

/-! ## Byte by byte -/

/-- A chunk of one byte. -/
def step (s : SseFrames R) (byte : UInt8) : Reading R ProtocolErrorCategory (SseFrames R) :=
  if s.ended then done s else s.decode frames [byte]

variable {frames}

theorem read_step_ended {s : SseFrames R} (ended : s.ended = true) (bytes : List UInt8) : read (step frames) s bytes = done s := by
  induction bytes with
  | nil => rfl
  | cons byte bytes ih =>
    rw [read_cons, step, if_pos ended, done_bind]
    exact ih

theorem consume_ended {s : SseFrames R} (ended : s.ended = true) (text : Text) : s.consume frames text = done s := by
  unfold consume
  induction text with
  | nil => rfl
  | cons character text ih =>
    rw [read_cons, take, if_pos ended, done_bind]
    exact ih

theorem hand_eq (s : SseFrames R) (record : R) : s.hand frames record =
    bind ([record], match frames.onRecord s.records record with
      | some error => .error error
      | none => .ok ()) fun _ => done { s with records := s.records ++ [record] } := by
  unfold hand
  cases frames.onRecord s.records record <;> rfl

/-! Lines are taken whatever the decoder is. -/

theorem hand_with (s : SseFrames R) (decoder : Decoder) (record : R) :
    ({ s with decoder := decoder }).hand frames record = bind (s.hand frames record) fun t => done { t with decoder := decoder } := by
  unfold hand
  dsimp only
  cases frames.onRecord s.records record <;> rfl

theorem dispatch_with (s : SseFrames R) (decoder : Decoder) :
    ({ s with decoder := decoder }).dispatch frames = bind (s.dispatch frames) fun t => done { t with decoder := decoder } := by
  unfold dispatch
  dsimp only
  split
  · rfl
  · split
    · rfl
    · cases frames.parseJson (['\n'].intercalate s.data) with
      | error error => rfl
      | ok value =>
        dsimp only
        cases frames.validateFrame s.event s.id value with
        | error error => rfl
        | ok result =>
          obtain ⟨record, terminal⟩ := result
          cases terminal
          · exact hand_with { s with event := none, id := none, data := [] } decoder record
          · exact hand_with (stop { s with event := none, id := none, data := [] }) decoder record

theorem take_with (s : SseFrames R) (decoder : Decoder) (character : Char) :
    ({ s with decoder := decoder }).take frames character = bind (s.take frames character) fun t => done { t with decoder := decoder } := by
  unfold take
  dsimp only
  split
  · rfl
  · split
    · rfl
    · split
      · unfold acceptLine
        dsimp only
        split
        · exact dispatch_with { s with line := [], skipLF := _ } decoder
        · repeat' split
          all_goals rfl
      · rfl

variable (frames) in
theorem consume_with (s : SseFrames R) (decoder : Decoder) (text : Text) :
    ({ s with decoder := decoder }).consume frames text = bind (s.consume frames text) fun t => done { t with decoder := decoder } := by
  unfold consume
  induction text generalizing s with
  | nil => rfl
  | cons character text ih =>
    rw [read_cons, read_cons, take_with, bind_assoc, bind_assoc]
    exact congrArg _ (funext fun t => ih t)

variable (frames) in
theorem consume_plain {s : SseFrames R} (running : s.ended = false) {text : Text}
    (plain : ∀ character ∈ text, ¬(character = '\r' ∨ character = '\n')) :
    ∃ t, s.consume frames text = done t ∧ t.ended = false ∧ t.decoder = s.decoder := by
  unfold consume
  induction text generalizing s with
  | nil => exact ⟨s, rfl, running, rfl⟩
  | cons character text ih =>
    obtain ⟨ordinary, rest⟩ := List.forall_mem_cons.mp plain
    have other : character ≠ '\n' := fun same => ordinary (.inr same)
    have taken : s.take frames character = done { s with skipLF := false, line := s.line ++ [character] } := by
      rw [take, if_neg (Bool.eq_false_iff.mp running), if_neg fun both => other both.2, if_neg ordinary]
    obtain ⟨t, read, ended, decoder⟩ := ih (s := { s with skipLF := false, line := s.line ++ [character] }) running rest
    exact ⟨t, by rw [read_cons, taken, done_bind, read], ended, decoder⟩

theorem step_plain {decoder next : Decoder} {byte : UInt8} {text : Text} (sound : decoder.Sound) (ordinary : byte ≠ 10 ∧ byte ≠ 13)
    (taken : decoder.step byte = some (next, text)) : ∀ character ∈ text, ¬(character = '\r' ∨ character = '\n') := by
  intro character member ends
  rcases ends with rfl | rfl
  · have same := Decoder.step_ascii sound taken member (by decide) (by decide)
    exact ordinary.2 (UInt8.toNat_inj.mp same.symm)
  · have same := Decoder.step_ascii sound taken member (by decide) (by decide)
    exact ordinary.1 (UInt8.toNat_inj.mp same.symm)

theorem decode_one (s : SseFrames R) (byte : UInt8) : s.decode frames [byte] = match s.decoder.step byte with
    | none => fail .invalidUtf8
    | some (decoder, text) => { s with decoder := decoder }.consume frames text := by
  unfold decode Decoder.decode
  cases s.decoder.step byte with
  | none => rfl
  | some result => exact congrArg _ (List.append_nil _)

theorem decode_eq_read {s : SseFrames R} (running : s.ended = false) (sound : s.decoder.Sound) {bytes : List UInt8}
    (plain : ∀ byte ∈ bytes.dropLast, byte ≠ 10 ∧ byte ≠ 13) : s.decode frames bytes = read (step frames) s bytes := by
  induction bytes generalizing s with
  | nil => rfl
  | cons byte bytes ih =>
    have first : s.step frames byte = s.decode frames [byte] := by
      rw [step, if_neg (Bool.eq_false_iff.mp running)]
    cases bytes with
    | nil =>
      rw [read_cons, first]
      exact (bind_done _).symm
    | cons second bytes =>
      obtain ⟨ordinary, rest⟩ := List.forall_mem_cons.mp plain
      rw [read_cons, first, decode_one]
      cases taken : s.decoder.step byte with
      | none =>
        unfold decode Decoder.decode
        rw [taken]
        rfl
      | some result =>
        obtain ⟨decoder, text⟩ := result
        -- The text before the line end puts nothing out, so a later failure loses nothing.
        obtain ⟨t, quiet, going, kept⟩ := consume_plain frames (s := { s with decoder := decoder }) running
          (step_plain sound ordinary taken)
        have later : t.decoder.Sound := kept ▸ Decoder.step_sound sound taken
        dsimp only
        rw [quiet, done_bind, ← ih going later rest]
        unfold decode
        rw [Decoder.decode, taken, kept]
        simp only [Option.bind_eq_bind, Option.bind_some]
        cases decoded : decoder.decode (second :: bytes) with
        | none => rfl
        | some result =>
          obtain ⟨last, more⟩ := result
          have front : ({ s with decoder := last } : SseFrames R).consume frames text = done { t with decoder := last } := by
            have both := consume_with frames { s with decoder := decoder } last text
            rw [quiet, done_bind] at both
            exact both
          refine (read_append text more).trans ?_
          unfold consume at front ⊢
          rw [front, done_bind]

/-! ## Chunk by chunk -/

theorem step_sound {s t : SseFrames R} {byte : UInt8} {records : List R} (sound : s.decoder.Sound)
    (done : s.step frames byte = (records, .ok t)) : t.decoder.Sound := by
  unfold step at done
  split at done
  · cases done
    exact sound
  · rw [decode_one] at done
    cases taken : s.decoder.step byte with
    | none =>
      rw [taken] at done
      exact nomatch done
    | some result =>
      obtain ⟨decoder, text⟩ := result
      rw [taken] at done
      dsimp only at done
      rw [consume_with] at done
      generalize s.consume frames text = reading at done
      obtain ⟨_, _ | u⟩ := reading
      · cases done
      · cases done
        exact Decoder.step_sound sound taken

theorem read_sound {s t : SseFrames R} {bytes : List UInt8} (sound : s.decoder.Sound)
    (done : (read (step frames) s bytes).2 = .ok t) : t.decoder.Sound :=
  read_invariant (fun s => s.decoder.Sound) (fun _ _ _ _ sound taken => step_sound sound taken) sound
    (Prod.ext rfl done)

theorem pushFrom_eq_read {s : SseFrames R} (sound : s.decoder.Sound) {pending : List UInt8} (bytes : List UInt8)
    (plain : ∀ byte ∈ pending, byte ≠ 10 ∧ byte ≠ 13) :
    s.pushFrom frames pending bytes = read (step frames) s (pending ++ bytes) := by
  induction bytes generalizing s pending with
  | nil =>
    rw [List.append_nil, pushFrom]
    split
    · rename_i quiet
      rcases quiet with ended | rfl
      · exact (read_step_ended ended pending).symm
      · rfl
    · rename_i open_
      rw [not_or] at open_
      exact decode_eq_read (Bool.eq_false_iff.mpr open_.1) sound fun byte member => plain byte (List.mem_of_mem_dropLast member)
  | cons byte bytes ih =>
    rw [pushFrom]
    split
    · rename_i ended
      exact (read_step_ended ended _).symm
    · rename_i running
      split
      · have whole : pending ++ byte :: bytes = (pending ++ [byte]) ++ bytes := by simp
        rw [whole, read_append, decode_eq_read (Bool.eq_false_iff.mpr running) sound (by simpa using plain)]
        refine bind_congr fun t ended => ?_
        exact ih (read_sound sound ended) nofun
      · rename_i ordinary
        rw [not_or] at ordinary
        have longer : ∀ other ∈ pending ++ [byte], other ≠ 10 ∧ other ≠ 13 := by
          rw [List.forall_mem_append, List.forall_mem_singleton]
          exact ⟨plain, ordinary⟩
        rw [ih sound longer, List.append_assoc]
        rfl

theorem push_eq_read {s : SseFrames R} (sound : s.decoder.Sound) (bytes : List UInt8) :
    s.push frames bytes = read (step frames) s bytes := by
  unfold push
  split
  · rename_i ended
    exact (read_step_ended ended bytes).symm
  · exact pushFrom_eq_read sound bytes nofun

theorem pushes_eq_read {s : SseFrames R} (sound : s.decoder.Sound) (chunks : List (List UInt8)) :
    read (push frames) s chunks = read (step frames) s chunks.flatten := by
  induction chunks generalizing s with
  | nil => rfl
  | cons chunk chunks ih =>
    rw [read_cons, List.flatten_cons, read_append, push_eq_read sound]
    exact bind_congr fun t ended => ih (read_sound sound ended)

/-! ## Line by line -/

theorem parse_text (s : SseFrames R) (bytes : List UInt8) : bind (read (step frames) s bytes) (finish frames) =
    bind (s.consume frames (textOf s.decoder bytes).1) fun t =>
      if t.ended then done .terminal else if (textOf s.decoder bytes).2 then done .clean else fail .invalidUtf8 := by
  induction bytes generalizing s with
  | nil =>
    rw [read_nil, done_bind, finish]
    split
    · rename_i ended
      simp [textOf, consume, ended]
    · rename_i running
      by_cases whole : s.decoder.needed = 0 <;> simp [textOf, consume, running, Decoder.flush, whole]
  | cons byte bytes ih =>
    cases ended : s.ended with
    | true => rw [read_step_ended ended, consume_ended ended, done_bind, done_bind, finish, if_pos ended, if_pos ended]
    | false =>
      rw [read_cons, step, if_neg (Bool.eq_false_iff.mp ended), decode_one, textOf]
      cases taken : s.decoder.step byte with
      | none => simp [consume, ended, fail]
      | some result =>
        obtain ⟨decoder, text⟩ := result
        have split : s.consume frames (text ++ (textOf decoder bytes).1) = bind (s.consume frames text) fun t =>
            t.consume frames (textOf decoder bytes).1 := read_append _ _
        dsimp only
        rw [bind_assoc, consume_with, bind_assoc, split, bind_assoc]
        refine congrArg _ (funext fun t => ?_)
        rw [done_bind, ih, consume_with, bind_assoc]
        rfl

/-- The fields of the open block. -/
structure Matches (s : SseFrames R) (seen : List R) (block : List Text) : Prop where
  event : s.event = (block.filterMap (valueOf "event")).getLast?
  id : s.id = (block.filterMap (valueOf "id")).getLast?
  data : s.data = block.filterMap (valueOf "data")
  records : s.records = seen
  running : s.ended = false

namespace Matches
variable {s : SseFrames R} {seen : List R} {block : List Text}

variable (frames) in
theorem acceptLine (held : Matches s seen block) {line : Text} (full : line ≠ []) : ∃ t, s.acceptLine frames line = done t ∧
    Matches t seen (block ++ [line]) ∧ t.line = s.line ∧ t.skipLF = s.skipLF := by
  obtain ⟨event, id, data, records, running⟩ := held
  rw [SseFrames.acceptLine, if_neg (by simpa using full)]
  by_cases comment : line.head? = some ':'
  · have name : line.takeWhile (· != ':') = [] := by
      cases line with
      | nil => rfl
      | cons first line => simp_all
    rw [if_pos comment]
    exact ⟨s, rfl, ⟨by simp [valueOf, name, event], by simp [valueOf, name, id], by simp [valueOf, name, data], records, running⟩,
      rfl, rfl⟩
  · rw [if_neg comment]
    dsimp only
    by_cases is_event : line.takeWhile (· != ':') = "event".toList
    · rw [if_pos is_event]
      exact ⟨_, rfl, ⟨by simp [valueOf, is_event], by simp [valueOf, is_event, id], by simp [valueOf, is_event, data], records, running⟩,
        rfl, rfl⟩
    · rw [if_neg is_event]
      by_cases is_id : line.takeWhile (· != ':') = "id".toList
      · rw [if_pos is_id]
        exact ⟨_, rfl, ⟨by simp [valueOf, is_id, event], by simp [valueOf, is_id], by simp [valueOf, is_id, data], records, running⟩,
          rfl, rfl⟩
      · rw [if_neg is_id]
        by_cases is_data : line.takeWhile (· != ':') = "data".toList
        · rw [if_pos is_data]
          exact ⟨_, rfl, ⟨by simp [valueOf, is_data, event], by simp [valueOf, is_data, id], by simp [valueOf, is_data, data], records,
            running⟩, rfl, rfl⟩
        · rw [if_neg is_data]
          exact ⟨s, rfl, ⟨by simp_all [valueOf], by simp_all [valueOf], by simp_all [valueOf], records, running⟩, rfl, rfl⟩

theorem dispatch (held : Matches s seen block) : s.dispatch frames = match meaning frames block with
    | .error error => fail error
    | .ok none => done { s with event := none, id := none, data := [] }
    | .ok (some (record, terminal)) =>
      (if terminal then stop { s with event := none, id := none, data := [] } else { s with event := none, id := none, data := [] }).hand
        frames record := by
  unfold SseFrames.dispatch meaning
  rw [← held.event, ← held.id, ← held.data]
  dsimp only
  split
  · rfl
  · split
    · rfl
    · cases frames.parseJson (['\n'].intercalate s.data) with
      | error error => rfl
      | ok value =>
        dsimp only
        cases frames.validateFrame s.event s.id value <;> rfl

theorem cleared (held : Matches s seen block) : Matches { s with event := none, id := none, data := [] } seen [] :=
  ⟨rfl, rfl, rfl, held.records, held.running⟩

end Matches

/-- The text after the LF of a CRLF. -/
def afterLF : Text → Text
  | '\n' :: text => text
  | text => text

theorem newlines_cr (text : Text) : newlines ('\r' :: text) = '\n' :: newlines (afterLF text) := by
  cases text with
  | nil => rfl
  | cons character text =>
    by_cases lf : character = '\n'
    · subst lf
      rfl
    · have kept : afterLF (character :: text) = character :: text := by
        unfold afterLF
        split
        · simp_all
        · rfl
      rw [kept]
      conv_lhs => unfold newlines
      split
      · simp_all
      · simp_all
      · rename_i same
        obtain ⟨rfl, rfl⟩ := List.cons.inj same
        rfl

theorem newlines_other {character : Char} (other : character ≠ '\r') (text : Text) :
    newlines (character :: text) = character :: newlines text := by
  conv_lhs => unfold newlines
  split <;> simp_all

theorem lines_ended {line : Text} (plain : '\n' ∉ line) (text : Text) :
    ((line ++ '\n' :: text).splitOn '\n').dropLast = line :: (text.splitOn '\n').dropLast := by
  have first : ∀ character ∈ line, (character == '\n') = false := by
    intro character member
    simp only [beq_eq_false_iff_ne]
    rintro rfl
    exact plain member
  rw [List.splitOn, List.splitOnP_append_cons_of_forall_mem first '\n' rfl, List.dropLast_cons_of_ne_nil (List.splitOnP_ne_nil _ _)]
  rfl

variable (frames) in
/-- The parser takes the ended lines one after the other. The induction is on the text, with the
open line and the open block arbitrary. -/
theorem consume_lines (text : Text) {s : SseFrames R} {seen : List R} {block : List Text} (held : Matches s seen block)
    (plain : '\n' ∉ s.line) : bind (s.consume frames text) (fun t => done t.ended) =
      deliver frames seen block ((s.line ++ newlines (if s.skipLF then afterLF text else text)).splitOn '\n').dropLast := by
  induction text generalizing s seen block with
  | nil =>
    have none : (if s.skipLF then afterLF [] else []) = ([] : Text) := by split <;> rfl
    rw [none, newlines, List.append_nil, List.splitOn_eq_singleton plain]
    exact congrArg done held.running
  | cons character text ih =>
    have ended (carriage : Bool) : bind (bind (({ s with line := [], skipLF := carriage } : SseFrames R).acceptLine frames s.line)
          fun t => t.consume frames text) (fun t => done t.ended) =
        deliver frames seen block (s.line :: ((newlines (if carriage then afterLF text else text)).splitOn '\n').dropLast) := by
      have open_ : Matches ({ s with line := [], skipLF := carriage } : SseFrames R) seen block :=
        ⟨held.event, held.id, held.data, held.records, held.running⟩
      by_cases full : s.line ≠ []
      · obtain ⟨t, accepted, next, line, skip⟩ := open_.acceptLine frames full
        have rest := ih next (by rw [line]; exact List.not_mem_nil)
        rw [line, skip, List.nil_append] at rest
        rw [accepted, done_bind, rest, deliver, if_pos full]
      · rw [not_not] at full
        have blank : ({ s with line := [], skipLF := carriage } : SseFrames R).acceptLine frames [] = _ := open_.dispatch
        rw [full, blank, deliver, if_neg (not_not.2 rfl)]
        cases meaning frames block with
        | error error => rfl
        | ok result =>
          cases result with
          | none => exact ih open_.cleared List.not_mem_nil
          | some result =>
            obtain ⟨record, terminal⟩ := result
            dsimp only
            rw [hand_eq, bind_assoc, bind_assoc]
            cases terminal with
            | false =>
              refine congr (congrArg bind (by rw [open_.records]; rfl)) (funext fun _ => ?_)
              exact ih ⟨rfl, rfl, rfl, congrArg (· ++ [record]) open_.records, held.running⟩ List.not_mem_nil
            | true =>
              refine congr (congrArg bind (by rw [open_.records]; rfl)) (funext fun _ => ?_)
              rw [done_bind, consume_ended rfl]
              rfl
    unfold consume
    rw [read_cons, take, if_neg (Bool.eq_false_iff.mp held.running)]
    by_cases skipped : s.skipLF = true ∧ character = '\n'
    · obtain ⟨skip, rfl⟩ := skipped
      have rest := ih (s := { s with skipLF := false }) ⟨held.event, held.id, held.data, held.records, held.running⟩ plain
      rw [if_pos ⟨skip, rfl⟩, done_bind, skip]
      exact rest
    · rw [if_neg skipped]
      by_cases carriage : character = '\r'
      · subst carriage
        have kept : (if s.skipLF then afterLF ('\r' :: text) else '\r' :: text) = '\r' :: text := by split <;> rfl
        rw [if_pos (.inl rfl), kept, newlines_cr, lines_ended plain]
        exact ended true
      · have skip (line_feed : character = '\n') : s.skipLF = false := by simpa [line_feed] using skipped
        have kept : (if s.skipLF then afterLF (character :: text) else character :: text) = character :: text := by
          split
          · rename_i skips
            unfold afterLF
            split
            · simp_all
            · rfl
          · rfl
        rw [kept, newlines_other carriage]
        by_cases line_feed : character = '\n'
        · subst line_feed
          rw [if_pos (.inr rfl), lines_ended plain]
          exact ended false
        · rw [if_neg (not_or.2 ⟨carriage, line_feed⟩), done_bind, List.append_cons s.line character (newlines text)]
          refine ih (s := { s with skipLF := false, line := s.line ++ [character] })
            ⟨held.event, held.id, held.data, held.records, held.running⟩ ?_
          simpa using ⟨plain, fun same => line_feed same.symm⟩

/-- The chunks of a stream do not matter: neither for the records, nor for how the stream ends. Both
are those of its lines. -/
theorem parse_independent_of_chunks (frames : Frames R) (chunks others : List (List UInt8))
    (same : chunks.flatten = others.flatten) :
    parse frames chunks = parse frames others ∧ parse frames chunks = reference frames chunks.flatten := by
  have sound : (new : SseFrames R).decoder.Sound := Decoder.closed_sound rfl
  have held : Matches (new : SseFrames R) [] [] := ⟨rfl, rfl, rfl, rfl, rfl⟩
  have lines (text : Text) := consume_lines frames text held List.not_mem_nil
  unfold parse
  rw [pushes_eq_read sound, pushes_eq_read sound, ← same]
  refine ⟨rfl, ?_⟩
  rw [parse_text, reference, endedLines]
  refine Eq.trans ?_ (congrArg (bind · _) (lines _))
  rw [bind_assoc]
  rfl

end SseFrames

/-! ## The stream of a conversation -/

/-- The validators of the views a stream carries. -/
structure Validators (E C H : Type) where
  validateErrorView : Json → Except ProtocolErrorCategory E
  validateClosedView : Json → Except ProtocolErrorCategory C
  validateConversationChanges : Json → Except ProtocolErrorCategory H
  nextAfter : H → Text

inductive ConversationSseRecord (E C H : Type) where
  | conversation (id : Text) (changes : H)
  | error (error : E)
  | closed (closed : C)
  deriving DecidableEq

namespace Validators
variable {E C H : Type} (validators : Validators E C H)

def ending (event id : Option Text) (value : Json) : Except ProtocolErrorCategory (ConversationSseRecord E C H) :=
  if id.isSome then .error .invalidSse
  else if event = some "wi.error".toList then .error <$> validators.validateErrorView value
  else if event = some "wi.closed".toList then .closed <$> validators.validateClosedView value
  else .error .invalidSse

/-- The frames of `WiConversationSseParser`. -/
def validateFrame (event id : Option Text) (value : Json) :
    Except ProtocolErrorCategory (ConversationSseRecord E C H × Bool) :=
  if event ≠ some "wi.conversation".toList then (·, true) <$> validators.ending event id value
  else match id with
    | none => .error .invalidSse
    | some id => do
      let changes ← validators.validateConversationChanges value
      if id ≠ validators.nextAfter changes then .error .identityMismatch
      else return (.conversation id changes, false)

end Validators

namespace Heartbeat

def cursor : String := "g11l.WzEsIjAwMDAwMDAwLTAwMDAtNDAwMC04MDAwLTAwMDAwMDAwMDAwMSIsIjEiLCIzIiwiIiwiIl0"

/-- A batch without changes. -/
def batch : Json :=
  .object [("api_version".toList, .number ['1']), ("conversation_version".toList, .number ['1']),
    ("session_id".toList, .string "00000000-0000-4000-8000-000000000001".toList), ("observed_head".toList, .string ['1']),
    ("changes".toList, .array []), ("next_after".toList, .string cursor.toList)]

def batchText : String :=
  "\x7b\"api_version\":1,\"conversation_version\":1,\"session_id\":\"00000000-0000-4000-8000-000000000001\"," ++
    "\"observed_head\":\"1\",\"changes\":[],\"next_after\":\"" ++ cursor ++ "\"\x7d"

def validators : Validators Json Json Json where
  validateErrorView _ := .error .invalidSchema
  validateClosedView _ := .error .invalidSchema
  validateConversationChanges value := if value = batch then .ok value else .error .invalidSchema
  nextAfter value := ((value.index "next_after".toList).asStr).getD []

/-- A parser that knows this text only. -/
def frames : Frames (ConversationSseRecord Json Json Json) where
  parseJson text := if text = batchText.toList then .ok batch else .error .invalidJson
  validateFrame := validators.validateFrame
  onRecord _ _ := none

def frame : List UInt8 := ("id: " ++ cursor ++ "\r\nevent: wi.conversation\r\ndata: " ++ batchText ++ "\r\n\r\n").toUTF8.toList

/-- A scalar that is cut off by a line end. -/
def malformed : List UInt8 := [0xe2, 0x82, 10]

end Heartbeat

open Heartbeat in
/-- The stream whole, and cut inside a line end and inside the bad scalar. -/
theorem parse_independent_of_cut :
    SseFrames.parse frames [frame ++ malformed] = SseFrames.parse frames [frame.take 85, frame.drop 85 ++ [0xe2], [0x82, 10]] ∧
    SseFrames.parse frames [frame ++ malformed] = ([.conversation cursor.toList batch], .error .invalidUtf8) := by
  have cut : [frame ++ malformed].flatten = [frame.take 85, frame.drop 85 ++ [0xe2], [0x82, 10]].flatten := by
    simp only [List.flatten_cons, List.flatten_nil, List.append_nil, ← List.append_assoc, List.take_append_drop]
    rw [List.append_assoc]
    rfl
  obtain ⟨same, meant⟩ := SseFrames.parse_independent_of_chunks frames _ _ cut
  refine ⟨same, meant.trans ?_⟩
  decide +kernel

end Wi.Browser
