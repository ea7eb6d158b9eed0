import Wi.Finalized
import Wi.Continuation

/-! The shared decoder of WebSocket messages and SSE frames, and what the events it
publishes can be. -/
namespace Wi.Codec

variable [JsonText]

structure ResponseDecoder where
  responseId : Option Text
  finished : Bool
  terminalReceived : Bool
  finalized : FinalizedItems

namespace ResponseDecoder

def empty : ResponseDecoder := ⟨none, false, false, .empty⟩

def deltaKinds : List (String × DeltaKind) := [
  ("response.output_text.delta", .text), ("response.refusal.delta", .refusal),
  ("response.reasoning_summary_text.delta", .reasoningSummary), ("response.reasoning_text.delta", .reasoningText),
  ("response.function_call_arguments.delta", .functionArguments),
  ("response.custom_tool_call_input.delta", .customToolInput)]

def successKinds : List String := ["response.completed", "response.done"]

def terminalKinds : List String := successKinds ++ ["response.incomplete", "response.failed", "response.cancelled"]

/-- The id of the response, which an event may repeat but not contradict. -/
def currentId (decoder : ResponseDecoder) (value : Json) : GatewayResult Text := do
  let id ← obtained decoder.responseId (.protocol "content before response identity")
  let reported := (stringMember value "response_id").or ((value.get "response".toList).bind (stringMember · "id"))
  demand (reported.all (· == id)) (.protocol "cross-response event")
  return id

def created (decoder : ResponseDecoder) (value : Json) : ResponseDecoder × GatewayResult (List ProviderEvent) :=
  let id := do
    let response ← obtained (value.get "response".toList) (.protocol "response missing")
    let id ← requiredResponseId response
    demand decoder.responseId.isNone (.protocol "duplicate response.created")
    return id
  match id with
  | .error error => (decoder, .error error)
  | .ok id => ({ decoder with responseId := some id }, .ok [.responseStarted id])

def status (decoder : ResponseDecoder) (value : Json) (spelled : String) : GatewayResult ProviderEvent := do
  return .responseStatus (← decoder.currentId value) spelled.toList

def item (decoder : ResponseDecoder) (value : Json) : GatewayResult ProviderEvent := do
  let id ← decoder.currentId value
  let index ← requiredU64 value "output_index"
  let item ← parseItem (← obtained (value.get "item".toList) (.protocol "missing output item"))
  return if isKind value "response.output_item.added" then .outputItemStarted id index item
    else .outputItemFinished id index item

def delta (decoder : ResponseDecoder) (value : Json) (kind : DeltaKind) : GatewayResult ProviderEvent := do
  let id ← decoder.currentId value
  let itemId ← requiredStr value "item_id"
  let index ← requiredU64 value "output_index"
  let text ← requiredStr value "delta"
  return .outputItemUpdated id itemId index ((value.get "content_index".toList).bind Json.asU64)
    ((value.get "summary_index".toList).bind Json.asU64) kind text

/-- The terminal response with its own output. -/
def terminalResponse (decoder : ResponseDecoder) (value : Json) : GatewayResult ModelResponse := do
  let native ← obtained (value.get "response".toList) (.protocol "terminal response missing")
  let response ← parseResponse native
  demand (isAnyKind value successKinds || response.outcome != .completed)
    (.protocol "non-success terminal event claims completed status")
  demand (decoder.responseId.all (· == response.id)) (.protocol "response ID changed")
  return response

/-- Whether the finished items of the stream stand in for an empty terminal output. -/
def recovers (value : Json) (response : ModelResponse) : Bool :=
  isAnyKind value successKinds && response.outcome == .completed &&
    ((response.native.get "output".toList).bind Json.asArray).any List.isEmpty

def withRecovered (response : ModelResponse) (recovered : List Json) : GatewayResult ModelResponse :=
  if recovered.isEmpty then .ok response
  else do
    let parsed ← parseResponse (withOutput response.native recovered)
    return { response with output := parsed.output, text := parsed.text
                           outputProvenance := .validatedOutputItemDone }

/-- A stream that omitted `response.created` reports its identity with the terminal. -/
def introduction (decoder : ResponseDecoder) (response : ModelResponse) : List ProviderEvent :=
  if decoder.responseId.isNone then [.responseStarted response.id] else []

/-- The published response, after a recovery that clears what it used. -/
def settled (decoder : ResponseDecoder) (value : Json) (response : ModelResponse) :
    ResponseDecoder × GatewayResult ModelResponse :=
  if recovers value response then
    let (finalized, recovered) := decoder.finalized.recover response.id
    ({ decoder with finalized }, recovered >>= withRecovered response)
  else (decoder, .ok response)

def terminal (decoder : ResponseDecoder) (value : Json) : ResponseDecoder × GatewayResult (List ProviderEvent) :=
  match decoder.terminalResponse value with
  | .error error => (decoder, .error error)
  | .ok response =>
    let events := decoder.introduction response
    -- the upstream completed even when local recovery cannot be trusted
    let decoder := { decoder with responseId := some response.id, terminalReceived := true }
    match decoder.settled value response with
    | (decoder, .error error) => (decoder, .error error)
    | (decoder, .ok response) => ({ decoder with finished := true }, .ok (events ++ [.responseFinished response]))

def single (decoder : ResponseDecoder) (event : GatewayResult ProviderEvent) :
    ResponseDecoder × GatewayResult (List ProviderEvent) :=
  (decoder, ([·]) <$> event)

/-- The event's own branch, after the finalized items have observed it. -/
def dispatch (decoder : ResponseDecoder) (value : Json) (kind : Text) :
    ResponseDecoder × GatewayResult (List ProviderEvent) :=
  if isKind value "response.created" then decoder.created value
  else if isKind value "response.in_progress" then decoder.single (decoder.status value "in_progress")
  else if isKind value "response.queued" then decoder.single (decoder.status value "queued")
  else if isAnyKind value itemKinds then decoder.single (decoder.item value)
  else match deltaKinds.find? fun entry => isKind value entry.1 with
  | some entry => decoder.single (decoder.delta value entry.2)
  | none =>
    if isAnyKind value terminalKinds then decoder.terminal value
    else if isKind value "error" then (decoder, .error .providerFailed)
    else (decoder, .ok [.providerExtension kind value])

def apply (decoder : ResponseDecoder) (value : Json) : ResponseDecoder × GatewayResult (List ProviderEvent) :=
  if decoder.finished then (decoder, .error (.protocol "event after terminal response"))
  else match stringMember value "type" with
  | none => (decoder, .error (.protocol "missing event type"))
  | some kind => { decoder with finalized := decoder.finalized.observe value }.dispatch value kind

/-- The events of a stream, up to the first one the decoder refuses. -/
def feed (decoder : ResponseDecoder) : List Json → List ProviderEvent
  | [] => []
  | value :: values =>
    match decoder.apply value with
    | (next, .ok events) => events ++ next.feed values
    | (_, .error _) => []

end ResponseDecoder

/-! ### Where published items come from -/

/-- Everything a stream has shown the recovery. -/
def observed (values : List Json) : FinalizedItems := values.foldl FinalizedItems.observe .empty

theorem FinalizedItems.record_events (items : FinalizedItems) (value : Json) :
    ∀ event ∈ (items.record value).events, event ∈ items.events ∨ event = value := by
  intro event kept
  unfold record at kept
  split at kept
  · exact .inl kept
  · dsimp only at kept
    split at kept
    · rcases List.mem_append.1 kept with old | new
      · exact .inl old
      · exact .inr (List.mem_singleton.1 new)
    · exact .inl kept

theorem FinalizedItems.observe_events (items : FinalizedItems) (value : Json) :
    ∀ event ∈ (items.observe value).events, event ∈ items.events ∨ event = value := by
  intro event kept
  have uncleared (items : FinalizedItems) : ∀ event ∈ items.cleared.events, event ∈ items.events := by
    intro event kept
    unfold cleared at kept
    split at kept
    · cases kept
    · exact kept
  have kept := uncleared _ event kept
  split at kept
  · exact record_events (items.counted value) value event kept
  · exact .inl kept

theorem observed_events (values : List Json) : ∀ event ∈ (observed values).events, event ∈ values := by
  induction values using List.reverseRecOn with
  | nil => exact nofun
  | append_singleton values value ih =>
    intro event kept
    rw [observed, List.foldl_append] at kept
    rcases FinalizedItems.observe_events _ value event kept with old | rfl
    · exact List.mem_append_left _ (ih event old)
    · simp

/-- A finished output item that passed its own checks. -/
def FinishedItem (events : List Json) (item : Json) : Prop :=
  ∃ event ∈ events, isKind event "response.output_item.done" = true ∧ event.get "item".toList = some item ∧
    complete item = true

omit [JsonText] in
theorem mem_insertDone {done : List (Nat × Json)} (member : entry ∈ insertDone done index item) :
    entry ∈ done ∨ entry = (index, item) := by
  unfold insertDone at member
  rcases List.mem_append.1 member with early | late
  · exact .inl ((List.takeWhile_sublist _).subset early)
  · rcases List.mem_cons.1 late with rfl | later
    · exact .inr rfl
    · exact .inl ((List.dropWhile_sublist _).subset later)

theorem collect_done {state next : Collected} (done : collect responseId state value = some next) :
    ∀ entry ∈ next.done, entry ∈ state.done ∨ FinishedItem [value] entry.2 := by
  intro entry member
  unfold collect at done
  split at done
  · cases done
  · split at done
    · rename_i kind
      unfold collectDone at done
      simp only [Option.bind_eq_bind, Option.bind_eq_some_iff, Option.guard_eq_some'] at done
      obtain ⟨index, _, _, _, item, found, _, valid, id, _, _, _, calls, _, same⟩ := done
      cases same
      rcases mem_insertDone member with old | rfl
      · exact .inl old
      · exact .inr ⟨value, by simp, kind, found, valid⟩
    · cases done
      exact .inl member

theorem collect_fold {events : List Json} {state final : Collected}
    (done : events.foldlM (collect responseId) state = some final) :
    ∀ entry ∈ final.done, entry ∈ state.done ∨ FinishedItem events entry.2 := by
  induction events generalizing state with
  | nil =>
    cases done
    exact fun entry member => .inl member
  | cons value events ih =>
    rw [List.foldlM_cons, Option.bind_eq_bind, Option.bind_eq_some_iff] at done
    obtain ⟨next, first, rest⟩ := done
    intro entry member
    rcases ih rest entry member with earlier | ⟨event, inside, facts⟩
    · rcases collect_done first entry earlier with old | ⟨event, inside, facts⟩
      · exact .inl old
      · rw [List.mem_singleton.1 inside] at facts
        exact .inr ⟨value, by simp, facts⟩
    · exact .inr ⟨event, by simp [inside], facts⟩

theorem validate_items {events items : List Json} (valid : validate events responseId = some items) :
    ∀ item ∈ items, FinishedItem events item := by
  unfold validate at valid
  simp only [Option.bind_eq_bind, Option.bind_eq_some_iff, Option.guard_eq_some'] at valid
  obtain ⟨collected, folded, _, _, _, _, same⟩ := valid
  cases same
  intro item member
  obtain ⟨entry, inside, rfl⟩ := List.mem_map.1 member
  rcases collect_fold folded entry inside with nothing | finished
  · cases nothing
  · exact finished

/-! ### One event of the stream -/

/-- The response id that an event carries. -/
def carriedId : ProviderEvent → Option Text
  | .responseStarted id | .responseStatus id _ | .outputItemStarted id _ _ | .outputItemUpdated id _ _ _ _ _ _
  | .outputItemFinished id _ _ => some id
  | .responseFinished response => some response.id
  | .sessionClosed _ | .requestFailed _ _ _ | .providerExtension _ _ => none

def isExtension : ProviderEvent → Bool
  | .providerExtension _ _ => true
  | _ => false

/-- An event between the start of a response and its terminal. -/
def isProgress : ProviderEvent → Bool
  | .responseStatus _ _ | .outputItemStarted _ _ _ | .outputItemUpdated _ _ _ _ _ _ _ | .outputItemFinished _ _ _ => true
  | _ => false

/-- Where a terminal response comes from: the terminal event's own response, whose output is kept
or, being empty, replaced by the validated finished items of the stream. -/
structure Origin (earlier : List Json) (value : Json) (response : ModelResponse) : Prop where
  completed : response.outcome = .completed → isAnyKind value ResponseDecoder.successKinds = true
  output : ∃ native own, value.get "response".toList = some native ∧ parseResponse native = .ok own ∧
    response.id = own.id ∧ response.outcome = own.outcome ∧ response.native = native ∧
    (response.output = own.output ∨ own.output = [] ∧
      ∃ items, validate (observed (earlier ++ [value])).events response.id = some items ∧
        response.output.map (·.native) = items ∧ ∀ item ∈ items, FinishedItem (earlier ++ [value]) item)

/-- What one accepted event can publish. -/
inductive Applied (decoder : ResponseDecoder) (value : Json) (next : ResponseDecoder) : List ProviderEvent → Prop where
  | started {id : Text} (fresh : decoder.responseId = none) (nonempty : id ≠ []) (named : next.responseId = some id)
      (unfinished : next.finished = false) (watched : next.finalized = decoder.finalized.observe value) :
      Applied decoder value next [.responseStarted id]
  | progress {id : Text} (known : decoder.responseId = some id) (event : ProviderEvent) (carries : carriedId event = some id)
      (kind : isProgress event = true) (named : next.responseId = decoder.responseId)
      (unfinished : next.finished = false) (watched : next.finalized = decoder.finalized.observe value) :
      Applied decoder value next [event]
  | extension (kind : Text) (named : next.responseId = decoder.responseId)
      (unfinished : next.finished = false) (watched : next.finalized = decoder.finalized.observe value) :
      Applied decoder value next [.providerExtension kind value]
  | finished (response : ModelResponse) (nonempty : response.id ≠ [])
      (agrees : decoder.responseId = none ∨ decoder.responseId = some response.id) (closed : next.finished = true)
      (origin : ∀ earlier, decoder.finalized = observed earlier → Origin earlier value response) :
      Applied decoder value next (decoder.introduction response ++ [.responseFinished response])

omit [JsonText] in
theorem requiredResponseId_nonempty {id : Text} (done : requiredResponseId value = .ok id) : id ≠ [] := by
  obtain ⟨found, _, done⟩ := bind_eq_ok.1 done
  obtain ⟨_, checked, same⟩ := bind_eq_ok.1 done
  cases same
  simpa using demand_eq_ok.1 checked

omit [JsonText] in
theorem currentId_eq_ok {decoder : ResponseDecoder} {id : Text} (done : decoder.currentId value = .ok id) :
    decoder.responseId = some id := by
  obtain ⟨found, known, done⟩ := bind_eq_ok.1 done
  obtain ⟨_, _, same⟩ := bind_eq_ok.1 done
  cases same
  exact obtained_eq_ok.1 known

omit [JsonText] in
theorem parseResponse_id (parsed : parseResponse native = .ok response) : response.id ≠ [] ∧ response.native = native := by
  obtain ⟨id, found, parsed⟩ := bind_eq_ok.1 parsed
  simp only [bind_eq_ok] at parsed
  obtain ⟨_, _, _, _, _, _, _, _, same⟩ := parsed
  cases same
  exact ⟨requiredResponseId_nonempty found, rfl⟩

omit [JsonText] in
theorem mapM_parseItem {items : List Json} (parsed : items.mapM parseItem = .ok output) :
    output.map (·.native) = items := by
  induction mapM_eq_ok.1 parsed with
  | nil => rfl
  | cons first others ih => rw [List.map_cons, parseItem_native first, ih (mapM_eq_ok.2 others)]

omit [JsonText] in
theorem parseResponse_output (parsed : parseResponse native = .ok response) {items : List Json}
    (listed : native.get "output".toList = some (.array items)) : response.output.map (·.native) = items := by
  simp only [parseResponse, bind_eq_ok] at parsed
  obtain ⟨_, _, outcome, _, output, found, _, _, _, _, same⟩ := parsed
  cases same
  change output.map (·.native) = items
  rw [parseOutput, listed] at found
  dsimp only at found
  split at found
  · exact mapM_parseItem found
  · cases found

/-! The branches of `dispatch`. -/

namespace ResponseDecoder

/-- The decoder with which a branch runs, having observed the event. -/
def watching (decoder : ResponseDecoder) (value : Json) : ResponseDecoder :=
  { decoder with finalized := decoder.finalized.observe value }

variable {decoder next : ResponseDecoder} {value : Json} {events : List ProviderEvent}

theorem created_applied (unfinished : decoder.finished = false)
    (done : (decoder.watching value).created value = (next, .ok events)) : Applied decoder value next events := by
  unfold created at done
  dsimp only at done
  split at done
  · cases done
  · rename_i id found
    cases done
    obtain ⟨response, _, found⟩ := bind_eq_ok.1 found
    obtain ⟨other, identified, found⟩ := bind_eq_ok.1 found
    obtain ⟨_, fresh, same⟩ := bind_eq_ok.1 found
    cases same
    have fresh := demand_eq_ok.1 fresh
    rw [Option.isNone_iff_eq_none] at fresh
    exact .started fresh (requiredResponseId_nonempty identified) rfl unfinished rfl

theorem single_applied {result : GatewayResult ProviderEvent} (unfinished : decoder.finished = false)
    (about : ∀ event, result = .ok event → ∃ id, decoder.responseId = some id ∧ carriedId event = some id ∧ isProgress event = true)
    (done : (decoder.watching value).single result = (next, .ok events)) : Applied decoder value next events := by
  unfold single at done
  rw [Prod.mk.injEq] at done
  obtain ⟨rfl, published⟩ := done
  obtain ⟨event, found, rfl⟩ := map_eq_ok.1 published
  obtain ⟨id, known, carries, kind⟩ := about event found
  exact .progress known event carries kind rfl unfinished rfl

omit [JsonText] in
theorem status_about {event : ProviderEvent} (done : status decoder value spelled = .ok event) :
    ∃ id, decoder.responseId = some id ∧ carriedId event = some id ∧ isProgress event = true := by
  obtain ⟨id, current, same⟩ := bind_eq_ok.1 done
  cases same
  exact ⟨id, currentId_eq_ok current, rfl, rfl⟩

omit [JsonText] in
theorem item_about {event : ProviderEvent} (done : item decoder value = .ok event) :
    ∃ id, decoder.responseId = some id ∧ carriedId event = some id ∧ isProgress event = true := by
  unfold item at done
  simp only [bind_eq_ok] at done
  obtain ⟨id, current, _, _, _, _, _, _, same⟩ := done
  refine ⟨id, currentId_eq_ok current, ?_⟩
  split at same <;> (cases same; exact ⟨rfl, rfl⟩)

omit [JsonText] in
theorem delta_about {event : ProviderEvent} (done : delta decoder value kind = .ok event) :
    ∃ id, decoder.responseId = some id ∧ carriedId event = some id ∧ isProgress event = true := by
  unfold delta at done
  simp only [bind_eq_ok] at done
  obtain ⟨id, current, _, _, _, _, _, _, same⟩ := done
  cases same
  exact ⟨id, currentId_eq_ok current, rfl, rfl⟩

omit [JsonText] in
theorem terminalResponse_eq_ok {own : ModelResponse} (done : terminalResponse decoder value = .ok own) :
    ∃ native, value.get "response".toList = some native ∧ parseResponse native = .ok own ∧
      (own.outcome = .completed → isAnyKind value successKinds = true) ∧
      (decoder.responseId = none ∨ decoder.responseId = some own.id) := by
  unfold terminalResponse at done
  obtain ⟨native, found, done⟩ := bind_eq_ok.1 done
  obtain ⟨response, parsed, done⟩ := bind_eq_ok.1 done
  obtain ⟨_, success, done⟩ := bind_eq_ok.1 done
  obtain ⟨_, agrees, same⟩ := bind_eq_ok.1 done
  cases same
  refine ⟨native, obtained_eq_ok.1 found, parsed, ?_, ?_⟩
  · intro completed
    simpa [completed] using demand_eq_ok.1 success
  · have agrees := demand_eq_ok.1 agrees
    cases known : decoder.responseId with
    | none => exact .inl rfl
    | some id =>
      rw [known] at agrees
      exact .inr (by simpa using agrees)

omit [JsonText] in
theorem recovers_eq_true {own : ModelResponse} (chosen : recovers value own = true) :
    own.native.get "output".toList = some (.array []) := by
  simp only [recovers, Bool.and_eq_true, Option.any_eq_true, Option.bind_eq_some_iff, List.isEmpty_iff] at chosen
  obtain ⟨_, _, ⟨listed, found, array⟩, rfl⟩ := chosen
  cases listed with
  | array values =>
    cases array
    exact found
  | _ => cases array

omit [JsonText] in
theorem withRecovered_eq_ok {own response : ModelResponse} {items : List Json} (object : own.native.isObject = true)
    (done : withRecovered own items = .ok response) :
    response.id = own.id ∧ response.outcome = own.outcome ∧ response.native = own.native ∧
      (response.output = own.output ∨ items ≠ [] ∧ response.output.map (·.native) = items) := by
  unfold withRecovered at done
  split at done
  · cases done
    exact ⟨rfl, rfl, rfl, .inl rfl⟩
  · rename_i nonempty
    obtain ⟨parsed, found, same⟩ := bind_eq_ok.1 done
    cases same
    refine ⟨rfl, rfl, rfl, .inr ⟨by simpa using nonempty, parseResponse_output found ?_⟩⟩
    rw [withOutput, Json.get_set_of_object object, if_pos rfl]

theorem recovered_validated {items : FinalizedItems} {recovered : List Json} {id : Text}
    (done : (items.recover id).2 = .ok recovered) (nonempty : recovered ≠ []) :
    validate items.events id = some recovered := by
  have found := obtained_eq_ok.1 done
  unfold FinalizedItems.recovered at found
  split at found
  · cases found
  · split at found
    · cases found
      exact absurd rfl nonempty
    · exact found

theorem observed_snoc (earlier : List Json) (value : Json) :
    (observed earlier).observe value = observed (earlier ++ [value]) := by
  rw [observed, observed, List.foldl_append]
  rfl

theorem terminal_applied (done : (decoder.watching value).terminal value = (next, .ok events)) :
    Applied decoder value next events := by
  unfold terminal at done
  split at done
  · cases done
  rename_i own accepted
  obtain ⟨native, found, parsed, success, agrees⟩ := terminalResponse_eq_ok accepted
  obtain ⟨nonempty, kept⟩ := parseResponse_id parsed
  subst kept
  dsimp only at done
  split at done
  · cases done
  rename_i after response chosen
  cases done
  unfold settled at chosen
  -- the response that is published, with its own output or the recovered one
  split at chosen
  · rename_i recovering
    have listed := recovers_eq_true recovering
    have bare : own.output = [] := by simpa using parseResponse_output parsed listed
    rw [Prod.mk.injEq] at chosen
    obtain ⟨rfl, built⟩ := chosen
    obtain ⟨items, recovered, built⟩ := bind_eq_ok.1 built
    obtain ⟨sameId, sameOutcome, sameNative, output⟩ := withRecovered_eq_ok (Json.isObject_of_get listed) built
    rw [show introduction (decoder.watching value) own = introduction decoder response by
      simp [introduction, sameId, watching]]
    refine .finished response (by rwa [sameId]) (by rwa [sameId]) rfl ?_
    intro earlier watched
    refine ⟨fun completed => success (by rwa [← sameOutcome]), own.native, own, found, parsed, sameId, sameOutcome, sameNative, ?_⟩
    rcases output with same | ⟨some_item, natives⟩
    · exact .inl same
    · have valid := recovered_validated recovered some_item
      rw [show (decoder.watching value).finalized = observed (earlier ++ [value]) by
        rw [← observed_snoc, ← watched]; rfl] at valid
      refine .inr ⟨bare, items, by rwa [sameId], natives, ?_⟩
      intro item member
      obtain ⟨event, inside, facts⟩ := validate_items valid item member
      exact ⟨event, observed_events _ event inside, facts⟩
  · rw [Prod.mk.injEq, Except.ok.injEq] at chosen
    obtain ⟨rfl, rfl⟩ := chosen
    refine .finished own nonempty agrees rfl ?_
    intro earlier _
    exact ⟨success, own.native, own, found, parsed, rfl, rfl, rfl, .inl rfl⟩

theorem apply_applied (done : decoder.apply value = (next, .ok events)) :
    decoder.finished = false ∧ Applied decoder value next events := by
  unfold apply at done
  split at done
  · cases done
  rename_i unfinished
  have unfinished : decoder.finished = false := by simpa using unfinished
  refine ⟨unfinished, ?_⟩
  split at done
  · cases done
  rename_i kind _
  change (decoder.watching value).dispatch value kind = (next, .ok events) at done
  unfold dispatch at done
  split at done
  · exact created_applied unfinished done
  split at done
  · exact single_applied unfinished (fun event found => status_about found) done
  split at done
  · exact single_applied unfinished (fun event found => status_about found) done
  split at done
  · exact single_applied unfinished (fun event found => item_about found) done
  split at done
  · exact single_applied unfinished (fun event found => delta_about found) done
  split at done
  · exact terminal_applied done
  split at done
  · cases done
  · cases done
    exact .extension kind rfl unfinished rfl

end ResponseDecoder

/-! ### A whole stream -/

/-- What may follow the start of a response. -/
def Continues (id : Text) (events : List ProviderEvent) : Prop :=
  ∃ body last, events = body ++ last ∧
    (∀ event ∈ body, isExtension event = true ∨ isProgress event = true ∧ carriedId event = some id) ∧
    (last = [] ∨ ∃ response, last = [.responseFinished response] ∧ response.id = id)

/-- Extensions, then one start with its response id, the progress of that response and at most
one terminal, after which nothing comes. -/
def Published (events : List ProviderEvent) : Prop :=
  ∃ extensions rest, events = extensions ++ rest ∧ (∀ event ∈ extensions, isExtension event = true) ∧
    (rest = [] ∨ ∃ id later, id ≠ [] ∧ rest = .responseStarted id :: later ∧ Continues id later)

omit [JsonText] in
theorem Continues.cons {event : ProviderEvent} {id : Text} {events : List ProviderEvent}
    (first : isExtension event = true ∨ isProgress event = true ∧ carriedId event = some id)
    (rest : Continues id events) : Continues id (event :: events) := by
  obtain ⟨body, last, rfl, each, final⟩ := rest
  exact ⟨event :: body, last, rfl, List.forall_mem_cons.2 ⟨first, each⟩, final⟩

omit [JsonText] in
theorem Continues.nil (id : Text) : Continues id [] := ⟨[], [], rfl, nofun, .inl rfl⟩

omit [JsonText] in
theorem Published.cons {event : ProviderEvent} {events : List ProviderEvent} (first : isExtension event = true)
    (rest : Published events) : Published (event :: events) := by
  obtain ⟨extensions, later, rfl, each, final⟩ := rest
  exact ⟨event :: extensions, later, rfl, List.forall_mem_cons.2 ⟨first, each⟩, final⟩

omit [JsonText] in
theorem Published.start {id : Text} {events : List ProviderEvent} (nonempty : id ≠ []) (rest : Continues id events) :
    Published (.responseStarted id :: events) :=
  ⟨[], _, rfl, nofun, .inr ⟨id, events, nonempty, rfl, rest⟩⟩

namespace ResponseDecoder

theorem feed_finished {decoder : ResponseDecoder} (finished : decoder.finished = true) (values : List Json) :
    decoder.feed values = [] := by
  cases values with
  | nil => rfl
  | cons value values => simp [feed, apply, finished]

theorem feed_continues {decoder : ResponseDecoder} {id : Text} (known : decoder.responseId = some id) (values : List Json) :
    Continues id (decoder.feed values) := by
  induction values generalizing decoder with
  | nil => exact .nil id
  | cons value values ih =>
    rw [feed]
    split
    · rename_i next events done
      cases (apply_applied done).2 with
      | started fresh =>
        rw [known] at fresh
        cases fresh
      | progress same event carries kind named =>
        rw [known, Option.some.injEq] at same
        subst same
        exact .cons (.inr ⟨kind, carries⟩) (ih (named.trans known))
      | extension kind named => exact .cons (.inl rfl) (ih (named.trans known))
      | finished response _ agrees closed =>
        have same : response.id = id := by
          rcases agrees with unknown | same
          · rw [known] at unknown
            cases unknown
          · rw [known, Option.some.injEq] at same
            exact same.symm
        rw [introduction, known, feed_finished closed]
        exact ⟨[], _, rfl, nofun, .inr ⟨response, rfl, same⟩⟩
    · exact .nil id

theorem feed_published {decoder : ResponseDecoder} (unknown : decoder.responseId = none) (values : List Json) :
    Published (decoder.feed values) := by
  induction values generalizing decoder with
  | nil => exact ⟨[], [], rfl, nofun, .inl rfl⟩
  | cons value values ih =>
    rw [feed]
    split
    · rename_i next events done
      cases (apply_applied done).2 with
      | started _ nonempty named => exact .start nonempty (feed_continues named values)
      | progress same =>
        rw [unknown] at same
        cases same
      | extension kind named => exact .cons rfl (ih (named.trans unknown))
      | finished response nonempty _ closed =>
        rw [introduction, unknown, feed_finished closed]
        exact .start nonempty ⟨[], _, rfl, nofun, .inr ⟨response, rfl, rfl⟩⟩
    · exact ⟨[], [], rfl, nofun, .inl rfl⟩

theorem feed_origin {decoder : ResponseDecoder} {earlier values : List Json} {response : ModelResponse}
    (watched : decoder.finalized = observed earlier) (member : .responseFinished response ∈ decoder.feed values) :
    ∃ before value after, values = before ++ value :: after ∧ Origin (earlier ++ before) value response := by
  induction values generalizing decoder earlier with
  | nil => cases member
  | cons value values ih =>
    rw [feed] at member
    split at member
    · rename_i next events done
      -- a terminal of the rest of the stream has seen this event too
      have later (watching : next.finalized = decoder.finalized.observe value)
          (inside : .responseFinished response ∈ next.feed values) :
          ∃ before other after, value :: values = before ++ other :: after ∧ Origin (earlier ++ before) other response := by
        rw [watched, observed_snoc] at watching
        obtain ⟨before, other, after, rfl, origin⟩ := ih watching inside
        exact ⟨value :: before, other, after, rfl, by simpa using origin⟩
      cases (apply_applied done).2 with
      | started _ _ _ _ watching => exact later watching (by simpa using member)
      | progress _ event _ kind _ _ watching =>
        refine later watching ?_
        rcases List.mem_append.1 member with this | inside
        · rw [← List.mem_singleton.1 this] at kind
          cases kind
        · exact inside
      | extension _ _ _ watching => exact later watching (by simpa using member)
      | finished found _ _ closed origin =>
        rw [feed_finished closed, List.append_nil] at member
        have same : response = found := by
          rcases List.mem_append.1 member with start | last
          · unfold introduction at start
            split at start <;> simp at start
          · simpa using last
        subst same
        exact ⟨[], value, values, rfl, by simpa using origin earlier watched⟩
    · cases member

/-- The events published for any stream are those of one response, and its terminal comes from one
terminal event, completed only by a successful one, whose output is its own or, being empty, made
of validated finished items of the stream. -/
theorem feed_protocol_safe (values : List Json) :
    Published (feed .empty values) ∧
    ∀ response, .responseFinished response ∈ feed .empty values →
      ∃ before value after, values = before ++ value :: after ∧ Origin before value response := by
  refine ⟨feed_published rfl values, fun response member => ?_⟩
  have origin := feed_origin (show empty.finalized = observed [] from rfl) member
  simpa using origin

end ResponseDecoder

omit [JsonText] in
/-- An extension is published before the start of a response, and carries no response id. -/
theorem extension_precedes_start :
    @ResponseDecoder.feed Codex.emptyObjectText .empty
      [.build [("type", .string "rate_limits".toList)],
        .build [("type", .string "response.created".toList), ("response", .build [("id", .string "r1".toList)])]] =
      [.providerExtension "rate_limits".toList (.build [("type", .string "rate_limits".toList)]),
        .responseStarted "r1".toList] ∧
    carriedId (.providerExtension "rate_limits".toList (.build [("type", .string "rate_limits".toList)])) = none := by
  decide +kernel

end Wi.Codec
