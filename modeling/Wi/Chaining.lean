import Wi.Continuation

/-! A server that remembers the items behind each response id, and what a WebSocket
connection's requests mean to it. -/
namespace Wi.Codex
open Codec Codex.Conversation

/-- The items that a server associates with a response id. -/
abbrev Server := Text → Option (List Json)

namespace Server

/-- The whole input that a request body stands for. -/
def expand (server : Server) (body : Json) : Option (List Json) := do
  let input ← (body.get "input".toList).bind Json.asArray
  match body.get "previous_response_id".toList with
  | none => some input
  | some parent =>
    let items ← server (← parent.asStr)
    return items ++ input

/-- A response id stands for its request's expanded input followed by its output items. -/
def learn (server : Server) (body : Json) (response : ModelResponse) : Server :=
  match server.expand body with
  | some items => Function.update server response.id (some (items ++ natives response))
  | none => server

end Server

/-- One request of a WebSocket connection, with what the server then knows. -/
def request [JsonPrint] (options : SessionOptions) (state : Conversation × Server) (step : Step) :
    GatewayResult (Conversation × Server) := do
  let (body, fullInput) ← state.1.prepare { options with transport := .webSocket } step.input
  let next ← state.1.settle fullInput step.response
  return (next, state.2.learn body step.response)

/-- The server knows the transcript behind the response that the next request names. -/
def Knows (server : Server) (conversation : Conversation) : Prop :=
  ∀ id, conversation.lastResponse = some id → server id = some conversation.history

theorem baseBody_input (options : SessionOptions) (full : List Json) :
    (baseBody options full).get "input".toList = some (.array full) ∧
      (baseBody options full).get "previous_response_id".toList = none := by
  rw [baseBody, Json.get_build, Json.get_build]
  simp

theorem isObject_baseBody (options : SessionOptions) (full : List Json) : (baseBody options full).isObject = true := rfl

variable {options : SessionOptions}

theorem body_sse (conversation : Conversation) (sse : options.transport = .sse) (delta full : List Json) :
    (conversation.body options delta full).get "input".toList = some (.array full) := by
  rw [body, sse]
  dsimp only
  rw [Json.get_set_of_object (isObject_baseBody _ _), if_neg (by decide), (baseBody_input options full).1]

variable {conversation : Conversation}

theorem body_first (first : conversation.lastResponse = none) (webSocket : options.transport = .webSocket)
    (delta full : List Json) :
    (conversation.body options delta full).get "input".toList = some (.array full) ∧
      (conversation.body options delta full).get "previous_response_id".toList = none := by
  rw [body, webSocket]
  dsimp only
  rw [first]
  dsimp only
  rw [Json.get_set_of_object (isObject_baseBody _ _), Json.get_set_of_object (isObject_baseBody _ _),
    if_neg (by decide), if_neg (by decide)]
  exact baseBody_input options full

theorem body_delta {id : Text} (parent : conversation.lastResponse = some id)
    (webSocket : options.transport = .webSocket) (delta full : List Json) :
    (conversation.body options delta full).get "input".toList = some (.array delta) ∧
      (conversation.body options delta full).get "previous_response_id".toList = some (.string id) := by
  rw [body, webSocket]
  dsimp only
  rw [parent]
  dsimp only
  have object := isObject_baseBody options full
  simp only [Json.get_set_of_object, Json.isObject_set, object]
  rw [if_pos trivial, if_neg (by decide), if_pos trivial]
  exact ⟨rfl, rfl⟩

variable {transcript : Transcript} {server : Server} {options : SessionOptions} {input : List InputItem} {body : Json}
  {full : List Json}

theorem Knows.expand [JsonPrint] (knows : Knows server conversation) (webSocket : options.transport = .webSocket)
    (prepared : conversation.prepare options input = .ok (body, full)) : server.expand body = some full := by
  obtain ⟨_, _, _, _, whole, rfl⟩ := prepare_eq_ok prepared
  unfold Server.expand
  cases parent : conversation.lastResponse with
  | none =>
    obtain ⟨items, none_named⟩ := body_first parent webSocket (input.map nativeInput) full
    rw [items, none_named]
    rfl
  | some id =>
    obtain ⟨items, named⟩ := body_delta parent webSocket (input.map nativeInput) full
    rw [items, named, whole]
    change (server id).bind _ = _
    rw [knows id parent]
    rfl

/-- The transcript so far, and that unless the last output was advanced the outstanding calls
are the unanswered part of what it asked. -/
structure Standing (transcript : Transcript) (conversation : Conversation) : Prop where
  history : conversation.history = transcript.items
  turns : conversation.advancedOutput = false →
    ∃ last, Dialogue.Turns modelOutput asks answers [] transcript.turns last ∧
      (transcript.carried.filterMap inputAnswers ++ conversation.pendingCalls.toList).Perm last

theorem Opens.standing [JsonText] (opens : Opens start recorded) : Standing recorded start := by
  cases opens with
  | empty => exact ⟨rfl, fun _ => ⟨[], .nil, by simp [Transcript.empty, Conversation.empty]⟩⟩
  | restored done =>
    obtain ⟨history, compiled, rfl⟩ := fromReplay_eq_ok done
    obtain ⟨last, turns, answered⟩ := compiled.closed
    exact ⟨compiled.items, fun _ => ⟨last, turns, by simpa [Conversation.empty] using answered⟩⟩

theorem Opens.lastResponse [JsonText] (opens : Opens start recorded) : start.lastResponse = none := by
  cases opens with
  | empty => rfl
  | restored done =>
    obtain ⟨history, _, rfl⟩ := fromReplay_eq_ok done
    rfl

theorem Standing.replies [JsonPrint] (standing : Standing transcript conversation)
    (prepared : conversation.prepare options input = .ok (body, full)) :
    full = Dialogue.flatten transcript.turns ++ (transcript.carried ++ input).map nativeInput ∧
      ∃ last, Dialogue.Turns modelOutput asks answers [] transcript.turns last ∧
        Dialogue.Replies modelOutput answers last ((transcript.carried ++ input).map nativeInput) := by
  obtain ⟨nonempty, plain, distinct, supplied, whole, _⟩ := prepare_eq_ok prepared
  obtain ⟨last, turns, outstanding⟩ := standing.turns plain
  refine ⟨by rw [whole, standing.history]; simp [Transcript.items], last, turns, replies_of_perm (by simp [nonempty]) ?_⟩
  have given : (input.filterMap inputAnswers).Perm conversation.pendingCalls.toList := by
    rw [← supplied]
    exact (List.toFinset_toList distinct).symm
  rw [List.filterMap_append]
  exact (given.append_left _).trans outstanding

theorem Standing.request [JsonPrint] {state next : Conversation × Server} {step : Step} (standing : Standing transcript state.1)
    (completed : step.response.outcome = .completed) (terminal : Terminal step.response)
    (done : request options state step = .ok next) : Standing (transcript.add step) next.1 := by
  obtain ⟨⟨body, full⟩, prepared, done⟩ := bind_eq_ok.1 done
  obtain ⟨conversation, settled, same⟩ := bind_eq_ok.1 done
  cases same
  obtain ⟨whole, last, turns, replies⟩ := standing.replies prepared
  obtain ⟨history, _, _, _, scanned⟩ := settle_eq_ok completed settled
  refine ⟨?_, ?_⟩
  · rw [history, whole, Transcript.items_add completed]
    simp [Transcript.items]
  · intro plain
    rw [plain] at scanned
    obtain ⟨_, loud, distinct, _, total⟩ := scan_fold terminal.decoded scanned
    have speaks : Dialogue.Speaks modelOutput asks (natives step.response) := by
      refine ⟨?_, distinct⟩
      intro native member
      obtain ⟨item, inside, rfl⟩ := List.mem_map.1 member
      exact loud item inside
    refine ⟨questions step.response.output, ?_, ?_⟩
    · have more := turns.snoc replies speaks
      rw [Transcript.turns, Transcript.add, if_pos completed, List.map_append]
      exact more
    · rw [Transcript.add, if_pos completed, total, Finset.empty_union]
      exact List.toFinset_toList distinct

theorem Knows.request [JsonPrint] {state next : Conversation × Server} {step : Step} (knows : Knows state.2 state.1)
    (completed : step.response.outcome = .completed) (done : Codex.request options state step = .ok next) :
    Knows next.2 next.1 := by
  obtain ⟨⟨body, full⟩, prepared, done⟩ := bind_eq_ok.1 done
  obtain ⟨conversation, settled, same⟩ := bind_eq_ok.1 done
  cases same
  obtain ⟨history, parent, _⟩ := settle_eq_ok completed settled
  intro id named
  have expanded := knows.expand rfl prepared
  dsimp only at named parent history ⊢
  rw [parent, Option.some.injEq] at named
  rw [Server.learn, expanded, history, ← named]
  exact Function.update_self ..

theorem converse_standing [JsonPrint] {steps : List Step} {state final : Conversation × Server} (standing : Standing transcript state.1)
    (knows : Knows state.2 state.1)
    (terminal : ∀ step ∈ steps, step.response.outcome = .completed ∧ Terminal step.response)
    (done : steps.foldlM (request options) state = .ok final) :
    Standing (steps.foldl Transcript.add transcript) final.1 ∧ Knows final.2 final.1 := by
  induction steps generalizing transcript state with
  | nil =>
    cases done
    exact ⟨standing, knows⟩
  | cons step steps ih =>
    rw [List.foldlM_cons] at done
    obtain ⟨next, first, rest⟩ := bind_eq_ok.1 done
    obtain ⟨⟨completed, decoded⟩, later⟩ := List.forall_mem_cons.1 terminal
    exact ih (standing.request completed decoded first) (knows.request completed first) later rest

/-- A WebSocket request expands to the full input that SSE sends at the same step, and in that
input every function call is answered exactly once before the next model output and nothing else
is answered. -/
theorem webSocket_expands_to_sse [JsonText] {start conversation : Conversation} {recorded : Transcript} {steps : List Step}
    {before : Server}
    (opens : Opens start recorded)
    (terminal : ∀ step ∈ steps, step.response.outcome = .completed ∧ Terminal step.response)
    (done : steps.foldlM (request options) (start, before) = .ok (conversation, server))
    (sent : conversation.prepare { options with transport := .webSocket } input = .ok (body, full)) :
    server.expand body = some full ∧
    (∃ sse, conversation.prepare { options with transport := .sse } input = .ok (sse, full) ∧
      sse.get "input".toList = some (.array full)) ∧
    Dialogue.Paired modelOutput asks answers full := by
  have fresh : Knows before start := fun id parent => by rw [opens.lastResponse] at parent; cases parent
  obtain ⟨standing, knows⟩ := converse_standing opens.standing fresh terminal done
  refine ⟨knows.expand rfl sent, ?_, ?_⟩
  · have same := prepare_full_congr (show conversation.history = conversation.history from rfl) rfl rfl { options with transport := .webSocket }
      { options with transport := .sse } input
    rw [sent, map_ok] at same
    obtain ⟨⟨sse, items⟩, prepared, rfl⟩ := map_eq_ok.1 same.symm
    refine ⟨sse, prepared, ?_⟩
    obtain ⟨_, _, _, _, _, rfl⟩ := prepare_eq_ok prepared
    exact body_sse conversation rfl _ _
  · obtain ⟨whole, last, turns, replies⟩ := standing.replies sent
    rw [whole]
    exact turns.paired roles replies

theorem request_fst [JsonPrint] (options : SessionOptions) (state : Conversation × Server) (step : Step) :
    Prod.fst <$> request options state step =
      Conversation.exchange { options with transport := .webSocket } state.1 step := by
  unfold request Conversation.exchange
  cases state.1.prepare { options with transport := .webSocket } step.input with
  | error error => rfl
  | ok sent =>
    simp only [ok_bind, map_bind]
    cases state.1.settle sent.2 step.response <;> rfl

theorem converse_fst [JsonPrint] (options : SessionOptions) (steps : List Step) (state : Conversation × Server) :
    Prod.fst <$> steps.foldlM (request options) state =
      steps.foldlM (Conversation.exchange { options with transport := .webSocket }) state.1 := by
  induction steps generalizing state with
  | nil => rfl
  | cons step steps ih =>
    rw [List.foldlM_cons, List.foldlM_cons, ← request_fst]
    cases request options state step with
    | error error => rfl
    | ok next => exact ih next

theorem webSocket_expands_sample : letI := Json.written
    ∃ server body full,
    Addition.steps.foldlM (request Addition.options) (.empty, fun _ => none) = .ok (Addition.live, server) ∧
    Addition.live.prepare { Addition.options with transport := .webSocket } [.user "next".toList] = .ok (body, full) ∧
    Server.expand server body = some full ∧ Dialogue.Paired modelOutput asks answers full := by
  let _ := Json.written
  have live := (converse_fst Addition.options Addition.steps (.empty, fun _ => none)).trans Addition.converse
  obtain ⟨⟨_, server⟩, done, rfl⟩ := map_eq_ok.1 live
  have accepted : (Addition.live.prepare { Addition.options with transport := .webSocket } [.user "next".toList]).isOk = true := by
    decide +kernel
  cases sent : Addition.live.prepare { Addition.options with transport := .webSocket } [.user "next".toList] with
  | error error =>
    rw [sent] at accepted
    cases accepted
  | ok result =>
    have terminal : ∀ step ∈ Addition.steps, step.response.outcome = .completed ∧ Terminal step.response := by
      simp only [Addition.steps, List.forall_mem_cons]
      exact ⟨⟨rfl, .native Addition.parsed.1⟩, ⟨rfl, .native Addition.parsed.2⟩, nofun⟩
    have expands := @webSocket_expands_to_sse _ _ _ _ _ emptyObjectText _ _ _ _ _ (@Opens.empty emptyObjectText) terminal done sent
    exact ⟨server, result.1, result.2, done, rfl, expands.1, expands.2.2⟩

end Wi.Codex
