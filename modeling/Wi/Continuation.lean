import Wi.Decoded

/-! Conversations as sequences of requests: a restored conversation goes on like the live one
whose exchanges it replays, and the deltas of one transport expand to the full inputs of the
other. -/
namespace Wi.Codex
open Codec Codex.Conversation

/-- One accepted request and the terminal response that settled it. -/
structure Step where
  input : List InputItem
  response : ModelResponse

/-- Completed requests in order, and the results that no request has been sent with yet. -/
structure Transcript where
  steps : List Step
  carried : List InputItem

namespace Transcript

def empty : Transcript := ⟨[], []⟩

/-- Only a completed response is recorded. -/
def add (transcript : Transcript) (step : Step) : Transcript :=
  if step.response.outcome = .completed then
    ⟨transcript.steps ++ [⟨transcript.carried ++ step.input, step.response⟩], []⟩
  else transcript

def turns (transcript : Transcript) : List (List Json × List Json) :=
  transcript.steps.map fun step => (step.input.map nativeInput, natives step.response)

def items (transcript : Transcript) : List Json :=
  Dialogue.flatten transcript.turns ++ transcript.carried.map nativeInput

theorem items_add {step : Step} (completed : step.response.outcome = .completed) (transcript : Transcript) :
    (transcript.add step).items =
      transcript.items ++ step.input.map nativeInput ++ natives step.response := by
  simp [items, turns, add, completed, Dialogue.flatten]

end Transcript

section Replayed
variable [JsonText]

def Transcript.addExchange (transcript : Transcript) (exchange : ReplayExchange) : Transcript :=
  ⟨transcript.steps ++ [⟨transcript.carried, exchange.response⟩], exchange.toolResults⟩

/-- A run's prompt follows what the run before it left unsent. -/
def Transcript.addRun (transcript : Transcript) (run : ReplayRun) : Transcript :=
  run.exchanges.foldl addExchange ⟨transcript.steps, transcript.carried ++ [.user run.preparedPrompt]⟩

/-- The requests whose exchanges a replay lists. -/
def replayed (replay : ConversationReplay) : Transcript := replay.runs.foldl Transcript.addRun .empty

theorem Transcript.items_addExchange (transcript : Transcript) (exchange : ReplayExchange) :
    (transcript.addExchange exchange).items =
      transcript.items ++ natives exchange.response ++ exchange.toolResults.map nativeInput := by
  simp [items, turns, addExchange, Dialogue.flatten]

theorem compileExchange_eq_ok (done : compileExchange state exchange = .ok next) :
    next.1 = state.1 ++ natives exchange.response ++ exchange.toolResults.map nativeInput ∧
      validateResponse exchange.response = .ok () := by
  unfold compileExchange at done
  obtain ⟨_, _, done⟩ := bind_eq_ok.1 done
  obtain ⟨_, valid, done⟩ := bind_eq_ok.1 done
  cases done
  exact ⟨rfl, valid⟩

/-- The requests take turns with the responses, and what is carried answers the last response. -/
def Transcript.Closed (transcript : Transcript) : Prop :=
  ∃ last, Dialogue.Turns modelOutput asks answers [] transcript.turns last ∧
    (transcript.carried.filterMap inputAnswers).Perm last

omit [JsonText] in
theorem replies_of_perm {input : List InputItem} (nonempty : input ≠ []) (complete : (input.filterMap inputAnswers).Perm last) :
    Dialogue.Replies modelOutput answers last (input.map nativeInput) where
  nonempty := by simpa using nonempty
  silent native member := by
    obtain ⟨item, _, rfl⟩ := List.mem_map.1 member
    exact nativeInput_silent item
  complete := by rwa [filterMap_answers]

theorem Transcript.Closed.addExchange {transcript : Transcript} (closed : transcript.Closed)
    (nonempty : transcript.carried ≠ []) (exchange : ReplayExchange) (valid : validateResponse exchange.response = .ok ()) :
    (transcript.addExchange exchange).Closed := by
  obtain ⟨last, turns, answered⟩ := closed
  obtain ⟨speaks, calls⟩ := validated_questions valid
  refine ⟨questions exchange.response.output, ?_, ?_⟩
  · have more := turns.snoc (replies_of_perm nonempty answered) speaks
    rw [Transcript.turns, Transcript.addExchange, List.map_append]
    exact more
  · have results := matchResults_answers exchange.matched
    rw [← calls] at results
    exact .of_eq results

/-- A compiled history is the transcript's, and every recorded response was validated. -/
structure Compiled (transcript : Transcript) (history : List Json) : Prop where
  items : history = transcript.items
  valid : ∀ step ∈ transcript.steps, validateResponse step.response = .ok ()
  closed : transcript.Closed

theorem continued_cons {exchange : ReplayExchange} {exchanges : List ReplayExchange}
    (chain : continued (exchange :: exchanges) = true) :
    (exchanges ≠ [] → exchange.toolResults ≠ []) ∧ continued exchanges = true := by
  cases exchanges with
  | nil => exact ⟨fun none_left => absurd rfl none_left, rfl⟩
  | cons next exchanges =>
    simp only [continued, List.dropLast_cons_cons, List.all_cons, Bool.and_eq_true] at chain
    exact ⟨fun _ => by simpa using chain.1, chain.2⟩

theorem Compiled.exchanges {exchanges : List ReplayExchange} {transcript : Transcript} {state next : List Json × List Text}
    (compiled : Compiled transcript state.1) (chain : continued exchanges = true)
    (nonempty : exchanges ≠ [] → transcript.carried ≠ []) (done : exchanges.foldlM compileExchange state = .ok next) :
    Compiled (exchanges.foldl Transcript.addExchange transcript) next.1 := by
  induction exchanges generalizing transcript state with
  | nil =>
    cases done
    exact compiled
  | cons exchange exchanges ih =>
    rw [List.foldlM_cons] at done
    obtain ⟨middle, first, rest⟩ := bind_eq_ok.1 done
    obtain ⟨history, valid⟩ := compileExchange_eq_ok first
    obtain ⟨more, chain⟩ := continued_cons chain
    refine ih ⟨?_, ?_, compiled.closed.addExchange (nonempty (by simp)) exchange valid⟩ chain more rest
    · rw [history, compiled.items, Transcript.items_addExchange]
    · intro step member
      rcases List.mem_append.1 member with old | new
      · exact compiled.valid step old
      · rw [List.mem_singleton.1 new]
        exact valid

theorem Compiled.runs {runs : List ReplayRun} {transcript : Transcript} {history result : List Json}
    (compiled : Compiled transcript history) (done : runs.foldlM compileRun history = .ok result) :
    Compiled (runs.foldl Transcript.addRun transcript) result := by
  induction runs generalizing transcript history with
  | nil =>
    cases done
    exact compiled
  | cons run runs ih =>
    rw [List.foldlM_cons] at done
    obtain ⟨middle, first, rest⟩ := bind_eq_ok.1 done
    obtain ⟨state, folded, same⟩ := bind_eq_ok.1 first
    cases same
    have chain : continued run.exchanges = true := by
      have valid := run.valid
      simp only [Bool.and_eq_true] at valid
      exact valid.2
    refine ih (Compiled.exchanges ⟨?_, compiled.valid, ?_⟩ chain (by simp) folded) rest
    · rw [compiled.items]
      simp [Transcript.items, Transcript.turns]
    · obtain ⟨last, turns, answered⟩ := compiled.closed
      refine ⟨last, turns, ?_⟩
      rw [List.filterMap_append]
      change (_ ++ []).Perm last
      rwa [List.append_nil]

theorem compile_eq_ok {history : List Json} (done : compile options replay = .ok history) : Compiled (replayed replay) history := by
  unfold compile at done
  obtain ⟨_, _, done⟩ := bind_eq_ok.1 done
  obtain ⟨_, _, done⟩ := bind_eq_ok.1 done
  obtain ⟨_, _, done⟩ := bind_eq_ok.1 done
  obtain ⟨result, folded, done⟩ := bind_eq_ok.1 done
  obtain ⟨_, _, done⟩ := bind_eq_ok.1 done
  cases done
  exact Compiled.runs ⟨rfl, nofun, [], .nil, .nil⟩ folded

theorem fromReplay_eq_ok {restored : Conversation} (done : fromReplay options replay = .ok restored) :
    ∃ history, Compiled (replayed replay) history ∧ restored = { empty with history } := by
  unfold fromReplay at done
  obtain ⟨history, compiled, same⟩ := bind_eq_ok.1 done
  cases same
  exact ⟨history, compile_eq_ok compiled, rfl⟩

/-- How a conversation begins: fresh, or restored from a replay. -/
inductive Opens : Conversation → Transcript → Prop where
  | empty : Opens .empty .empty
  | restored (done : fromReplay options replay = .ok start) : Opens start (replayed replay)

end Replayed

/-- One request prepared and settled. -/
def Conversation.exchange [JsonPrint] (options : SessionOptions) (conversation : Conversation) (step : Step) :
    GatewayResult Conversation := do
  let (_, fullInput) ← conversation.prepare options step.input
  conversation.settle fullInput step.response

/-! ### A restored conversation -/

/-- The live state of a recorded conversation; advanced output came from a recorded response. -/
structure Records (transcript : Transcript) (conversation : Conversation) : Prop where
  history : conversation.history = transcript.items
  advanced : conversation.advancedOutput = true →
    ∃ step ∈ transcript.steps, ∃ pending, step.response.output.foldlM scan (∅, false) = .ok (pending, true)

theorem Opens.records [JsonText] (opens : Opens start recorded) : Records recorded start := by
  cases opens with
  | empty => exact ⟨rfl, nofun⟩
  | restored done =>
    obtain ⟨history, compiled, rfl⟩ := fromReplay_eq_ok done
    exact ⟨compiled.items, nofun⟩

theorem Records.exchange [JsonPrint] {conversation next : Conversation} {step : Step} (records : Records transcript conversation)
    (done : conversation.exchange options step = .ok next) : Records (transcript.add step) next := by
  obtain ⟨⟨body, full⟩, prepared, settled⟩ := bind_eq_ok.1 done
  have input := (prepare_eq_ok prepared).2.2.2.2.1
  dsimp only at settled
  by_cases completed : step.response.outcome = .completed
  · obtain ⟨history, _, _, _, scanned⟩ := settle_eq_ok completed settled
    refine ⟨?_, ?_⟩
    · rw [history, input, records.history, Transcript.items_add completed]
    · intro advanced
      rw [advanced] at scanned
      refine ⟨⟨transcript.carried ++ step.input, step.response⟩, ?_, _, scanned⟩
      simp [Transcript.add, completed]
  · have same := settle_unfinished completed settled
    subst same
    rw [Transcript.add, if_neg completed]
    exact records

theorem Records.converse [JsonPrint] {steps : List Step} {conversation final : Conversation}
    (records : Records transcript conversation)
    (done : steps.foldlM (Conversation.exchange options) conversation = .ok final) :
    Records (steps.foldl Transcript.add transcript) final := by
  induction steps generalizing transcript conversation with
  | nil =>
    cases done
    exact records
  | cons step steps ih =>
    rw [List.foldlM_cons] at done
    obtain ⟨next, first, rest⟩ := bind_eq_ok.1 done
    exact ih (records.exchange first) rest

/-- The full input depends only on the transcript, the outstanding calls and the advanced mark. -/
theorem prepare_full_congr [JsonPrint] {left right : Conversation} (history : left.history = right.history)
    (pending : left.pendingCalls = right.pendingCalls) (advanced : left.advancedOutput = right.advancedOutput)
    (options others : SessionOptions) (input : List InputItem) :
    Prod.snd <$> left.prepare options input = Prod.snd <$> right.prepare others input := by
  unfold prepare
  rw [history, pending, advanced]
  simp only [map_bind]
  rfl

section Restored
variable [JsonText]

variable {start live restored : Conversation} {recorded : Transcript} {steps : List Step}
  {options others : SessionOptions} {replay : ConversationReplay}

/-- A conversation restored from the recorded exchanges goes on with the same full input as the
live one, whatever the transports. -/
theorem restored_continuation_eq_live (opens : Opens start recorded)
    (done : steps.foldlM (Conversation.exchange options) start = .ok live) (settled : live.pendingCalls = ∅)
    (same : replayed replay = steps.foldl Transcript.add recorded)
    (restoring : fromReplay others replay = .ok restored) (left right : SessionOptions) (input : List InputItem) :
    Prod.snd <$> live.prepare left input = Prod.snd <$> restored.prepare right input := by
  have records := opens.records.converse done
  obtain ⟨history, compiled, rfl⟩ := fromReplay_eq_ok restoring
  rw [same] at compiled
  refine prepare_full_congr (records.history.trans compiled.items.symm) settled ?_ left right input
  by_contra advanced
  obtain ⟨step, member, pending, scanned⟩ := records.advanced (by simpa [Conversation.empty] using advanced)
  cases scan_validated (compiled.valid step member) scanned

end Restored

namespace Addition

def call : Json := .build [("type", .string "function_call".toList), ("call_id", .string "call1".toList),
  ("name", .string "add_numbers".toList), ("arguments", .string "\x7b\x7d".toList)]

def message : Json := .build [("type", .string "message".toList), ("content", .array [
  .build [("type", .string "output_text".toList), ("text", .string "42".toList)]])]

/-- The decoded terminal with one output item. -/
def response (id : String) (item : OutputItem) (text : String) : ModelResponse where
  outputProvenance := .nativeTerminal
  id := id.toList
  model := none
  outcome := .completed
  output := [item]
  text := text.toList
  usage := none
  native := .build [("id", .string id.toList), ("status", .string "completed".toList), ("output", .array [item.native])]

def asking : ModelResponse := response "r1"
  ⟨none, .functionCall, "function_call".toList,
    some ⟨"call1".toList, "add_numbers".toList, "\x7b\x7d".toList, .direct, none, true⟩, call⟩ ""

def saying : ModelResponse := response "r2" ⟨none, .message, "message".toList, none, message⟩ "42"

def steps : List Step := [⟨[.user "add".toList], asking⟩, ⟨[.toolResult "call1".toList "42".toList], saying⟩]

def options : SessionOptions := .new "model".toList

def live : Conversation :=
  ⟨[nativeInput (.user "add".toList), call, nativeInput (.toolResult "call1".toList "42".toList), message],
    some "r2".toList, ∅, false, {"r2".toList, "r1".toList}⟩

theorem converse : steps.foldlM (@Conversation.exchange Json.written options) .empty = .ok live := by
  decide +kernel

theorem parsed : parseResponse asking.native = .ok asking ∧ parseResponse saying.native = .ok saying := by
  decide +kernel

@[reducible] def replay : @ConversationReplay emptyObjectText :=
  letI := emptyObjectText
  { version := 1
    providerId := openaiCodex
    requestedModel := "model".toList
    expectedIdentity := some ⟨openaiCodex, formatName, []⟩
    runs := [
      { sourceRunId := "run".toList
        preparedPrompt := "add".toList
        exchanges := [
          ⟨asking, [.toolResult "call1".toList "42".toList], by decide +kernel, by decide +kernel⟩,
          ⟨saying, [], by decide +kernel, by decide +kernel⟩]
        valid := by decide +kernel }]
    versioned := rfl
    valid := by decide +kernel }

theorem restore : @fromReplay emptyObjectText options replay = .ok { Conversation.empty with history := live.history } := by
  decide +kernel
end Addition

theorem restored_continuation_sample : letI := Json.written
    (Prod.snd <$> Addition.live.prepare Addition.options [.user "next".toList]) =
      Prod.snd <$> ({ Conversation.empty with history := Addition.live.history } : Conversation).prepare
        { Addition.options with transport := .sse } [.user "next".toList] :=
  @restored_continuation_eq_live emptyObjectText _ _ _ _ _ _ _ _ (@Opens.empty emptyObjectText) Addition.converse rfl rfl Addition.restore _ _ _

end Wi.Codex
