import Wi.Codex
import Wi.Dialogue

/-! What decoding, replay validation and settling establish about output items, and the roles
that the items of a transcript play. -/
namespace Wi
open Codec

namespace Codec

theorem parseItem_native (parsed : parseItem native = .ok item) : item.native = native := by
  simp only [parseItem, bind_eq_ok] at parsed
  obtain ⟨type, _, call, _, same⟩ := parsed
  cases same
  rfl

theorem parseItem_type (parsed : parseItem native = .ok item) :
    stringMember native "type" = some item.nativeType ∧ item.kind = itemKind item.nativeType := by
  simp only [parseItem, bind_eq_ok] at parsed
  obtain ⟨type, found, call, _, same⟩ := parsed
  cases same
  exact ⟨obtained_eq_ok.1 found, rfl⟩

theorem parseItem_call (parsed : parseItem native = .ok item) (kind : item.kind = .functionCall) :
    ∃ call, item.functionCall = some call ∧ stringMember native "call_id" = some call.callId := by
  simp only [parseItem, bind_eq_ok] at parsed
  obtain ⟨type, found, call, parsedCall, same⟩ := parsed
  cases same
  rw [parseFunctionCall, if_pos kind] at parsedCall
  obtain ⟨value, inner, rfl⟩ := map_eq_ok.1 parsedCall
  simp only [parseCall, bind_eq_ok] at inner
  obtain ⟨id, foundId, name, _, same⟩ := inner
  cases same
  exact ⟨_, rfl, obtained_eq_ok.1 foundId⟩

theorem itemKind_functionCall (kind : itemKind type = .functionCall) : type = "function_call".toList := by
  unfold itemKind at kind
  split_ifs at kind
  assumption

theorem itemKind_message (kind : itemKind type = .message) : type = "message".toList := by
  unfold itemKind at kind
  split_ifs at kind
  assumption

theorem itemKind_reasoning (kind : itemKind type = .reasoning) : type = "reasoning".toList := by
  unfold itemKind at kind
  split_ifs at kind
  assumption

/-- Every output item is the decoding of its native item. -/
def Decoded (output : List OutputItem) : Prop := ∀ item ∈ output, parseItem item.native = .ok item

theorem decoded_of_mapM {items : List Json} (parsed : items.mapM parseItem = .ok output) : Decoded output := by
  intro item member
  obtain ⟨native, _, done⟩ := mapM_mem parsed item member
  rw [parseItem_native done]
  exact done

theorem parseResponse_decoded (parsed : parseResponse native = .ok response) : Decoded response.output := by
  simp only [parseResponse, bind_eq_ok] at parsed
  obtain ⟨id, _, outcome, _, output, found, text, _, usage, _, same⟩ := parsed
  cases same
  change Decoded output
  unfold parseOutput at found
  split at found
  · split at found
    · exact decoded_of_mapM found
    · cases found
  all_goals
    first
    | (split at found
       · cases found
         exact nofun
       · cases found)
    | cases found

theorem Terminal.decoded (terminal : Terminal response) : Decoded response.output := by
  cases terminal with
  | native parsed => exact parseResponse_decoded parsed
  | recovered _ effective =>
    have decoded := parseResponse_decoded effective
    exact decoded

end Codec

namespace Codex
open Codex.Conversation
variable {conversation : Conversation} {full : List Json} {response : ModelResponse}

/-! ### Roles of transcript items -/

/-- Items that only the model writes. -/
def modelOutput (item : Json) : Bool :=
  let type := stringMember item "type"
  type == some "message".toList || type == some "reasoning".toList || type == some "function_call".toList

/-- The call id of a function call item. -/
def asks (item : Json) : Option Text :=
  if stringMember item "type" = some "function_call".toList then stringMember item "call_id" else none

/-- The call id of a function call's output item. -/
def answers (item : Json) : Option Text :=
  if stringMember item "type" = some "function_call_output".toList then stringMember item "call_id" else none

theorem roles : Dialogue.Roles modelOutput asks answers where
  asking {item key} asking := by
    unfold asks at asking
    split at asking
    · rename_i type
      simp [modelOutput, type]
    · cases asking
  answering {item key} answering := by
    unfold answers at answering
    split at answering
    · rename_i type
      rw [modelOutput, type]
      decide
    · cases answering

theorem nativeInput_silent (item : InputItem) : modelOutput (nativeInput item) = false := by
  cases item with
  | user text =>
    rw [modelOutput, stringMember, nativeInput, Json.get_build]
    simp
  | toolResult callId output =>
    rw [modelOutput, stringMember, nativeInput, Json.get_build]
    simp [Json.asStr]

/-- The call that an input item answers. -/
def inputAnswers : InputItem → Option Text
  | .user _ => none
  | .toolResult callId _ => some callId

theorem answers_nativeInput (item : InputItem) : answers (nativeInput item) = inputAnswers item := by
  cases item with
  | user text =>
    rw [answers, stringMember, nativeInput, Json.get_build]
    simp [inputAnswers]
  | toolResult callId output =>
    rw [answers, stringMember, stringMember, nativeInput, Json.get_build, Json.get_build]
    simp [Json.asStr, inputAnswers]

theorem filterMap_answers (input : List InputItem) :
    (input.map nativeInput).filterMap answers = input.filterMap inputAnswers := by
  rw [List.filterMap_map]
  exact List.filterMap_congr fun item _ => answers_nativeInput item

theorem asks_functionCall (parsed : parseItem item.native = .ok item) (kind : item.kind = .functionCall) :
    modelOutput item.native = true ∧ asks item.native = stringMember item.native "call_id" := by
  have type := parseItem_type parsed
  rw [kind] at type
  have spelled := type.1
  rw [itemKind_functionCall type.2.symm] at spelled
  simp [modelOutput, asks, spelled]

theorem asks_prose (parsed : parseItem item.native = .ok item) (kind : item.kind = .message ∨ item.kind = .reasoning) :
    modelOutput item.native = true ∧ asks item.native = none := by
  have type := parseItem_type parsed
  have spelled := type.1
  rcases kind with kind | kind
  · rw [kind] at type
    rw [itemKind_message type.2.symm] at spelled
    simp [modelOutput, asks, spelled]
  · rw [kind] at type
    rw [itemKind_reasoning type.2.symm] at spelled
    simp [modelOutput, asks, spelled]

/-! ### Scanning a settled output -/

/-- The calls that the items of an output ask for. -/
def questions (output : List OutputItem) : List Text := (output.map (·.native)).filterMap asks

theorem scan_eq_ok (parsed : parseItem item.native = .ok item) (done : scan (pending, advanced) item = .ok (next, false)) :
    advanced = false ∧ modelOutput item.native = true ∧
      (asks item.native = none ∧ next = pending ∨
        ∃ id, asks item.native = some id ∧ id ∉ pending ∧ next = insert id pending) := by
  unfold scan at done
  split at done
  · rename_i kind
    cases done
    have prose := asks_prose parsed (.inl kind)
    exact ⟨rfl, prose.1, .inl ⟨prose.2, rfl⟩⟩
  · rename_i kind
    cases done
    have prose := asks_prose parsed (.inr kind)
    exact ⟨rfl, prose.1, .inl ⟨prose.2, rfl⟩⟩
  · rename_i kind
    split at done
    · obtain ⟨id, found, done⟩ := bind_eq_ok.1 done
      obtain ⟨_, fresh, done⟩ := bind_eq_ok.1 done
      simp only [pure_eq_ok, Except.ok.injEq, Prod.mk.injEq, Bool.or_eq_false_iff] at done
      have call := asks_functionCall parsed kind
      have member := (Option.filter_eq_some_iff.1 (obtained_eq_ok.1 found)).1
      have new := demand_eq_ok.1 fresh
      exact ⟨done.2.1, call.1, .inr ⟨id, by rw [call.2, member], by simpa using new, done.1.symm⟩⟩
    · cases done
  · cases done

theorem scan_fold {output : List OutputItem} (decoded : Decoded output)
    (done : output.foldlM scan (pending, advanced) = .ok (final, false)) :
    advanced = false ∧ (∀ item ∈ output, modelOutput item.native = true) ∧ (questions output).Nodup ∧
      (∀ id ∈ questions output, id ∉ pending) ∧ final = pending ∪ (questions output).toFinset := by
  induction output generalizing pending advanced with
  | nil =>
    cases done
    simp [questions]
  | cons item output ih =>
    rw [List.foldlM_cons] at done
    obtain ⟨⟨next, mark⟩, first, rest⟩ := bind_eq_ok.1 done
    have tail := ih (fun other member => decoded other (by simp [member])) rest
    obtain ⟨unmarked, loud, distinct, apart, total⟩ := tail
    subst unmarked
    obtain ⟨start, spoken, asked⟩ := scan_eq_ok (decoded item (by simp)) first
    refine ⟨start, List.forall_mem_cons.2 ⟨spoken, loud⟩, ?_⟩
    rcases asked with ⟨nothing, same⟩ | ⟨id, asking, fresh, same⟩
    · have skipped : questions (item :: output) = questions output := by simp [questions, nothing]
      rw [skipped]
      subst same
      exact ⟨distinct, apart, total⟩
    · have added : questions (item :: output) = id :: questions output := by simp [questions, asking]
      rw [added]
      subst same
      refine ⟨List.nodup_cons.2 ⟨fun member => apart id member (by simp), distinct⟩, ?_, ?_⟩
      · intro other member
        rcases List.mem_cons.1 member with rfl | later
        · exact fresh
        · exact fun old => apart other later (by simp [old])
      · rw [total, List.toFinset_cons]
        ext other
        simp only [Finset.mem_union, Finset.mem_insert]
        tauto

theorem supply_fold {input : List InputItem} (done : input.foldlM (supply pending) supplied = .ok final) :
    (input.filterMap inputAnswers).Nodup ∧ (∀ id ∈ input.filterMap inputAnswers, id ∉ supplied) ∧
      final = supplied ∪ (input.filterMap inputAnswers).toFinset := by
  induction input generalizing supplied with
  | nil =>
    cases done
    simp
  | cons item input ih =>
    rw [List.foldlM_cons] at done
    obtain ⟨next, first, rest⟩ := bind_eq_ok.1 done
    obtain ⟨distinct, apart, total⟩ := ih rest
    cases item with
    | user text =>
      cases first
      exact ⟨distinct, apart, total⟩
    | toolResult callId output =>
      obtain ⟨_, allowed, same⟩ := bind_eq_ok.1 first
      cases same
      have fresh := demand_eq_ok.1 allowed
      simp only [Bool.and_eq_true, decide_eq_true_eq] at fresh
      rw [List.filterMap_cons_some (show inputAnswers (.toolResult callId output) = some callId from rfl)]
      refine ⟨List.nodup_cons.2 ⟨fun member => apart callId member (by simp), distinct⟩, ?_, ?_⟩
      · intro other member
        rcases List.mem_cons.1 member with rfl | later
        · exact fresh.2
        · exact fun old => apart other later (by simp [old])
      · rw [total, List.toFinset_cons]
        ext other
        simp only [Finset.mem_union, Finset.mem_insert]
        tauto

/-! ### Prepared and settled steps -/

theorem prepare_eq_ok [JsonPrint] {options : SessionOptions} {input : List InputItem} {sent : Json}
    (done : conversation.prepare options input = .ok (sent, full)) :
    input ≠ [] ∧ conversation.advancedOutput = false ∧ (input.filterMap inputAnswers).Nodup ∧
      (input.filterMap inputAnswers).toFinset = conversation.pendingCalls ∧
      full = conversation.history ++ input.map nativeInput ∧
      sent = conversation.body options (input.map nativeInput) full := by
  unfold prepare at done
  obtain ⟨_, valid, done⟩ := bind_eq_ok.1 done
  obtain ⟨_, plain, done⟩ := bind_eq_ok.1 done
  obtain ⟨supplied, given, done⟩ := bind_eq_ok.1 done
  obtain ⟨_, exact, done⟩ := bind_eq_ok.1 done
  obtain ⟨_, _, done⟩ := bind_eq_ok.1 done
  cases done
  have nonempty := demand_eq_ok.1 (bind_eq_ok.1 valid).choose_spec.1
  have supplies := supply_fold given
  have all := demand_eq_ok.1 exact
  have unmarked := demand_eq_ok.1 plain
  simp only [decide_eq_true_eq] at all
  rw [supplies.2.2, Finset.empty_union] at all
  refine ⟨?_, by simpa using unmarked, supplies.1, all, rfl, rfl⟩
  rintro rfl
  simp at nonempty

theorem settle_eq_ok [JsonPrint] {next : Conversation} (completed : response.outcome = .completed)
    (done : conversation.settle full response = .ok next) :
    next.history = full ++ natives response ∧ next.lastResponse = some response.id ∧
      response.id ∉ conversation.settledIds ∧ next.settledIds = insert response.id conversation.settledIds ∧
      response.output.foldlM scan (∅, false) = .ok (next.pendingCalls, next.advancedOutput) := by
  unfold settle at done
  rw [if_neg (by simp [completed])] at done
  obtain ⟨_, fresh, done⟩ := bind_eq_ok.1 done
  obtain ⟨⟨pending, advanced⟩, scanned, done⟩ := bind_eq_ok.1 done
  obtain ⟨_, _, done⟩ := bind_eq_ok.1 done
  cases done
  exact ⟨rfl, rfl, by simpa using demand_eq_ok.1 fresh, rfl, scanned⟩

theorem settle_unfinished [JsonPrint] {next : Conversation} (unfinished : response.outcome ≠ .completed)
    (done : conversation.settle full response = .ok next) : next = conversation := by
  unfold settle at done
  rw [if_pos unfinished] at done
  cases done
  rfl

/-! ### Responses of a compiled replay -/

section Compiled
variable [JsonText]

theorem reparse_decoded (done : reparse response = .ok parsed) : Decoded parsed.output := by
  unfold reparse at done
  obtain ⟨first, initial, done⟩ := bind_eq_ok.1 done
  split at done
  · obtain ⟨_, _, done⟩ := bind_eq_ok.1 done
    obtain ⟨_, _, done⟩ := bind_eq_ok.1 done
    obtain ⟨effective, again, done⟩ := bind_eq_ok.1 done
    cases done
    have decoded := parseResponse_decoded again
    exact decoded
  · cases done
    exact parseResponse_decoded initial

theorem validateResponse_eq_ok (valid : validateResponse response = .ok ()) :
    Decoded response.output ∧ ∀ item ∈ response.output, ordinaryItem item.native = true := by
  unfold validateResponse at valid
  obtain ⟨parsed, again, valid⟩ := bind_eq_ok.1 valid
  obtain ⟨_, checked, valid⟩ := bind_eq_ok.1 valid
  obtain ⟨_, _, same⟩ := bind_eq_ok.1 valid
  have same : parsed = response := by simpa using demand_eq_ok.1 same
  subst same
  refine ⟨reparse_decoded again, ?_⟩
  obtain ⟨ids, folded⟩ := discard_eq_ok.1 checked
  intro item member
  exact foldlM_each folded (fun state item next done => by
    unfold checkItem at done
    exact demand_eq_ok.1 (bind_eq_ok.1 done).choose_spec.1) item member

theorem ordinaryItem_direct (ordinary : ordinaryItem native = true)
    (type : stringMember native "type" = some "function_call".toList) : advancedCall native = false := by
  rw [ordinaryItem, type, Bool.and_eq_true] at ordinary
  have call := ordinary.2
  dsimp only at call
  rw [if_neg (by decide), if_neg (by decide), if_pos rfl] at call
  simp only [Bool.and_eq_true, Option.all_eq_true] at call
  obtain ⟨⟨_, unnamed⟩, direct⟩ := call
  rw [advancedCall, Bool.or_eq_false_iff]
  constructor
  · rw [Option.any_eq_false]
    intro caller found
    have plain := direct caller found
    rw [Bool.or_eq_true, beq_iff_eq] at plain
    rcases plain with absent | named
    · simp [absent]
    · simp [named]
  · rw [Option.any_eq_false]
    intro value found
    simp [unnamed value found]

theorem scan_ordinary (parsed : parseItem item.native = .ok item) (ordinary : ordinaryItem item.native = true)
    (allowed : Replay.validateItem ids item = .ok more) (done : scan (pending, false) item = .ok (next, mark)) :
    mark = false := by
  unfold Replay.validateItem at allowed
  split at allowed
  · rename_i kind _
    rw [scan, kind] at done
    cases done
    rfl
  · rename_i kind _
    rw [scan, kind] at done
    cases done
    rfl
  · rename_i call kind found
    obtain ⟨_, checked, _⟩ := bind_eq_ok.1 allowed
    have complete : call.complete = true := by
      have all := demand_eq_ok.1 checked
      simp only [Replay.callAllowed, Bool.and_eq_true] at all
      tauto
    have type := parseItem_type parsed
    rw [kind] at type
    have spelled := type.1
    rw [itemKind_functionCall type.2.symm] at spelled
    rw [scan, kind] at done
    dsimp only at done
    rw [if_pos (by simp [found, complete])] at done
    obtain ⟨id, _, done⟩ := bind_eq_ok.1 done
    obtain ⟨_, _, done⟩ := bind_eq_ok.1 done
    simp only [pure_eq_ok, Except.ok.injEq, Prod.mk.injEq, ordinaryItem_direct ordinary spelled] at done
    exact done.2.symm
  · cases allowed

theorem validateResponse_items (valid : Replay.validateResponse response = .ok ()) :
    ∀ item ∈ response.output, ∃ ids more, Replay.validateItem ids item = .ok more := by
  obtain ⟨_, _, folded⟩ := bind_eq_ok.1 valid
  obtain ⟨_, folded⟩ := discard_eq_ok.1 folded
  exact foldlM_each folded fun state item next done => ⟨state, next, done⟩

theorem validateResponse_own (valid : validateResponse response = .ok ()) :
    Replay.validateResponse response = .ok () := by
  unfold validateResponse at valid
  obtain ⟨parsed, _, valid⟩ := bind_eq_ok.1 valid
  obtain ⟨_, _, valid⟩ := bind_eq_ok.1 valid
  obtain ⟨_, own, same⟩ := bind_eq_ok.1 valid
  have same : parsed = response := by simpa using demand_eq_ok.1 same
  rwa [same] at own

theorem scan_validated (valid : validateResponse response = .ok ())
    (done : response.output.foldlM scan (∅, false) = .ok (pending, mark)) : mark = false := by
  obtain ⟨decoded, ordinary⟩ := validateResponse_eq_ok valid
  have allowed := validateResponse_items (validateResponse_own valid)
  refine foldlM_induction (fun state => state.2 = false) done rfl ?_
  rintro ⟨_, _⟩ item ⟨_, _⟩ member rfl stepped
  obtain ⟨ids, more, contract⟩ := allowed item member
  exact scan_ordinary (decoded item member) (ordinary item member) contract stepped

theorem validate_fold {output : List OutputItem} (decoded : Decoded output)
    (done : output.foldlM Replay.validateItem ids = .ok final) :
    (∀ item ∈ output, modelOutput item.native = true) ∧
      questions output = (output.filterMap (·.functionCall)).map (·.callId) ∧ (questions output).Nodup ∧
      ∀ id ∈ questions output, id ∉ ids := by
  induction output generalizing ids with
  | nil => simp [questions]
  | cons item output ih =>
    rw [List.foldlM_cons] at done
    obtain ⟨next, first, rest⟩ := bind_eq_ok.1 done
    obtain ⟨loud, calls, distinct, apart⟩ := ih (fun other member => decoded other (by simp [member])) rest
    have parsed := decoded item (by simp)
    -- prose asks for nothing and records no call
    have prose (kind : item.kind = .message ∨ item.kind = .reasoning) (bare : item.functionCall = none)
        (same : ids = next) : (∀ other ∈ item :: output, modelOutput other.native = true) ∧
        questions (item :: output) = ((item :: output).filterMap (·.functionCall)).map (·.callId) ∧
        (questions (item :: output)).Nodup ∧ ∀ id ∈ questions (item :: output), id ∉ ids := by
      obtain ⟨spoken, nothing⟩ := asks_prose parsed kind
      have skipped : questions (item :: output) = questions output := by simp [questions, nothing]
      rw [skipped, List.filterMap_cons_none bare, same]
      exact ⟨List.forall_mem_cons.2 ⟨spoken, loud⟩, calls, distinct, apart⟩
    unfold Replay.validateItem at first
    split at first
    · rename_i kind bare
      cases first
      exact prose (.inl kind) bare rfl
    · rename_i kind bare
      cases first
      exact prose (.inr kind) bare rfl
    · rename_i call kind found
      obtain ⟨_, checked, same⟩ := bind_eq_ok.1 first
      cases same
      have fresh := demand_eq_ok.1 checked
      simp only [Bool.and_eq_true, Bool.not_eq_true', List.contains_eq_mem, decide_eq_false_iff_not] at fresh
      obtain ⟨spoken, asking⟩ := asks_functionCall parsed kind
      obtain ⟨other, sameCall, named⟩ := parseItem_call parsed kind
      rw [found, Option.some.injEq] at sameCall
      subst sameCall
      have added : questions (item :: output) = call.callId :: questions output := by
        simp [questions, asking, named]
      rw [added, List.filterMap_cons_some found, List.map_cons, ← calls]
      refine ⟨List.forall_mem_cons.2 ⟨spoken, loud⟩, rfl, ?_, ?_⟩
      · exact List.nodup_cons.2 ⟨fun member => apart call.callId member (by simp), distinct⟩
      · intro id member
        rcases List.mem_cons.1 member with rfl | later
        · exact fresh.2
        · exact fun old => apart id later (by simp [old])
    · cases first

theorem validated_questions (valid : validateResponse response = .ok ()) :
    Dialogue.Speaks modelOutput asks (natives response) ∧
      questions response.output = response.calls.map (·.callId) := by
  obtain ⟨_, _, folded⟩ := bind_eq_ok.1 (validateResponse_own valid)
  obtain ⟨_, folded⟩ := discard_eq_ok.1 folded
  obtain ⟨loud, calls, distinct, _⟩ := validate_fold (validateResponse_eq_ok valid).1 folded
  refine ⟨⟨?_, distinct⟩, calls⟩
  intro native member
  obtain ⟨item, inside, rfl⟩ := List.mem_map.1 member
  exact loud item inside

omit [JsonText] in
theorem matchResults_answers {calls : List FunctionCall} {results : List InputItem}
    (matched : matchResults calls results = true) : results.filterMap inputAnswers = calls.map (·.callId) := by
  induction calls generalizing results with
  | nil =>
    rw [matchResults, List.isEmpty_iff] at matched
    subst matched
    rfl
  | cons call calls ih =>
    cases results with
    | nil => cases matched
    | cons item results =>
      cases item with
      | user text => cases matched
      | toolResult callId output =>
        simp only [matchResults, Bool.and_eq_true, beq_iff_eq] at matched
        rw [List.map_cons, ← ih matched.2, ← matched.1]
        rfl

end Compiled
end Codex
end Wi
