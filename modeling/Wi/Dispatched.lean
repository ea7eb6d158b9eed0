import Wi.Tools

/-! What a batch of tool calls does to its scope, call by call, and what a sequence of
responses does to it: no call identity is executed to a saved result twice. -/
namespace Wi

section
variable [JsonPrint]

/-- The result that a step leaves in the scope. -/
def ToolStep.saving : ToolStep → Option (Text × CachedResult)
  | .executed call arguments value => some (call.callId, ⟨call.name, arguments, (settledOutput value).1⟩)
  | _ => none

/-- The saved results of a trail, the latest first. -/
def savedIn (steps : List ToolStep) : List (Text × CachedResult) := (steps.filterMap ToolStep.saving).reverse

theorem savedIn_append (first second : List ToolStep) : savedIn (first ++ second) = savedIn second ++ savedIn first := by
  simp [savedIn]

variable {step : ToolStep}

theorem savedIn_silent (silent : step.saving = none) (steps : List ToolStep) :
    savedIn (steps ++ [step]) = savedIn steps := by
  simp [savedIn, silent]

/-- The whole of one call: its steps, and the output it returns. A saved result is reused as
it is; otherwise the start is observed, the tool runs, its result is saved and observed, and
last the finish is observed. -/
inductive Performs (saved : Option CachedResult) (call : FunctionCall) (arguments : Json) :
    List ToolStep → Text → Prop
  | reused (cached : CachedResult) (known : saved = some cached) :
      Performs saved call arguments [.event (.toolResultReused call.callId call.name)] cached.output
  | dispatched (value : GatewayResult Json) (unknown : saved = none) :
      Performs saved call arguments [
        .event (.toolExecutionStarted call.callId call.name),
        .executing call arguments,
        .executed call arguments value,
        .result call.callId (settledOutput value).1 (settledOutput value).2,
        .event (.toolExecutionFinished call.callId call.name (settledOutput value).2)] (settledOutput value).1

/-- The steps of a call that was left at some point. -/
def Begins (saved : Option CachedResult) (call : FunctionCall) (arguments : Json) (steps : List ToolStep) : Prop :=
  ∃ whole output, Performs saved call arguments whole output ∧ steps <+: whole

/-- The runs of a batch: calls in order, each performed in whole before the next begins, and
nothing after the first failure. -/
inductive Drains (saved : Text → Option CachedResult) : List PreparedCall → List ToolStep → Reply ε (List InputItem) → Prop
  | done : Drains saved [] [] (.ok [])
  | returned {call : FunctionCall} {arguments : Json} {calls : List PreparedCall} {steps later : List ToolStep}
      {output : Text} {reply : Reply ε (List InputItem)}
      (performs : Performs (saved call.callId) call arguments steps output) (rest : Drains saved calls later reply) :
      Drains saved ((call, arguments) :: calls) (steps ++ .returned (.toolResult call.callId output) :: later)
        (reply.map (.toolResult call.callId output :: ·))
  | dropped {call : FunctionCall} {arguments : Json} {calls : List PreparedCall} {steps : List ToolStep}
      (begins : Begins (saved call.callId) call arguments steps) :
      Drains saved ((call, arguments) :: calls) steps .pending
  | failed {call : FunctionCall} {arguments : Json} {calls : List PreparedCall} {steps : List ToolStep} {error : ε}
      (begins : Begins (saved call.callId) call arguments steps) :
      Drains saved ((call, arguments) :: calls) (steps ++ [.failed]) (.error error)
  | droppedBetween {calls : List PreparedCall} : Drains saved calls [] .pending
  | failedBetween {calls : List PreparedCall} {error : ε} : Drains saved calls [.failed] (.error error)

variable {steps : List ToolStep} {output id : Text}

theorem Performs.saves_own {saved : Option CachedResult} {call : FunctionCall} {arguments : Json}
    (performs : Performs saved call arguments steps output) (other : id ≠ call.callId) :
    (savedIn steps).lookup id = none := by
  cases performs with
  | reused => rfl
  | dispatched value => simp [savedIn, ToolStep.saving, other]

variable {calls : List PreparedCall}

theorem Drains.congr {saved saved' : Text → Option CachedResult} {reply : Reply ε (List InputItem)}
    (drains : Drains saved calls steps reply)
    (same : ∀ call ∈ calls, saved call.1.callId = saved' call.1.callId) : Drains saved' calls steps reply := by
  induction drains with
  | done => exact .done
  | returned performs _ ih =>
    rw [same _ List.mem_cons_self] at performs
    exact .returned performs (ih fun call member => same call (List.mem_cons_of_mem _ member))
  | dropped begins =>
    rw [same _ List.mem_cons_self] at begins
    exact .dropped begins
  | failed begins =>
    rw [same _ List.mem_cons_self] at begins
    exact .failed begins
  | droppedBetween => exact .droppedBetween
  | failedBetween => exact .failedBetween

namespace PreparedBatch
variable {τ ε : Type} {start : PreparedBatch τ} {taken : List ToolStep}

/-- Since `start` the batch took these steps and saved their results. -/
structure Took (start : PreparedBatch τ) (taken : List ToolStep) (batch : PreparedBatch τ) : Prop where
  steps : batch.steps = start.steps ++ taken
  tools : batch.registry.tools = start.registry.tools
  results : batch.registry.results = savedIn taken ++ start.registry.results

theorem Took.trans {middle batch : PreparedBatch τ} {later : List ToolStep} (first : Took start taken middle)
    (second : Took middle later batch) : Took start (taken ++ later) batch where
  steps := by rw [second.steps, first.steps, List.append_assoc]
  tools := second.tools.trans first.tools
  results := by rw [second.results, first.results, savedIn_append, List.append_assoc]

/-- The steps of the call at hand, with the calls after it still waiting. -/
structure Trail (start : PreparedBatch τ) (taken : List ToolStep) (batch : PreparedBatch τ) : Prop
    extends Took start taken batch where
  calls : batch.calls = start.calls

theorem Trail.silent {batch : PreparedBatch τ} (trail : Trail start taken batch) (caller : τ)
    (silent : step.saving = none) :
    Trail start (taken ++ [step]) { batch with steps := batch.steps ++ [step], caller := caller } where
  steps := by simp [trail.steps]
  tools := trail.tools
  results := by rw [savedIn_silent silent]; exact trail.results
  calls := trail.calls

theorem Trail.keep {batch : PreparedBatch τ} (trail : Trail start taken batch) (call : FunctionCall)
    (arguments : Json) (executed : GatewayResult Json) :
    Trail start (taken ++ [.executed call arguments executed]) { batch with
      registry := batch.registry.save call.callId ⟨call.name, arguments, (settledOutput executed).1⟩
      steps := batch.steps ++ [.executed call arguments executed] } where
  steps := by simp [trail.steps]
  tools := trail.tools
  results := by
    rw [savedIn_append]
    exact congrArg _ trail.results
  calls := trail.calls

variable {call : FunctionCall} {arguments : Json}

/-- The end of one round on a call. -/
def Settled (start : PreparedBatch τ) (call : FunctionCall) (arguments : Json) (calls : List PreparedCall) :
    Reply ε (Option InputItem) → PreparedBatch τ → Prop
  | .ok item, batch => ∃ steps output, Performs (start.registry.saved call.callId) call arguments steps output ∧
      item = some (.toolResult call.callId output) ∧
      Took start (steps ++ [.returned (.toolResult call.callId output)]) batch ∧ batch.calls = calls
  | .error _, batch => ∃ steps, Begins (start.registry.saved call.callId) call arguments steps ∧
      Took start (steps ++ [.failed]) batch
  | .pending, batch => ∃ steps, Begins (start.registry.saved call.callId) call arguments steps ∧ Took start steps batch

/-- From `start` the action runs the batch of these calls. -/
def Runs (start : PreparedBatch τ) (calls : List PreparedCall) (action : Act (PreparedBatch τ) ε (List InputItem)) : Prop :=
  ∃ taken, Drains start.registry.saved calls taken (action start).1 ∧ Took start taken (action start).2

theorem Runs.ask (question : Act τ ε Unit) {next : Act (PreparedBatch τ) ε (List InputItem)}
    (runs : ∀ caller, Runs { start with caller := caller } calls next) :
    Runs start calls (ask question >>= fun _ => next) := by
  show ∃ taken, Drains _ _ _ (Act.bind (PreparedBatch.ask question) _ start).1 ∧
    Took _ _ (Act.bind (PreparedBatch.ask question) _ start).2
  unfold Act.bind PreparedBatch.ask
  match question start.caller with
  | (.ok _, caller) =>
    obtain ⟨taken, drains, took⟩ := runs caller
    exact ⟨taken, drains, took.steps, took.tools, took.results⟩
  | (.error _, caller) => exact ⟨[.failed], .failedBetween, rfl, rfl, rfl⟩
  | (.pending, caller) => exact ⟨[], .droppedBetween, (List.append_nil _).symm, rfl, rfl⟩

theorem Runs.returned {batch : PreparedBatch τ} {next : Act (PreparedBatch τ) ε (List InputItem)}
    (performs : Performs (start.registry.saved call.callId) call arguments steps output)
    (took : Took start (steps ++ [.returned (.toolResult call.callId output)]) batch)
    (distinct : ∀ later ∈ calls, later.1.callId ≠ call.callId) (runs : Runs batch calls next) :
    ∃ taken, Drains start.registry.saved ((call, arguments) :: calls) taken
        ((next batch).1.map (.toolResult call.callId output :: ·)) ∧ Took start taken (next batch).2 := by
  obtain ⟨taken, drains, later⟩ := runs
  have same : ∀ other ∈ calls, batch.registry.saved other.1.callId = start.registry.saved other.1.callId := by
    intro other member
    rw [ToolRegistry.saved, took.results, savedIn_silent rfl, List.lookup_append,
      performs.saves_own (distinct other member)]
    rfl
  refine ⟨_, .returned performs (drains.congr same), ?_⟩
  have whole := took.trans later
  rwa [List.append_assoc] at whole

end PreparedBatch

/-- What the answers of a caller keep true of its state: `between` two calls, `during` one,
and after a failure or where a future was dropped. -/
structure ToolCaller.Keeps (caller : ToolCaller τ ε) (between during failed dropped : τ → Prop) : Prop where
  admitted : Act.Triple between caller.admitted (Act.ends (fun _ => between) failed dropped)
  before : Act.Triple between caller.checkpoint (Act.ends (fun _ => between) failed dropped)
  reused : ∀ callId name, Act.Triple between (caller.event (.toolResultReused callId name))
    (Act.ends (fun _ => during) failed dropped)
  started : ∀ callId name, Act.Triple between (caller.event (.toolExecutionStarted callId name))
    (Act.ends (fun _ => during) failed dropped)
  checkpoint : Act.Triple during caller.checkpoint (Act.ends (fun _ => during) failed dropped)
  race : ∀ call arguments, Act.Triple during (caller.race call arguments) (Act.ends (fun _ => during) failed dropped)
  result : ∀ callId output isError, Act.Triple during (caller.result callId output isError)
    (Act.ends (fun _ => during) failed dropped)
  finished : ∀ callId name isError, Act.Triple during (caller.event (.toolExecutionFinished callId name isError))
    (Act.ends (fun _ => during) failed dropped)
  prepared : Act.Triple during caller.prepared (Act.ends (fun _ => between) failed dropped)

namespace PreparedBatch
variable {τ ε α : Type} {caller : ToolCaller τ ε} {between during failed dropped : τ → Prop}

/-- A condition on the state of the caller. -/
abbrev Of (condition : τ → Prop) (batch : PreparedBatch τ) : Prop := condition batch.caller

omit [JsonPrint] in
theorem ask_keeps {before after : τ → Prop} {question : Act τ ε α}
    (answered : Act.Triple before question (Act.ends (fun _ => after) failed dropped)) :
    Act.Triple (Of before) (ask question) (Act.ends (fun _ => Of after) (Of failed) (Of dropped)) := by
  intro batch held
  have reached := answered batch.caller held
  unfold ask
  match question batch.caller, reached with
  | (.ok _, _), reached | (.error _, _), reached | (.pending, _), reached => exact reached

omit [JsonPrint] in
theorem note_keeps {condition : τ → Prop} (step : ToolStep) :
    Act.Triple (Of condition) (note step : Act (PreparedBatch τ) ε Unit)
      (Act.ends (fun _ => Of condition) (Of failed) (Of dropped)) := fun _ held => held

omit [JsonPrint] in
theorem observe_keeps {before after : τ → Prop} {event : ToolExecutionEvent}
    (answered : Act.Triple before (caller.event event) (Act.ends (fun _ => after) failed dropped)) :
    Act.Triple (Of before) (observe caller event) (Act.ends (fun _ => Of after) (Of failed) (Of dropped)) :=
  .chain (note_keeps _) fun _ => ask_keeps answered

omit [JsonPrint] in
theorem reuse_keeps (keeps : caller.Keeps between during failed dropped) (call : FunctionCall) (saved : CachedResult) :
    Act.Triple (Of between) (reuse caller call saved) (Act.ends (fun _ => Of during) (Of failed) (Of dropped)) :=
  .chain (observe_keeps (keeps.reused _ _)) fun _ => fun _ held => held

theorem keep_keeps {condition : τ → Prop} (call : FunctionCall) (arguments : Json) (executed : GatewayResult Json) :
    Act.Triple (Of condition) (keep call arguments executed : Act (PreparedBatch τ) ε Unit)
      (Act.ends (fun _ => Of condition) (Of failed) (Of dropped)) := fun _ held => held

theorem dispatch_keeps (keeps : caller.Keeps between during failed dropped) (call : FunctionCall) (arguments : Json) :
    Act.Triple (Of between) (dispatch caller call arguments)
      (Act.ends (fun _ => Of during) (Of failed) (Of dropped)) := by
  refine .chain (observe_keeps (keeps.started _ _)) fun _ => .chain (ask_keeps keeps.checkpoint) fun _ => ?_
  refine .chain (note_keeps _) fun _ => .chain (ask_keeps (keeps.race _ _)) fun _ => ?_
  refine .chain (keep_keeps _ _ _) fun _ => ?_
  refine .chain (note_keeps _) fun _ => .chain (ask_keeps (keeps.result _ _ _)) fun _ => ?_
  exact .chain (observe_keeps (keeps.finished _ _ _)) fun _ => fun _ held => held

theorem perform_keeps (keeps : caller.Keeps between during failed dropped) (call : FunctionCall) (arguments : Json) :
    Act.Triple (Of between) (perform caller call arguments)
      (Act.ends (fun _ => Of during) (Of failed) (Of dropped)) := by
  refine .chain (ask_keeps keeps.before) fun _ => .read_bind fun batch held => ?_
  cases batch.registry.saved call.callId with
  | some saved => exact reuse_keeps keeps call saved batch held
  | none => exact dispatch_keeps keeps call arguments batch held

omit [JsonPrint] in
theorem settle_keeps {action : Act (PreparedBatch τ) ε InputItem}
    (performed : Act.Triple (Of between) action (Act.ends (fun _ => Of during) (Of failed) (Of dropped))) :
    Act.Triple (Of between) (settle action) (Act.ends (fun _ => Of during) (Of failed) (Of dropped)) := by
  intro batch held
  have reached := performed batch held
  unfold settle
  match action batch, reached with
  | (.ok _, _), reached | (.error _, _), reached | (.pending, _), reached => exact reached

/-- The state of the caller after one round. -/
def Round (between during : τ → Prop) : Option InputItem → τ → Prop
  | none => between
  | some _ => during

theorem executeNext_keeps (keeps : caller.Keeps between during failed dropped) :
    Act.Triple (Of between) (executeNext caller)
      (Act.ends (fun item => Of (Round between during item)) (Of failed) (Of dropped)) := by
  refine .read_bind fun batch held => ?_
  cases batch.calls with
  | nil => exact held
  | cons next calls =>
    have settled := settle_keeps (perform_keeps keeps next.1 next.2)
    have whole : Act.Triple (Of between) (settle (perform caller next.1 next.2) >>= fun item => pure (some item))
        (Act.ends (fun item => Of (Round between during item)) (Of failed) (Of dropped)) :=
      .chain settled fun _ => fun _ held => held
    exact whole { batch with calls := calls } held

theorem drain_keeps (keeps : caller.Keeps between during failed dropped) (rounds : Nat) :
    Act.Triple (Of between) (drain caller rounds) (Act.ends (fun _ => Of between) (Of failed) (Of dropped)) := by
  induction rounds with
  | zero => exact fun _ held => held
  | succ rounds ih =>
    refine .chain (executeNext_keeps keeps) fun item => ?_
    cases item with
    | none => exact fun _ held => held
    | some item => exact .chain (ask_keeps keeps.prepared) fun _ => .chain ih fun _ => fun _ held => held

theorem execute_keeps (keeps : caller.Keeps between during failed dropped) :
    Act.Triple (Of between) (execute caller) (Act.ends (fun _ => Of between) (Of failed) (Of dropped)) :=
  .chain (ask_keeps keeps.admitted) fun _ => .read_bind fun batch held => drain_keeps keeps _ batch held

end PreparedBatch

/-- The identities executed to a saved result, in order. -/
def executions (steps : List ToolStep) : List Text := (steps.filterMap ToolStep.saving).map Prod.fst

/-- The results handed back, in order. -/
def returnedItems (steps : List ToolStep) : List InputItem :=
  steps.filterMap fun
    | .returned item => some item
    | _ => none

/-- `after` does not occur until a step of `before` has occurred. -/
def Preceded (before : ToolStep → Prop) (after : ToolStep) : List ToolStep → Prop
  | [] => True
  | step :: steps => step ≠ after ∧ (before step ∨ Preceded before after steps)

/-- A failure is the last step. -/
def FailsLast : List ToolStep → Prop
  | [] => True
  | step :: steps => (step = .failed → steps = []) ∧ FailsLast steps

/-- One result for each call, in call order. -/
def Answers (calls : List FunctionCall) (items : List InputItem) : Prop :=
  List.Forall₂ (fun call item => ∃ output, item = .toolResult call.callId output) calls items

section
variable {before : ToolStep → Prop} {after : ToolStep} {steps later : List ToolStep}

omit [JsonPrint] in
theorem Preceded.append (first : Preceded before after steps) (second : Preceded before after later) :
    Preceded before after (steps ++ later) := by
  induction steps with
  | nil => exact second
  | cons step steps ih => exact ⟨first.1, first.2.imp_right ih⟩

omit [JsonPrint] in
theorem Preceded.of_append (whole : Preceded before after (steps ++ later)) : Preceded before after steps := by
  induction steps with
  | nil => trivial
  | cons step steps ih => exact ⟨whole.1, whole.2.imp_right ih⟩

omit [JsonPrint] in
theorem FailsLast.append (second : FailsLast later) (none : .failed ∉ steps) : FailsLast (steps ++ later) := by
  induction steps with
  | nil => exact second
  | cons step steps ih =>
    rw [List.mem_cons, not_or] at none
    exact ⟨fun failed => absurd failed.symm none.1, ih none.2⟩

theorem executions_append (first second : List ToolStep) :
    executions (first ++ second) = executions first ++ executions second := by
  simp [executions]

omit [JsonPrint] in
theorem returnedItems_append (first second : List ToolStep) :
    returnedItems (first ++ second) = returnedItems first ++ returnedItems second := by
  simp [returnedItems]

end

section
variable {saved : Option CachedResult} {call : FunctionCall} {arguments : Json} {steps : List ToolStep}

theorem Begins.unfailed (begins : Begins saved call arguments steps) : .failed ∉ steps := by
  obtain ⟨whole, _, performs, shorter⟩ := begins
  intro member
  have found := shorter.subset member
  cases performs <;> simp at found

theorem Begins.returns (begins : Begins saved call arguments steps) : returnedItems steps = [] := by
  obtain ⟨whole, _, performs, rest, same⟩ := begins
  have none : returnedItems whole = [] := by cases performs <;> rfl
  rw [← same, returnedItems_append, List.append_eq_nil_iff] at none
  exact none.1

theorem Performs.executions (performs : Performs saved call arguments steps output) :
    (executions steps).Sublist [call.callId] ∧ (executions steps ≠ [] → saved = none) := by
  cases performs with
  | reused => exact ⟨List.nil_sublist _, fun some => absurd rfl some⟩
  | dispatched _ unknown => exact ⟨List.Sublist.refl _, fun _ => unknown⟩

theorem Begins.executions (begins : Begins saved call arguments steps) :
    (executions steps).Sublist [call.callId] ∧ (executions steps ≠ [] → saved = none) := by
  obtain ⟨_, _, performs, rest, rfl⟩ := begins
  obtain ⟨own, unknown⟩ := Performs.executions performs
  rw [executions_append] at own unknown
  exact ⟨(List.sublist_append_left _ _).trans own, fun some => unknown (List.append_ne_nil_of_left_ne_nil some _)⟩

end

/-- The rules that the steps of every call keep, whole or cut short, also hold of a batch. -/
theorem Drains.induct {saved : Text → Option CachedResult} {reply : Reply ε (List InputItem)}
    (motive : List ToolStep → Prop) (drains : Drains saved calls steps reply) (empty : motive [])
    (append : ∀ first second, motive first → motive second → motive (first ++ second))
    (cut : ∀ first second, motive (first ++ second) → motive first) (failed : motive [.failed])
    (whole : ∀ call ∈ calls, ∀ block output, Performs (saved call.1.callId) call.1 call.2 block output →
      motive (block ++ [.returned (.toolResult call.1.callId output)])) :
    motive steps := by
  have begun : ∀ call ∈ calls, ∀ block, Begins (saved call.1.callId) call.1 call.2 block → motive block := by
    rintro call member block ⟨_, output, performs, rest, rfl⟩
    have held := whole call member _ output performs
    rw [List.append_assoc] at held
    exact cut _ _ held
  induction drains with
  | done => exact empty
  | @returned call arguments calls block later output reply performs _ ih =>
    rw [List.append_cons]
    refine append _ _ (whole (call, arguments) List.mem_cons_self _ output performs) (ih ?_ ?_)
    · exact fun other member => whole other (List.mem_cons_of_mem _ member)
    · exact fun other member => begun other (List.mem_cons_of_mem _ member)
  | @dropped call arguments _ _ begins => exact begun (call, arguments) List.mem_cons_self _ begins
  | @failed call arguments _ _ _ begins =>
    exact append _ _ (begun (call, arguments) List.mem_cons_self _ begins) failed
  | droppedBetween => exact empty
  | failedBetween => exact failed

namespace Drains
variable {saved : Text → Option CachedResult} {calls : List PreparedCall} {steps : List ToolStep}
  {reply : Reply ε (List InputItem)}

theorem started (drains : Drains saved calls steps reply) (call : FunctionCall) (arguments : Json) :
    Preceded (· = .event (.toolExecutionStarted call.callId call.name)) (.executing call arguments) steps := by
  refine drains.induct _ trivial (fun _ _ => .append) (fun _ _ => .of_append) ⟨nofun, .inr trivial⟩ ?_
  rintro ⟨next, _⟩ _ block output (_ | _)
  · simp [Preceded]
  · by_cases same : next = call
    · simp [Preceded, same]
    · simp [Preceded, same]

theorem finished (drains : Drains saved calls steps reply) (id name : Text) (isError : Bool) :
    Preceded (fun step => ∃ output, step = .result id output isError)
      (.event (.toolExecutionFinished id name isError)) steps := by
  refine drains.induct _ trivial (fun _ _ => .append) (fun _ _ => .of_append) ⟨nofun, .inr trivial⟩ ?_
  rintro ⟨next, _⟩ _ block output (_ | value)
  · simp [Preceded]
  · by_cases own : next.callId = id
    · by_cases same : (settledOutput value).2 = isError <;> simp [Preceded, own, same]
    · simp [Preceded, own]

theorem marked (drains : Drains saved calls steps reply) {cached : CachedResult}
    (known : saved id = some cached) :
    Preceded (fun step => ∃ name, step = .event (.toolResultReused id name)) (.returned (.toolResult id output)) steps := by
  refine drains.induct _ trivial (fun _ _ => .append) (fun _ _ => .of_append) ⟨nofun, .inr trivial⟩ ?_
  rintro ⟨next, _⟩ _ block output (⟨found, same⟩ | ⟨value, unknown⟩)
  · by_cases own : next.callId = id <;> simp [Preceded, own]
  · have own : next.callId ≠ id := by
      rintro rfl
      rw [known] at unknown
      exact nomatch unknown
    simp [Preceded, own]

theorem answers (drains : Drains saved calls steps reply) :
    ∃ n, Answers ((calls.map Prod.fst).take n) (returnedItems steps) := by
  induction drains with
  | done | droppedBetween | failedBetween => exact ⟨0, .nil⟩
  | @returned call arguments calls block later output reply performs _ ih =>
    obtain ⟨n, answered⟩ := ih
    have none := Begins.returns ⟨_, _, performs, List.prefix_rfl⟩
    refine ⟨n + 1, ?_⟩
    rw [returnedItems_append, none]
    exact .cons ⟨output, rfl⟩ answered
  | dropped begins => exact ⟨0, by rw [Begins.returns begins]; exact .nil⟩
  | failed begins => exact ⟨0, by rw [returnedItems_append, Begins.returns begins]; exact .nil⟩

theorem executions (drains : Drains saved calls steps reply) :
    (executions steps).Sublist (calls.map (·.1.callId)) ∧ ∀ id ∈ Wi.executions steps, saved id = none := by
  have block : ∀ {call : FunctionCall} {taken : List ToolStep},
      (Wi.executions taken).Sublist [call.callId] ∧ (Wi.executions taken ≠ [] → saved call.callId = none) →
      ∀ id ∈ Wi.executions taken, saved id = none := by
    rintro call taken ⟨own, unknown⟩ id member
    rw [List.mem_singleton.mp (own.subset member)]
    exact unknown (List.ne_nil_of_mem member)
  induction drains with
  | done | droppedBetween | failedBetween => exact ⟨List.nil_sublist _, nofun⟩
  | @returned call arguments calls taken later output reply performs _ ih =>
    have own := Performs.executions performs
    rw [executions_append]
    refine ⟨own.1.append ih.1, fun id member => ?_⟩
    exact (List.mem_append.mp member).elim (block own id) (ih.2 id)
  | dropped begins =>
    have own := Begins.executions begins
    exact ⟨own.1.trans (List.singleton_sublist.mpr List.mem_cons_self), block own⟩
  | failed begins =>
    have own := Begins.executions begins
    rw [executions_append, show Wi.executions [.failed] = [] from rfl, List.append_nil]
    exact ⟨own.1.trans (List.singleton_sublist.mpr List.mem_cons_self), block own⟩

end Drains
end

section
variable [JsonText] {steps : List ToolStep} {id : Text}

/-- The call that an output item asks for. -/
def OutputItem.request (item : OutputItem) : Option FunctionCall :=
  if item.kind = .functionCall then item.functionCall else none

/-- The calls that a response asks for. -/
def ModelResponse.functionCalls (response : ModelResponse) : List FunctionCall :=
  response.output.filterMap OutputItem.request

/-- A call that the checks of the scope accept. -/
def ToolRegistry.Accepts (registry : ToolRegistry) (call : PreparedCall) : Prop :=
  JsonText.parse call.1.arguments = some call.2 ∧
    ∀ cached, registry.saved call.1.callId = some cached → cached.name = call.1.name ∧ cached.arguments = call.2

namespace ToolRegistry
variable {registry : ToolRegistry} {calls prepared : List PreparedCall}

theorem prepareCall_spec {call : FunctionCall} (done : registry.prepareCall calls call = .ok prepared) :
    ∃ arguments, prepared = calls ++ [(call, arguments)] ∧ registry.Accepts (call, arguments) ∧
      call.callId ∉ calls.map (·.1.callId) := by
  simp only [prepareCall, bind_eq_ok, demand_eq_ok, obtained_eq_ok, pure_eq_ok, Except.ok.injEq] at done
  obtain ⟨_, identity, _, _, arguments, parsed, _, _, _, _, _, _, _, agrees, rfl⟩ := done
  refine ⟨arguments, rfl, ⟨parsed, fun cached known => ?_⟩, ?_⟩
  · simpa [known] using agrees
  · simp only [Bool.and_eq_true, Bool.not_eq_true', List.any_eq_false, beq_iff_eq] at identity
    rintro member
    obtain ⟨earlier, found, same⟩ := List.mem_map.mp member
    exact identity.2 earlier found same

theorem prepareItem_spec {item : OutputItem} (done : registry.prepareItem calls item = .ok prepared) :
    (item.request = none ∧ prepared = calls) ∨
      ∃ call, item.request = some call ∧ registry.prepareCall calls call = .ok prepared := by
  have skipped : item.kind ≠ .functionCall → item.request = none := fun other => if_neg other
  unfold prepareItem at done
  split at done
  · rename_i kind
    exact .inl ⟨skipped (by simp [kind]), (Except.ok.inj done).symm⟩
  · rename_i kind
    exact .inl ⟨skipped (by simp [kind]), (Except.ok.inj done).symm⟩
  · rename_i kind
    obtain ⟨call, executable, checked⟩ := bind_eq_ok.mp done
    simp only [executableCall, bind_eq_ok, demand_eq_ok, obtained_eq_ok, pure_eq_ok, Except.ok.injEq]
      at executable
    obtain ⟨_, found, _, _, rfl⟩ := executable
    exact .inr ⟨_, by rw [OutputItem.request, if_pos kind, found], checked⟩
  · exact nomatch done

/-- The calls accepted so far: those asked for, with distinct identities. -/
structure Prepared (registry : ToolRegistry) (items : List OutputItem) (calls : List PreparedCall) : Prop where
  asked : items.filterMap OutputItem.request = calls.map Prod.fst
  distinct : (calls.map (·.1.callId)).Nodup
  accepted : ∀ call ∈ calls, registry.Accepts call

theorem Prepared.item {items : List OutputItem} {item : OutputItem} (held : Prepared registry items calls)
    (done : registry.prepareItem calls item = .ok prepared) : Prepared registry (items ++ [item]) prepared := by
  obtain ⟨skipped, rfl⟩ | ⟨call, asked, checked⟩ := prepareItem_spec done
  · exact ⟨by simp [held.asked, skipped], held.distinct, held.accepted⟩
  · obtain ⟨arguments, rfl, accepted, fresh⟩ := prepareCall_spec checked
    refine ⟨by simp [held.asked, asked], ?_, ?_⟩
    · rw [List.map_append, List.nodup_append]
      refine ⟨held.distinct, by simp, ?_⟩
      rintro id member other only rfl
      rw [List.map_singleton, List.mem_singleton] at only
      exact fresh (only ▸ member)
    · rw [List.forall_mem_append]
      exact ⟨held.accepted, by simpa using accepted⟩

theorem Prepared.items {before after : List OutputItem} (held : Prepared registry before calls)
    (done : after.foldlM registry.prepareItem calls = .ok prepared) : Prepared registry (before ++ after) prepared := by
  induction after generalizing before calls with
  | nil =>
    cases done
    rwa [List.append_nil]
  | cons item after ih =>
    rw [List.foldlM_cons] at done
    obtain ⟨next, checked, rest⟩ := bind_eq_ok.mp done
    rw [List.append_cons]
    exact ih (held.item checked) rest

end ToolRegistry

/-- What holds of one response of a scope, given what the earlier ones saved. -/
structure BatchRecord.Orderly (saved : Text → Option CachedResult) (record : BatchRecord ε) : Prop where
  refused : ∀ error, record.verdict = .error error → record.steps = [] ∧ record.reply = none
  conflict : ∀ call ∈ record.response.functionCalls, ∀ cached, saved call.callId = some cached →
    (cached.name ≠ call.name ∨ JsonText.parse call.arguments ≠ some cached.arguments) →
    ∃ error, record.verdict = .error error
  unsaved : ∀ id ∈ executions record.steps, saved id = none
  repeated : ∀ id cached, saved id = some cached → ∀ call arguments, call.callId = id →
    .executing call arguments ∉ record.steps
  identical : ∀ id cached output, saved id = some cached → .returned (.toolResult id output) ∈ record.steps →
    output = cached.output
  marked : ∀ id cached output, saved id = some cached →
    Preceded (fun step => ∃ name, step = .event (.toolResultReused id name)) (.returned (.toolResult id output))
      record.steps
  started : ∀ call arguments, Preceded (· = .event (.toolExecutionStarted call.callId call.name))
    (.executing call arguments) record.steps
  finished : ∀ id name isError, Preceded (fun step => ∃ output, step = .result id output isError)
    (.event (.toolExecutionFinished id name isError)) record.steps
  inOrder : ∃ n, Answers (record.response.functionCalls.take n) (returnedItems record.steps)
  complete : ∀ items, record.reply = some (.ok items) →
    items = returnedItems record.steps ∧ Answers record.response.functionCalls items
  stops : FailsLast record.steps

namespace ToolRegistry

end ToolRegistry

end

namespace Pings

def ping : Tool := ⟨⟨"ping".toList, "".toList, .object [], true⟩, fun _ => .ok ()⟩

def registry : ToolRegistry := ⟨[("ping".toList, ping)], []⟩

/-- A caller that lets everything pass; the tool answers `null`. -/
def caller : ToolCaller Unit Unit where
  admitted := pure ()
  checkpoint := pure ()
  race _ _ := pure (.ok .null)
  event _ := pure ()
  result _ _ _ := pure ()
  prepared := pure ()

def response : ModelResponse where
  outputProvenance := .nativeTerminal
  id := "r".toList
  model := none
  outcome := .completed
  output := [⟨none, .functionCall, "function_call".toList,
    some ⟨"a".toList, "ping".toList, "\x7b\x7d".toList, .direct, none, true⟩, .object []⟩]
  text := []
  usage := none
  native := .object []

end Pings

end Wi
