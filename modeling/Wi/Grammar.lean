import Wi.Controller
import Wi.Dispatched

/-! The events that a run delivers and the counters it returns, for every behaviour of the
provider, the tools, the observer and the canceller. -/
namespace Wi.Controller

/-- The steps that a counter counts. -/
def Counter.counts : Counter → RunStep → Bool
  | .turnsStarted, .sent (.turnStarted _) | .turnsFinished, .sent (.turnFinished ..)
  | .modelRequestsAttempted, .generate _ | .modelRequestsAdmitted, .admitted _
  | .newToolDispatches, .sent (.toolEvent (.toolExecutionStarted ..)) | .toolResultsPrepared, .prepared
  | .reusedResults, .sent (.toolEvent (.toolResultReused ..)) => true
  | _, _ => false

def RunStep.envelope : RunStep → Option RunEventEnvelope
  | .delivered envelope => some envelope
  | _ => none

/-- The envelopes handed to the observer, in order. -/
def envelopes (steps : List RunStep) : List RunEventEnvelope := steps.filterMap RunStep.envelope

def events (steps : List RunStep) : List RunEvent := (envelopes steps).map (·.event)

inductive TurnEvent : RunEvent → Prop
  | provider (event : EventEnvelope) : TurnEvent (.providerEvent event)
  | tool (event : ToolExecutionEvent) : TurnEvent (.toolEvent event)

/-- The events of `n` complete turns, numbered from one. -/
inductive Turns : Nat → List RunEvent → Prop
  | none : Turns 0 []
  | turn {n : Nat} {earlier inner : List RunEvent} {number : UInt64} (responseId : Option Text) (outcome : TurnOutcome)
      (upstream : Option UpstreamOutcome) (before : Turns n earlier) (numbered : number.toNat = n + 1)
      (within : ∀ event ∈ inner, TurnEvent event) :
      Turns (n + 1) (earlier ++ .turnStarted number :: (inner ++ [.turnFinished number responseId outcome upstream]))

/-- A whole run: its start, its turns and its end. -/
def WholeRun (events : List RunEvent) : Prop :=
  ∃ n turns outcome summary, Turns n turns ∧ events = .runStarted :: (turns ++ [.runFinished outcome summary])

/-- Nothing is delivered after the observer failed. -/
def Quiet : List RunStep → Prop
  | [] => True
  | step :: steps => ((∃ error, step = .sinkFailed error) → ∀ later ∈ steps, later.envelope = none) ∧ Quiet steps

/-- What a run did and returned: its deliveries are numbered from one and are the start of a
whole run with its turns numbered from one, nothing is delivered after an error of the
observer, the summary it returns counts its steps, and its prepared results are the new and
the reused ones if every batch ended. -/
structure Grammatical (reply : Reply RunOutcome RunResult) (steps : List RunStep) : Prop where
  within : ∃ whole, WholeRun whole ∧ events steps <+: whole
  numbered : (envelopes steps).map (·.sequence) = List.range' 1 (envelopes steps).length
  quiet : Quiet steps
  counted : ∀ result, reply = .ok result → ∀ counter : Counter,
    (counter.value result.summary).toNat = steps.countP counter.counts
  balanced : ∀ result, reply = .ok result → steps.count .batch = steps.count .batchDone →
    result.summary.toolResultsPrepared.toNat =
      result.summary.newToolDispatches.toNat + result.summary.reusedResults.toNat

/-- What the rules of a run read of its state. -/
structure View where
  steps : List RunStep
  sequence : UInt64
  sinkError : Option RunSinkError
  counters : Counter → UInt64

def State.view (s : State ω) : View := ⟨s.steps, s.sequence, s.sinkError, Counter.value s.summary⟩

def View.count (v : View) (counter : Counter) : Nat := (v.counters counter).toNat

/-- The tool results and batches of a run so far. -/
structure Tally where
  prepared : Nat
  dispatched : Nat
  reused : Nat
  opened : Nat
  closed : Nat

def View.tally (v : View) : Tally where
  prepared := v.count .toolResultsPrepared
  dispatched := v.count .newToolDispatches
  reused := v.count .reusedResults
  opened := v.steps.count .batch
  closed := v.steps.count .batchDone

/-- What holds of a run at every moment. -/
structure Safe (v : View) : Prop where
  counted : ∀ counter, v.count counter = v.steps.countP counter.counts
  numbered : (envelopes v.steps).map (·.sequence) = List.range' 1 (envelopes v.steps).length
  quiet : Quiet v.steps
  within : ∃ whole, WholeRun whole ∧ events v.steps <+: whole
  settled : v.tally.opened = v.tally.closed → v.tally.prepared = v.tally.dispatched + v.tally.reused

/-- Where a run stands between two deliveries, with the number of its complete turns. -/
inductive Place where
  | fresh
  | between (turns : Nat)
  | starting (turns : Nat)
  | inside (turns : Nat)
  | ending (turns : Nat)
  | done

def Place.At (v : View) : Place → Prop
  | .fresh => events v.steps = [] ∧ v.count .turnsStarted = 0 ∧ v.count .turnsFinished = 0
  | .between n => (∃ turns, Turns n turns ∧ events v.steps = .runStarted :: turns) ∧
      v.count .turnsStarted = n ∧ v.count .turnsFinished = n
  | .starting n => (∃ turns, Turns n turns ∧ events v.steps = .runStarted :: turns) ∧
      v.count .turnsStarted = n + 1 ∧ v.count .turnsFinished = n
  | .inside n => (∃ turns inner, Turns n turns ∧ (∀ event ∈ inner, TurnEvent event) ∧
      events v.steps = .runStarted :: (turns ++ .turnStarted (v.counters .turnsStarted) :: inner)) ∧
      v.count .turnsStarted = n + 1 ∧ v.count .turnsFinished = n
  | .ending n => (∃ turns inner, Turns n turns ∧ (∀ event ∈ inner, TurnEvent event) ∧
      events v.steps = .runStarted :: (turns ++ .turnStarted (v.counters .turnsStarted) :: inner)) ∧
      v.count .turnsStarted = n + 1 ∧ v.count .turnsFinished = n + 1
  | .done => WholeRun (events v.steps)

/-- A run whose observer still listens. -/
structure Live (place : Place) (tallied : Tally → Prop) (v : View) : Prop extends Safe v where
  listening : v.sinkError = none
  unfailed : ∀ error, .sinkFailed error ∉ v.steps
  sequence : v.sequence.toNat = (envelopes v.steps).length
  place : place.At v
  tallied : tallied v.tally

/-- A run that delivers nothing more: its observer failed or its numbers are used up. -/
structure Frozen (v : View) : Prop extends Safe v where
  frozen : v.sinkError.isSome ∨ ¬ v.sequence.toNat + 1 < 2 ^ 64

/-- No batch is open. -/
def Even (tally : Tally) : Prop := tally.opened = tally.closed

/-- A batch is open, and `waiting` of its announced results are not yet prepared. -/
def InBatch (waiting : Nat) (tally : Tally) : Prop :=
  tally.opened = tally.closed + 1 ∧ tally.prepared + waiting = tally.dispatched + tally.reused

/-- The action ended in `after` or failed in `error`; left pending, the run is safe. -/
abbrev Ends (after : α → View → Prop) (error : View → Prop) : Reply RunOutcome α → State ω → Prop :=
  Act.ends (fun value s => after value s.view) (fun s => error s.view) fun s => Safe s.view

def Meets (before : View → Prop) (action : Run ω α) (after : α → View → Prop) (error : View → Prop) : Prop :=
  Act.Triple (fun s => before s.view) action (Ends after error)

namespace Meets
variable {ω α β : Type} {before error : View → Prop} {action : Run ω α} {after : β → View → Prop}

theorem bind {middle : α → View → Prop} {next : α → Run ω β} (first : Meets before action middle error)
    (rest : ∀ value, Meets (middle value) (next value) after error) : Meets before (action >>= next) after error :=
  Act.Triple.chain first rest

theorem read_bind {next : State ω → Run ω β}
    (rest : ∀ s, before s.view → Ends after error (next s s).1 (next s s).2) :
    Meets before (Act.read >>= next) after error := rest

theorem attempt {middle : α → View → Prop} {failing error : View → Prop} {after : Except RunOutcome α → View → Prop}
    (within : Meets before action middle failing) (value : ∀ v view, middle v view → after (.ok v) view)
    (fails : ∀ reason view, failing view → after (.error reason) view) :
    Meets before (Act.attempt action : Run ω (Except RunOutcome α)) after error :=
  Act.Triple.attempt within (fun v s => value v s.view) (fun reason s => fails reason s.view) fun _ safe => safe

theorem calm {action : Run ω Unit} (calm : ∀ s, ∃ t, action s = (.ok (), t) ∧ t.view = s.view) :
    Meets before action (fun _ => before) error := by
  intro s held
  obtain ⟨t, done, same⟩ := calm s
  rw [done]
  show before t.view
  rwa [same]

theorem hang (safe : ∀ v, before v → Safe v) : Meets (ω := ω) before hang after error := fun s held => safe s.view held

theorem mono {stronger weaker : View → Prop} {action : Run ω β} {looser : β → View → Prop}
    (meets : Meets before action after error) (pre : ∀ v, stronger v → before v)
    (post : ∀ value v, after value v → looser value v) (fails : ∀ v, error v → weaker v) :
    Meets stronger action looser weaker :=
  Act.Triple.mono meets (fun _ held => pre _ held) fun reply s reached => by
    cases reply with
    | ok value => exact post value s.view reached
    | error _ => exact fails s.view reached
    | pending => exact reached

end Meets

/-- The action leaves all that the rules read as it was. -/
def Silent (action : Run ω α) : Prop := ∀ s, (action s).2.view = s.view

namespace Silent
variable {ω α β : Type}

theorem meets {action : Run ω α} (silent : Silent action) {before : View → Prop} (safe : ∀ v, before v → Safe v) :
    Meets before action (fun _ => before) before := by
  intro s held
  have same := silent s
  rw [← same] at held
  match action s, held with
  | (.ok _, _), held | (.error _, _), held => exact held
  | (.pending, t), held => exact safe _ held

theorem bind {action : Run ω α} {next : α → Run ω β} (first : Silent action) (rest : ∀ value, Silent (next value)) :
    Silent (action >>= next) := by
  intro s
  show (Act.bind action next s).2.view = s.view
  have same := first s
  unfold Act.bind
  match action s, same with
  | (.ok value, t), same => exact (rest value t).trans same
  | (.error _, t), same => exact same
  | (.pending, t), same => exact same

theorem pure (value : α) : Silent (Pure.pure value : Run ω α) := fun _ => rfl
theorem throw (outcome : RunOutcome) : Silent (Act.throw outcome : Run ω α) := fun _ => rfl
theorem read : Silent (Act.read : Run ω (State ω)) := fun _ => rfl
theorem consult (question : ω → α × ω) : Silent (consult question) := fun _ => rfl

theorem lift (result : Except RunOutcome α) : Silent (Act.lift result : Run ω α) := by
  intro s
  cases result <;> rfl

theorem cancellable (request : Act ω Unit α) : Silent (cancellable request) := by
  intro s
  unfold Controller.cancellable
  match request s.world with
  | (.ok _, _) | (.error _, _) | (.pending, _) => rfl

theorem setUpstream (outcome : UpstreamOutcome) : Silent (setUpstream outcome : Run ω Unit) := by
  intro s
  show View.mk _ _ _ _ = View.mk _ _ _ _
  congr 1

end Silent

/-! ## Deliveries -/

/-- The event that takes a run from one place to the next. -/
inductive Follows (v : View) : Place → RunEvent → Place → Prop
  | start : Follows v .fresh .runStarted (.between 0)
  | turn (n : Nat) : Follows v (.starting n) (.turnStarted (v.counters .turnsStarted)) (.inside n)
  | inner (n : Nat) {event : RunEvent} (within : TurnEvent event) : Follows v (.inside n) event (.inside n)
  | finish (n : Nat) (responseId : Option Text) (outcome : TurnOutcome) (upstream : Option UpstreamOutcome) :
      Follows v (.ending n) (.turnFinished (v.counters .turnsStarted) responseId outcome upstream) (.between (n + 1))
  | done (n : Nat) (outcome : RunOutcome) (summary : RunSummary) :
      Follows v (.between n) (.runFinished outcome summary) .done

def View.delivering (v : View) (envelope : RunEventEnvelope) : View :=
  { v with steps := v.steps ++ [.delivered envelope], sequence := v.sequence + 1 }

theorem events_delivering (v : View) (envelope : RunEventEnvelope) :
    events (v.delivering envelope).steps = events v.steps ++ [envelope.event] := by
  simp [View.delivering, events, envelopes, RunStep.envelope]

variable {v : View} {place next : Place}

theorem Follows.at {envelope : RunEventEnvelope} (follows : Follows v place envelope.event next)
    (held : place.At v) : next.At (v.delivering envelope) := by
  generalize same : envelope.event = event at follows
  have grown := events_delivering v envelope
  rw [same] at grown
  cases follows with
  | start =>
    obtain ⟨none, started, finished⟩ := held
    exact ⟨⟨[], .none, by rw [grown, none]; rfl⟩, started, finished⟩
  | turn n =>
    obtain ⟨⟨turns, complete, before⟩, started, finished⟩ := held
    exact ⟨⟨turns, [], complete, nofun, by rw [grown, before]; rfl⟩, started, finished⟩
  | inner n within =>
    obtain ⟨⟨turns, inner, complete, all, before⟩, started, finished⟩ := held
    refine ⟨⟨turns, inner ++ [event], complete, ?_, ?_⟩, started, finished⟩
    · rw [List.forall_mem_append]
      exact ⟨all, by simpa using within⟩
    · rw [grown, before]
      simp [View.delivering]
  | finish n responseId outcome upstream =>
    obtain ⟨⟨turns, inner, complete, all, before⟩, started, finished⟩ := held
    refine ⟨⟨_, .turn responseId outcome upstream complete started all, ?_⟩, started, finished⟩
    rw [grown, before]
    simp
  | done n outcome summary =>
    obtain ⟨⟨turns, complete, before⟩, _⟩ := held
    exact ⟨n, turns, outcome, summary, complete, by rw [grown, before]; rfl⟩

theorem Place.At.within (held : place.At v) : ∃ whole, WholeRun whole ∧ events v.steps <+: whole := by
  have ended : ∀ n turns, Turns n turns → WholeRun (.runStarted :: (turns ++ [.runFinished .completed RunSummary.default])) :=
    fun n turns complete => ⟨n, turns, _, _, complete, rfl⟩
  cases place with
  | fresh => exact ⟨_, ended 0 [] .none, by rw [held.1]; exact List.nil_prefix⟩
  | between n | starting n =>
    obtain ⟨⟨turns, complete, same⟩, _⟩ := held
    exact ⟨_, ended n turns complete, by rw [same]; exact List.prefix_append (.runStarted :: turns) _⟩
  | inside n | ending n =>
    obtain ⟨⟨turns, inner, complete, all, same⟩, started, _⟩ := held
    refine ⟨_, ended (n + 1) _ (.turn none .modelCompleted none complete started all), ?_⟩
    rw [same]
    simp
  | done => exact ⟨_, held, List.prefix_rfl⟩

theorem quiet_concat {steps : List RunStep} (unfailed : ∀ error, .sinkFailed error ∉ steps) (last : RunStep) :
    Quiet (steps ++ [last]) := by
  induction steps with
  | nil => exact ⟨fun _ _ member => absurd member List.not_mem_nil, trivial⟩
  | cons step steps ih =>
    refine ⟨?_, ih fun error member => unfailed error (List.mem_cons_of_mem _ member)⟩
    rintro ⟨error, rfl⟩
    exact absurd List.mem_cons_self (unfailed error)

theorem counts_delivered (counter : Counter) (envelope : RunEventEnvelope) :
    counter.counts (.delivered envelope) = false := by
  cases counter <;> rfl

theorem counts_sinkFailed (counter : Counter) (error : RunSinkError) : counter.counts (.sinkFailed error) = false := by
  cases counter <;> rfl

theorem tally_delivering (v : View) (envelope : RunEventEnvelope) : (v.delivering envelope).tally = v.tally := by
  simp [View.tally, View.delivering, View.count, List.count_append]

theorem Live.delivering {tallied : Tally → Prop} (live : Live place tallied v) (envelope : RunEventEnvelope)
    (follows : Follows v place envelope.event next) (room : v.sequence.toNat + 1 < 2 ^ 64)
    (numbered : envelope.sequence = (v.sequence + 1).toNat) : Live next tallied (v.delivering envelope) := by
  have placed := follows.at live.place
  have counted : (v.sequence + 1).toNat = v.sequence.toNat + 1 := by
    rw [UInt64.toNat_add]
    exact Nat.mod_eq_of_lt room
  have listed : envelopes (v.delivering envelope).steps = envelopes v.steps ++ [envelope] := by
    simp [View.delivering, envelopes, RunStep.envelope]
  refine ⟨⟨fun counter => ?_, ?_, ?_, placed.within, ?_⟩, live.listening, fun error => ?_, ?_, placed, ?_⟩
  · show v.count counter = (v.steps ++ [_]).countP _
    rw [List.countP_append, live.counted]
    simp [counts_delivered]
  · rw [listed, List.map_append, List.length_append, live.numbered, List.length_singleton, List.range'_1_concat]
    simp [numbered, counted, live.sequence, Nat.add_comm]
  · exact quiet_concat live.unfailed _
  · rw [tally_delivering]
    exact live.settled
  · simpa [View.delivering] using live.unfailed error
  · rw [listed, List.length_append, ← live.sequence]
    exact counted
  · rw [tally_delivering]
    exact live.tallied

/-- The view after the observer failed. -/
def View.failing (v : View) (error : RunSinkError) : View :=
  { v with steps := v.steps ++ [.sinkFailed error], sinkError := some error }

theorem Live.failing {tallied : Tally → Prop} (live : Live place tallied v) (error : RunSinkError) :
    Frozen (v.failing error) := by
  have listed : envelopes (v.failing error).steps = envelopes v.steps := by
    simp [View.failing, envelopes, RunStep.envelope]
  have kept : (v.failing error).tally = v.tally := by
    simp [View.tally, View.failing, View.count, List.count_append]
  refine ⟨⟨fun counter => ?_, ?_, quiet_concat live.unfailed _, ?_, ?_⟩, .inl rfl⟩
  · show v.count counter = (v.steps ++ [_]).countP _
    rw [List.countP_append, live.counted]
    simp [counts_sinkFailed]
  · rw [listed]
    exact live.numbered
  · rw [events, listed]
    exact live.within
  · rw [kept]
    exact live.settled

/-! ## Counted steps -/

def View.counting (v : View) (counter : Counter) (step : RunStep) : View :=
  { v with steps := v.steps ++ [step], counters := Function.update v.counters counter (v.counters counter + 1) }

theorem Counter.value_put (summary : RunSummary) (value : UInt64) (counter : Counter) :
    Counter.value (counter.put summary value) = Function.update (Counter.value summary) counter value := by
  funext other
  cases counter <;> cases other <;> rfl

/-- A counter went up, and the step that it counts is still to be taken. -/
def Owing (counter : Counter) (before : View → Prop) (v : View) : Prop :=
  ∃ earlier, before earlier ∧ earlier.count counter + 1 < 2 ^ 64 ∧
    v = { earlier with counters := Function.update earlier.counters counter (earlier.counters counter + 1) }

theorem increment_meets {before error : View → Prop} (counter : Counter)
    (full : ∀ v, before v → ¬ v.count counter + 1 < 2 ^ 64 → error v) :
    Meets (ω := ω) before (increment counter) (fun _ => Owing counter before) error := by
  intro s held
  unfold increment checkedIncrement
  by_cases room : (counter.value s.summary).toNat + 1 < 2 ^ 64
  · rw [if_pos room]
    refine ⟨s.view, held, room, ?_⟩
    rw [State.view, Counter.value_put]
    rfl
  · rw [if_neg room]
    exact full s.view held room

variable {counter : Counter} {step : RunStep}

theorem note_owing {before after error : View → Prop}
    (taken : ∀ v, before v → v.count counter + 1 < 2 ^ 64 → after (v.counting counter step)) :
    Meets (ω := ω) (Owing counter before) (note step) (fun _ => after) error := by
  rintro s ⟨earlier, held, room, same⟩
  have viewed : State.view { s with steps := s.steps ++ [step] } = earlier.counting counter step :=
    congrArg (fun v : View => { v with steps := v.steps ++ [step] }) same
  have reached := taken earlier held room
  rw [← viewed] at reached
  exact reached

/-- A step that belongs to this counter alone and delivers nothing. -/
structure Counter.Owns (counter : Counter) (step : RunStep) : Prop where
  counts : ∀ other : Counter, other.counts step = decide (other = counter)
  silent : step.envelope = none
  unfailed : ∀ error, step ≠ .sinkFailed error
  unbatched : step ≠ .batch ∧ step ≠ .batchDone

theorem Counter.owns_turnStarted (number : UInt64) : Owns .turnsStarted (.sent (.turnStarted number)) :=
  ⟨fun other => by cases other <;> rfl, rfl, nofun, nofun, nofun⟩

theorem Counter.owns_turnFinished (number : UInt64) (responseId : Option Text) (outcome : TurnOutcome)
    (upstream : Option UpstreamOutcome) :
    Owns .turnsFinished (.sent (.turnFinished number responseId outcome upstream)) :=
  ⟨fun other => by cases other <;> rfl, rfl, nofun, nofun, nofun⟩

theorem Counter.owns_generate (input : List InputItem) : Owns .modelRequestsAttempted (.generate input) :=
  ⟨fun other => by cases other <;> rfl, rfl, nofun, nofun, nofun⟩

theorem Counter.owns_admitted (requestId : Text) : Owns .modelRequestsAdmitted (.admitted requestId) :=
  ⟨fun other => by cases other <;> rfl, rfl, nofun, nofun, nofun⟩

theorem Counter.owns_prepared : Owns .toolResultsPrepared .prepared :=
  ⟨fun other => by cases other <;> rfl, rfl, nofun, nofun, nofun⟩

theorem Counter.owns_started (callId name : Text) :
    Owns .newToolDispatches (.sent (.toolEvent (.toolExecutionStarted callId name))) :=
  ⟨fun other => by cases other <;> rfl, rfl, nofun, nofun, nofun⟩

theorem Counter.owns_reused (callId name : Text) :
    Owns .reusedResults (.sent (.toolEvent (.toolResultReused callId name))) :=
  ⟨fun other => by cases other <;> rfl, rfl, nofun, nofun, nofun⟩

section
variable {v : View} {counter : Counter} {step : RunStep}

theorem count_counting (room : v.count counter + 1 < 2 ^ 64) (other : Counter) :
    (v.counting counter step).count other = v.count other + if other = counter then 1 else 0 := by
  unfold View.count View.counting
  by_cases same : other = counter
  · subst same
    simp only [Function.update_self, ↓reduceIte]
    rw [UInt64.toNat_add]
    exact Nat.mod_eq_of_lt room
  · simp [same]

theorem envelopes_counting (owns : counter.Owns step) : envelopes (v.counting counter step).steps = envelopes v.steps := by
  simp [View.counting, envelopes, owns.silent]

theorem counted_counting (owns : counter.Owns step)
    (room : v.count counter + 1 < 2 ^ 64) (counted : ∀ counter, v.count counter = v.steps.countP counter.counts)
    (other : Counter) :
    (v.counting counter step).count other = (v.counting counter step).steps.countP other.counts := by
  rw [count_counting room, counted]
  show _ = (v.steps ++ [step]).countP _
  rw [List.countP_append, List.countP_singleton, owns.counts]
  simp

theorem Live.counting {tallied after : Tally → Prop} (live : Live place tallied v) (owns : counter.Owns step)
    (room : v.count counter + 1 < 2 ^ 64) (placed : next.At (v.counting counter step))
    (held : after (v.counting counter step).tally)
    (settled : (v.counting counter step).tally.opened = (v.counting counter step).tally.closed →
      (v.counting counter step).tally.prepared =
        (v.counting counter step).tally.dispatched + (v.counting counter step).tally.reused) :
    Live next after (v.counting counter step) := by
  have listed := envelopes_counting (v := v) owns
  refine ⟨⟨counted_counting owns room live.counted, ?_, quiet_concat live.unfailed _, placed.within, settled⟩,
    live.listening, fun error => ?_, ?_, placed, held⟩
  · rw [listed]
    exact live.numbered
  · simpa [View.counting, (owns.unfailed error).symm] using live.unfailed error
  · rw [listed]
    exact live.sequence

end

theorem Live.weaken {tallied weaker : Tally → Prop} (live : Live place tallied v)
    (weaken : ∀ tally, tallied tally → weaker tally) : Live place weaker v :=
  ⟨live.toSafe, live.listening, live.unfailed, live.sequence, live.place, weaken _ live.tallied⟩

theorem Place.At.counting (held : place.At v) (owns : counter.Owns step) (started : counter ≠ .turnsStarted)
    (finished : counter ≠ .turnsFinished) : place.At (v.counting counter step) := by
  have same : events (v.counting counter step).steps = events v.steps := by rw [events, envelopes_counting owns]; rfl
  have turns : (v.counting counter step).counters .turnsStarted = v.counters .turnsStarted :=
    Function.update_of_ne started.symm _ _
  have ends : (v.counting counter step).counters .turnsFinished = v.counters .turnsFinished :=
    Function.update_of_ne finished.symm _ _
  cases place <;> simp only [Place.At, View.count, same, turns, ends] <;> exact held

theorem tally_counting (owns : counter.Owns step) (room : v.count counter + 1 < 2 ^ 64) :
    (v.counting counter step).tally =
      ⟨v.tally.prepared + if Counter.toolResultsPrepared = counter then 1 else 0,
        v.tally.dispatched + if Counter.newToolDispatches = counter then 1 else 0,
        v.tally.reused + if Counter.reusedResults = counter then 1 else 0, v.tally.opened, v.tally.closed⟩ := by
  unfold View.tally
  rw [count_counting room, count_counting room, count_counting room]
  simp [View.counting, List.count_append, owns.unbatched]

def View.noting (v : View) (step : RunStep) : View := { v with steps := v.steps ++ [step] }

/-- A step that no counter counts and that delivers nothing. -/
structure RunStep.Plain (step : RunStep) : Prop where
  uncounted : ∀ counter : Counter, counter.counts step = false
  silent : step.envelope = none
  unfailed : ∀ error, step ≠ .sinkFailed error

section
variable {v : View} {step : RunStep}

theorem envelopes_noting (plain : step.Plain) : envelopes (v.noting step).steps = envelopes v.steps := by
  simp [View.noting, envelopes, plain.silent]

theorem counted_noting (plain : step.Plain) (counted : ∀ counter, v.count counter = v.steps.countP counter.counts)
    (counter : Counter) : (v.noting step).count counter = (v.noting step).steps.countP counter.counts := by
  show v.count counter = (v.steps ++ [step]).countP _
  rw [List.countP_append, List.countP_singleton, plain.uncounted, counted]
  rfl

theorem tally_noting (opens : step ≠ .batch) (closes : step ≠ .batchDone) : (v.noting step).tally = v.tally := by
  simp [View.tally, View.noting, View.count, List.count_append, opens, closes]

theorem Live.noting {tallied after : Tally → Prop} (live : Live place tallied v) (plain : step.Plain)
    (held : after (v.noting step).tally)
    (settled : (v.noting step).tally.opened = (v.noting step).tally.closed →
      (v.noting step).tally.prepared = (v.noting step).tally.dispatched + (v.noting step).tally.reused) :
    Live place after (v.noting step) := by
  have listed := envelopes_noting (v := v) plain
  have same : events (v.noting step).steps = events v.steps := by rw [events, listed]; rfl
  have placed : place.At (v.noting step) := by
    have held := live.place
    cases place <;> simp only [Place.At, same] <;> exact held
  refine ⟨⟨counted_noting plain live.counted, ?_, quiet_concat live.unfailed _, placed.within, settled⟩, live.listening,
    fun error => ?_, ?_, placed, held⟩
  · rw [listed]
    exact live.numbered
  · simpa [View.noting, (plain.unfailed error).symm] using live.unfailed error
  · rw [listed]
    exact live.sequence

end

theorem Quiet.silent {steps : List RunStep} (quiet : Quiet steps) (silent : step.envelope = none) :
    Quiet (steps ++ [step]) := by
  induction steps with
  | nil => exact ⟨fun _ _ member => absurd member List.not_mem_nil, trivial⟩
  | cons first steps ih =>
    refine ⟨fun failed => List.forall_mem_append.mpr ⟨quiet.1 failed, ?_⟩, ih quiet.2⟩
    simpa using silent

theorem Frozen.stepping {w : View} (frozen : Frozen v) (silent : step.envelope = none)
    (steps : w.steps = v.steps ++ [step]) (sequence : w.sequence = v.sequence)
    (sinkError : w.sinkError = v.sinkError)
    (counted : ∀ counter, w.count counter = w.steps.countP counter.counts) (tally : w.tally = v.tally) :
    Frozen w := by
  have listed : envelopes w.steps = envelopes v.steps := by simp [steps, envelopes, silent]
  refine ⟨⟨counted, ?_, ?_, ?_, ?_⟩, ?_⟩
  · rw [listed]
    exact frozen.numbered
  · rw [steps]
    exact frozen.quiet.silent silent
  · rw [events, listed]
    exact frozen.within
  · rw [tally]
    exact frozen.settled
  · rw [sequence, sinkError]
    exact frozen.frozen

theorem Frozen.noting (frozen : Frozen v) (plain : step.Plain) (opens : step ≠ .batch)
    (closes : step ≠ .batchDone) : Frozen (v.noting step) :=
  frozen.stepping plain.silent rfl rfl rfl (counted_noting plain frozen.counted) (tally_noting opens closes)

theorem Frozen.counting (frozen : Frozen v) (owns : Counter.turnsFinished.Owns step)
    (room : v.count .turnsFinished + 1 < 2 ^ 64) : Frozen (v.counting .turnsFinished step) := by
  refine frozen.stepping owns.silent rfl rfl rfl (counted_counting owns room frozen.counted) ?_
  rw [tally_counting owns room]
  rfl

end Wi.Controller
