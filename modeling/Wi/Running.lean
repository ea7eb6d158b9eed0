import Wi.Grammar

/-! The rules of a run applied to its code: every function of the controller keeps a run
safe, so every run is grammatical. -/
namespace Wi.Controller

variable {place next : Place} {event : RunEvent} {counter : Counter} {v : View} {turns : Nat} {step : RunStep}

section
variable [JsonText] {ω : Type} (world : World ω)

theorem checkpoint_silent : Silent (checkpoint world) := by
  refine .bind (.consult _) fun cancelled => ?_
  cases cancelled
  · exact .pure ()
  · exact .throw _

omit [JsonText] in
theorem observe_silent (envelope : EventEnvelope) (session provider : Text) :
    Silent (observe envelope session provider : Run ω Unit) := by
  refine .bind .read fun s => ?_
  split
  · refine .bind (fun _ => rfl) fun _ => .bind (.lift _) fun marked => ?_
    refine .bind (fun _ => rfl) fun _ => .bind (.lift _) fun _ => fun _ => rfl
  · exact .throw _

omit [JsonText] in
theorem terminal_silent (event : ProviderEvent) : Silent (terminal event : Run ω _) := by
  unfold terminal
  split
  · exact .bind (.setUpstream _) fun _ => .bind (fun _ => rfl) fun _ => .pure _
  · exact .bind (.setUpstream _) fun _ => .pure _
  · exact .pure _

theorem deliver_meets {tallied : Tally → Prop} :
    Meets (fun v => ∃ earlier, (Live place tallied earlier ∧ Follows earlier place event next) ∧
        earlier.sequence.toNat + 1 < 2 ^ 64 ∧ v = { earlier with sequence := earlier.sequence + 1 })
      (deliver world event) (fun _ => Live next tallied) Frozen := by
  rintro s ⟨earlier, ⟨live, follows⟩, room, same⟩
  let t : State ω := { s with world := (world.newUuid s.world).2 }
  let envelope : RunEventEnvelope :=
    ⟨2, t.sequence.toNat, (world.newUuid s.world).1, t.runId, t.turnId, t.sessionId, t.requestId, event⟩
  have numbered : envelope.sequence = (earlier.sequence + 1).toNat := congrArg (fun v : View => v.sequence.toNat) same
  have delivered := live.delivering envelope follows room numbered
  have viewed : State.view { t with steps := t.steps ++ [.delivered envelope] } = earlier.delivering envelope :=
    congrArg (fun v : View => { v with steps := v.steps ++ [RunStep.delivered envelope] }) same
  rw [← viewed] at delivered
  show Ends _ _ (observing (world.event envelope) { t with steps := t.steps ++ [.delivered envelope] }).1
    (observing (world.event envelope) { t with steps := t.steps ++ [.delivered envelope] }).2
  unfold observing
  dsimp only
  match world.event envelope t.world with
  | (.ok _, _) => exact delivered
  | (.error error, _) => exact delivered.failing error
  | (.pending, _) => exact delivered.toSafe

omit [JsonText] in
theorem incrementSequence_meets {before : View → Prop} :
    Meets (ω := ω) before incrementSequence
      (fun _ v => ∃ earlier, before earlier ∧ earlier.sequence.toNat + 1 < 2 ^ 64 ∧
        v = { earlier with sequence := earlier.sequence + 1 })
      (fun v => before v ∧ ¬ v.sequence.toNat + 1 < 2 ^ 64) := by
  intro s held
  unfold incrementSequence checkedIncrement
  by_cases room : s.sequence.toNat + 1 < 2 ^ 64
  · rw [if_pos room]
    exact ⟨s.view, held, room, rfl⟩
  · rw [if_neg room]
    exact ⟨held, room⟩

theorem transmit_meets {tallied : Tally → Prop} :
    Meets (fun v => Live place tallied v ∧ Follows v place event next) (transmit world event)
      (fun _ => Live next tallied) Frozen := by
  refine .read_bind fun s held => ?_
  rw [if_neg (by simp [show s.sinkError = none from held.1.listening])]
  have numbered : Meets (ω := ω) (fun v => Live place tallied v ∧ Follows v place event next) incrementSequence _ Frozen :=
    incrementSequence_meets.mono (fun _ held => held) (fun _ _ after => after)
      fun v held => ⟨held.1.1.toSafe, .inr held.2⟩
  exact Meets.bind numbered (fun _ => deliver_meets world) s held

theorem transmit_frozen {after : Unit → View → Prop} (event : RunEvent) :
    Meets Frozen (transmit world event) after Frozen := by
  refine .read_bind fun s held => ?_
  split
  · exact held
  · rename_i listening
    have full : ¬ s.sequence.toNat + 1 < 2 ^ 64 := held.frozen.resolve_left listening
    show Ends after Frozen (Act.bind incrementSequence _ s).1 (Act.bind incrementSequence _ s).2
    unfold Act.bind incrementSequence checkedIncrement
    rw [if_neg full]
    exact held

theorem send_plain {tallied : Tally → Prop} (plain : (RunStep.sent event).Plain)
    (follows : ∀ v, Follows v place event next) :
    Meets (Live place tallied) (send world event) (fun _ => Live next tallied) Frozen := by
  have noted : Meets (ω := ω) (Live place tallied) (note (.sent event))
      (fun _ v => Live place tallied v ∧ Follows v place event next) Frozen := by
    intro s live
    have same : (s.view.noting (.sent event)).tally = s.view.tally := tally_noting nofun nofun
    exact ⟨live.noting plain (by rw [same]; exact live.tallied) (by rw [same]; exact live.settled), follows _⟩
  exact .bind noted fun _ => transmit_meets world

theorem send_plain_frozen {after : Unit → View → Prop} (plain : (RunStep.sent event).Plain) :
    Meets Frozen (send world event) after Frozen := by
  have noted : Meets (ω := ω) Frozen (note (.sent event)) (fun _ => Frozen) Frozen :=
    fun s frozen => frozen.noting plain nofun nofun
  exact .bind noted fun _ => transmit_frozen world event

theorem send_owing {before : View → Prop} {middle : Place} {tallied : Tally → Prop}
    (counted : ∀ v, before v → v.count counter + 1 < 2 ^ 64 →
      Live middle tallied (v.counting counter (.sent event)) ∧ Follows (v.counting counter (.sent event)) middle event next) :
    Meets (Owing counter before) (send world event) (fun _ => Live next tallied) Frozen :=
  .bind (note_owing counted) fun _ => transmit_meets world

omit [JsonText] in
theorem plain_tool (callId name : Text) (isError : Bool) :
    (RunStep.sent (.toolEvent (.toolExecutionFinished callId name isError))).Plain :=
  ⟨fun counter => by cases counter <;> rfl, rfl, by simp⟩

omit [JsonText] in
theorem plain_provider (event : EventEnvelope) : (RunStep.sent (.providerEvent event)).Plain :=
  ⟨fun counter => by cases counter <;> rfl, rfl, by simp⟩

omit [JsonText] in
theorem plain_runStarted : (RunStep.sent .runStarted).Plain := ⟨fun counter => by cases counter <;> rfl, rfl, by simp⟩

omit [JsonText] in
theorem plain_runFinished (outcome : RunOutcome) (summary : RunSummary) : (RunStep.sent (.runFinished outcome summary)).Plain :=
  ⟨fun counter => by cases counter <;> rfl, rfl, by simp⟩

/-- A turn that was stopped before its end. -/
def Stopped (turns : Nat) (v : View) : Prop := Live (.inside turns) (fun _ => True) v ∨ Frozen v

omit [JsonText] in
theorem Live.stopped {tallied : Tally → Prop} (live : Live (.inside turns) tallied v) :
    Stopped turns v := .inl (live.weaken fun _ _ => trivial)

omit [JsonText] in
theorem Silent.inside {α : Type} {action : Run ω α} (silent : Silent action) {tallied : Tally → Prop} :
    Meets (Live (.inside turns) tallied) action (fun _ => Live (.inside turns) tallied) (Stopped turns) :=
  (silent.meets fun _ live => live.toSafe).mono (fun _ live => live) (fun _ _ live => live) fun _ live => live.stopped

omit [JsonText] in
theorem observing_meets {tallied : Tally → Prop} (call : Act ω RunSinkError Unit) :
    Meets (Live place tallied) (observing call) (fun _ => Live place tallied) Frozen := by
  intro s live
  unfold observing
  match call s.world with
  | (.ok _, _) => exact live
  | (.error error, _) => exact live.failing error
  | (.pending, _) => exact live.toSafe

theorem send_inside {tallied : Tally → Prop} (plain : (RunStep.sent event).Plain) (within : TurnEvent event) :
    Meets (Live (.inside turns) tallied) (send world event) (fun _ => Live (.inside turns) tallied) (Stopped turns) :=
  (send_plain world plain fun _ => .inner turns within).mono (fun _ live => live) (fun _ _ live => live) fun _ => .inr

omit [JsonText] in
theorem increment_inside {tallied : Tally → Prop} (counter : Counter) :
    Meets (ω := ω) (Live (.inside turns) tallied) (increment counter)
      (fun _ => Owing counter (Live (.inside turns) tallied)) (Stopped turns) :=
  increment_meets counter fun _ live _ => live.stopped

omit [JsonText] in
theorem Live.requesting (live : Live (.inside turns) Even v) (owns : counter.Owns step)
    (room : v.count counter + 1 < 2 ^ 64)
    (request : counter = .modelRequestsAttempted ∨ counter = .modelRequestsAdmitted) :
    Live (.inside turns) Even (v.counting counter step) := by
  have distinct : counter ≠ .turnsStarted ∧ counter ≠ .turnsFinished := by
    rcases request with rfl | rfl <;> exact ⟨nofun, nofun⟩
  have same : (v.counting counter step).tally = v.tally := by
    rw [tally_counting owns room]
    rcases request with rfl | rfl <;> rfl
  refine live.counting owns room (live.place.counting owns distinct.1 distinct.2) ?_ ?_
  · rw [same]
    exact live.tallied
  · rw [same]
    exact live.settled

omit [JsonText] in
theorem Live.announcing (live : Live (.inside turns) (InBatch 0) v) (owns : counter.Owns step)
    (room : v.count counter + 1 < 2 ^ 64) (announced : counter = .newToolDispatches ∨ counter = .reusedResults) :
    Live (.inside turns) (InBatch 1) (v.counting counter step) := by
  have distinct : counter ≠ .turnsStarted ∧ counter ≠ .turnsFinished := by
    rcases announced with rfl | rfl <;> exact ⟨nofun, nofun⟩
  have tally := tally_counting owns room
  obtain ⟨opened, balance⟩ := live.tallied
  refine live.counting owns room (live.place.counting owns distinct.1 distinct.2) ?_ ?_
  · rw [tally]
    rcases announced with rfl | rfl <;> simp [InBatch] at * <;> omega
  · rw [tally]
    exact fun closed => absurd closed (by simp only; omega)

omit [JsonText] in
theorem Live.preparing (live : Live (.inside turns) (InBatch 1) v)
    (room : v.count .toolResultsPrepared + 1 < 2 ^ 64) :
    Live (.inside turns) (InBatch 0) (v.counting .toolResultsPrepared .prepared) := by
  have tally := tally_counting Counter.owns_prepared room
  obtain ⟨opened, balance⟩ := live.tallied
  refine live.counting Counter.owns_prepared room (live.place.counting Counter.owns_prepared nofun nofun) ?_ ?_
  · rw [tally]
    exact ⟨opened, balance⟩
  · rw [tally]
    exact fun closed => absurd closed (by simp only; omega)

theorem toolEvent_announces {event : ToolExecutionEvent} (owns : counter.Owns (.sent (.toolEvent event)))
    (counted : countTool event = (increment counter : Run ω Unit))
    (announced : counter = .newToolDispatches ∨ counter = .reusedResults) :
    Meets (Live (.inside turns) (InBatch 0)) (toolEvent world event) (fun _ => Live (.inside turns) (InBatch 1))
      (Stopped turns) := by
  unfold toolEvent
  rw [counted]
  refine .bind (increment_inside counter) fun _ => ?_
  have sent : Meets (Owing counter (Live (.inside turns) (InBatch 0))) (send world (.toolEvent event))
      (fun _ => Live (.inside turns) (InBatch 1)) Frozen :=
    send_owing world fun v live room => ⟨live.announcing owns room announced, .inner turns (.tool event)⟩
  exact sent.mono (fun _ owing => owing) (fun _ _ live => live) fun _ => .inr

theorem toolEvent_finished (callId name : Text) (isError : Bool) :
    Meets (Live (.inside turns) (InBatch 1)) (toolEvent world (.toolExecutionFinished callId name isError))
      (fun _ => Live (.inside turns) (InBatch 1)) (Stopped turns) :=
  .bind (Silent.pure ()).inside fun _ => send_inside world (plain_tool callId name isError) (.tool _)

theorem prepared_meets :
    Meets (Live (.inside turns) (InBatch 1)) (caller world).prepared (fun _ => Live (.inside turns) (InBatch 0))
      (Stopped turns) :=
  .bind (increment_inside _) fun _ => note_owing fun _ live room => live.preparing room

theorem toolResult_meets {tallied : Tally → Prop} (callId output : Text) (isError : Bool) :
    Meets (Live (.inside turns) tallied) (toolResult world callId output isError)
      (fun _ => Live (.inside turns) tallied) (Stopped turns) := by
  refine .read_bind fun s live => ?_
  rw [if_neg (by simp [show s.sinkError = none from live.listening])]
  exact (observing_meets _).mono (fun _ live => live) (fun _ _ live => live) (fun _ => .inr) s live

theorem caller_keeps (turns : Nat) : (caller world).Keeps (fun s => Live (.inside turns) (InBatch 0) s.view)
    (fun s => Live (.inside turns) (InBatch 1) s.view) (fun s => Stopped turns s.view) (fun s => Safe s.view) where
  admitted := (checkpoint_silent world).inside
  before := (checkpoint_silent world).inside
  reused callId name := toolEvent_announces world (Counter.owns_reused callId name) rfl (.inr rfl)
  started callId name := toolEvent_announces world (Counter.owns_started callId name) rfl (.inl rfl)
  checkpoint := (checkpoint_silent world).inside
  race _ _ := (Silent.cancellable _).inside
  result := toolResult_meets world
  finished := toolEvent_finished world
  prepared := prepared_meets world

theorem runBatch_meets (turns : Nat) (calls : List PreparedCall) :
    Meets (Live (.inside turns) (InBatch 0)) (runBatch world calls) (fun _ => Live (.inside turns) (InBatch 0))
      (Stopped turns) := by
  intro s live
  have kept := PreparedBatch.execute_keeps (caller_keeps world turns) ⟨s.scope, calls, [], s⟩ live
  unfold runBatch
  match PreparedBatch.execute (caller world) ⟨s.scope, calls, [], s⟩, kept with
  | (.ok _, _), kept | (.error _, _), kept | (.pending, _), kept => exact kept

omit [JsonText] in
theorem note_batch :
    Meets (ω := ω) (Live (.inside turns) Even) (note .batch) (fun _ => Live (.inside turns) (InBatch 0)) (Stopped turns) := by
  intro s live
  have even : s.view.tally.opened = s.view.tally.closed := live.tallied
  have balance := live.settled even
  have tally : (s.view.noting .batch).tally = { s.view.tally with opened := s.view.tally.opened + 1 } := by
    simp [View.tally, View.noting, View.count, List.count_append]
  refine Live.noting live ⟨fun counter => by cases counter <;> rfl, rfl, by simp⟩ ?_ ?_
  · rw [tally]
    exact ⟨congrArg (· + 1) even, balance⟩
  · rw [tally]
    exact fun same => absurd same (by simp only; omega)

omit [JsonText] in
theorem note_batchDone :
    Meets (ω := ω) (Live (.inside turns) (InBatch 0)) (note .batchDone) (fun _ => Live (.inside turns) Even)
      (Stopped turns) := by
  intro s live
  obtain ⟨opened, balance⟩ := live.tallied
  have tally : (s.view.noting .batchDone).tally = { s.view.tally with closed := s.view.tally.closed + 1 } := by
    simp [View.tally, View.noting, View.count, List.count_append]
  refine Live.noting live ⟨fun counter => by cases counter <;> rfl, rfl, by simp⟩ ?_ ?_
  · rw [tally]
    exact opened
  · rw [tally]
    exact fun _ => balance

theorem runTools_meets (response : ModelResponse) :
    Meets (Live (.inside turns) Even) (runTools world response) (fun _ => Live (.inside turns) Even) (Stopped turns) := by
  refine .bind (checkpoint_silent world).inside fun _ => .bind Silent.read.inside fun _ => ?_
  refine .bind (Silent.lift _).inside fun calls => .bind note_batch fun _ => ?_
  refine .bind (runBatch_meets world turns calls) fun _ => .bind note_batchDone fun _ => ?_
  refine .bind (checkpoint_silent world).inside fun _ => .bind (Silent.lift _).inside fun _ => ?_
  exact (Silent.pure _).inside

theorem prepareTools_meets :
    Meets (Live (.inside turns) Even) (prepareTools world) (fun _ => Live (.inside turns) Even) (Stopped turns) := by
  refine .bind Silent.read.inside fun s => ?_
  cases s.lastResponse with
  | none => exact .hang fun _ live => live.toSafe
  | some response =>
    refine .bind (Silent.lift _).inside fun _ => ?_
    split
    · exact (Silent.throw _).inside
    · split
      · exact .bind (runTools_meets world response) fun _ => (Silent.pure _).inside
      · exact (Silent.pure _).inside

theorem request_meets (input : List InputItem) :
    Meets (Live (.inside turns) Even) (request world input) (fun _ => Live (.inside turns) Even) (Stopped turns) := by
  refine .bind (checkpoint_silent world).inside fun _ => ?_
  refine .bind (increment_inside _) fun _ => .bind (.calm fun _ => ⟨_, rfl, rfl⟩) fun _ => ?_
  refine .bind (note_owing fun _ live room => live.requesting (Counter.owns_generate input) room (.inl rfl)) fun _ => ?_
  refine .bind (Silent.cancellable _).inside fun receipt => ?_
  cases receipt with
  | ok requestId => exact (Silent.pure _).inside
  | error _ => exact .bind (Silent.setUpstream _).inside fun _ => (Silent.throw _).inside

omit [JsonText] in
theorem admitRequest_meets (requestId : Text) :
    Meets (ω := ω) (Live (.inside turns) Even) (admitRequest requestId) (fun _ => Live (.inside turns) Even)
      (Stopped turns) := by
  unfold admitRequest
  split
  · refine .bind (increment_inside _) fun _ => .bind (note_owing ?_) fun _ => Silent.inside fun _ => rfl
    exact fun _ live room => live.requesting (Counter.owns_admitted requestId) room (.inr rfl)
  · exact (Silent.throw _).inside

theorem collectResponse_meets (session provider : Text) (fuel : Nat) :
    Meets (Live (.inside turns) Even) (collectResponse world session provider fuel)
      (fun _ => Live (.inside turns) Even) (Stopped turns) := by
  induction fuel with
  | zero => exact .hang fun _ live => live.toSafe
  | succ fuel ih =>
    refine .bind (checkpoint_silent world).inside fun _ => .bind (Silent.cancellable _).inside fun next => ?_
    cases next with
    | none => exact (Silent.throw _).inside
    | some event =>
      refine .bind (observe_silent event session provider).inside fun _ => ?_
      refine .bind (terminal_silent event.event).inside fun ended => ?_
      refine .bind (send_inside world (plain_provider event) (.provider event)) fun _ => ?_
      cases ended with
      | some result => exact (Silent.lift result).inside
      | none => exact ih

omit [JsonText] in
theorem Live.turning {number : UInt64} (live : Live (.between turns) Even v)
    (room : v.count .turnsStarted + 1 < 2 ^ 64) :
    Live (.starting turns) Even (v.counting .turnsStarted (.sent (.turnStarted number))) := by
  have owns := Counter.owns_turnStarted number
  have tally := tally_counting owns room
  refine live.counting owns room ?_ (by rw [tally]; exact live.tallied) (by rw [tally]; exact live.settled)
  obtain ⟨complete, started, finished⟩ := live.place
  refine ⟨?_, ?_, finished⟩
  · rw [events, envelopes_counting owns]
    exact complete
  · rw [count_counting room, started]
    rfl

theorem send_turnStarted (number : UInt64) :
    Meets (Owing .turnsStarted fun v => Live (.between turns) Even v ∧ v.counters .turnsStarted + 1 = number)
      (send world (.turnStarted number)) (fun _ => Live (.inside turns) Even) (Stopped turns) := by
  have sent : Meets (Owing .turnsStarted fun v => Live (.between turns) Even v ∧ v.counters .turnsStarted + 1 = number)
      (send world (.turnStarted number)) (fun _ => Live (.inside turns) Even) Frozen := by
    refine send_owing world fun v held room => ⟨held.1.turning room, ?_⟩
    have current : (v.counting .turnsStarted (.sent (.turnStarted number))).counters .turnsStarted = number := by
      simp [View.counting, held.2]
    rw [← current]
    exact .turn turns
  exact sent.mono (fun _ owing => owing) (fun _ _ live => live) fun _ => .inr

theorem turn_meets (session provider : Text) (limit : Nat) (input : List InputItem) :
    Meets (Owing .turnsStarted (Live (.between turns) Even)) (turn world session provider limit input)
      (fun _ => Live (.inside turns) Even) (Stopped turns) := by
  refine .read_bind fun s owing => ?_
  have current : Owing .turnsStarted (fun v => Live (.between turns) Even v ∧
      v.counters .turnsStarted + 1 = s.summary.turnsStarted) s.view := by
    obtain ⟨earlier, live, room, same⟩ := owing
    have number : s.summary.turnsStarted = _ := congrArg (fun v : View => v.counters .turnsStarted) same
    exact ⟨earlier, ⟨live, by simp [number]⟩, room, same⟩
  refine Meets.bind (send_turnStarted world s.summary.turnsStarted) (fun _ => ?_) s current
  refine .bind (checkpoint_silent world).inside fun _ => .bind (request_meets world input) fun requestId => ?_
  refine .bind (admitRequest_meets requestId) fun _ => ?_
  exact .bind (collectResponse_meets world session provider limit) fun _ => prepareTools_meets world

omit [JsonText] in
theorem Live.finishing {tallied : Tally → Prop} (live : Live (.inside turns) tallied v)
    (owns : Counter.turnsFinished.Owns step) (room : v.count .turnsFinished + 1 < 2 ^ 64) :
    Live (.ending turns) tallied (v.counting .turnsFinished step) := by
  have tally := tally_counting owns room
  refine live.counting owns room ?_ (by rw [tally]; exact live.tallied) (by rw [tally]; exact live.settled)
  obtain ⟨inner, started, finished⟩ := live.place
  refine ⟨?_, started, ?_⟩
  · rw [events, envelopes_counting owns]
    exact inner
  · rw [count_counting room, finished]
    rfl

omit [JsonText] in
theorem Live.finishes {tallied : Tally → Prop} (live : Live (.inside turns) tallied v) :
    v.count .turnsFinished + 1 < 2 ^ 64 := by
  obtain ⟨_, started, finished⟩ := live.place
  rw [finished, ← started]
  exact (v.counters .turnsStarted).toNat_lt

theorem finishTurn_live {tallied : Tally → Prop} (outcome : TurnOutcome) :
    Meets (Live (.inside turns) tallied) (finishTurn world outcome) (fun _ => Live (.between (turns + 1)) tallied) Frozen := by
  refine .read_bind fun s live => ?_
  rw [if_neg (by simp [show s.sinkError = none from live.listening])]
  have counted : Meets (ω := ω) (fun v => Live (.inside turns) tallied v ∧ s.summary.turnsStarted = v.counters .turnsStarted)
      (increment .turnsFinished) _ Frozen :=
    increment_meets _ fun v held full => absurd held.1.finishes full
  refine Meets.bind counted (fun _ => ?_) s ⟨live, rfl⟩
  refine send_owing world fun v ⟨live, number⟩ room => ⟨live.finishing (Counter.owns_turnFinished ..) room, ?_⟩
  rw [number]
  exact .finish turns _ _ _

theorem finishTurn_frozen (outcome : TurnOutcome) :
    Meets Frozen (finishTurn world outcome) (fun _ => Frozen) Frozen := by
  refine .read_bind fun s frozen => ?_
  split
  · exact frozen
  · have counted : Meets (ω := ω) Frozen (increment .turnsFinished) (fun _ => Owing .turnsFinished Frozen) Frozen :=
      increment_meets _ fun _ frozen _ => frozen
    refine Meets.bind counted (fun _ => ?_) s frozen
    refine .bind (note_owing fun _ frozen room => frozen.counting (Counter.owns_turnFinished ..) room) fun _ => ?_
    exact transmit_frozen world _

/-- Where an execution ended: between two turns, or frozen. -/
def Ended (v : View) : Prop := (∃ turns, Live (.between turns) (fun _ => True) v) ∨ Frozen v

omit [JsonText] in
theorem Live.ended {tallied : Tally → Prop} (live : Live (.between turns) tallied v) : Ended v :=
  .inl ⟨turns, live.weaken fun _ _ => trivial⟩

omit [JsonText] in
theorem Silent.between {α : Type} {action : Run ω α} (silent : Silent action) :
    Meets (Live (.between turns) Even) action (fun _ => Live (.between turns) Even) Ended :=
  (silent.meets fun _ live => live.toSafe).mono (fun _ live => live) (fun _ _ live => live) fun _ live => live.ended

theorem startTurn_meets :
    Meets (Live (.between turns) Even) (startTurn world)
      (fun _ => Owing .turnsStarted (Live (.between turns) Even)) Ended := by
  refine .bind (checkpoint_silent world).between fun _ => .bind (Silent.consult _).between fun turnId => ?_
  refine .bind (Silent.between fun _ => rfl) fun _ => .bind (increment_meets _ fun _ live _ => live.ended) fun _ => ?_
  exact .bind (.calm fun _ => ⟨_, rfl, rfl⟩) fun _ => .calm fun _ => ⟨_, rfl, rfl⟩

theorem finishTurn_stopped (outcome : TurnOutcome) :
    Meets (Stopped turns) (finishTurn world outcome) (fun _ => Ended) Ended := by
  rintro s (live | frozen)
  · exact (finishTurn_live world outcome).mono (fun _ live => live) (fun _ _ live => live.ended) (fun _ => .inr) s live
  · exact (finishTurn_frozen world outcome).mono (fun _ frozen => frozen) (fun _ _ => .inr) (fun _ => .inr) s frozen

/-- The end of a turn, whatever it came to. -/
def Tried (turns : Nat) : Except RunOutcome (Option (List InputItem)) → View → Prop
  | .ok _ => Live (.inside turns) Even
  | .error _ => Stopped turns

theorem drive_meets (session provider : Text) (limit fuel : Nat) (input : List InputItem) :
    Meets (Live (.between turns) Even) (drive world session provider limit fuel input) (fun _ => Ended) Ended := by
  induction fuel generalizing turns input with
  | zero => exact .hang fun _ live => live.toSafe
  | succ fuel ih =>
    refine .bind (startTurn_meets world) fun _ => ?_
    have tried : Meets (Owing .turnsStarted (Live (.between turns) Even)) (Act.attempt (turn world session provider limit input))
        (Tried turns) Ended :=
      (turn_meets world session provider limit input).attempt (fun _ _ live => live) fun _ _ stopped => stopped
    refine .bind tried fun result => ?_
    cases result with
    | error reason => exact .bind (finishTurn_stopped world _) fun _ => fun s ended => ended
    | ok prepared =>
      have finished : Meets (Live (.inside turns) Even) (finishTurn world (turnOutcome (.ok prepared)))
          (fun _ => Live (.between (turns + 1)) Even) Ended :=
        (finishTurn_live world _).mono (fun _ live => live) (fun _ _ live => live) fun _ => .inr
      refine .bind finished fun _ => ?_
      cases prepared with
      | none => exact fun s live => live.ended
      | some results => exact ih results

theorem openSession_meets (admitted : AdmittedRun) : ∀ {turns : Nat},
    Meets (Live (.between turns) Even) (openSession world admitted) (fun _ => Live (.between turns) Even) Ended := by
  intro turns
  refine .bind (checkpoint_silent world).between fun _ => .bind (Silent.cancellable _).between fun opened => ?_
  refine .bind (Silent.lift _).between fun session => ?_
  split
  · exact (Silent.throw _).between
  · exact .bind (Silent.between fun _ => rfl) fun _ => (Silent.pure _).between

theorem restoring_meets (admitted : AdmittedRun) (session : Text) :
    Meets (Live (.between turns) Even) (restoring world admitted session) (fun _ => Live (.between turns) Even) Ended := by
  unfold restoring
  cases admitted.replay with
  | none => exact (Silent.pure _).between
  | some replay =>
    refine .bind (Silent.consult _).between fun identity => ?_
    cases identity with
    | none => exact (Silent.throw _).between
    | some identity =>
      have saved : Meets (Live (.between turns) Even)
          (observing (world.providerOpened session admitted.options.model identity))
          (fun _ => Live (.between turns) Even) Ended :=
        (observing_meets _).mono (fun _ live => live) (fun _ _ live => live) fun _ => .inr
      refine .bind saved fun _ => ?_
      split
      · exact (Silent.throw _).between
      · refine .bind (checkpoint_silent world).between fun _ => .bind (Silent.cancellable _).between fun _ => ?_
        exact (Silent.lift _).between

theorem execution_meets (admitted : AdmittedRun) (turns limit : Nat) :
    Meets (Live .fresh Even) (execution world admitted turns limit) (fun _ => Ended) Ended := by
  have started : Meets (Live .fresh Even) (send world .runStarted) (fun _ => Live (.between 0) Even) Ended :=
    (send_plain world plain_runStarted fun _ => .start).mono (fun _ live => live) (fun _ _ live => live) fun _ => .inr
  refine .bind started fun _ => .bind (openSession_meets world admitted) fun session => ?_
  exact .bind (restoring_meets world admitted session) fun _ => drive_meets world _ _ _ _ _

theorem finishRun_meets (outcome : RunOutcome) :
    Meets Ended (finishRun world outcome)
      (fun result v => Safe v ∧ Counter.value result.summary = v.counters) (fun _ => False) := by
  have sent : ∀ summary, Meets Ended (send world (.runFinished outcome summary)) (fun _ => Safe) Frozen := by
    rintro summary s (⟨turns, live⟩ | frozen)
    · exact (send_plain world (plain_runFinished outcome summary) fun _ => .done turns outcome summary).mono
        (fun _ live => live) (fun _ _ live => live.toSafe) (fun _ frozen => frozen) s live
    · exact send_plain_frozen world (plain_runFinished outcome summary) s frozen
  have closed : Meets (ω := ω) Ended (Act.update fun s => { s with world := world.close s.world, turnId := none })
      (fun _ => Ended) fun _ => False := fun s ended => ended
  refine .bind closed fun _ => .read_bind fun s ended => ?_
  have tried : Meets Ended (Act.attempt (send world (.runFinished outcome s.summary))) (fun _ => Safe) fun _ => False :=
    (sent s.summary).attempt (fun _ _ safe => safe) fun _ _ frozen => frozen.toSafe
  refine Meets.bind tried (fun _ => ?_) s ended
  exact .read_bind fun final safe => ⟨safe, rfl⟩

theorem runAdmitted_meets (admitted : AdmittedRun) (turns limit : Nat) :
    Meets (Live .fresh Even) (runAdmitted world admitted turns limit)
      (fun result v => Safe v ∧ Counter.value result.summary = v.counters) (fun _ => False) := by
  have tried : Meets (Live .fresh Even) (Act.attempt (execution world admitted turns limit)) (fun _ => Ended) fun _ => False :=
    (execution_meets world admitted turns limit).attempt (fun _ _ ended => ended) fun _ _ ended => ended
  exact .bind tried fun _ => finishRun_meets world _

omit [JsonText] in
theorem live_new (initial : ω) (runId : Text) (scope : ToolRegistry) :
    Live .fresh Even (State.new initial runId scope).view := by
  have placed : Place.fresh.At (State.new initial runId scope).view := ⟨rfl, rfl, rfl⟩
  refine ⟨⟨fun counter => ?_, rfl, trivial, placed.within, fun _ => rfl⟩, rfl,
    fun _ member => absurd member List.not_mem_nil, rfl, placed, rfl⟩
  cases counter <;> rfl

omit [JsonText] in
theorem Grammatical.of_ends {reply : Reply RunOutcome RunResult} {s : State ω}
    (ended : Ends (fun result v => Safe v ∧ Counter.value result.summary = v.counters) (fun _ => False) reply s) :
    Grammatical reply s.steps := by
  cases reply with
  | error _ => exact ended.elim
  | pending =>
    have safe : Safe s.view := ended
    exact ⟨safe.within, safe.numbered, safe.quiet, fun _ same => (nomatch same), fun _ same => (nomatch same)⟩
  | ok result =>
    obtain ⟨safe, same⟩ : Safe s.view ∧ Counter.value result.summary = s.view.counters := ended
    have counted : ∀ counter : Counter, (counter.value result.summary).toNat = s.view.count counter :=
      fun counter => congrArg UInt64.toNat (congrFun same counter)
    refine ⟨safe.within, safe.numbered, safe.quiet, fun other returned counter => ?_, fun other returned closed => ?_⟩
    · cases returned
      exact (counted counter).trans (safe.counted counter)
    · cases returned
      have balance := safe.settled closed
      exact (counted .toolResultsPrepared).trans
        (balance.trans (congrArg₂ (· + ·) (counted .newToolDispatches).symm (counted .reusedResults).symm))

/-- Every run is grammatical, whatever its provider, its tools, its observer and its canceller
do, and wherever it is left. -/
theorem runAdmitted_grammatical (admitted : AdmittedRun) (runId : Text) (initial : ω) (turns limit : Nat) :
    Grammatical (runAdmitted world admitted turns limit (State.new initial runId admitted.scope)).1
      (runAdmitted world admitted turns limit (State.new initial runId admitted.scope)).2.steps :=
  .of_ends (runAdmitted_meets world admitted turns limit _ (live_new initial runId admitted.scope))

end
end Wi.Controller
