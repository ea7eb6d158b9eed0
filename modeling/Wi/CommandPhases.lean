import Wi.CommandSteps

/-! What the display client knows of a command over a whole run: it is never called rejected while
it may have been committed, and a receipt or a conflict stays for good. -/
namespace Wi.Browser
open Steps

/-- The client with the attempts that have ended. -/
structure Observed where
  client : Client
  endings : List (Uuid × Bool)

def Observed.new : Observed := ⟨.new, []⟩

def Observed.step (o : Observed) (action : ClientAction) : Option Observed :=
  (o.client.step action).map fun client => ⟨client, o.endings ++ ending o.client action⟩

/-- Every attempt that has ended was refused by the server. -/
def Refused (endings : List (Uuid × Bool)) (id : Uuid) : Prop := ∀ ended ∈ endings, ended.1 = id → ended.2 = true

variable {endings log : List (Uuid × Bool)} {id : Uuid}

theorem refused_append_ne {other : Uuid} (own : ∀ ended ∈ log, ended.1 = id) (apart : id ≠ other) :
    Refused (endings ++ log) other ↔ Refused endings other := by
  refine ⟨fun all ended member => all ended (List.mem_append_left _ member), fun all ended member same => ?_⟩
  rcases List.mem_append.1 member with old | new
  · exact all ended old same
  · exact absurd ((own ended new).symm.trans same) apart

/-- What is known of a command that is not being sent or looked up. -/
structure Known (item : DisplayPendingCommand) (refused : Prop) : Prop where
  receipt : item.receipt ≠ none → item.phase = .accepted ∨ item.phase = .reconciling ∨ item.phase = .conflict
  rejected : item.phase = .rejected → refused

/-- What a waiting call knows of its command. -/
def Agrees (item : DisplayPendingCommand) (refused : Prop) : Stage → Prop
  | .sending before => item.phase = .sending ∧ item.receipt = none ∧ (before ≠ .uncertain → refused)
  | .reconciling before => item.phase = .reconciling ∧ (item.receipt ≠ none → before = .accepted) ∧
      (before = .rejected → refused) ∧ before ≠ .sending ∧ before ≠ .reconciling
  | .acknowledged _ | .manifest | .reconciled => item.phase = .accepted

structure Consistent (s : Client) (endings : List (Uuid × Bool)) : Prop where
  bounded : ∀ task ∈ s.tasks, task.control < s.controls
  distinct : (s.tasks.map Waiting.control).Nodup
  drawn : ∀ task ∈ s.tasks, task.id ∈ s.issued
  captured : ∀ id item, s.pending.get id = some item → id ∈ s.issued
  awaited : ∀ id control, s.waiters.get id = some control → id ∈ s.issued
  ended : ∀ ended ∈ endings, ended.1 ∈ s.issued
  idle : ∀ id item, s.pending.get id = some item → s.waiters.get id = none →
    item.phase ≠ .sending ∧ item.phase ≠ .reconciling
  known : ∀ id item, s.pending.get id = some item → Known item (Refused endings id)
  waiting : ∀ task ∈ s.tasks, ∀ item, s.pending.get task.id = some item →
    s.waiters.get task.id = some task.control ∧ task.stamp.connection = s.stamp.connection ∧
      Agrees item (Refused endings task.id) task.stage

variable {action : ClientAction}

namespace Consistent
variable {s t : Client} {endings log : List (Uuid × Bool)} {task : Waiting} {item after : DisplayPendingCommand}

theorem new : Consistent .new [] := by
  constructor <;> simp [Client.new]

theorem held_eq (c : Consistent s endings) (member : task ∈ s.tasks) : s.held task = s.pending.get task.id := by
  rw [Client.held]
  split
  · rfl
  next lost =>
    cases found : s.pending.get task.id with
    | none => rfl
    | some item =>
      obtain ⟨waiter, connection, -⟩ := c.waiting task member item found
      exact absurd ⟨connection, waiter⟩ lost

theorem control_inj (c : Consistent s endings) {other : Waiting} (member : task ∈ s.tasks) (also : other ∈ s.tasks)
    (same : other.control = task.control) : other = task :=
  List.inj_on_of_nodup_map c.distinct also member same

theorem task_eq (c : Consistent s endings) (member : task ∈ s.tasks) : s.task task.control = some task := by
  cases found : s.task task.control with
  | none =>
    have missing := List.find?_eq_none.1 found task member
    simp at missing
  | some other =>
    obtain ⟨also, same⟩ := task_eq_some found
    rw [c.control_inj member also same]

theorem alone (c : Consistent s endings) {other : Waiting} (member : task ∈ s.tasks) (also : other ∈ s.tasks)
    (found : s.pending.get task.id = some item) (same : other.id = task.id) : other = task := by
  obtain ⟨waiter, -, -⟩ := c.waiting task member item found
  obtain ⟨other_waiter, -, -⟩ := c.waiting other also item (same ▸ found)
  rw [same, waiter] at other_waiter
  exact c.control_inj member also (Option.some.inj other_waiter).symm

theorem quiet (c : Consistent s endings) (pending : t.pending = s.pending) (waiters : t.waiters = s.waiters)
    (tasks : t.tasks = s.tasks) (issued : t.issued = s.issued) (controls : t.controls = s.controls)
    (connection : t.stamp.connection = s.stamp.connection) : Consistent t endings := by
  obtain ⟨bounded, distinct, drawn, captured, awaited, ended, idle, known, waiting⟩ := c
  constructor <;> simp only [pending, waiters, tasks, issued, controls, connection] <;> assumption

theorem clear (c : Consistent s endings) : Consistent s.clear endings where
  bounded := c.bounded
  distinct := c.distinct
  drawn := c.drawn
  captured := by simp [Client.clear]
  awaited := by simp [Client.clear]
  ended := c.ended
  idle := by simp [Client.clear]
  known := by simp [Client.clear]
  waiting := by simp [Client.clear]

theorem discard (c : Consistent s endings) (id : Uuid) : Consistent (s.discardCommand id) endings := by
  have kept {other : Uuid} {item : DisplayPendingCommand}
      (found : (s.discardCommand id).pending.get other = some item) : s.pending.get other = some item := by
    rw [Client.discardCommand, Map.get_delete] at found
    split at found
    · cases found
    · exact found
  exact { c with
    captured := fun other item found => c.captured other item (kept found)
    idle := fun other item found => c.idle other item (kept found)
    known := fun other item found => c.known other item (kept found)
    waiting := fun task member item found => c.waiting task member item (kept found) }

section One
variable {pending : Map Uuid DisplayPendingCommand} {id : Uuid} {stage : Stage}

theorem begins (c : Consistent s endings) {issued : List Uuid} (more : s.issued ⊆ issued) (drawn : id ∈ issued)
    (none_waits : ∀ task ∈ s.tasks, task.id ≠ id) (others : ∀ other, id ≠ other → pending.get other = s.pending.get other)
    (here : pending.get id = some after) (known : Known after (Refused endings id))
    (agrees : Agrees after (Refused endings id) stage) :
    Consistent { s with
      pending := pending, waiters := s.waiters.set id s.controls, issued := issued
      tasks := s.tasks ++ [⟨s.controls, id, s.stamp, stage⟩], controls := s.controls + 1 } endings where
  bounded := by
    refine List.forall_mem_append.2 ⟨fun task member => ?_, by simp⟩
    exact Nat.lt_succ_of_lt (c.bounded task member)
  distinct := by
    rw [List.map_append, List.nodup_append]
    refine ⟨c.distinct, List.nodup_singleton _, ?_⟩
    rintro control old _ (_ | ⟨_, ⟨⟩⟩) rfl
    obtain ⟨task, member, same⟩ := List.mem_map.1 old
    exact absurd same (c.bounded task member).ne
  drawn := List.forall_mem_append.2 ⟨fun task member => more (c.drawn task member), by simpa using drawn⟩
  captured other item found := by
    by_cases same : id = other
    · exact same ▸ drawn
    · exact more (c.captured other item (others other same ▸ found))
  awaited other control found := by
    by_cases same : id = other
    · exact same ▸ drawn
    · exact more (c.awaited other control (by rwa [Map.get_set_ne same] at found))
  ended ended member := more (c.ended ended member)
  idle other item found unwaited := by
    by_cases same : id = other
    · subst same
      simp at unwaited
    · exact c.idle other item (others other same ▸ found) (by rwa [Map.get_set_ne same] at unwaited)
  known other item found := by
    by_cases same : id = other
    · subst same
      cases here.symm.trans found
      exact known
    · exact c.known other item (others other same ▸ found)
  waiting := by
    refine List.forall_mem_append.2 ⟨fun task member item found => ?_, ?_⟩
    · have apart := (none_waits task member).symm
      rw [others _ apart] at found
      obtain ⟨waiter, connection, held⟩ := c.waiting task member item found
      exact ⟨by rwa [Map.get_set_ne apart], connection, held⟩
    · simp only [List.mem_singleton, forall_eq]
      intro item found
      cases here.symm.trans found
      exact ⟨Map.get_set_self _ _ _, trivial, agrees⟩

theorem ends (c : Consistent s endings) (member : task ∈ s.tasks)
    (others : ∀ other, task.id ≠ other → pending.get other = s.pending.get other)
    (own : ∀ ended ∈ log, ended.1 = task.id)
    (here : ∀ item, pending.get task.id = some item → s.pending.get task.id ≠ none ∧
      (item.phase ≠ .sending ∧ item.phase ≠ .reconciling) ∧ Known item (Refused (endings ++ log) task.id)) :
    Consistent (Client.finish { s with pending := pending } task) (endings ++ log) := by
  have unwaited {other : Uuid} (apart : task.id ≠ other) :
      (Client.finish { s with pending := pending } task).waiters.get other = s.waiters.get other := by
    simp only [Client.finish]
    split
    · rw [Map.get_delete, if_neg apart]
    · rfl
  constructor
  · exact fun other kept => c.bounded other (List.mem_of_mem_filter kept)
  · exact c.distinct.sublist (List.filter_sublist.map _)
  · exact fun other kept => c.drawn other (List.mem_of_mem_filter kept)
  · intro other item found
    by_cases same : task.id = other
    · exact same ▸ c.drawn task member
    · exact c.captured other item (others other same ▸ found)
  · intro other control found
    by_cases same : task.id = other
    · exact same ▸ c.drawn task member
    · exact c.awaited other control (unwaited same ▸ found)
  · refine List.forall_mem_append.2 ⟨c.ended, fun ended new => ?_⟩
    exact own ended new ▸ c.drawn task member
  · intro other item found idle
    by_cases same : task.id = other
    · subst same
      exact (here item found).2.1
    · exact c.idle other item (others other same ▸ found) (unwaited same ▸ idle)
  · intro other item found
    by_cases same : task.id = other
    · subst same
      exact (here item found).2.2
    · rw [refused_append_ne own same]
      exact c.known other item (others other same ▸ found)
  · intro other kept item found
    obtain ⟨also, apart⟩ := List.mem_filter.1 kept
    have apart : other.control ≠ task.control := by simpa using apart
    by_cases same : task.id = other.id
    · obtain ⟨present, -⟩ := here item (same ▸ found)
      obtain ⟨old, was⟩ := Option.ne_none_iff_exists'.1 present
      exact absurd (congrArg Waiting.control (c.alone member also was same.symm)) apart
    · obtain ⟨waiter, connection, held⟩ := c.waiting other also item (others _ same ▸ found)
      refine ⟨by rwa [unwaited same], connection, ?_⟩
      rwa [refused_append_ne own same]

theorem advances (c : Consistent s endings) (member : task ∈ s.tasks) (was : s.pending.get task.id = some item)
    (others : ∀ other, task.id ≠ other → pending.get other = s.pending.get other)
    (own : ∀ ended ∈ log, ended.1 = task.id) (here : pending.get task.id = some after)
    (accepted : after.phase = .accepted) (agrees : Agrees after (Refused (endings ++ log) task.id) stage) :
    Consistent (Client.advance { s with pending := pending } task stage) (endings ++ log) := by
  have moved : ∀ other ∈ (Client.advance { s with pending := pending } task stage).tasks,
      ∃ old ∈ s.tasks, other.control = old.control ∧ other.id = old.id ∧ other.stamp = old.stamp ∧
        (old.control = task.control ∧ other.stage = stage ∨ old.control ≠ task.control ∧ other.stage = old.stage) := by
    refine List.forall_mem_map.2 fun old also => ?_
    split
    next same => exact ⟨old, also, rfl, rfl, rfl, .inl ⟨same, rfl⟩⟩
    next apart => exact ⟨old, also, rfl, rfl, rfl, .inr ⟨apart, rfl⟩⟩
  have controls : (Client.advance { s with pending := pending } task stage).tasks.map Waiting.control =
      s.tasks.map Waiting.control := by
    rw [Client.advance, List.map_map]
    refine List.map_congr_left fun old _ => ?_
    rw [Function.comp_apply]
    split <;> rfl
  constructor
  · intro other kept
    obtain ⟨old, also, control, -⟩ := moved other kept
    exact control ▸ c.bounded old also
  · rw [controls]
    exact c.distinct
  · intro other kept
    obtain ⟨old, also, -, id, -⟩ := moved other kept
    exact id ▸ c.drawn old also
  · intro other item found
    by_cases same : task.id = other
    · exact same ▸ c.drawn task member
    · exact c.captured other item (others other same ▸ found)
  · exact c.awaited
  · refine List.forall_mem_append.2 ⟨c.ended, fun ended new => ?_⟩
    exact own ended new ▸ c.drawn task member
  · intro other item found idle
    by_cases same : task.id = other
    · subst same
      cases here.symm.trans found
      rw [accepted]
      exact ⟨nofun, nofun⟩
    · exact c.idle other item (others other same ▸ found) idle
  · intro other item found
    by_cases same : task.id = other
    · subst same
      cases here.symm.trans found
      exact ⟨fun _ => .inl accepted, fun rejected => absurd (accepted.symm.trans rejected) (by decide)⟩
    · rw [refused_append_ne own same]
      exact c.known other item (others other same ▸ found)
  · intro other kept item found
    obtain ⟨old, also, control, id, stamp, place⟩ := moved other kept
    rw [control, id, stamp]
    rw [id] at found
    by_cases same : task.id = old.id
    · obtain rfl := c.alone member also was same.symm
      cases here.symm.trans found
      obtain ⟨waiter, connection, -⟩ := c.waiting old member _ was
      rcases place with ⟨-, staged⟩ | ⟨apart, -⟩
      · exact ⟨waiter, connection, staged ▸ agrees⟩
      · exact absurd rfl apart
    · obtain ⟨waiter, connection, held⟩ := c.waiting old also item (others _ same ▸ found)
      refine ⟨waiter, connection, ?_⟩
      rw [refused_append_ne own same]
      rcases place with ⟨equal, -⟩ | ⟨-, staged⟩
      · exact absurd (congrArg Waiting.id (c.control_inj member also equal)).symm same
      · exact staged ▸ held

end One

theorem startable (c : Consistent s endings) (found : s.pending.get id = some item)
    (idle : s.waiters.get id = none) : (∀ task ∈ s.tasks, task.id ≠ id) ∧
      (item.receipt ≠ none → item.phase = .accepted ∨ item.phase = .conflict) := by
  refine ⟨fun task member same => ?_, fun receipt => ?_⟩
  · subst same
    obtain ⟨waiter, -⟩ := c.waiting task member item found
    exact Option.some_ne_none _ (waiter.symm.trans idle)
  · rcases (c.known id item found).receipt receipt with accepted | reconciling | conflict
    · exact .inl accepted
    · exact absurd reconciling (c.idle id item found idle).2
    · exact .inr conflict

theorem capture (c : Consistent s endings) {command : CapturedCommand} (fresh : command.id ∉ s.issued) :
    Consistent (s.capture command) endings := by
  have unwaited : s.waiters.get command.id = none := by
    by_contra waited
    obtain ⟨control, found⟩ := Option.ne_none_iff_exists'.1 waited
    exact fresh (c.awaited _ _ found)
  simp only [Client.capture, Client.execute, Map.get_set_self, unwaited, Client.start, reduceCtorEq, or_self, ↓reduceIte]
  refine c.begins (fun _ => List.mem_cons_of_mem _) List.mem_cons_self (fun task member same => ?_) (fun other apart => ?_)
    (Map.get_set_self _ _ _) ⟨by simp, by simp⟩ ⟨rfl, rfl, fun _ ended member same => ?_⟩
  · exact fresh (same ▸ c.drawn task member)
  · rw [Map.get_set_ne apart, Map.get_set_ne apart]
  · exact absurd (same ▸ c.ended ended member) fresh

theorem send (c : Consistent s endings) (found : s.pending.get id = some item) (idle : s.waiters.get id = none)
    (unsettled : item.phase ≠ .accepted ∧ item.phase ≠ .conflict) :
    Consistent (s.start id item .sending (.sending item.phase)) endings := by
  obtain ⟨none_waits, receipt⟩ := c.startable found idle
  have unknown : item.receipt = none := by
    by_contra held
    rcases receipt held with accepted | conflict
    · exact unsettled.1 accepted
    · exact unsettled.2 conflict
  refine c.begins (List.Subset.refl _) (c.captured id item found) none_waits (fun other apart => Map.get_set_ne apart)
    (Map.get_set_self _ _ _) ⟨fun held => absurd unknown held, nofun⟩ ⟨rfl, unknown, fun certain => ?_⟩
  -- Only a command refused so far is neither waiting, in doubt nor settled.
  cases phase : item.phase with
  | rejected => exact (c.known id item found).rejected phase
  | uncertain => exact absurd phase certain
  | sending => exact absurd phase (c.idle id item found idle).1
  | reconciling => exact absurd phase (c.idle id item found idle).2
  | accepted => exact absurd phase unsettled.1
  | conflict => exact absurd phase unsettled.2

theorem lookUp (c : Consistent s endings) (found : s.pending.get id = some item)
    (idle : s.waiters.get id = none) (unsettled : item.phase ≠ .conflict) :
    Consistent (s.start id item .reconciling (.reconciling item.phase)) endings := by
  obtain ⟨none_waits, receipt⟩ := c.startable found idle
  refine c.begins (List.Subset.refl _) (c.captured id item found) none_waits (fun other apart => Map.get_set_ne apart)
    (Map.get_set_self _ _ _) ⟨fun _ => .inr (.inl rfl), nofun⟩
    ⟨rfl, fun held => ?_, (c.known id item found).rejected, c.idle id item found idle⟩
  exact (receipt held).resolve_right unsettled

theorem fail (c : Consistent s endings) (member : task ∈ s.tasks) (held : s.held task = some item) {cause : ClientError}
    {readOnlyPhase : Option Phase} {uncertainBefore : Bool} (why : Fails task cause log readOnlyPhase uncertainBefore) :
    Consistent ((s.keep task.id (item.commandFailure cause readOnlyPhase uncertainBefore)).finish task) (endings ++ log) := by
  have found : s.pending.get task.id = some item := c.held_eq member ▸ held
  obtain ⟨-, -, agrees⟩ := c.waiting task member item found
  refine c.ends member (fun other apart => Map.get_set_ne apart) ?_ fun after kept => ⟨by rw [found]; exact nofun, ?_, ?_, ?_⟩
  · cases why <;> simp
  · cases (Map.get_set_self _ _ _).symm.trans kept
    refine DisplayPendingCommand.waiting_commandFailure fun phase read => ?_
    cases why with
    | send before definite stage reported => cases read
    | lookUp before stage =>
      cases read
      rw [stage] at agrees
      exact agrees.2.2.2
    | manifest stage =>
      cases read
      exact ⟨nofun, nofun⟩
  · cases (Map.get_set_self _ _ _).symm.trans kept
    intro receipt
    rcases DisplayPendingCommand.receipt_commandFailure receipt with accepted | conflict
    · exact .inl accepted
    · exact .inr (.inr conflict)
  · cases (Map.get_set_self _ _ _).symm.trans kept
    intro rejected
    have reason := DisplayPendingCommand.rejected_commandFailure rejected
    cases why with
    | send before definite stage reported =>
      rw [stage] at agrees
      rcases reason with ⟨-, sure, certain⟩ | read
      · have before_certain : before ≠ .uncertain := of_decide_eq_false certain
        intro ended in_log same
        rcases List.mem_append.1 in_log with old | new
        · exact agrees.2.2 before_certain ended old same
        · rw [List.mem_singleton.1 new]
          exact reported sure
      · cases read
    | lookUp before stage =>
      rw [stage] at agrees
      rw [List.append_nil]
      rcases reason with ⟨read, -⟩ | read
      · cases read
      · exact agrees.2.2.1 (Option.some.inj read)
    | manifest stage =>
      rcases reason with ⟨read, -⟩ | read
      · cases read
      · cases read

theorem accept (c : Consistent s endings) {receipt : Option ReceiptView} {reply : Option Reply}
    {incoming : List NoticeView} {stage : Stage} (member : task ∈ s.tasks) (held : s.held task = some item)
    (why : Accepts task action item log receipt stage) (done : item.accepted receipt reply incoming = .ok after) :
    Consistent ((s.keep task.id after).advance task stage) (endings ++ log) := by
  have found : s.pending.get task.id = some item := c.held_eq member ▸ held
  obtain ⟨-, -, accepted, -⟩ := DisplayPendingCommand.accepted_eq_ok done
  refine c.advances member found (fun other apart => Map.get_set_ne apart) ?_ (Map.get_set_self _ _ _) accepted ?_
  · cases why <;> simp
  · cases why <;> exact accepted

theorem change (c : Consistent s endings) (done : Change s action log t) : Consistent t (endings ++ log) := by
  cases done with
  | quiet t pending waiters tasks issued controls connection draft =>
    rw [List.append_nil]
    exact c.quiet pending waiters tasks issued controls connection
  | clear action_is =>
    rw [List.append_nil]
    exact c.clear
  | discard id =>
    rw [List.append_nil]
    exact c.discard id
  | capture command fresh =>
    rw [List.append_nil]
    exact c.capture fresh
  | send id item held idle open_ =>
    rw [List.append_nil]
    exact c.send held idle open_
  | lookUp id item held idle open_ asked =>
    rw [List.append_nil]
    exact c.lookUp held idle open_
  | drop task member log own over_ =>
    refine c.ends member (fun _ _ => rfl) own fun item found => ⟨by rw [found]; exact nofun, ?_⟩
    obtain ⟨-, -, agrees⟩ := c.waiting task member item found
    rcases over_ with lost | ⟨rfl, stage⟩
    · rw [c.held_eq member, found] at lost
      cases lost
    · have accepted : item.phase = .accepted := by
        rcases stage with ⟨sessionId, stage⟩ | stage <;> rwa [stage] at agrees
      rw [List.append_nil, accepted]
      exact ⟨⟨nofun, nofun⟩, c.known _ _ found⟩
  | fail task member item held cause log readOnlyPhase uncertainBefore why => exact c.fail member held why
  | accept task member item after held log receipt reply incoming stage why done =>
    exact (c.accept member held why done).quiet rfl rfl rfl rfl rfl rfl
  | notFound task member item held before stage =>
    have found : s.pending.get task.id = some item := c.held_eq member ▸ held
    obtain ⟨-, -, agrees⟩ := c.waiting task member item found
    rw [stage] at agrees
    obtain ⟨-, known, refused, calm⟩ := agrees
    refine c.ends member (fun other apart => Map.get_set_ne apart) (by simp) fun after kept => ⟨by rw [found]; exact nofun, ?_⟩
    cases (Map.get_set_self _ _ _).symm.trans kept
    rw [List.append_nil]
    by_cases receipt : item.receipt = none
    · rw [if_neg (not_not.2 receipt)]
      exact ⟨calm, fun held => absurd receipt held, refused⟩
    · rw [if_pos receipt]
      exact ⟨⟨nofun, nofun⟩, fun _ => .inl rfl, nofun⟩
  | noted task member item held stage =>
    have found : s.pending.get task.id = some item := c.held_eq member ▸ held
    obtain ⟨-, -, agrees⟩ := c.waiting task member item found
    have accepted : item.phase = .accepted := by rwa [stage] at agrees
    refine c.ends member (fun other apart => Map.get_set_ne apart) (by simp) fun after kept => ⟨by rw [found]; exact nofun, ?_⟩
    cases (Map.get_set_self _ _ _).symm.trans kept
    simp only [accepted]
    exact ⟨⟨nofun, nofun⟩, fun _ => .inl rfl, nofun⟩
  | onward task member item held sessionId stage =>
    have found : s.pending.get task.id = some item := c.held_eq member ▸ held
    obtain ⟨-, -, agrees⟩ := c.waiting task member item found
    have accepted : item.phase = .accepted := by rwa [stage] at agrees
    exact c.advances member found (fun _ _ => rfl) (by simp) found accepted accepted

end Consistent

theorem observed_consistent {actions : List ClientAction} {o : Observed}
    (done : run Observed.step .new actions = some o) : Consistent o.client o.endings := by
  refine run_invariant (fun o => Consistent o.client o.endings) (fun o action p c stepped => ?_) Consistent.new done
  obtain ⟨client, moved, rfl⟩ := Option.map_eq_some_iff.1 stepped
  exact c.change (step_change moved)

theorem capture_others (s : Client) {command : CapturedCommand} {other : Uuid} (apart : command.id ≠ other) :
    (s.capture command).pending.get other = s.pending.get other := by
  simp only [Client.capture, Client.execute, Map.get_set_self]
  split
  · split
    · exact Map.get_set_ne apart
    · simp only [Client.start]
      rw [Map.get_set_ne apart, Map.get_set_ne apart]
  · exact Map.get_set_ne apart

variable {s t : Client} {item : DisplayPendingCommand}

theorem Consistent.later (c : Consistent s endings) (done : Change s action log t)
    {after : DisplayPendingCommand} (found : s.pending.get id = some item)
    (kept : t.pending.get id = some after) : item.Later after := by
  have same (equal : t.pending = s.pending) : item.Later after := by
    rw [equal, found] at kept
    cases kept
    exact .refl item
  -- A call that records something for its command.
  have recorded {task : Waiting} {new old : DisplayPendingCommand} (member : task ∈ s.tasks) (held : s.held task = some old)
      (equal : t.pending = s.pending.set task.id new) (later : old.Later new) : item.Later after := by
    rw [equal, Map.get_set] at kept
    split at kept
    next here =>
      cases kept
      rw [c.held_eq member, here, found] at held
      cases held
      exact later
    · rw [found] at kept
      cases kept
      exact .refl item
  have started {other : Uuid} {old : DisplayPendingCommand} {phase : Phase} {stage : Stage}
      (was : s.pending.get other = some old) (calm : old.phase ≠ .conflict) (equal : t = s.start other old phase stage) :
      item.Later after := by
    rw [equal, Client.start, Map.get_set] at kept
    split at kept
    next here =>
      cases kept
      rw [here, found] at was
      cases was
      exact ⟨rfl, fun _ known => known, fun conflict => absurd conflict calm⟩
    · rw [found] at kept
      cases kept
      exact .refl item
  cases done with
  | quiet t pending => exact same pending
  | clear action_is => cases kept
  | discard other =>
    rw [Client.discardCommand, Map.get_delete] at kept
    split at kept
    · cases kept
    · rw [found] at kept
      cases kept
      exact .refl item
  | capture command fresh =>
    have apart : command.id ≠ id := fun equal => fresh (equal ▸ c.captured id item found)
    rw [capture_others s apart, found] at kept
    cases kept
    exact .refl item
  | send other old held idle open_ => exact started held open_.2 rfl
  | lookUp other old held idle open_ asked => exact started held open_ rfl
  | drop task member log own over_ => exact same rfl
  | fail task member old held cause log readOnlyPhase uncertainBefore why =>
    exact recorded member held rfl DisplayPendingCommand.later_commandFailure
  | accept task member old new held log receipt reply incoming stage why done =>
    exact recorded member held rfl (DisplayPendingCommand.later_accepted done)
  | notFound task member old held before stage =>
    refine recorded member held rfl ⟨rfl, fun _ known => known, fun conflict => ?_⟩
    obtain ⟨-, -, agrees⟩ := c.waiting task member old (c.held_eq member ▸ held)
    rw [stage] at agrees
    exact absurd (agrees.1.symm.trans conflict) (by decide)
  | noted task member old held stage => exact recorded member held rfl ⟨rfl, fun _ known => known, fun conflict => conflict⟩
  | onward task member old held sessionId stage => exact same rfl

theorem capture_frame (s : Client) (command : CapturedCommand) :
    (s.capture command).issued = command.id :: s.issued ∧ (s.capture command).draft = s.draft := by
  simp only [Client.capture, Client.execute, Map.get_set_self]
  split
  · split <;> exact ⟨rfl, rfl⟩
  · exact ⟨rfl, rfl⟩

theorem Change.issued (done : Change s action log t) : s.issued ⊆ t.issued := by
  cases done with
  | quiet t pending waiters tasks issued => exact issued ▸ List.Subset.refl _
  | capture command fresh => exact (capture_frame s command).1 ▸ List.subset_cons_self _ _
  | _ => exact List.Subset.refl _

theorem Consistent.gone (c : Consistent s endings) (done : Change s action log t) (drawn : id ∈ s.issued)
    (gone : s.pending.get id = none) : t.pending.get id = none := by
  have set_other {other : Uuid} {old new : DisplayPendingCommand} (was : s.pending.get other = some old) :
      (s.pending.set other new).get id = none := by
    rw [Map.get_set_ne, gone]
    rintro rfl
    rw [gone] at was
    cases was
  have recorded {task : Waiting} {old new : DisplayPendingCommand} (member : task ∈ s.tasks) (held : s.held task = some old) :
      (s.pending.set task.id new).get id = none := set_other (c.held_eq member ▸ held)
  cases done with
  | quiet t pending => exact pending ▸ gone
  | clear action_is => rfl
  | discard other => rw [Client.discardCommand, Map.get_delete, gone, ite_self]
  | capture command fresh =>
    have apart : command.id ≠ id := fun equal => fresh (equal ▸ drawn)
    rw [capture_others s apart, gone]
  | send other old held => exact set_other held
  | lookUp other old held => exact set_other held
  | drop => exact gone
  | fail task member old held => exact recorded member held
  | accept task member old new held => exact recorded member held
  | notFound task member old held => exact recorded member held
  | noted task member old held => exact recorded member held
  | onward => exact gone

theorem Consistent.run_later {o p : Observed} {actions : List ClientAction} (c : Consistent o.client o.endings)
    (done : run Observed.step o actions = some p) {after : DisplayPendingCommand}
    (found : o.client.pending.get id = some item) (kept : p.client.pending.get id = some after) :
    item.Later after := by
  -- Either the command is gone for good, or it is there with what was known of it.
  let Known (p : Observed) : Prop := Consistent p.client p.endings ∧ id ∈ p.client.issued ∧
    ∀ after, p.client.pending.get id = some after → item.Later after
  have start : Known o := by
    refine ⟨c, c.captured id item found, fun after same => ?_⟩
    rw [found] at same
    cases same
    exact .refl item
  have keeps (q : Observed) (action : ClientAction) (r : Observed) (known : Known q) (stepped : q.step action = some r) :
      Known r := by
    obtain ⟨consistent, drawn, known⟩ := known
    obtain ⟨client, moved, rfl⟩ := Option.map_eq_some_iff.1 stepped
    have changed := step_change moved
    refine ⟨consistent.change changed, changed.issued drawn, fun after present => ?_⟩
    cases was : q.client.pending.get id with
    | none =>
      rw [consistent.gone changed drawn was] at present
      cases present
    | some middle => exact (known middle was).trans (consistent.later changed was present)
  exact (run_invariant Known keeps start done).2.2 after kept

/-- A look-up that finds nothing: the receipt stays, and only a command that was rejected before
it is rejected after it. -/
theorem Consistent.notFound (c : Consistent s endings) {control : Nat} {task : Waiting} {before : Phase}
    (waits : s.task control = some task) (stage : task.stage = .reconciling before)
    (found : s.pending.get task.id = some item) (done : s.step (.lookedUp control (.ok .notFound)) = some t) :
    ∃ after, t.pending.get task.id = some after ∧ after.receipt = item.receipt ∧
      after.phase = if item.receipt ≠ none then .accepted else before := by
  have held : s.held task = some item := by rw [c.held_eq (task_eq_some waits).1, found]
  have read : validateTaskReconciliation item.command .notFound = .ok .notFound := by
    rw [validateTaskReconciliation]
  simp only [Client.step, waits, Option.bind_eq_bind, Option.bind_some, stage, Client.lookedUp, held, ok_bind, read,
    pure_eq_ok, Option.some.injEq] at done
  subst done
  exact ⟨_, Map.get_set_self _ _ _, rfl, rfl⟩

/-- The client never reports a command as rejected that may have been committed: in every run a
pending command is rejected only if no attempt to send it is under way and a definite error of the
server ended every one so far; one with a receipt is accepted, being looked up or in conflict;
receipts and conflicts stay; and a look-up that finds nothing takes no receipt away and brings
back the phase it started from. -/
theorem rejected_only_if_refused {actions : List ClientAction} {o : Observed}
    (done : run Observed.step .new actions = some o) {id : Uuid} {item : DisplayPendingCommand}
    (pending : o.client.pending.get id = some item) :
    (item.phase = .rejected → Refused o.endings id ∧ ∀ task ∈ o.client.tasks, task.id = id → ∀ before, task.stage ≠ .sending before) ∧
      (item.receipt ≠ none → item.phase = .accepted ∨ item.phase = .reconciling ∨ item.phase = .conflict) ∧
      (∀ later p after, run Observed.step o later = some p → p.client.pending.get id = some after →
        (∀ receipt, item.receipt = some receipt → after.receipt = some receipt) ∧
          (item.phase = .conflict → after.phase = .conflict)) ∧
      ∀ control task before t, o.client.task control = some task → task.id = id → task.stage = .reconciling before →
        o.client.step (.lookedUp control (.ok .notFound)) = some t →
        ∃ after, t.pending.get id = some after ∧ after.receipt = item.receipt ∧
          (after.phase = .rejected → before = .rejected) := by
  have c := observed_consistent done
  refine ⟨fun rejected => ⟨(c.known id item pending).rejected rejected, fun task member same before stage => ?_⟩,
    (c.known id item pending).receipt, fun later p after continued kept => ?_, fun control task before t waits same stage found => ?_⟩
  · subst same
    obtain ⟨-, -, agrees⟩ := c.waiting task member item pending
    rw [stage] at agrees
    exact absurd (agrees.1.symm.trans rejected) (by decide)
  · have known := c.run_later continued pending kept
    exact ⟨known.receipt, known.conflict⟩
  · subst same
    obtain ⟨after, kept, receipt, phase⟩ := c.notFound waits stage pending found
    refine ⟨after, kept, receipt, fun rejected => ?_⟩
    rw [phase] at rejected
    split at rejected
    · cases rejected
    · exact rejected

/-- A task that the server refuses. -/
def refusedTask : List ClientAction :=
  [.connected, .selectSession (.ending 'a'), .setDraft "Hello".toList, .sendTask (.ending 'b') (.ending 'c'),
    .replied 0 (.error (.http 409 ⟨.other "storage.active_run_exists".toList, .notCommitted, none, []⟩))]

/-- The receipt of the task below. -/
def helloReceipt : ReceiptView := ⟨.ending 'b', .ending 'a', some (.ending 'c'), 1, 2⟩

/-- A task that is accepted. -/
def acceptedTask : List ClientAction :=
  [.connected, .selectSession (.ending 'a'), .setDraft "Hello".toList, .sendTask (.ending 'b') (.ending 'c'),
    .replied 0 (.ok (202, .task helloReceipt false [])), .proceeds 0]

/-- A refused task, and an accepted one that a look-up does not find. -/
theorem rejected_only_if_refused_task : (∃ o item, run Observed.step .new refusedTask = some o ∧
      o.client.pending.get (.ending 'b') = some item ∧ item.phase = .rejected ∧ Refused o.endings (.ending 'b')) ∧
    ∃ o item t after, run Observed.step .new (acceptedTask ++ [.reconcileTask (.ending 'b')]) = some o ∧
      o.client.pending.get (.ending 'b') = some item ∧ item.receipt = some helloReceipt ∧
      o.client.step (.lookedUp 1 (.ok .notFound)) = some t ∧ t.pending.get (.ending 'b') = some after ∧
      after.receipt = some helloReceipt ∧ after.phase ≠ .rejected := by
  constructor
  · have reached : ((run Observed.step .new refusedTask).bind fun o => (o.client.pending.get (.ending 'b')).map (·.phase)) =
        some .rejected := by decide +kernel
    obtain ⟨o, done, phase⟩ := Option.bind_eq_some_iff.1 reached
    obtain ⟨item, pending, rejected⟩ := Option.map_eq_some_iff.1 phase
    exact ⟨o, item, done, pending, rejected, ((rejected_only_if_refused done pending).1 rejected).1⟩
  · have reached : ((run Observed.step .new (acceptedTask ++ [.reconcileTask (.ending 'b')])).bind fun o =>
        (o.client.pending.get (.ending 'b')).bind fun item => (o.client.task 1).bind fun task =>
          (o.client.step (.lookedUp 1 (.ok .notFound))).map fun _ => (item.receipt, task.id, task.stage)) =
        some (some helloReceipt, .ending 'b', .reconciling .accepted) := by decide +kernel
    obtain ⟨o, done, found⟩ := Option.bind_eq_some_iff.1 reached
    obtain ⟨item, pending, found⟩ := Option.bind_eq_some_iff.1 found
    obtain ⟨task, waits, found⟩ := Option.bind_eq_some_iff.1 found
    obtain ⟨t, stepped, facts⟩ := Option.map_eq_some_iff.1 found
    simp only [Prod.mk.injEq] at facts
    obtain ⟨receipt, same, stage⟩ := facts
    obtain ⟨-, -, -, looked⟩ := rejected_only_if_refused done pending
    obtain ⟨after, kept, still, phase⟩ := looked 1 task .accepted t waits same stage stepped
    exact ⟨o, item, t, after, done, pending, receipt, stepped, kept, still.trans receipt, fun rejected => nomatch phase rejected⟩

end Wi.Browser
