import Wi.Credentials
import Wi.Steps

/-! Credential rotation is fail-closed: an incarnation whose refresh token may have been spent is
guarded on every disk that a crash can leave. -/
namespace Wi.Codex.Auth
open Durable

/-- A profile but for the mark that its guard sets. -/
def Profile.tokens (profile : Profile) : Profile := { profile with reauth := false }

theorem read_tokens (disk : Disk) (name : Text) :
    (disk.read name).map Profile.tokens = (disk.profiles name).map Profile.tokens := by
  unfold Disk.read
  rw [Option.map_map]
  congr 1
  funext profile
  dsimp only [Function.comp_apply]
  split <;> rfl

variable {task : Task} {source : Source} {document : Document} {profile : Profile} {name incarnation : Text}
   {now : Nat} {goal : Goal} {cleanup : List Text} {action : Action}

namespace State
variable {s t : State}

/-- What the ghosts say about a document: each token belongs to its profile, and a token that was
sent belongs to an exposed incarnation. -/
def Tracked (s : State) (document : Document) : Prop :=
  ∀ name profile, document name = some profile → profile.serial < s.serials ∧
    s.owner profile.serial = (name, profile.incarnation) ∧ profile.incarnation ∈ s.used ∧
    (profile.serial ∈ s.submitted → (name, profile.incarnation) ∈ s.exposed)

/-- Moreover the exposed incarnations are guarded. -/
def DiskSound (s : State) (disk : Disk) : Prop :=
  s.Tracked disk.profiles ∧ ∀ entry ∈ s.exposed, disk.guards entry.1 entry.2 = true

/-- The other profiles are as they stand on the disk. -/
def Others (s : State) (name : Text) (document : Document) : Prop :=
  ∀ other, other ≠ name → (document other).map Profile.tokens = (s.visible.profiles other).map Profile.tokens

/-- The tokens to be written for a profile are new. -/
def FreshAt (s : State) (name : Text) (document : Document) : Prop :=
  ∀ profile, document name = some profile → profile.serial < s.serials ∧
    s.owner profile.serial = (name, profile.incarnation) ∧ profile.incarnation ∈ s.used ∧ profile.serial ∉ s.submitted

/-- The profile of a source still stands on the disk. -/
def Stands (s : State) (source : Source) (serial : Nat) : Prop :=
  ∃ profile, s.visible.profiles source.name = some profile ∧ profile.incarnation = source.incarnation ∧
    profile.serial = serial

/-- No disk has a profile of this incarnation. -/
def Unseen (s : State) (incarnation : Text) : Prop :=
  Always Disk.apply s.disk fun disk => ∀ name profile, disk.profiles name = some profile → profile.incarnation ≠ incarnation

def GoalSound (s : State) (document : Document) : Goal → Prop
  | .renew source serial => s.Others source.name document ∧ s.Stands source serial ∧ serial ∉ s.submitted ∧
    (source.name, source.incarnation) ∉ s.exposed
  | .login name incarnation _ => s.Others name document ∧ s.FreshAt name document ∧ s.Unseen incarnation

/-- A renewal writes over the incarnation it was selected with. -/
def Replaces (s : State) (purpose : Purpose) (name : Text) (document : Document) (cleanup : List Text) : Prop :=
  purpose = .renewal → ∃ new old, document name = some new ∧ s.visible.profiles name = some old ∧
    new.incarnation = old.incarnation ∧ cleanup = [old.incarnation]

def TaskSound (s : State) : Task → Prop
  | .renewing _ _ | .loggingIn _ _ _ | .loggingOut _ => True
  | .guarding goal document => s.GoalSound document goal
  | .guarded goal document => s.GoalSound document goal ∧ s.visible.guards goal.name goal.incarnation = true
  | .ready goal document => s.GoalSound document goal ∧ s.visible.guards goal.name goal.incarnation = true ∧ s.disk.2 = []
  | .sent source document => s.Others source.name document ∧ ∃ serial, s.Stands source serial
  | .writing purpose name document cleanup =>
    s.Others name document ∧ s.FreshAt name document ∧ s.Replaces purpose name document cleanup
  | .renamed name document _ => s.visible.profiles = document ∧ s.FreshAt name document
  | .cleaning name cleanup | .swept name cleanup => ∀ incarnation ∈ cleanup, (name, incarnation) ∉ s.exposed

structure Sound (s : State) : Prop where
  disk : Always Disk.apply s.disk s.DiskSound
  issued : ∀ serial ∈ s.submitted, serial < s.serials
  once : s.submitted.Nodup
  task : ∀ task, s.holder = some task → s.TaskSound task

theorem Sound.new : State.new.Sound where
  disk := always_settled ⟨nofun, nofun⟩
  issued := nofun
  once := .nil
  task := nofun

theorem Sound.leave (sound : s.Sound) : s.leave.Sound := ⟨sound.disk, sound.issued, sound.once, nofun⟩

theorem Sound.goOn (sound : s.Sound) (held : s.TaskSound task) : (s.goOn task).Sound := by
  refine ⟨sound.disk, sound.issued, sound.once, fun other same => ?_⟩
  cases same
  exact held

/-! ### The steps of the holder -/

theorem bound_eq_ok (ok : bound source document = .ok profile) :
    document source.name = some profile ∧ profile.incarnation = source.incarnation ∧ profile.account = source.account ∧
      profile.reauth = false := by
  unfold bound at ok
  split at ok
  · cases ok
  · rename_i found present
    split at ok
    · cases ok
    · rename_i same
      split at ok
      · cases ok
      · rename_i usable
        cases ok
        simp only [ne_eq, not_or, not_not] at same
        simp only [Bool.or_eq_true, not_or, Bool.not_eq_true] at usable
        exact ⟨present, same.1, same.2, usable.2⟩

theorem read_unguarded {disk : Disk} (found : disk.read name = some profile) (usable : profile.reauth = false) :
    disk.profiles name = some profile ∧ disk.guards name profile.incarnation = false := by
  obtain ⟨stored, present, same⟩ := Option.map_eq_some_iff.1 found
  split at same
  · rw [← same] at usable
    cases usable
  · rename_i open_
    cases same
    exact ⟨present, Bool.eq_false_iff.2 open_⟩

theorem others_read (s : State) (name : Text) (value : Option Profile) :
    s.Others name (Function.update s.visible.read name value) := by
  intro other different
  rw [Function.update_of_ne different]
  exact read_tokens s.visible other

theorem Sound.bound_unexposed (sound : s.Sound) (ok : bound source s.visible.read = .ok profile) :
    (source.name, source.incarnation) ∉ s.exposed ∧ profile.serial ∉ s.submitted ∧ s.Stands source profile.serial := by
  obtain ⟨found, incarnation, _, usable⟩ := bound_eq_ok ok
  obtain ⟨present, unguarded⟩ := read_unguarded found usable
  obtain ⟨tracked, guarded⟩ := sound.disk.now
  rw [incarnation] at unguarded
  have unexposed : (source.name, source.incarnation) ∉ s.exposed := by
    intro exposed
    have guard := guarded _ exposed
    rw [show (Durable.visible Disk.apply s.disk).guards _ _ = _ from unguarded] at guard
    cases guard
  refine ⟨unexposed, fun submitted => unexposed ?_, profile, present, incarnation, rfl⟩
  have exposed := (tracked source.name profile present).2.2.2 submitted
  rwa [incarnation] at exposed

theorem Tracked.issue (tracked : s.Tracked document) (name incarnation : Text) :
    (s.issue name incarnation).Tracked document := by
  intro other profile found
  obtain ⟨issued, owner, used, exposed⟩ := tracked other profile found
  refine ⟨issued.trans (Nat.lt_succ_self _), ?_, used, exposed⟩
  simpa [State.issue, Nat.ne_of_lt issued] using owner

theorem Sound.issue (sound : s.Sound) (name incarnation : Text) : (s.issue name incarnation).leave.Sound :=
  ⟨sound.disk.imp fun _ facts => ⟨facts.1.issue name incarnation, facts.2⟩,
    fun serial submitted => (sound.issued serial submitted).trans (Nat.lt_succ_self _), sound.once, nofun⟩

theorem fresh_update (sound : s.Sound) (name incarnation : Text) (document : Document) {used : List Text}
    (known : incarnation ∈ used) (named : profile.incarnation = incarnation)
    (numbered : profile.serial = s.serials) :
    FreshAt { s.issue name incarnation with used := used } name (Function.update document name (some profile)) := by
  intro found same
  rw [Function.update_self] at same
  cases same
  rw [numbered, named]
  refine ⟨Nat.lt_succ_self _, by simp [State.issue], known, fun submitted => ?_⟩
  exact Nat.lt_irrefl _ (sound.issued _ submitted)

theorem Sound.begin (sound : s.Sound) (stepped : s.begin now incarnation task = some t) : t.Sound := by
  cases task with
  | renewing source force =>
    rw [State.begin] at stepped
    split at stepped
    · cases stepped
      exact sound.leave
    · rename_i profile ok
      split at stepped <;> cases stepped
      · exact sound.leave
      · obtain ⟨unexposed, unsubmitted, stands⟩ := sound.bound_unexposed ok
        refine sound.goOn ⟨fun other _ => ?_, stands, unsubmitted, unexposed⟩
        exact read_tokens s.visible other
  | loggingIn name profile replace =>
    rw [State.begin] at stepped
    dsimp only at stepped
    split at stepped
    · cases stepped
      exact sound.leave
    · split at stepped
      · cases stepped
      · rename_i new
        cases stepped
        refine ⟨sound.disk.imp fun disk facts => ⟨?_, facts.2⟩, ?_, sound.once, fun task same => ?_⟩
        · intro other found present
          obtain ⟨issued, owner, used, exposed⟩ := facts.1.issue name incarnation other found present
          exact ⟨issued, owner, List.mem_cons_of_mem _ used, exposed⟩
        · exact fun serial submitted => (sound.issued serial submitted).trans (Nat.lt_succ_self _)
        · cases same
          refine ⟨others_read s name _, fresh_update sound name incarnation _ List.mem_cons_self rfl rfl, ?_⟩
          refine sound.disk.imp fun disk facts other found present same => new ?_
          exact same ▸ (facts.1 other found present).2.2.1
  | loggingOut name =>
    rw [State.begin] at stepped
    split at stepped <;> cases stepped
    · exact sound.leave
    · refine sound.goOn ⟨others_read s name _, fun profile found => ?_, nofun⟩
      rw [Function.update_self] at found
      cases found
  | _ => cases stepped

theorem visible_change (s : State) (change : Change) : (s.change change).visible = s.visible.apply change :=
  visible_push change

theorem Others.change (others : s.Others name document) {change : Change}
    (same : (s.visible.apply change).profiles = s.visible.profiles) : (s.change change).Others name document := by
  intro other different
  rw [visible_change, same]
  exact others other different

theorem GoalSound.createGuard (held : s.GoalSound document goal) (name incarnation : Text) :
    (s.change (.createGuard name incarnation)).GoalSound document goal := by
  cases goal with
  | renew source serial =>
    obtain ⟨others, ⟨profile, present, facts⟩, unsent⟩ := held
    refine ⟨others.change rfl, ⟨profile, ?_, facts⟩, unsent⟩
    rw [visible_change]
    exact present
  | login owner fresh previous =>
    obtain ⟨others, new, unseen⟩ := held
    exact ⟨others.change rfl, new, unseen.push fun _ => id⟩

theorem GoalSound.synced (held : s.GoalSound document goal) : s.synced.GoalSound document goal := by
  cases goal with
  | renew source serial => exact held
  | login owner fresh previous => exact ⟨held.1, held.2.1, held.2.2.sync⟩

theorem Sound.createGuard (sound : s.Sound) (held : s.GoalSound document goal) :
    ((s.change (.createGuard goal.name goal.incarnation)).goOn (.guarded goal document)).Sound := by
  refine ⟨sound.disk.push fun disk facts => ⟨facts.1, fun entry exposed => ?_⟩, sound.issued, sound.once, fun task same => ?_⟩
  · simp only [Disk.apply, Disk.setGuard]
    split
    · rfl
    · exact facts.2 entry exposed
  · cases same
    refine ⟨held.createGuard _ _, ?_⟩
    show (State.visible (s.change _)).guards _ _ = true
    rw [visible_change]
    simp [Disk.apply, Disk.setGuard]

theorem Sound.commit (sound : s.Sound) (held : s.TaskSound (.renamed name document cleanup)) :
    (s.commit name cleanup).Sound := by
  obtain ⟨stands, fresh⟩ := held
  obtain ⟨tracked, guarded⟩ := sound.disk.now
  refine ⟨always_settled ⟨fun other profile found => ?_, fun entry exposed => ?_⟩, sound.issued, sound.once, fun task same => ?_⟩
  · obtain ⟨issued, owner, used, exposed⟩ := tracked other profile found
    refine ⟨issued, owner, used, fun submitted => List.mem_filter.2 ⟨exposed submitted, ?_⟩⟩
    -- what was written for this name has not been sent
    have different : other ≠ name := by
      rintro rfl
      refine (fresh profile ?_).2.2.2 submitted
      rw [← stands]
      exact found
    simp [different]
  · exact guarded entry (List.mem_of_mem_filter exposed)
  · cases same
    intro incarnation listed exposed
    have kept := (List.mem_filter.1 exposed).2
    simp [listed] at kept

theorem Sound.submit (sound : s.Sound) {serial : Nat}
    (held : s.TaskSound (.ready (.renew source serial) document)) :
    Sound { s.goOn (.sent source document) with
      exposed := (source.name, source.incarnation) :: s.exposed
      submitted := serial :: s.submitted } := by
  obtain ⟨⟨others, ⟨profile, present, incarnation, numbered⟩, unsubmitted, _⟩, guard, settled⟩ := held
  obtain ⟨tracked, guarded⟩ := sound.disk.now
  obtain ⟨issued, owner, used, _⟩ := tracked source.name profile present
  have whole : s.disk = (s.visible, []) := by
    refine Prod.ext ?_ settled
    rw [State.visible, Durable.visible, settled]
    rfl
  refine ⟨?_, List.forall_mem_cons.2 ⟨numbered ▸ issued, sound.issued⟩, List.nodup_cons.2 ⟨unsubmitted, sound.once⟩, ?_⟩
  · show Always Disk.apply s.disk _
    rw [whole]
    refine always_settled ⟨fun other found stands => ?_, List.forall_mem_cons.2 ⟨guard, guarded⟩⟩
    obtain ⟨issued', owner', used', exposed'⟩ := tracked other found stands
    refine ⟨issued', owner', used', fun submitted => ?_⟩
    rcases List.mem_cons.1 submitted with same | old
    · -- the token sent is that of its owner alone
      have equal : (other, found.incarnation) = (source.name, source.incarnation) := by
        rw [← owner', same, ← numbered, owner, incarnation]
      rw [equal]
      exact List.mem_cons_self
    · exact List.mem_cons_of_mem _ (exposed' old)
  · intro task same
    cases same
    exact ⟨others, serial, profile, present, incarnation, numbered⟩

theorem Sound.receive (sound : s.Sound) {rotated : Profile} (held : s.TaskSound (.sent source document)) :
    (s.receive source document rotated now).Sound := by
  unfold State.receive
  split
  · exact sound.leave
  · obtain ⟨others, serial, profile, present, incarnation, numbered⟩ := held
    have used : source.incarnation ∈ s.used := incarnation ▸ (sound.disk.now.1 source.name profile present).2.2.1
    have kept := sound.issue source.name source.incarnation
    refine ⟨kept.disk, kept.issued, kept.once, fun task same => ?_⟩
    cases same
    refine ⟨fun other different => ?_, fresh_update sound source.name source.incarnation document used rfl rfl, fun _ => ?_⟩
    · rw [Function.update_of_ne different]
      exact others other different
    · exact ⟨_, profile, Function.update_self .., present, incarnation.symm, by rw [incarnation]⟩

theorem Tracked.others (tracked : s.Tracked s.visible.profiles) (others : s.Others name document)
    (fresh : s.FreshAt name document) : s.Tracked document := by
  intro other profile found
  by_cases same : other = name
  · subst same
    obtain ⟨issued, owner, used, unsubmitted⟩ := fresh profile found
    exact ⟨issued, owner, used, fun submitted => absurd submitted unsubmitted⟩
  · have equal := others other same
    rw [found, Option.map_some] at equal
    obtain ⟨stored, present, tokens⟩ := Option.map_eq_some_iff.1 equal.symm
    have facts := tracked other stored present
    have serial : stored.tokens.serial = profile.tokens.serial := by rw [tokens]
    have incarnation : stored.tokens.incarnation = profile.tokens.incarnation := by rw [tokens]
    dsimp only [Profile.tokens] at serial incarnation
    rwa [serial, incarnation] at facts

theorem Sound.rename (sound : s.Sound) {purpose : Purpose}
    (held : s.TaskSound (.writing purpose name document cleanup)) :
    ((s.change (.replace document)).goOn (.renamed name document cleanup)).Sound := by
  obtain ⟨others, fresh, _⟩ := held
  have tracked := Tracked.others sound.disk.now.1 others fresh
  refine ⟨sound.disk.push fun disk facts => ⟨tracked, facts.2⟩, sound.issued, sound.once, fun task same => ?_⟩
  cases same
  refine ⟨?_, fresh⟩
  show (State.visible (s.change _)).profiles = document
  rw [visible_change]
  rfl

theorem Sound.sweep (sound : s.Sound) (held : s.TaskSound (.cleaning name (incarnation :: cleanup)))
    (done : Bool) :
    ((if done then s.change (.removeGuard name incarnation) else s).goOn (.swept name cleanup)).Sound := by
  obtain ⟨first, rest⟩ := List.forall_mem_cons.1 held
  cases done with
  | false => exact sound.goOn rest
  | true =>
    refine ⟨sound.disk.push fun disk facts => ⟨facts.1, fun entry exposed => ?_⟩, sound.issued, sound.once, fun task same => ?_⟩
    · simp only [Disk.apply, Disk.setGuard]
      rw [if_neg ?_]
      · exact facts.2 entry exposed
      · rintro ⟨rfl, rfl⟩
        exact first exposed
    · cases same
      exact rest

theorem Sound.synced (sound : s.Sound) : s.synced.leave.Sound := ⟨sound.disk.sync, sound.issued, sound.once, nofun⟩

theorem Sound.work (sound : s.Sound) (held : s.TaskSound task) (stepped : s.work task action = some t) : t.Sound := by
  cases action with
  | begin now incarnation => exact sound.begin stepped
  | createGuard =>
    dsimp only [State.work] at stepped
    split at stepped
    · split at stepped <;> cases stepped
      · exact sound.leave
      · exact sound.createGuard held
    · cases stepped
  | sync done =>
    dsimp only [State.work] at stepped
    split at stepped <;> cases stepped
    · cases done with
      | false => exact sound.leave
      | true => exact sound.synced.goOn ⟨held.1.synced, held.2, rfl⟩
    · cases done with
      | false => exact sound.leave
      | true => exact sound.commit held
    · cases done with
      | false => exact sound.goOn held
      | true => exact sound.synced.goOn held
  | submit =>
    dsimp only [State.work] at stepped
    split at stepped <;> cases stepped
    exact sound.submit held
  | proceed =>
    dsimp only [State.work] at stepped
    split at stepped <;> cases stepped
    exact sound.goOn ⟨held.1.1, held.1.2.1, nofun⟩
  | reply rotated now =>
    dsimp only [State.work] at stepped
    split at stepped <;> cases stepped
    exact sound.receive held
  | rename =>
    dsimp only [State.work] at stepped
    split at stepped <;> cases stepped
    exact sound.rename held
  | sweep done =>
    dsimp only [State.work] at stepped
    split at stepped <;> cases stepped
    exact sound.sweep held done
  | release =>
    dsimp only [State.work] at stepped
    split at stepped <;> cases stepped
    exact sound.leave
  | fail =>
    cases stepped
    exact sound.leave
  | _ => cases stepped

theorem Sound.enter (sound : s.Sound) (task : Task) (trivial : s.TaskSound task) (entered : s.enter task = some t) : t.Sound := by
  unfold State.enter at entered
  split at entered <;> cases entered
  exact sound.goOn trivial

theorem Sound.step (sound : s.Sound) (stepped : s.step action = some t) : t.Sound := by
  cases action with
  | renew source force => exact sound.enter (.renewing source force) trivial stepped
  | login name profile replace => exact sound.enter (.loggingIn name profile replace) trivial stepped
  | logout name => exact sound.enter (.loggingOut name) trivial stepped
  | crash keep =>
    cases stepped
    exact ⟨sound.disk.crash keep, sound.issued, sound.once, nofun⟩
  | _ =>
    obtain ⟨task, holds, worked⟩ := Option.bind_eq_some_iff.1 stepped
    exact sound.work (sound.task task holds) worked

end State
end Wi.Codex.Auth
