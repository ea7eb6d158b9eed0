import Wi.Durable
import Wi.Gateway

/-! Managed login profiles on disk, and the operations that change them under the store's
exclusive lock. One step is one operation on the disk or one answer of the token exchange. -/
namespace Wi.Codex.Auth
open Durable

/-- `serial` numbers the tokens in the order in which they were issued to the store. -/
structure Profile where
  incarnation : Text
  account : Text
  access : Text
  refresh : Text
  expires : Nat
  enabled : Bool
  reauth : Bool
  serial : Nat
  deriving DecidableEq

/-- The profiles by name. -/
abbrev Document := Text → Option Profile

/-- The document, and the rotation guards by profile name and incarnation. -/
structure Disk where
  profiles : Document
  guards : Text → Text → Bool

inductive Change where
  | createGuard (name incarnation : Text)
  | removeGuard (name incarnation : Text)
  | replace (document : Document)

namespace Disk

def empty : Disk := ⟨fun _ => none, fun _ _ => false⟩

def setGuard (disk : Disk) (name incarnation : Text) (present : Bool) : Disk :=
  { disk with guards := fun other found => if other = name ∧ found = incarnation then present else disk.guards other found }

def apply (disk : Disk) : Change → Disk
  | .createGuard name incarnation => disk.setGuard name incarnation true
  | .removeGuard name incarnation => disk.setGuard name incarnation false
  | .replace document => { disk with profiles := document }

/-- `LockedStore::read`: a guarded profile requires a new login. -/
def read (disk : Disk) : Document := fun name =>
  (disk.profiles name).map fun profile =>
    if disk.guards name profile.incarnation then { profile with reauth := true } else profile

end Disk

/-- The profile that a credential source was selected with. -/
structure Source where
  name : Text
  incarnation : Text
  account : Text
  deriving DecidableEq

def bound (source : Source) (document : Document) : GatewayResult Profile :=
  match document source.name with
  | none => .error .authAccountChanged
  | some profile =>
    if profile.incarnation ≠ source.incarnation ∨ profile.account ≠ source.account then .error .authAccountChanged
    else if !profile.enabled || profile.reauth then .error (.invalidAuth "selected Wi profile requires login")
    else .ok profile

def eligible (profile : Profile) : Bool :=
  profile.enabled && (!profile.access.isEmpty && !profile.refresh.isEmpty) && !profile.reauth

/-- The credentials of a source, as a submission loads them. -/
def load (disk : Disk) (source : Source) : GatewayResult (Text × Text × Nat) :=
  (bound source disk.read).map fun profile => (profile.access, profile.account, profile.expires)

/-- What a guard is created for. -/
inductive Goal where
  | renew (source : Source) (serial : Nat)
  | login (name incarnation : Text) (previous : Option Text)

def Goal.name : Goal → Text
  | .renew source _ => source.name
  | .login name _ _ => name

def Goal.incarnation : Goal → Text
  | .renew source _ => source.incarnation
  | .login _ incarnation _ => incarnation

inductive Purpose where
  | renewal | login | logout
  deriving DecidableEq

/-- Where the operation that holds the lock is. After its commit the guards of the listed
incarnations are removed. -/
inductive Task where
  | renewing (source : Source) (force : Bool)
  | loggingIn (name : Text) (profile : Profile) (replace : Bool)
  | loggingOut (name : Text)
  | guarding (goal : Goal) (document : Document)
  | guarded (goal : Goal) (document : Document)
  | ready (goal : Goal) (document : Document)
  | sent (source : Source) (document : Document)
  | writing (purpose : Purpose) (name : Text) (document : Document) (cleanup : List Text)
  | renamed (name : Text) (document : Document) (cleanup : List Text)
  | cleaning (name : Text) (cleanup : List Text)
  | swept (name : Text) (cleanup : List Text)

/-- The profile that an operation is about. -/
def Task.name : Task → Text
  | .renewing source _ | .sent source _ => source.name
  | .loggingIn name _ _ | .loggingOut name | .writing _ name _ _ | .renamed name _ _ | .cleaning name _ | .swept name _ => name
  | .guarding goal _ | .guarded goal _ | .ready goal _ => goal.name

/-- `exposed` are the incarnations whose refresh token may have been sent while the rotated tokens
are not durably stored, `submitted` the tokens that were sent, and `owner` says to which profile
and incarnation a token was issued. -/
structure State where
  disk : Store Disk Change
  holder : Option Task
  exposed : List (Text × Text)
  submitted : List Nat
  serials : Nat
  owner : Nat → Text × Text
  used : List Text

inductive Action where
  | renew (source : Source) (force : Bool)
  | login (name : Text) (profile : Profile) (replace : Bool)
  | logout (name : Text)
  | begin (now : Nat) (incarnation : Text)
  | createGuard
  | sync (done : Bool)
  | submit
  | proceed
  | reply (rotated : Profile) (now : Nat)
  | rename
  | sweep (done : Bool)
  | release
  | fail
  | crash (keep : List Bool)

namespace State

def new : State := ⟨(.empty, []), none, [], [], 0, fun _ => ([], []), []⟩

/-- What a process that takes the lock would see. -/
def visible (s : State) : Disk := Durable.visible Disk.apply s.disk

def enter (s : State) (task : Task) : Option State :=
  match s.holder with
  | none => some { s with holder := some task }
  | some _ => none

def goOn (s : State) (task : Task) : State := { s with holder := some task }

def leave (s : State) : State := { s with holder := none }

def change (s : State) (change : Change) : State := { s with disk := push s.disk change }

def synced (s : State) : State := { s with disk := Durable.sync Disk.apply s.disk }

/-- New tokens come into the store for a profile and incarnation. -/
def issue (s : State) (name incarnation : Text) : State :=
  { s with serials := s.serials + 1, owner := Function.update s.owner s.serials (name, incarnation) }

/-- The holder reads the document and makes its checks. A login draws a new incarnation. -/
def begin (s : State) (now : Nat) (incarnation : Text) : Task → Option State
  | .renewing source force =>
    match bound source s.visible.read with
    | .error _ => some s.leave
    | .ok profile =>
      if !force && decide (now + 30 < profile.expires) then some s.leave
      else some (s.goOn (.guarding (.renew source profile.serial) s.visible.read))
  | .loggingIn name profile replace =>
    let previous := s.visible.read name
    if previous.isSome && !replace then some s.leave
    else if incarnation ∈ s.used then none
    else
      let document := Function.update s.visible.read name
        (some { profile with incarnation := incarnation, serial := s.serials })
      some { (s.issue name incarnation).goOn (.guarding (.login name incarnation (previous.map (·.incarnation))) document) with
        used := incarnation :: s.used }
  | .loggingOut name =>
    match s.visible.read name with
    | none => some s.leave
    | some removed =>
      some (s.goOn (.writing .logout name (Function.update s.visible.read name none) [removed.incarnation]))
  | _ => none

/-- The answer of the exchange is stored only if it attests the same account and valid tokens. -/
def receive (s : State) (source : Source) (document : Document) (rotated : Profile) (now : Nat) : State :=
  if rotated.account ≠ source.account ∨ rotated.expires ≤ now + 30 ∨ rotated.refresh = [] ∨ rotated.access = [] then s.leave
  else
    let stored := { rotated with
      incarnation := source.incarnation, enabled := true, reauth := false, serial := s.serials }
    (s.issue source.name source.incarnation).goOn
      (.writing .renewal source.name (Function.update document source.name (some stored)) [source.incarnation])

/-- The replaced document is durable, and with it what became of the listed incarnations. -/
def commit (s : State) (name : Text) (cleanup : List Text) : State :=
  { s.synced.goOn (.cleaning name cleanup) with
    exposed := s.exposed.filter fun entry => !(entry.1 == name && cleanup.contains entry.2) }

/-- One step of the lock's holder. Every step may fail instead, by an error, a deadline or the
end of the process; an existing guard makes its creation fail. -/
def work (s : State) (task : Task) : Action → Option State
  | .begin now incarnation => s.begin now incarnation task
  | .createGuard =>
    match task with
    | .guarding goal document =>
      if s.visible.guards goal.name goal.incarnation then some s.leave
      else some ((s.change (.createGuard goal.name goal.incarnation)).goOn (.guarded goal document))
    | _ => none
  | .sync done =>
    match task with
    | .guarded goal document => some (if done then s.synced.goOn (.ready goal document) else s.leave)
    | .renamed name _ cleanup => some (if done then s.commit name cleanup else s.leave)
    | .swept name cleanup => some ((if done then s.synced else s).goOn (.cleaning name cleanup))
    | _ => none
  | .submit =>
    match task with
    | .ready (.renew source serial) document =>
      some { s.goOn (.sent source document) with
        exposed := (source.name, source.incarnation) :: s.exposed
        submitted := serial :: s.submitted }
    | _ => none
  | .proceed =>
    match task with
    | .ready (.login name incarnation previous) document =>
      some (s.goOn (.writing .login name document (incarnation :: previous.toList)))
    | _ => none
  | .reply rotated now =>
    match task with
    | .sent source document => some (s.receive source document rotated now)
    | _ => none
  | .rename =>
    match task with
    | .writing _ name document cleanup => some ((s.change (.replace document)).goOn (.renamed name document cleanup))
    | _ => none
  | .sweep done =>
    match task with
    | .cleaning name (incarnation :: cleanup) =>
      some ((if done then s.change (.removeGuard name incarnation) else s).goOn (.swept name cleanup))
    | _ => none
  | .release =>
    match task with
    | .cleaning _ [] => some s.leave
    | _ => none
  | .fail => some s.leave
  | _ => none

/-- Only the holder works on the store; a crash of the machine ends every operation. -/
def step (s : State) : Action → Option State
  | .renew source force => s.enter (.renewing source force)
  | .login name profile replace => s.enter (.loggingIn name profile replace)
  | .logout name => s.enter (.loggingOut name)
  | .crash keep => some { s.leave with disk := Durable.crash Disk.apply s.disk keep }
  | action => s.holder.bind fun task => s.work task action

end State
end Wi.Codex.Auth
