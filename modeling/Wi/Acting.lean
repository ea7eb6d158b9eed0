import Mathlib.Data.List.Basic

/-! Interruptible stateful actions and their pre- and postconditions. An action ends with a
value or an error, or it is left pending for ever; its effects so far remain in each case. -/
namespace Wi

inductive Reply (ε α : Type) where
  | ok (value : α)
  | error (error : ε)
  | pending
  deriving DecidableEq

def Reply.map (change : α → β) : Reply ε α → Reply ε β
  | .ok value => .ok (change value)
  | .error reason => .error reason
  | .pending => .pending

/-- Asynchronous code as a state transformer. A caller that drops the future sees `pending`. -/
def Act (σ ε α : Type) := σ → Reply ε α × σ

namespace Act
variable {σ τ ε ε' α β : Type}

def bind (action : Act σ ε α) (next : α → Act σ ε β) : Act σ ε β := fun s =>
  match action s with
  | (.ok value, s) => next value s
  | (.error error, s) => (.error error, s)
  | (.pending, s) => (.pending, s)

instance : Monad (Act σ ε) where
  pure value := fun s => (.ok value, s)
  bind := bind

def throw (error : ε) : Act σ ε α := fun s => (.error error, s)

def read : Act σ ε σ := fun s => (.ok s, s)

def update (change : σ → σ) : Act σ ε Unit := fun s => (.ok (), change s)

/-- `result?` -/
def lift (result : Except ε α) : Act σ ε α := fun s =>
  match result with
  | .ok value => (.ok value, s)
  | .error error => (.error error, s)

/-- `async { .. }.await` without `?`: the error is a value of the caller. -/
def attempt (action : Act σ ε α) : Act σ ε' (Except ε α) := fun s =>
  match action s with
  | (.ok value, s) => (.ok (.ok value), s)
  | (.error error, s) => (.ok (.error error), s)
  | (.pending, s) => (.pending, s)

/-- From every state of `before` the action ends, or is left, in a state of `after`. -/
def Triple (before : σ → Prop) (action : Act σ ε α) (after : Reply ε α → σ → Prop) : Prop :=
  ∀ s, before s → after (action s).1 (action s).2

/-- The postcondition of an action that goes on: what its value gives, and otherwise the
postcondition of the whole. -/
def upTo (middle : α → σ → Prop) (after : Reply ε β → σ → Prop) : Reply ε α → σ → Prop
  | .ok value, s => middle value s
  | .error error, s => after (.error error) s
  | .pending, s => after .pending s

/-- A postcondition by cases: of the value, of a failure, and of a future left pending. -/
def ends (after : α → σ → Prop) (failed dropped : σ → Prop) : Reply ε α → σ → Prop
  | .ok value, s => after value s
  | .error _, s => failed s
  | .pending, s => dropped s

namespace Triple
variable {before : σ → Prop} {action : Act σ ε α} {next : α → Act σ ε β} {middle : α → σ → Prop}

theorem bind {after : Reply ε β → σ → Prop} (first : Triple before action (upTo middle after))
    (rest : ∀ value, Triple (middle value) (next value) after) : Triple before (action >>= next) after := by
  intro s held
  have reached := first s held
  show after (Act.bind action next s).1 (Act.bind action next s).2
  unfold Act.bind
  match action s, reached with
  | (.ok value, t), reached => exact rest value t reached
  | (.error _, _), reached => exact reached
  | (.pending, _), reached => exact reached

theorem chain {after : β → σ → Prop} {failed dropped : σ → Prop} (first : Triple before action (ends middle failed dropped))
    (rest : ∀ value, Triple (middle value) (next value) (ends after failed dropped)) :
    Triple before (action >>= next) (ends after failed dropped) := by
  have goes : Triple before action (upTo middle (ends after failed dropped)) := by
    intro s held
    have reached := first s held
    match action s, reached with
    | (.ok _, _), reached | (.error _, _), reached | (.pending, _), reached => exact reached
  exact goes.bind rest

theorem pure {after : Reply ε α → σ → Prop} {value : α} (holds : ∀ s, before s → after (.ok value) s) :
    Triple before (Pure.pure value : Act σ ε α) after := holds

theorem read_bind {after : Reply ε β → σ → Prop} {next : σ → Act σ ε β}
    (rest : ∀ s, before s → after (next s s).1 (next s s).2) : Triple before (Act.read >>= next) after := rest

theorem attempt {after : Reply ε' (Except ε α) → σ → Prop} {inner : Reply ε α → σ → Prop}
    (within : Triple before action inner) (value : ∀ v s, inner (.ok v) s → after (.ok (.ok v)) s)
    (error : ∀ e s, inner (.error e) s → after (.ok (.error e)) s)
    (pending : ∀ s, inner .pending s → after .pending s) : Triple before (Act.attempt action) after := by
  intro s held
  have reached := within s held
  unfold Act.attempt
  match action s, reached with
  | (.ok v, t), reached => exact value v t reached
  | (.error e, t), reached => exact error e t reached
  | (.pending, t), reached => exact pending t reached

theorem mono {after weaker : Reply ε α → σ → Prop} {stronger : σ → Prop} (triple : Triple before action after)
    (pre : ∀ s, stronger s → before s) (post : ∀ reply s, after reply s → weaker reply s) :
    Triple stronger action weaker :=
  fun s held => post _ _ (triple s (pre s held))

end Triple
end Act
end Wi
