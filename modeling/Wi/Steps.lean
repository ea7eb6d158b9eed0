import Mathlib.Data.List.Basic

/-! Labelled transition systems given by a function: an action that is not enabled has no
next state. -/
namespace Wi.Steps

variable {σ α : Type} {step : σ → α → Option σ} {s t u : σ} {actions later : List α}

/-- A run takes its actions in order. -/
def run (step : σ → α → Option σ) : σ → List α → Option σ
  | s, [] => some s
  | s, action :: actions => (step s action).bind fun t => run step t actions

@[simp] theorem run_nil : run step s [] = some s := rfl

@[simp] theorem run_cons {action : α} : run step s (action :: actions) = (step s action).bind fun t => run step t actions := rfl

theorem run_append : run step s (actions ++ later) = (run step s actions).bind fun t => run step t later := by
  induction actions generalizing s with
  | nil => rfl
  | cons action actions ih =>
    rw [List.cons_append, run_cons, run_cons, Option.bind_assoc]
    exact congrArg _ (funext fun t => ih)

/-- What every step keeps, every run keeps. -/
theorem run_invariant (invariant : σ → Prop)
    (keeps : ∀ s action t, invariant s → step s action = some t → invariant t) (start : invariant s)
    (done : run step s actions = some t) : invariant t := by
  induction actions generalizing s with
  | nil =>
    cases done
    exact start
  | cons action actions ih =>
    obtain ⟨next, stepped, rest⟩ := Option.bind_eq_some_iff.mp done
    exact ih (keeps s action next start stepped) rest

end Wi.Steps
