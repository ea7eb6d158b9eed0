import Wi.Writer

/-! Rules for transactions: one that fails only in a canonical check, and otherwise
establishes a property of its result. -/
namespace Wi

/-- No display fault, and the property for the result if there is one. -/
def Ensures (transaction : Tx α) (holds : α → Prop) : Prop :=
  match transaction with
  | .ok value => holds value
  | .error (.canonical _) => True
  | .error (.display _) => False

namespace Ensures
variable {α β : Type} {transaction : Tx α} {holds : α → Prop} {next : α → Tx β} {after : β → Prop}

theorem of_ok (ensures : Ensures transaction holds) {value : α} (done : transaction = .ok value) : holds value := by
  rw [done] at ensures
  exact ensures

theorem no_display (ensures : Ensures transaction holds) (kind : StorageErrorKind) :
    transaction ≠ .error (.display kind) := by
  rintro rfl
  exact ensures

theorem mono (ensures : Ensures transaction holds) {weaker : α → Prop} (implies : ∀ value, holds value → weaker value) :
    Ensures transaction weaker := by
  match transaction, ensures with
  | .ok value, held => exact implies value held
  | .error (.canonical _), _ => trivial

theorem bind (ensures : Ensures transaction holds) (continues : ∀ value, holds value → Ensures (next value) after) :
    Ensures (transaction >>= next) after := by
  match transaction, ensures with
  | .ok value, held => exact continues value held
  | .error (.canonical _), _ => trivial

theorem check_bind {result : Result α} (checked : ∀ value, result = .ok value → Ensures (next value) after) :
    Ensures (Wi.check result >>= next) after := by
  cases result with
  | ok value => exact checked value rfl
  | error kind => trivial

theorem project_bind {result : Result α} {value : α} (done : result = .ok value) (continues : Ensures (next value) after) :
    Ensures (project result >>= next) after := by
  rw [done]
  exact continues

/-- A fold keeps an invariant of the items it has taken so far. -/
theorem foldlM {step : α → β → Tx α} {items : List β} {start : α} (motive : List β → α → Prop) (base : motive [] start)
    (keep : ∀ before item rest state, items = before ++ item :: rest → motive before state →
      Ensures (step state item) (motive (before ++ [item]))) : Ensures (items.foldlM step start) (motive items) := by
  suffices general : ∀ before rest state, items = before ++ rest → motive before state →
      Ensures (rest.foldlM step state) (motive items) from general [] items start rfl base
  intro before rest
  induction rest generalizing before with
  | nil =>
    intro state split held
    rw [List.append_nil] at split
    rw [split]
    exact held
  | cons item rest ih =>
    intro state split held
    rw [List.foldlM_cons]
    refine (keep before item rest state split held).bind fun next kept => ?_
    exact ih (before ++ [item]) next (by rw [split, List.append_assoc]; rfl) kept

end Ensures
end Wi
