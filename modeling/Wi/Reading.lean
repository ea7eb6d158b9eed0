import Mathlib.Data.List.Basic

/-! Readers of a stream, one symbol at a time. A reading has the outputs up to its end or its
first failure, so that a failure does not take back what was put out before it. -/
namespace Wi

/-- The outputs, in order, and what the reading ended with. -/
abbrev Reading (ω ε α : Type) := List ω × Except ε α

namespace Reading
variable {ω ε α β γ σ ι : Type}

def done (value : α) : Reading ω ε α := ([], .ok value)

def fail (error : ε) : Reading ω ε α := ([], .error error)

/-- Go on after a reading that did not fail. -/
def bind (reading : Reading ω ε α) (next : α → Reading ω ε β) : Reading ω ε β :=
  match reading with
  | (outputs, .ok value) => (outputs ++ (next value).1, (next value).2)
  | (outputs, .error error) => (outputs, .error error)

@[simp] theorem bind_ok (outputs : List ω) (value : α) (next : α → Reading ω ε β) :
    bind (outputs, .ok value) next = (outputs ++ (next value).1, (next value).2) := rfl

@[simp] theorem bind_error (outputs : List ω) (error : ε) (next : α → Reading ω ε β) :
    bind (outputs, .error error) next = (outputs, .error error) := rfl

@[simp] theorem done_bind (value : α) (next : α → Reading ω ε β) : bind (done value) next = next value := rfl

theorem bind_assoc (reading : Reading ω ε α) (next : α → Reading ω ε β) (last : β → Reading ω ε γ) :
    bind (bind reading next) last = bind reading fun value => bind (next value) last := by
  obtain ⟨outputs, error | value⟩ := reading
  · rfl
  · rw [bind_ok, bind_ok]
    obtain ⟨more, error | result⟩ := next value
    · rfl
    · simp

@[simp] theorem bind_done (reading : Reading ω ε α) : bind reading done = reading := by
  obtain ⟨outputs, error | value⟩ := reading
  · rfl
  · simp [done]

theorem bind_congr {reading : Reading ω ε α} {next other : α → Reading ω ε β}
    (same : ∀ value, reading.2 = .ok value → next value = other value) : bind reading next = bind reading other := by
  obtain ⟨outputs, error | value⟩ := reading
  · rfl
  · rw [bind_ok, bind_ok, same value rfl]

theorem bind_fail_ne_ok (reading : Reading ω ε α) (error : ε) (outputs : List ω) (value : β) :
    bind reading (fun _ => fail error) ≠ (outputs, .ok value) := by
  obtain ⟨front, other | last⟩ := reading
  · exact nofun
  · exact nofun

/-- The whole input, up to the first failure. -/
def read (step : σ → ι → Reading ω ε σ) : σ → List ι → Reading ω ε σ
  | s, [] => done s
  | s, symbol :: symbols => bind (step s symbol) fun t => read step t symbols

variable {step : σ → ι → Reading ω ε σ} {s : σ}

@[simp] theorem read_nil : read step s [] = done s := rfl

@[simp] theorem read_cons (symbol : ι) (symbols : List ι) :
    read step s (symbol :: symbols) = bind (step s symbol) fun t => read step t symbols := rfl

/-- Where the input is cut does not matter. -/
theorem read_append (first second : List ι) :
    read step s (first ++ second) = bind (read step s first) fun t => read step t second := by
  induction first generalizing s with
  | nil => rfl
  | cons symbol first ih =>
    rw [List.cons_append, read_cons, read_cons, bind_assoc]
    exact congrArg _ (funext fun t => ih)

/-- What every step keeps, a reading keeps. -/
theorem read_invariant (invariant : σ → Prop)
    (keeps : ∀ s symbol outputs t, invariant s → step s symbol = (outputs, .ok t) → invariant t) (start : invariant s)
    {symbols : List ι} {outputs : List ω} {t : σ} (done : read step s symbols = (outputs, .ok t)) : invariant t := by
  induction symbols generalizing s outputs with
  | nil =>
    cases done
    exact start
  | cons symbol symbols ih =>
    rw [read_cons] at done
    rcases taken : step s symbol with ⟨front, error | next⟩
    · rw [taken] at done
      exact nomatch done
    · rw [taken, bind_ok] at done
      rcases rest : read step next symbols with ⟨back, error | last⟩
      · rw [rest] at done
        exact nomatch done
      · rw [rest] at done
        cases done
        exact ih (keeps s symbol front next start taken) rest

end Reading
end Wi
