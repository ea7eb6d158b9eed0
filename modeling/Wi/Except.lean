import Mathlib

/-! Rules for computations that may fail: what a successful sequence, fold or map has done. -/
namespace Wi

variable {ε δ α β γ : Type}

@[simp] theorem ok_bind (value : α) (next : α → Except ε β) : (Except.ok value >>= next) = next value := rfl

@[simp] theorem error_bind (error : ε) (next : α → Except ε β) :
    ((Except.error error : Except ε α) >>= next) = .error error := rfl

@[simp] theorem pure_eq_ok (value : α) : (pure value : Except ε α) = .ok value := rfl

theorem bind_eq_ok {first : Except ε α} {next : α → Except ε β} {result : β} :
    (first >>= next) = .ok result ↔ ∃ value, first = .ok value ∧ next value = .ok result := by
  cases first <;> simp

theorem bind_eq_error {first : Except ε α} {next : α → Except ε β} {error : ε} :
    (first >>= next) = .error error ↔
      first = .error error ∨ ∃ value, first = .ok value ∧ next value = .error error := by
  cases first <;> simp

@[simp] theorem map_ok (f : α → β) (value : α) : (f <$> (Except.ok value : Except ε α)) = .ok (f value) := rfl

theorem map_eq_ok {f : α → β} {first : Except ε α} {result : β} :
    (f <$> first) = .ok result ↔ ∃ value, first = .ok value ∧ f value = result := by
  cases first with
  | error error => simp [Functor.map, Except.map]
  | ok value => simp

@[simp] theorem discard_ok (value : α) : discard (Except.ok value : Except ε α) = .ok () := rfl

theorem discard_eq_ok {first : Except ε α} {result : Unit} :
    discard first = .ok result ↔ ∃ value, first = .ok value := by
  cases first with
  | error error => simp [discard, Functor.mapConst, Except.map]
  | ok value => simp

@[simp] theorem mapError_ok (f : ε → δ) (value : α) : (Except.ok value).mapError f = .ok value := rfl

@[simp] theorem mapError_error (f : ε → δ) (error : ε) :
    (Except.error error : Except ε α).mapError f = .error (f error) := rfl

theorem mapError_eq_ok {f : ε → δ} {first : Except ε α} {result : α} :
    first.mapError f = .ok result ↔ first = .ok result := by
  cases first <;> simp

/-- A property that every successful step keeps holds after a successful fold. -/
theorem foldlM_induction {step : α → β → Except ε α} {items : List β} {start result : α}
    (motive : α → Prop) (done : items.foldlM step start = .ok result) (base : motive start)
    (keep : ∀ state item next, item ∈ items → motive state → step state item = .ok next → motive next) :
    motive result := by
  induction items generalizing start with
  | nil =>
    cases done
    exact base
  | cons item items ih =>
    rw [List.foldlM_cons, bind_eq_ok] at done
    obtain ⟨next, first, rest⟩ := done
    refine ih rest (keep start item next (by simp) base first) ?_
    intro state item next member
    exact keep state item next (by simp [member])

/-- What every successful step shows about its item holds of each item of a successful fold. -/
theorem foldlM_each {step : α → β → Except ε α} {items : List β} {start result : α} {P : β → Prop}
    (done : items.foldlM step start = .ok result)
    (each : ∀ state item next, step state item = .ok next → P item) : ∀ item ∈ items, P item := by
  induction items generalizing start with
  | nil => exact nofun
  | cons item items ih =>
    rw [List.foldlM_cons, bind_eq_ok] at done
    obtain ⟨next, first, rest⟩ := done
    exact List.forall_mem_cons.2 ⟨each start item next first, ih rest⟩

/-- A fold succeeds, keeping an invariant, if every step does. -/
theorem foldlM_succeeds {step : α → β → Except ε α} {items : List β} {start : α}
    (motive : List β → α → Prop) (base : motive [] start)
    (keep : ∀ before item after state, items = before ++ item :: after → motive before state →
      ∃ next, step state item = .ok next ∧ motive (before ++ [item]) next) :
    ∃ result, items.foldlM step start = .ok result ∧ motive items result := by
  suffices general : ∀ before after state, items = before ++ after → motive before state →
      ∃ result, after.foldlM step state = .ok result ∧ motive items result by
    exact general [] items start rfl base
  intro before after
  induction after generalizing before with
  | nil =>
    intro state split held
    refine ⟨state, rfl, ?_⟩
    rw [split, List.append_nil]
    exact held
  | cons item after ih =>
    intro state split held
    obtain ⟨next, stepped, kept⟩ := keep before item after state split held
    obtain ⟨result, folded, final⟩ := ih (before ++ [item]) next (by simp [split]) kept
    exact ⟨result, by rw [List.foldlM_cons, stepped, ok_bind, folded], final⟩

/-- What a fallible fold has done up to each item. -/
theorem foldlM_stages {step : α → β → Except ε α} {items : List β} {start result : α}
    (motive : List β → α → Prop)
    (done : items.foldlM step start = .ok result) (base : motive [] start)
    (keep : ∀ before item after state next, items = before ++ item :: after → motive before state →
      step state item = .ok next → motive (before ++ [item]) next) : motive items result := by
  suffices general : ∀ before after state, items = before ++ after → motive before state →
      after.foldlM step state = .ok result → motive items result from general [] items start rfl base done
  intro before after
  induction after generalizing before with
  | nil =>
    intro state split held finished
    cases finished
    rwa [split, List.append_nil]
  | cons item after ih =>
    intro state split held folded
    rw [List.foldlM_cons, bind_eq_ok] at folded
    obtain ⟨next, stepped, rest⟩ := folded
    exact ih (before ++ [item]) next (by simp [split]) (keep before item after state next split held stepped) rest

theorem mapM_eq_ok {f : α → Except ε β} {items : List α} {results : List β} :
    items.mapM f = .ok results ↔ List.Forall₂ (fun item result => f item = .ok result) items results := by
  induction items generalizing results with
  | nil =>
    rw [List.mapM_nil, pure_eq_ok, Except.ok.injEq]
    constructor
    · rintro rfl
      exact .nil
    · intro h
      cases h
      rfl
  | cons item items ih =>
    rw [List.mapM_cons]
    constructor
    · intro h
      obtain ⟨result, first, h⟩ := bind_eq_ok.1 h
      obtain ⟨rest, others, h⟩ := bind_eq_ok.1 h
      cases h
      exact .cons first (ih.1 others)
    · intro h
      cases h with
      | cons first others => rw [first, ok_bind, ih.2 others, ok_bind, pure_eq_ok]

theorem mapM_mem {f : α → Except ε β} {items : List α} {results : List β} (done : items.mapM f = .ok results) :
    ∀ result ∈ results, ∃ item ∈ items, f item = .ok result := by
  induction mapM_eq_ok.1 done with
  | nil => exact nofun
  | cons first others ih =>
    refine List.forall_mem_cons.2 ⟨⟨_, List.mem_cons_self, first⟩, ?_⟩
    intro result member
    obtain ⟨item, inside, found⟩ := ih (mapM_eq_ok.2 others) result member
    exact ⟨item, List.mem_cons_of_mem _ inside, found⟩

theorem forM_eq_ok {f : α → Except ε Unit} {items : List α} {result : Unit} :
    items.forM f = .ok result ↔ ∀ item ∈ items, f item = .ok () := by
  induction items with
  | nil => simp
  | cons item items ih =>
    change (f item >>= fun _ => items.forM f) = .ok result ↔ _
    rw [bind_eq_ok, List.forall_mem_cons, ← ih]
    exact ⟨fun ⟨_, first, rest⟩ => ⟨first, rest⟩, fun ⟨first, rest⟩ => ⟨(), first, rest⟩⟩

theorem mapM_ok {f : α → Except ε β} {g : α → β} {items : List α}
    (each : ∀ item ∈ items, f item = .ok (g item)) : items.mapM f = .ok (items.map g) := by
  induction items with
  | nil => rfl
  | cons item rest ih =>
    rw [List.mapM_cons, each item List.mem_cons_self, ok_bind,
      ih fun other member => each other (List.mem_cons_of_mem _ member)]
    rfl

end Wi
