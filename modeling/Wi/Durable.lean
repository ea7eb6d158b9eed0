import Mathlib.Data.List.Sublists

/-! Storage whose changes are visible at once and durable after a synchronisation: a crash keeps
or loses each change made since then. -/
namespace Wi.Durable

variable {δ κ : Type} {apply : δ → κ → δ} {s : δ × List κ}

/-- The last synchronised contents, and the changes made since. -/
abbrev Store (δ κ : Type) := δ × List κ

def visible (apply : δ → κ → δ) (s : Store δ κ) : δ := s.2.foldl apply s.1

def push (s : Store δ κ) (change : κ) : Store δ κ := (s.1, s.2 ++ [change])

def sync (apply : δ → κ → δ) (s : Store δ κ) : Store δ κ := (visible apply s, [])

/-- The changes that are kept; those beyond the choices are lost. -/
def survivors (keep : List Bool) (changes : List κ) : List κ := ((changes.zip keep).filter (·.2)).map (·.1)

def crash (apply : δ → κ → δ) (s : Store δ κ) (keep : List Bool) : Store δ κ :=
  ((survivors keep s.2).foldl apply s.1, [])

/-- The contents that a crash can leave. -/
def Possible (apply : δ → κ → δ) (s : Store δ κ) (contents : δ) : Prop :=
  ∃ kept : List κ, kept.Sublist s.2 ∧ kept.foldl apply s.1 = contents

/-- What holds of the contents now, and after a crash at this point. -/
def Always (apply : δ → κ → δ) (s : Store δ κ) (P : δ → Prop) : Prop := ∀ contents, Possible apply s contents → P contents

theorem possible_visible : Possible apply s (visible apply s) := ⟨s.2, .refl _, rfl⟩

@[simp] theorem visible_push (change : κ) : visible apply (push s change) = apply (visible apply s) change := by
  simp [visible, push]

@[simp] theorem visible_sync : visible apply (sync apply s) = visible apply s := rfl

theorem survivors_sublist (keep : List Bool) (changes : List κ) : (survivors keep changes).Sublist changes := by
  induction changes generalizing keep with
  | nil => simp [survivors]
  | cons change changes ih =>
    cases keep with
    | nil => simp [survivors]
    | cons kept keep =>
      cases kept with
      | false => exact (ih keep).cons change
      | true => exact (ih keep).cons_cons change

theorem possible_crash (keep : List Bool) : Possible apply s (visible apply (crash apply s keep)) :=
  ⟨survivors keep s.2, survivors_sublist keep s.2, rfl⟩

theorem possible_settled {contents settled : δ} (possible : Possible apply (settled, []) contents) : contents = settled := by
  obtain ⟨kept, sublist, rfl⟩ := possible
  rw [List.sublist_nil.1 sublist]
  rfl

theorem possible_push {change : κ} {contents : δ} (possible : Possible apply (push s change) contents) :
    Possible apply s contents ∨ ∃ before, Possible apply s before ∧ contents = apply before change := by
  obtain ⟨kept, sublist, rfl⟩ := possible
  obtain ⟨first, last, rfl, before, after⟩ := List.sublist_append_iff.1 sublist
  rcases List.sublist_singleton.1 after with rfl | rfl
  · exact .inl ⟨first, before, by simp [push]⟩
  · exact .inr ⟨first.foldl apply s.1, ⟨first, before, rfl⟩, by simp [push]⟩

variable {P Q : δ → Prop}

theorem Always.now (always : Always apply s P) : P (visible apply s) := always _ possible_visible

theorem Always.imp (always : Always apply s P) (weaker : ∀ contents, P contents → Q contents) : Always apply s Q :=
  fun contents possible => weaker contents (always contents possible)

theorem Always.push (always : Always apply s P) {change : κ} (keeps : ∀ contents, P contents → P (apply contents change)) :
    Always apply (push s change) P := by
  intro contents possible
  rcases possible_push possible with old | ⟨before, old, rfl⟩
  · exact always contents old
  · exact keeps before (always before old)

theorem always_settled {settled : δ} (holds : P settled) : Always apply (settled, []) P := by
  intro contents possible
  rw [possible_settled possible]
  exact holds

theorem Always.sync (always : Always apply s P) : Always apply (sync apply s) P := always_settled always.now

theorem Always.crash (always : Always apply s P) (keep : List Bool) : Always apply (crash apply s keep) P :=
  always_settled (always _ (possible_crash keep))

end Wi.Durable
