import Mathlib

/-! Transcripts in which two parties take turns, one asking under keys and the other
answering them. `output` marks the items of the asking party. -/
namespace Wi.Dialogue

variable {α κ : Type} {output : α → Bool} {asks answers : α → Option κ}

/-- What the answering party writes between the output an item stands in and the next one. -/
def followers (output : α → Bool) (after : List α) : List α := (after.dropWhile output).takeWhile (!output ·)

/-- The last output before a position. -/
def leaders (output : α → Bool) (before : List α) : List α :=
  (before.reverse.dropWhile (!output ·)).takeWhile output

/-- Every question is answered exactly once before the next output, and nothing else is answered. -/
structure Paired [DecidableEq κ] (output : α → Bool) (asks answers : α → Option κ) (items : List α) : Prop where
  answered : ∀ before item after key, items = before ++ item :: after → asks item = some key →
    ((followers output after).filterMap answers).count key = 1
  asked : ∀ before item after key, items = before ++ item :: after → answers item = some key →
    ∃ question ∈ leaders output before, asks question = some key

/-- Questions are output and answers are not. -/
structure Roles (output : α → Bool) (asks answers : α → Option κ) : Prop where
  asking : asks item = some key → output item = true
  answering : answers item = some key → output item = false

/-- A nonempty input that answers each outstanding key once. -/
structure Replies (output : α → Bool) (answers : α → Option κ) (open_ : List κ) (input : List α) : Prop where
  nonempty : input ≠ []
  silent : ∀ item ∈ input, output item = false
  complete : (input.filterMap answers).Perm open_

structure Speaks (output : α → Bool) (asks : α → Option κ) (items : List α) : Prop where
  spoken : ∀ item ∈ items, output item = true
  distinct : (items.filterMap asks).Nodup

/-- Turns that begin with some keys outstanding and end with others. -/
inductive Turns (output : α → Bool) (asks answers : α → Option κ) :
    List κ → List (List α × List α) → List κ → Prop where
  | nil : Turns output asks answers keys [] keys
  | cons (replies : Replies output answers keys input) (speaks : Speaks output asks spoken)
      (rest : Turns output asks answers (spoken.filterMap asks) turns last) :
      Turns output asks answers keys ((input, spoken) :: turns) last

def flatten (turns : List (List α × List α)) : List α := turns.flatMap fun turn => turn.1 ++ turn.2

theorem Turns.snoc (turns : Turns output asks answers first before keys)
    (replies : Replies output answers keys input) (speaks : Speaks output asks spoken) :
    Turns output asks answers first (before ++ [(input, spoken)]) (spoken.filterMap asks) := by
  induction turns with
  | nil => exact .cons replies speaks .nil
  | cons earlier said _ ih => exact .cons earlier said (ih replies)

theorem split_append {a b before after : List α} (split : a ++ b = before ++ item :: after) :
    (∃ rest, a = before ++ item :: rest ∧ after = rest ++ b) ∨
      ∃ start, before = a ++ start ∧ b = start ++ item :: after := by
  rcases List.append_eq_append_iff.1 split with ⟨start, left, right⟩ | ⟨rest, left, right⟩
  · exact .inr ⟨start, left, right⟩
  · cases rest with
    | nil =>
      refine .inr ⟨[], ?_, ?_⟩
      · simpa using left.symm
      · simpa using right.symm
    | cons other rest =>
      cases right
      exact .inl ⟨rest, left, rfl⟩

/-- A transcript that opens with an input answering the given keys. -/
structure Opens (output : α → Bool) (answers : α → Option κ) (keys : List κ) (items : List α) : Prop where
  begins : items.dropWhile output = items
  answered : ((items.takeWhile (!output ·)).filterMap answers).Perm keys

theorem Replies.begins (replies : Replies output answers keys input) (rest : List α) :
    (input ++ rest).dropWhile output = input ++ rest := by
  obtain ⟨head, tail, rfl⟩ := List.exists_cons_of_ne_nil replies.nonempty
  have quiet := replies.silent head List.mem_cons_self
  simp [quiet]

theorem Replies.takeWhile (replies : Replies output answers keys input) (rest : List α) :
    (input ++ rest).takeWhile (!output ·) = input ++ rest.takeWhile (!output ·) :=
  List.takeWhile_append_of_pos fun item member => by simp [replies.silent item member]

theorem Turns.opens (turns : Turns output asks answers keys before last)
    (replies : Replies output answers last input) :
    Opens output answers keys (flatten before ++ input) := by
  induction turns with
  | nil =>
    refine ⟨?_, ?_⟩
    · simpa [flatten] using replies.begins []
    · have whole := replies.takeWhile []
      simp only [List.append_nil, List.takeWhile_nil] at whole
      simpa [flatten, whole] using replies.complete
  | @cons keys first spoken before last earlier speaks _ ih =>
    have shape : flatten ((first, spoken) :: before) ++ input = first ++ (spoken ++ (flatten before ++ input)) := by
      simp [flatten]
    rw [shape]
    refine ⟨earlier.begins _, ?_⟩
    rw [earlier.takeWhile, List.filterMap_append]
    cases spoken with
    | nil =>
      -- an empty output joins this input to the next, which then answers nothing
      have none_left := (ih replies).answered
      rw [List.filterMap_nil, List.perm_nil] at none_left
      rw [List.nil_append, none_left, List.append_nil]
      exact earlier.complete
    | cons item spoken =>
      have stops := speaks.spoken item List.mem_cons_self
      simpa [stops] using earlier.complete

theorem Turns.answered [DecidableEq κ] (roles : Roles output asks answers) (turns : Turns output asks answers keys turnList last)
    (replies : Replies output answers last input) {before after : List α}
    (split : flatten turnList ++ input = before ++ item :: after) (asking : asks item = some key) :
    ((followers output after).filterMap answers).count key = 1 := by
  induction turns generalizing before with
  | nil =>
    have member : item ∈ input := by
      have : item ∈ flatten [] ++ input := by rw [split]; simp
      simpa [flatten] using this
    have quiet := replies.silent item member
    rw [roles.asking asking] at quiet
    cases quiet
  | @cons keys first spoken turnList last earlier speaks rest ih =>
    have shape : flatten ((first, spoken) :: turnList) ++ input = first ++ (spoken ++ (flatten turnList ++ input)) := by
      simp [flatten]
    rw [shape] at split
    rcases split_append split with ⟨tail, inside, _⟩ | ⟨start, _, split⟩
    · have quiet := earlier.silent item (by rw [inside]; simp)
      rw [roles.asking asking] at quiet
      cases quiet
    rcases split_append split with ⟨tail, inside, rfl⟩ | ⟨next, _, split⟩
    · -- the rest of this output is skipped, and the next input answers all it asked
      have opened := rest.opens replies
      have same : followers output (tail ++ (flatten turnList ++ input)) =
          (flatten turnList ++ input).takeWhile (!output ·) := by
        rw [followers, List.dropWhile_append_of_pos, opened.begins]
        intro other member
        exact speaks.spoken other (by rw [inside]; simp [member])
      rw [same, opened.answered.count_eq]
      refine List.count_eq_one_of_mem speaks.distinct (List.mem_filterMap.2 ⟨item, ?_, asking⟩)
      rw [inside]
      simp
    · exact ih replies split

theorem leaders_append_silent (before : List α) {input : List α} (silent : ∀ item ∈ input, output item = false) :
    leaders output (before ++ input) = leaders output before := by
  rw [leaders, List.reverse_append, List.dropWhile_append_of_pos]
  · rfl
  · intro item member
    simp [silent item (List.mem_reverse.1 member)]

theorem mem_leaders_append (before : List α) {spoken : List α} (speaks : ∀ item ∈ spoken, output item = true)
    (member : item ∈ spoken) : item ∈ leaders output (before ++ spoken) := by
  have stays : (spoken.reverse ++ before.reverse).dropWhile (!output ·) = spoken.reverse ++ before.reverse := by
    obtain ⟨head, tail, same⟩ := List.exists_cons_of_ne_nil (List.ne_nil_of_mem (List.mem_reverse.2 member))
    have loud := speaks head (List.mem_reverse.1 (by rw [same]; simp))
    rw [same]
    simp [loud]
  rw [leaders, List.reverse_append, stays, List.takeWhile_append_of_pos]
  · simp [member]
  · intro other inside
    exact speaks other (List.mem_reverse.1 inside)

theorem Turns.asked (roles : Roles output asks answers) (turns : Turns output asks answers keys turnList last)
    (replies : Replies output answers last input) {front before after : List α}
    (led : ∀ key ∈ keys, ∃ question ∈ leaders output front, asks question = some key)
    (split : flatten turnList ++ input = before ++ item :: after) (answering : answers item = some key) :
    ∃ question ∈ leaders output (front ++ before), asks question = some key := by
  -- an item of an input sees the last output before that input
  have inside {keys : List κ} {input start rest front : List α} (replies : Replies output answers keys input)
      (led : ∀ key ∈ keys, ∃ question ∈ leaders output front, asks question = some key)
      (split : input = start ++ item :: rest) :
      ∃ question ∈ leaders output (front ++ start), asks question = some key := by
    have outstanding : key ∈ keys := replies.complete.subset
      (List.mem_filterMap.2 ⟨item, by rw [split]; simp, answering⟩)
    rw [leaders_append_silent]
    · exact led key outstanding
    · intro other member
      exact replies.silent other (by rw [split]; simp [member])
  induction turns generalizing before front with
  | nil => exact inside replies led (by simpa [flatten] using split)
  | @cons keys first spoken turnList last earlier speaks rest ih =>
    have shape : flatten ((first, spoken) :: turnList) ++ input = first ++ (spoken ++ (flatten turnList ++ input)) := by
      simp [flatten]
    rw [shape] at split
    rcases split_append split with ⟨tail, within, _⟩ | ⟨start, rfl, later⟩
    · exact inside earlier led within
    rcases split_append later with ⟨tail, within, _⟩ | ⟨next, rfl, rest_split⟩
    · have loud := speaks.spoken item (by rw [within]; simp)
      rw [roles.answering answering] at loud
      cases loud
    · have ahead : ∀ key ∈ spoken.filterMap asks,
          ∃ question ∈ leaders output (front ++ first ++ spoken), asks question = some key := by
        intro key outstanding
        obtain ⟨question, member, asking⟩ := List.mem_filterMap.1 outstanding
        exact ⟨question, mem_leaders_append _ speaks.spoken member, asking⟩
      have found := ih replies ahead rest_split
      simpa using found

/-- Turns that begin with nothing outstanding and end with an input answering what is left. -/
theorem Turns.paired [DecidableEq κ] (roles : Roles output asks answers) (turns : Turns output asks answers [] turnList last)
    (replies : Replies output answers last input) : Paired output asks answers (flatten turnList ++ input) where
  answered _ _ _ _ split asking := turns.answered roles replies split asking
  asked _ _ _ _ split answering := by
    have nothing : ∀ key ∈ [], ∃ question ∈ leaders output [], asks question = some key := by simp
    have found := turns.asked roles replies nothing split answering
    rwa [List.nil_append] at found

end Wi.Dialogue
