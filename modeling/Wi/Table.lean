import Mathlib

/-! Tables as lists of rows, with the ordered selections and keyed updates of SQL. -/
namespace Wi.Table

variable {α β : Type} [LinearOrder β]

/-- `ORDER BY key` -/
def orderBy (key : α → β) (rows : List α) : List α :=
  rows.insertionSort fun a b => key a ≤ key b

/-- `ORDER BY key DESC` -/
def orderByDesc (key : α → β) (rows : List α) : List α :=
  rows.insertionSort fun a b => key b ≤ key a

/-- `UPDATE .. SET .. WHERE condition` -/
def update (condition : α → Bool) (set : α → α) (rows : List α) : List α :=
  rows.map fun row => if condition row then set row else row

/-- `DELETE .. WHERE condition` -/
def delete (condition : α → Bool) (rows : List α) : List α := rows.filter fun row => !condition row

omit [LinearOrder β] in
/-- Rows selected by a condition that the update does not touch. -/
theorem filter_update {condition p : α → Bool} {set : α → α} (rows : List α)
    (keeps : ∀ row, condition row = true → p (set row) = p row) :
    (update condition set rows).filter p = update condition set (rows.filter p) := by
  induction rows with
  | nil => rfl
  | cons row rows ih =>
    rw [update, List.map_cons, List.filter_cons, List.filter_cons]
    by_cases selected : condition row = true
    · rw [if_pos selected, keeps row selected]
      split <;> simp_all [update]
    · rw [if_neg selected]
      split <;> simp_all [update]

omit [LinearOrder β] in
theorem update_eq_self {condition : α → Bool} {set : α → α} {rows : List α}
    (untouched : ∀ row ∈ rows, condition row = true → set row = row) : update condition set rows = rows := by
  rw [update, List.map_congr_left (g := id), List.map_id]
  intro row member
  by_cases selected : condition row = true
  · rw [if_pos selected, untouched row member selected, id]
  · rw [if_neg selected, id]

omit [LinearOrder β] in
theorem update_congr {condition : α → Bool} {set other : α → α} {rows : List α}
    (same : ∀ row ∈ rows, condition row = true → set row = other row) :
    update condition set rows = update condition other rows := by
  refine List.map_congr_left fun row member => ?_
  split
  · rename_i selected
    exact same row member selected
  · rfl

omit [LinearOrder β] in
/-- Two updates of the same rows are one. -/
theorem update_update {condition : α → Bool} {set other : α → α} (rows : List α)
    (keeps : ∀ row, condition (set row) = condition row) :
    update condition other (update condition set rows) = update condition (fun row => other (set row)) rows := by
  rw [update, update, List.map_map]
  refine List.map_congr_left fun row _ => ?_
  rw [Function.comp_apply]
  split
  · rename_i selected
    rw [keeps, selected]
    rfl
  · rfl

omit [LinearOrder β] in
theorem mem_update {condition : α → Bool} {set : α → α} {rows : List α} {row : α} :
    row ∈ update condition set rows ↔
      (∃ old ∈ rows, condition old = true ∧ set old = row) ∨ row ∈ rows ∧ condition row = false := by
  rw [update, List.mem_map]
  constructor
  · rintro ⟨old, member, rfl⟩
    by_cases selected : condition old = true
    · exact .inl ⟨old, member, selected, (if_pos selected).symm⟩
    · rw [if_neg selected]
      exact .inr ⟨member, by simpa using selected⟩
  · rintro (⟨old, member, selected, rfl⟩ | ⟨member, other⟩)
    · exact ⟨old, member, if_pos selected⟩
    · exact ⟨row, member, by rw [other]; rfl⟩

omit [LinearOrder β] in
/-- A column that the update does not set. -/
theorem map_update {γ : Type} {condition : α → Bool} {set : α → α} {column : α → γ} (rows : List α)
    (keeps : ∀ row, column (set row) = column row) : (update condition set rows).map column = rows.map column := by
  rw [update, List.map_map]
  refine List.map_congr_left fun row _ => ?_
  rw [Function.comp_apply]
  split
  · exact keeps row
  · rfl

/-- In a strictly ascending list a key names one row. -/
theorem eq_of_key {key : α → β} {rows : List α} (ascending : rows.Pairwise fun a b => key a < key b)
    (ha : a ∈ rows) (hb : b ∈ rows) (same : key a = key b) : a = b := by
  induction ascending with
  | nil => simp at ha
  | cons first _ ih =>
    rcases List.mem_cons.1 ha with ha | ha <;> rcases List.mem_cons.1 hb with hb | hb
    · rw [ha, hb]
    · exact absurd same (ha ▸ (first b hb).ne)
    · exact absurd same (hb ▸ (first a ha).ne')
    · exact ih ha hb

theorem orderBy_perm (key : α → β) (rows : List α) : (orderBy key rows).Perm rows :=
  List.perm_insertionSort _ _

theorem orderBy_pairwise (key : α → β) (rows : List α) :
    (orderBy key rows).Pairwise fun a b => key a ≤ key b := by
  have total : Std.Total fun a b : α => key a ≤ key b := ⟨fun a b => le_total (key a) (key b)⟩
  have transitive : IsTrans α fun a b => key a ≤ key b := ⟨fun _ _ _ ab bc => ab.trans bc⟩
  exact List.pairwise_insertionSort _ rows

/-- Rows in ascending key order, whatever order they were inserted in. -/
theorem orderBy_eq {key : α → β} {rows sorted : List α} (perm : rows.Perm sorted)
    (ascending : sorted.Pairwise fun a b => key a < key b) : orderBy key rows = sorted := by
  have same := (orderBy_perm key rows).trans perm
  refine same.eq_of_pairwise ?_ (orderBy_pairwise key rows) (ascending.imp le_of_lt)
  intro a b ha hb ab ba
  exact eq_of_key ascending (same.mem_iff.1 ha) hb (le_antisymm ab ba)

theorem orderByDesc_eq {key : α → β} {rows sorted : List α} (perm : rows.Perm sorted)
    (ascending : sorted.Pairwise fun a b => key a < key b) :
    orderByDesc key rows = sorted.reverse := by
  have descending : sorted.reverse.Pairwise fun a b => OrderDual.toDual (key a) < OrderDual.toDual (key b) := by
    rw [List.pairwise_reverse]
    exact ascending.imp fun h => h
  exact orderBy_eq (perm.trans (List.reverse_perm sorted).symm) descending

end Wi.Table
