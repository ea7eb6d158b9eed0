import Wi.Table

/-! Lists whose rows are named by a key: lookup by key, and lists in ascending key order. -/
namespace Wi.Keyed

section Unique
variable {α β : Type} [DecidableEq β] {key : α → β}

/-- With unique keys, looking a key up finds the row that has it. -/
theorem find_eq_some {rows : List α} (unique : (rows.map key).Nodup) {row : α} {name : β} :
    rows.find? (fun row => key row = name) = some row ↔ row ∈ rows ∧ key row = name := by
  constructor
  · intro found
    exact ⟨List.mem_of_find?_eq_some found, by simpa using List.find?_some found⟩
  · rintro ⟨member, named⟩
    cases found : rows.find? (fun row => key row = name) with
    | none =>
      have absent := List.find?_eq_none.1 found row member
      simp [named] at absent
    | some other =>
      have other_member := List.mem_of_find?_eq_some found
      have other_named : key other = name := by simpa using List.find?_some found
      rw [List.inj_on_of_nodup_map unique other_member member (other_named.trans named.symm)]

theorem find_eq_none {rows : List α} {name : β} :
    rows.find? (fun row => key row = name) = none ↔ name ∉ rows.map key := by
  rw [List.find?_eq_none]
  constructor
  · intro absent member
    obtain ⟨row, member, named⟩ := List.mem_map.1 member
    have := absent row member
    simp [named] at this
  · intro absent row member
    have : key row ≠ name := fun named => absent (List.mem_map.2 ⟨row, member, named⟩)
    simp [this]

/-- The one row that a condition selects. -/
theorem filter_eq_singleton {rows : List α} (unique : rows.Nodup) {selected : α → Bool} {row : α} (member : row ∈ rows)
    (chosen : selected row = true) (only : ∀ other ∈ rows, selected other = true → other = row) :
    rows.filter selected = [row] := by
  refine List.perm_singleton.1 ((List.perm_ext_iff_of_nodup (unique.filter _) (List.nodup_singleton row)).2 fun other => ?_)
  rw [List.mem_filter, List.mem_singleton]
  constructor
  · rintro ⟨other_member, also⟩
    exact only other other_member also
  · rintro rfl
    exact ⟨member, chosen⟩

end Unique

section Ascending
variable {α β : Type} [LinearOrder β] {key : α → β}

/-- Rows in strictly ascending key order. -/
def Ascending (key : α → β) (rows : List α) : Prop := rows.Pairwise fun a b => key a < key b

theorem Ascending.unique {rows : List α} (h : Ascending key rows) : (rows.map key).Nodup := by
  rw [List.Nodup, List.pairwise_map]
  exact h.imp fun less => less.ne

theorem Ascending.sublist {rows others : List α} (h : Ascending key rows) (sub : others.Sublist rows) :
    Ascending key others := List.Pairwise.sublist sub h

theorem Ascending.map {rows : List α} (h : Ascending key rows) (f : α → α)
    (keeps : ∀ row, key (f row) = key row) : Ascending key (rows.map f) := by
  rw [Ascending, List.pairwise_map]
  exact h.imp fun less => by rw [keeps, keeps]; exact less

theorem Ascending.eq_of_perm {rows others : List α} (h : Ascending key rows) (g : Ascending key others)
    (perm : rows.Perm others) : rows = others := by
  rw [← Table.orderBy_eq (List.Perm.refl rows) h, Table.orderBy_eq perm g]

/-- The greatest row of an ascending table is its last one. -/
theorem Ascending.getLast_of_greatest {rows : List α} (h : Ascending key rows) {row : α} (member : row ∈ rows)
    (greatest : ∀ other ∈ rows, key other ≤ key row) : rows.getLast? = some row := by
  obtain ⟨before, rest, rfl⟩ := List.append_of_mem member
  cases rest with
  | nil => simp
  | cons next rest =>
    have later : key row < key next := (List.pairwise_cons.1 (List.pairwise_append.1 h).2.1).1 next (by simp)
    exact absurd (greatest next (by simp)) (not_le.2 later)

/-- Insert a row where its key belongs. -/
def place (key : α → β) (row : α) (rows : List α) : List α :=
  rows.orderedInsert (fun a b => key a ≤ key b) row

theorem place_perm (row : α) (rows : List α) : (place key row rows).Perm (row :: rows) :=
  List.perm_orderedInsert _ _ _

theorem mem_place {row other : α} {rows : List α} : other ∈ place key row rows ↔ other = row ∨ other ∈ rows := by
  rw [(place_perm row rows).mem_iff, List.mem_cons]

theorem Ascending.place {rows : List α} (h : Ascending key rows) {row : α} (fresh : key row ∉ rows.map key) :
    Ascending key (place key row rows) := by
  have sorted : (Keyed.place key row rows).Pairwise fun a b => key a ≤ key b := by
    have total : Std.Total fun a b : α => key a ≤ key b := ⟨fun a b => le_total (key a) (key b)⟩
    have trans : IsTrans α fun a b : α => key a ≤ key b := ⟨fun a b c ab bc => ab.trans bc⟩
    exact List.Pairwise.orderedInsert row rows (h.imp le_of_lt)
  have unique : ((Keyed.place key row rows).map key).Nodup := by
    rw [((place_perm row rows).map key).nodup_iff, List.map_cons, List.nodup_cons]
    exact ⟨fresh, h.unique⟩
  rw [List.Nodup, List.pairwise_map] at unique
  exact (sorted.and unique).imp fun both => lt_of_le_of_ne both.1 both.2

/-- A row above all others goes to the end. -/
theorem place_last {rows : List α} {row : α} (h : Ascending key rows) (above : ∀ other ∈ rows, key other < key row) :
    place key row rows = rows ++ [row] := by
  have fresh : key row ∉ rows.map key := by
    intro member
    obtain ⟨other, member, same⟩ := List.mem_map.1 member
    exact absurd same (above other member).ne
  refine (h.place fresh).eq_of_perm ?_ ?_
  · rw [Ascending, List.pairwise_append]
    exact ⟨h, List.pairwise_singleton _ _, by simpa using above⟩
  · exact (place_perm row rows).trans (List.perm_append_singleton row rows).symm

end Ascending
end Wi.Keyed
