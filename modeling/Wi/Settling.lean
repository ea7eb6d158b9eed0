import Wi.Advance

/-! Settling the open entries of a run one row at a time settles all of them at once. -/
namespace Wi
open Utf8 Content Rows Projector

/-- An open entry of the run behind a position. -/
def Item.awaits (run : RunId) (after : Nat) (item : Item) : Bool :=
  (item.run = run && item.unfinished) && after < item.first

def Display.settleAfter (display : Display) (run : RunId) (sequence : Nat) (state : State) (after : Nat) : Display :=
  display.editWhere (Item.awaits run after) (Item.settle sequence state)

section Loop
variable {display : Display} {run : RunId} {sequence : Nat} {state : State} {after : Nat} {item : Item}

theorem Display.settleAfter_zero (positive : ∀ item ∈ display.items, 0 < item.first) :
    display.settleAfter run sequence state 0 = display.settle run sequence state := by
  refine Display.ext rfl rfl rfl (List.map_congr_left fun item member => ?_)
  simp [Item.awaits, positive item member]

theorem Display.settleAfter_done (none_left : display.items.filter (Item.awaits run after) = []) :
    display.settleAfter run sequence state after = display := by
  refine Display.ext rfl rfl rfl (Table.update_eq_self fun item member selected => ?_)
  exact absurd (List.mem_filter.2 ⟨member, selected⟩) (by simp [none_left])

theorem Display.settleAfter_next (ordered : display.Ordered) {rest : List Item}
    (waiting : display.items.filter (Item.awaits run after) = item :: rest) :
    (display.put (item.settle sequence state)).settleAfter run sequence state item.first =
        display.settleAfter run sequence state after ∧
      (display.put (item.settle sequence state)).items.filter (Item.awaits run item.first) = rest := by
  have first_member : item ∈ display.items.filter (Item.awaits run after) := by simp [waiting]
  obtain ⟨member, selected⟩ := List.mem_filter.1 first_member
  have sorted : (item :: rest).Pairwise fun a b => a.first < b.first := by
    rw [← waiting]
    exact ordered.sublist List.filter_sublist
  have least : ∀ old ∈ display.items, Item.awaits run after old = true → item.first ≤ old.first := by
    intro old old_member old_selected
    have present : old ∈ item :: rest := by
      rw [← waiting]
      exact List.mem_filter.2 ⟨old_member, old_selected⟩
    rcases List.mem_cons.1 present with rfl | later
    · exact le_rfl
    · exact (List.rel_of_pairwise_cons sorted later).le
  simp only [Item.awaits, Bool.and_eq_true, decide_eq_true_eq] at selected
  have later_iff (old : Item) (old_member : old ∈ display.items) (apart : old.first ≠ item.first) :
      Item.awaits run item.first old = Item.awaits run after old := by
    rw [Bool.eq_iff_iff]
    constructor
    · intro waits
      simp only [Item.awaits, Bool.and_eq_true, decide_eq_true_eq] at waits ⊢
      exact ⟨waits.1, by omega⟩
    · intro waits
      have := least old old_member waits
      simp only [Item.awaits, Bool.and_eq_true, decide_eq_true_eq] at waits ⊢
      exact ⟨waits.1, by omega⟩
  have done : Item.awaits run item.first (item.settle sequence state) = false := by
    simp [Item.awaits, Item.settle, Item.write]
  have chosen : Item.awaits run after item = true := by
    simp only [Item.awaits, Bool.and_eq_true, decide_eq_true_eq]
    exact selected
  constructor
  · refine Display.ext rfl rfl rfl ?_
    simp only [Display.settleAfter, Display.editWhere, Display.put, Table.update, List.map_map]
    refine List.map_congr_left fun old old_member => ?_
    rw [Function.comp_apply]
    by_cases here : old.first = item.first
    · rw [ordered.eq old_member member here]
      simp [Item.settle, Item.write, Item.awaits] at done chosen ⊢
      simp [chosen]
    · have place : ¬old.first = (item.settle sequence state).first := here
      rw [if_neg place, later_iff old old_member here]
  · have others : (display.items.filter (Item.awaits run after)).filter (fun old => old.first ≠ item.first) = rest := by
      rw [waiting, List.filter_cons_of_neg (by simp), List.filter_eq_self]
      intro old later
      have := List.rel_of_pairwise_cons sorted later
      simp only [ne_eq, decide_not, Bool.not_eq_true', decide_eq_false_iff_not]
      omega
    rw [← others, List.filter_filter, Display.put, List.filter_map]
    have same : display.items.filter (Item.awaits run item.first ∘ fun old =>
        if old.first = (item.settle sequence state).first then item.settle sequence state else old) =
        display.items.filter fun old => decide (old.first ≠ item.first) && Item.awaits run after old := by
      refine List.filter_congr fun old old_member => ?_
      rw [Function.comp_apply]
      by_cases here : old.first = item.first
      · have place : old.first = (item.settle sequence state).first := here
        rw [if_pos place, done]
        simp [here]
      · have place : ¬old.first = (item.settle sequence state).first := here
        rw [if_neg place, later_iff old old_member here]
        simp [here]
    rw [same]
    conv_rhs => rw [← List.map_id (display.items.filter _)]
    refine List.map_congr_left fun old old_member => if_neg ?_
    have kept := (List.mem_filter.1 old_member).2
    simp only [Bool.and_eq_true, decide_eq_true_eq] at kept
    exact kept.1

theorem Item.Valid.settle (valid : item.Valid sequence) (state : State) : (item.settle sequence state).Valid sequence where
  first := valid.first
  epoch := valid.epoch
  changed := valid.changed.trans valid.seen
  seen := le_rfl
  metadata := EntryMetadata.SameFacts.valid ⟨rfl, rfl, rfl, rfl, rfl, rfl⟩ valid.metadata (.inl rfl)

variable [JsonHash] {sql : Conversation}

theorem Represents.waiting (represents : Represents sql display) (ordered : display.Ordered) (slot : Nat) :
    Table.orderBy (fun row : EntryRow => toLex (row.firstSequence, row.positionSlot))
      (sql.entries.filter (settleable run (after, slot))) =
        (display.items.filter (Item.awaits run after)).map Item.row := by
  refine Table.orderBy_eq ?_ ?_
  · rw [represents.entries, List.filter_map]
    have same : display.items.filter (settleable run (after, slot) ∘ Item.row) =
        display.items.filter (Item.awaits run after) := by
      refine List.filter_congr fun item _ => ?_
      have columns : (settleable run (after, slot) ∘ Item.row) item = (decide (item.run = run) &&
          (decide (after < item.first) || (decide (after = item.first) && decide (slot < 0))) &&
          (decide (item.source.kind = .assistant) || decide (item.source.kind = .tool)) &&
          item.metadata.provisional) := rfl
      rw [columns, Item.awaits, Item.unfinished]
      simp only [Nat.not_lt_zero, decide_false, Bool.and_false, Bool.or_false]
      cases decide (item.run = run) <;> cases decide (after < item.first) <;> simp
    rw [same]
  · rw [List.pairwise_map]
    refine (ordered.sublist List.filter_sublist).imp fun less => ?_
    exact Prod.Lex.toLex_lt_toLex.2 (.inl less)

theorem Represents.settleFrom (fits : sequence ≤ maxInteger) (fuel slot : Nat)
    (represents : Represents sql display) (ordered : display.Ordered)
    (valid : ∀ item ∈ display.items, item.Valid sequence)
    (enough : (display.items.filter (Item.awaits run after)).length < fuel) :
    ∃ next, Projector.settleFrom run sequence state fuel sql (after, slot) = .ok next ∧
      Represents next (display.settleAfter run sequence state after) := by
  induction fuel generalizing sql display after slot with
  | zero => exact absurd enough (Nat.not_lt_zero _)
  | succ fuel ih =>
    rw [Projector.settleFrom]
    simp only [represents.waiting ordered]
    cases waiting : display.items.filter (Item.awaits run after) with
    | nil =>
      refine ⟨sql, rfl, ?_⟩
      rw [Display.settleAfter_done waiting]
      exact represents
    | cons item rest =>
      have present : item ∈ display.items.filter (Item.awaits run after) := by simp [waiting]
      obtain ⟨member, selected⟩ := List.mem_filter.1 present
      have same_run : item.run = run := by
        simp only [Item.awaits, Bool.and_eq_true, decide_eq_true_eq] at selected
        exact selected.1.1
      have checked := (valid item member).entryRow
      have bounds := (valid item member).fits fits
      rw [same_run] at checked
      obtain ⟨saved, saves, holds⟩ : ∃ next, Rows.save sql item.run sequence
          { item.entry with metadata := (item.settle sequence state).metadata } = .ok next ∧
          Represents next (display.put (item.settle sequence state)) :=
        represents.write ordered member (valid item member) rfl fits
      rw [same_run] at saves
      obtain ⟨goes_on, left⟩ : (display.put (item.settle sequence state)).settleAfter run sequence state item.first =
          display.settleAfter run sequence state after ∧ _ := Display.settleAfter_next ordered waiting
      have still_valid : ∀ other ∈ (display.put (item.settle sequence state)).items, other.Valid sequence := by
        intro other placed
        rcases Display.eq_or_mem_of_put placed with rfl | old
        · exact (valid item member).settle state
        · exact valid other old
      have still_enough : ((display.put (item.settle sequence state)).items.filter
          (Item.awaits run item.first)).length < fuel := by
        rw [left]
        rw [waiting, List.length_cons] at enough
        omega
      obtain ⟨next, finished, settled⟩ := ih 0 holds (ordered.put _) still_valid still_enough
      refine ⟨next, ?_, goes_on ▸ settled⟩
      have first_fits : item.entry.id.sequence ≤ maxInteger := bounds.1
      have slot_fits : item.entry.id.slot ≤ maxInteger := Nat.zero_le _
      simp only [List.map_cons, List.head?_cons, checked, ok_bind, integer_ok first_fits, integer_ok slot_fits]
      rw [show ({ item.entry.metadata with state := settledState state item.entry.metadata } : EntryMetadata) =
        (item.settle sequence state).metadata from rfl, saves, ok_bind]
      exact finished

theorem Represents.settle (represents : Represents sql display) (ordered : display.Ordered)
    (fits : sequence ≤ maxInteger) (valid : ∀ item ∈ display.items, item.Valid sequence) (state : State) :
    ∃ next, Projector.settle sql run sequence state = .ok next ∧
      Represents next (display.settle run sequence state) := by
  rw [← Display.settleAfter_zero fun item member => (valid item member).first]
  refine Represents.settleFrom fits _ 0 represents ordered valid ?_
  rw [represents.entries, List.length_map]
  exact Nat.lt_succ_of_le (List.length_filter_le _ _)

end Loop
end Wi
