import Mathlib.Topology.Order.IntermediateValue

/-! Finite lists of closed intervals. A list whose intervals stand apart and in order is
determined by its union: its intervals are the connected components of it. -/
namespace Wi.Intervals

/-- The union of the closed intervals with the given bounds. -/
def cover [Preorder α] (intervals : List (α × α)) : Set α :=
  {x | ∃ interval ∈ intervals, x ∈ Set.Icc interval.1 interval.2}

/-- No interval is empty, and each ends before the next begins. -/
structure Separated [Preorder α] (intervals : List (α × α)) : Prop where
  nonempty : ∀ interval ∈ intervals, interval.1 ≤ interval.2
  apart : intervals.Pairwise fun a b => a.2 < b.1

theorem exists_just_above [LinearOrder α] [DenselyOrdered α] (points : List α) {low high : α} (less : low < high) :
    ∃ x, low < x ∧ x < high ∧ ∀ point ∈ points, low < point → x < point := by
  induction points with
  | nil =>
    obtain ⟨x, above, below⟩ := exists_between less
    exact ⟨x, above, below, fun _ member => absurd member List.not_mem_nil⟩
  | cons point points ih =>
    obtain ⟨x, above, below, near⟩ := ih
    rcases le_or_gt point low with under | past
    · refine ⟨x, above, below, List.forall_mem_cons.2 ⟨fun past => ?_, near⟩⟩
      exact absurd past under.not_gt
    · obtain ⟨y, y_above, y_below⟩ := exists_between (lt_min above past)
      have closer : y < x := y_below.trans_le (min_le_left _ _)
      refine ⟨y, y_above, closer.trans below, List.forall_mem_cons.2 ⟨fun _ => ?_, fun other member later => ?_⟩⟩
      · exact y_below.trans_le (min_le_right _ _)
      · exact closer.trans (near other member later)

theorem exists_just_below [LinearOrder α] [DenselyOrdered α] (points : List α) {low high : α} (less : low < high) :
    ∃ x, low < x ∧ x < high ∧ ∀ point ∈ points, point < high → point < x := by
  obtain ⟨x, below, above, near⟩ :=
    exists_just_above (points.map OrderDual.toDual) (OrderDual.toDual_lt_toDual.2 less)
  exact ⟨OrderDual.ofDual x, above, below, fun point member => near _ (List.mem_map_of_mem member)⟩

theorem eq_or_related {R : α → α → Prop} {items : List α} (pairwise : items.Pairwise R) {a b : α}
    (ha : a ∈ items) (hb : b ∈ items) : a = b ∨ R a b ∨ R b a := by
  induction pairwise with
  | nil => cases ha
  | cons first _ ih =>
    rcases List.mem_cons.1 ha with rfl | in_a <;> rcases List.mem_cons.1 hb with rfl | in_b
    · exact .inl rfl
    · exact .inr (.inl (first b in_b))
    · exact .inr (.inr (first a in_a))
    · exact ih in_a in_b

theorem mem_cover [Preorder α] {intervals : List (α × α)} {interval : α × α} {x : α} (member : interval ∈ intervals)
    (inside : x ∈ Set.Icc interval.1 interval.2) : x ∈ cover intervals := ⟨interval, member, inside⟩

/-- The connected components of a set. -/
def components [TopologicalSpace α] (set : Set α) : Set (Set α) :=
  {component | ∃ x ∈ set, component = connectedComponentIn set x}

section Components
variable [ConditionallyCompleteLinearOrder α] [TopologicalSpace α] [OrderTopology α] [DenselyOrdered α]
variable {intervals : List (α × α)}

/-- What is connected to a point of an interval is that interval. -/
theorem Separated.component (separated : Separated intervals) {interval : α × α} (member : interval ∈ intervals)
    {x : α} (inside : x ∈ Set.Icc interval.1 interval.2) :
    connectedComponentIn (cover intervals) x = Set.Icc interval.1 interval.2 := by
  refine Set.Subset.antisymm (fun y connected => ?_)
    (isPreconnected_Icc.subset_connectedComponentIn inside fun y => mem_cover member)
  have start : x ∈ connectedComponentIn (cover intervals) x := mem_connectedComponentIn (mem_cover member inside)
  have segment : (connectedComponentIn (cover intervals) x).OrdConnected :=
    isPreconnected_connectedComponentIn.ordConnected
  -- A point past either end would connect across a gap that no interval covers.
  constructor
  · by_contra outside
    obtain ⟨z, above, below, near⟩ := exists_just_below (intervals.map Prod.snd) (not_le.1 outside)
    have between : z ∈ connectedComponentIn (cover intervals) x :=
      segment.out connected start ⟨above.le, below.le.trans inside.1⟩
    obtain ⟨other, listed, low, high⟩ := connectedComponentIn_subset _ _ between
    rcases eq_or_related separated.apart member listed with rfl | later | earlier
    · exact absurd low below.not_ge
    · exact absurd (low.trans below.le) (((separated.nonempty _ member).trans_lt later).not_ge)
    · exact absurd high (near _ (List.mem_map_of_mem listed) earlier).not_ge
  · by_contra outside
    obtain ⟨z, above, below, near⟩ := exists_just_above (intervals.map Prod.fst) (not_le.1 outside)
    have between : z ∈ connectedComponentIn (cover intervals) x :=
      segment.out start connected ⟨inside.2.trans above.le, below.le⟩
    obtain ⟨other, listed, low, high⟩ := connectedComponentIn_subset _ _ between
    rcases eq_or_related separated.apart member listed with rfl | later | earlier
    · exact absurd high above.not_ge
    · exact absurd low (near _ (List.mem_map_of_mem listed) later).not_ge
    · exact absurd (above.le.trans high) (earlier.trans_le (separated.nonempty _ member)).not_ge

theorem Separated.components_cover (separated : Separated intervals) :
    components (cover intervals) = {component | ∃ interval ∈ intervals, component = Set.Icc interval.1 interval.2} := by
  ext component
  constructor
  · rintro ⟨x, ⟨interval, member, inside⟩, rfl⟩
    exact ⟨interval, member, separated.component member inside⟩
  · rintro ⟨interval, member, rfl⟩
    have inside : interval.1 ∈ Set.Icc interval.1 interval.2 := ⟨le_rfl, separated.nonempty _ member⟩
    exact ⟨interval.1, mem_cover member inside, (separated.component member inside).symm⟩

/-- A separated list is determined by its union. -/
theorem Separated.unique {others : List (α × α)} (separated : Separated intervals) (also : Separated others)
    (same : cover intervals = cover others) : intervals = others := by
  have subset {as bs : List (α × α)} (ha : Separated as) (hb : Separated bs) (same : cover as = cover bs) :
      ∀ interval ∈ as, interval ∈ bs := by
    intro interval member
    have listed : Set.Icc interval.1 interval.2 ∈ {component | ∃ interval ∈ as, component = Set.Icc interval.1 interval.2} :=
      ⟨interval, member, rfl⟩
    rw [← ha.components_cover, same, hb.components_cover] at listed
    obtain ⟨other, found, equal⟩ := listed
    obtain ⟨low, high⟩ := (Set.Icc_eq_Icc_iff (ha.nonempty _ member)).1 equal
    rwa [Prod.ext low high]
  have ordered {as : List (α × α)} (ha : Separated as) : as.Pairwise fun a b => a.1 < b.1 :=
    ha.apart.imp_of_mem fun member _ apart => (ha.nonempty _ member).trans_lt apart
  have distinct {as : List (α × α)} (ha : Separated as) : as.Nodup :=
    (ordered ha).imp fun less same => absurd (same ▸ less) (lt_irrefl _)
  have perm : intervals.Perm others := (List.perm_ext_iff_of_nodup (distinct separated) (distinct also)).2 fun interval =>
    ⟨subset separated also same interval, subset also separated same.symm interval⟩
  exact perm.eq_of_pairwise (fun a b _ _ less greater => absurd less greater.not_gt) (ordered separated) (ordered also)

end Components
end Wi.Intervals
