import Wi.Suffixes

/-! Fitting an entry view into a size. The encoded size is not monotone in the cut: the cursor
and the first offset are spelled in decimal, so one more byte cut off can cost three. It only
shrinks within one decimal width, and that is what makes the few cuts tried enough. -/
namespace Wi
open Utf8

theorem foldlM_ok {α β ε : Type} {step : α → β → Except ε α} {f : α → β → α} {items : List β} (start : α)
    (each : ∀ state, ∀ item ∈ items, step state item = .ok (f state item)) :
    items.foldlM step start = .ok (items.foldl f start) := by
  induction items generalizing start with
  | nil => rfl
  | cons item items ih =>
    rw [List.foldlM_cons, each start item List.mem_cons_self, ok_bind, List.foldl_cons]
    exact ih _ fun state other member => each state other (List.mem_cons_of_mem _ member)

theorem find_reverse_of_ascending {items : List Nat} (sorted : items.Pairwise (· < ·)) {p : Nat → Bool} {item : Nat}
    (member : item ∈ items) (passes : p item = true) :
    ∃ found ∈ items, items.reverse.find? p = some found ∧ p found = true ∧ item ≤ found := by
  obtain ⟨found, first⟩ := Option.isSome_iff_exists.1
    (List.find?_isSome.2 ⟨item, List.mem_reverse.2 member, passes⟩)
  obtain ⟨holds, before, after, split, failed⟩ := List.find?_eq_some_iff_append.1 first
  have descending : (before ++ found :: after).Pairwise (· > ·) := by
    rw [← split, List.pairwise_reverse]
    exact sorted
  refine ⟨found, List.mem_reverse.1 (List.mem_of_find?_eq_some first), first, holds, ?_⟩
  have place : item ∈ before ++ found :: after := split ▸ List.mem_reverse.2 member
  rw [List.mem_append, List.mem_cons] at place
  obtain earlier | rfl | later := place
  · have not_passes := failed item earlier
    rw [passes] at not_passes
    cases not_passes
  · exact Nat.le_refl _
  · exact Nat.le_of_lt ((List.pairwise_cons.1 (List.pairwise_append.1 descending).2.1).1 item later)

theorem getLast_of_drop {items rest middle : List α} {first last : α} (left : items.drop skip = first :: rest)
    (ending : items = middle ++ [last]) : (first :: rest).getLast? = some last := by
  have inside : ¬ items.length ≤ skip := by
    intro past
    rw [List.drop_eq_nil_of_le past] at left
    cases left
  rw [← left, List.getLast?_drop, if_neg inside, ending, List.getLast?_concat]

namespace Compact

theorem mem_offsetsFrom {start cut : Nat} {text : Text} :
    cut ∈ offsetsFrom start text ↔ ∃ before after, text = before ++ after ∧ after ≠ [] ∧ cut = start + bytes before := by
  induction text generalizing start with
  | nil => simp [offsetsFrom]
  | cons c cs ih =>
    rw [offsetsFrom, List.mem_cons, ih]
    constructor
    · rintro (rfl | ⟨before, after, rfl, more, rfl⟩)
      · exact ⟨[], c :: cs, rfl, List.cons_ne_nil _ _, rfl⟩
      · exact ⟨c :: before, after, rfl, more, by rw [bytes_cons]; omega⟩
    · rintro ⟨before, after, split, more, rfl⟩
      cases before with
      | nil => exact .inl rfl
      | cons d before =>
        cases split
        exact .inr ⟨before, after, rfl, more, by rw [bytes_cons]; omega⟩

theorem mem_offsets {cut : Nat} {text : Text} :
    cut ∈ offsets text ↔ isBoundary cut text = true ∧ cut < bytes text := by
  rw [offsets, mem_offsetsFrom, isBoundary_iff]
  constructor
  · rintro ⟨before, after, rfl, more, rfl⟩
    have some_left := bytes_pos.2 more
    exact ⟨⟨before, after, rfl, (Nat.zero_add _).symm⟩, by rw [bytes_append]; omega⟩
  · rintro ⟨⟨before, after, rfl, rfl⟩, inside⟩
    refine ⟨before, after, rfl, ?_, (Nat.zero_add _).symm⟩
    rintro rfl
    simp at inside

theorem cutPoint_of_mem {cut : Nat} {text : Text} (member : cut ∈ offsets text) : CutPoint text cut :=
  .inr (mem_offsets.1 member)

theorem offsetsFrom_ascending (start : Nat) (text : Text) : (offsetsFrom start text).Pairwise (· < ·) := by
  induction text generalizing start with
  | nil => exact .nil
  | cons c cs ih =>
    refine List.pairwise_cons.2 ⟨fun cut member => ?_, ih _⟩
    obtain ⟨before, _, _, _, rfl⟩ := mem_offsetsFrom.1 member
    have := c.utf8Size_pos
    omega

theorem mem_powers {upper fuel power index : Nat} (reached : index < fuel)
    (below : ∀ earlier < index, power * 10 ^ earlier ≤ upper) : power * 10 ^ index ∈ powers upper fuel power := by
  induction index generalizing fuel power with
  | zero =>
    cases fuel with
    | zero => cases reached
    | succ fuel => simp [powers]
  | succ index ih =>
    cases fuel with
    | zero => cases reached
    | succ fuel =>
      have first := below 0 (Nat.succ_pos _)
      rw [powers, if_neg (by omega), pow_succ', ← Nat.mul_assoc]
      refine List.mem_cons_of_mem _ (ih (by omega) fun earlier before => ?_)
      have next := below (earlier + 1) (by omega)
      rwa [pow_succ', ← Nat.mul_assoc] at next

variable [JsonHash]

theorem mem_cuts {field : FieldFragment} {offsets : List Nat} {last cut : Nat} :
    cut ∈ cuts field offsets last ↔ cut = last ∨ ∃ power ∈ powers field.toByte maxPowers 10,
      offsets.reverse.find? (fun cut => field.fromByte + cut < power) = some cut := by
  rw [cuts, List.mem_dedup, Table.orderBy, List.mem_insertionSort, List.mem_cons, List.mem_filterMap]

theorem cuts_cover {field : FieldFragment} {last cut : Nat} (narrow : field.toByte < 2 ^ 64)
    (length : bytes field.text = field.toByte - field.fromByte) (final : (offsets field.text).getLast? = some last)
    (member : cut ∈ offsets field.text) :
    ∃ tried ∈ cuts field (offsets field.text) last, tried ∈ offsets field.text ∧ cut ≤ tried ∧
      bytes (Spelling.decimal (field.fromByte + tried)) ≤ bytes (Spelling.decimal (field.fromByte + cut)) := by
  have sorted := offsetsFrom_ascending 0 field.text
  have inside := (mem_offsets.1 member).2
  have last_mem : last ∈ offsets field.text := List.mem_of_getLast? final
  have last_inside := (mem_offsets.1 last_mem).2
  obtain ⟨width, same⟩ : ∃ width, bytes (Spelling.decimal (field.fromByte + cut)) = width + 1 :=
    Nat.exists_eq_add_one.2 (Spelling.bytes_decimal_pos _)
  have upper : field.fromByte + cut < 10 ^ (width + 1) :=
    (Spelling.bytes_decimal_le_iff (Nat.succ_pos _)).1 (Nat.le_of_eq same)
  rw [same]
  by_cases listed : width < maxPowers
  · -- The power of ten just above the offset is one of those the loop reaches.
    have reached : 10 * 10 ^ width ∈ powers field.toByte maxPowers 10 := by
      refine mem_powers listed fun earlier before => ?_
      have lower : 10 ^ width ≤ field.fromByte + cut := by
        by_contra past
        have shorter := (Spelling.bytes_decimal_le_iff (by omega)).2 (Nat.lt_of_not_le past)
        omega
      have grows : 10 ^ (earlier + 1) ≤ 10 ^ width := Nat.pow_le_pow_right (by decide) before
      rw [pow_succ'] at grows
      omega
    rw [pow_succ'] at upper
    obtain ⟨tried, inside, found, below, further⟩ := find_reverse_of_ascending sorted
      (p := fun cut => decide (field.fromByte + cut < 10 * 10 ^ width)) member (decide_eq_true upper)
    refine ⟨tried, mem_cuts.2 (.inr ⟨_, reached, found⟩), inside, further, ?_⟩
    refine (Spelling.bytes_decimal_le_iff (Nat.succ_pos _)).2 ?_
    rw [pow_succ']
    exact of_decide_eq_true below
  · -- No offset is spelled with more than twenty digits: the last scalar will do.
    obtain ⟨tried, inside, found, _, further⟩ := find_reverse_of_ascending sorted
      (p := fun _ => true) member rfl
    have widest := Spelling.bytes_decimal_le (show field.fromByte + last < 2 ^ 64 by omega)
    unfold maxPowers at listed
    refine ⟨last, mem_cuts.2 (.inl rfl), last_mem, ?_, by omega⟩
    have same_last : tried = last := by
      rw [List.getLast?_eq_head?_reverse] at final
      cases reversed : (offsets field.text).reverse with
      | nil => simp [reversed] at final
      | cons head tail =>
        rw [offsets] at reversed
        rw [reversed, List.find?_cons_of_pos rfl] at found
        rw [show (offsets field.text).reverse = head :: tail from reversed, List.head?_cons] at final
        exact Option.some.inj (found.symm.trans final)
    rwa [← same_last]

/-- The view whose size was kept is the smallest of those seen. -/
structure Best.Least (best : Best) (seen : List EntryView) : Prop where
  mem : best.entry ∈ seen
  size : best.size = Wire.entrySize best.entry
  least : ∀ view ∈ seen, ∀ size, Wire.entrySize view = some size → ∃ smallest ≤ size, best.size = some smallest

theorem Best.Least.improve {best : Best} {seen : List EntryView} (least : best.Least seen) (view : EntryView) :
    (best.improve view).Least (seen ++ [view]) := by
  obtain ⟨mem, size, least⟩ := least
  have added : view ∈ seen ++ [view] := List.mem_append_right _ List.mem_cons_self
  have kept : best.entry ∈ seen ++ [view] := List.mem_append_left _ mem
  unfold Best.improve
  split
  · rename_i length old measured previous
    by_cases smaller : length < old
    · rw [if_pos smaller]
      refine ⟨added, measured.symm, fun other member size fits => ?_⟩
      obtain seen_before | now := List.mem_append.1 member
      · obtain ⟨smallest, bound, known⟩ := least other seen_before size fits
        rw [previous, Option.some.injEq] at known
        exact ⟨length, by omega, rfl⟩
      · cases List.mem_singleton.1 now
        rw [measured, Option.some.injEq] at fits
        exact ⟨length, by omega, rfl⟩
    · rw [if_neg smaller]
      refine ⟨kept, size, fun other member size fits => ?_⟩
      obtain seen_before | now := List.mem_append.1 member
      · exact least other seen_before size fits
      · cases List.mem_singleton.1 now
        rw [measured, Option.some.injEq] at fits
        exact ⟨old, by omega, previous⟩
  · rename_i length measured previous
    refine ⟨added, measured.symm, fun other member size fits => ?_⟩
    obtain seen_before | now := List.mem_append.1 member
    · obtain ⟨smallest, _, known⟩ := least other seen_before size fits
      rw [previous] at known
      cases known
    · cases List.mem_singleton.1 now
      rw [measured, Option.some.injEq] at fits
      exact ⟨length, by omega, rfl⟩
  · rename_i measured
    refine ⟨kept, size, fun other member size fits => ?_⟩
    obtain seen_before | now := List.mem_append.1 member
    · exact least other seen_before size fits
    · cases List.mem_singleton.1 now
      rw [measured] at fits
      cases fits

theorem Best.Least.foldl {best : Best} {seen : List EntryView} (least : best.Least seen) (views : List EntryView) :
    (views.foldl Best.improve best).Least (seen ++ views) := by
  induction views generalizing best seen with
  | nil =>
    rw [List.append_nil]
    exact least
  | cons view views ih =>
    have rest := ih (least.improve view)
    rwa [List.append_assoc] at rest

/-- A contiguous newest part of the entry: the entry itself, or what is left of it without the
first `skip` fields and `cut` bytes of the next one. -/
inductive NewestSuffix (session : ApplicationSessionId) (entry : EntryView) : EntryView → Prop where
  | whole : NewestSuffix session entry entry
  | cut {skip cut : Nat} {first : FieldFragment} {rest : List FieldFragment}
      (left : entry.fields.drop skip = first :: rest) (point : CutPoint first.text cut)
      (shorter : skip ≠ 0 ∨ cut ≠ 0) : NewestSuffix session entry (suffixAt session entry first rest cut)

/-- What is left after leaving out `skip` fields: the entry itself when there is none. -/
def tailAt (session : ApplicationSessionId) (entry : EntryView) (skip : Nat) (first : FieldFragment)
    (rest : List FieldFragment) : EntryView :=
  if skip = 0 then entry else suffixAt session entry first rest 0

/-- The cuts of one field that the search for the smallest view looks at. -/
def fieldCuts (field : FieldFragment) : List Nat :=
  match (offsets field.text).getLast? with
  | none => []
  | some last => (cuts field (offsets field.text) last).filter (· ≠ 0)

/-- The views that the search looks at after leaving out `skip` fields. -/
def triedViews (session : ApplicationSessionId) (entry : EntryView) (skip : Nat) : List EntryView :=
  match entry.fields.drop skip with
  | [] => []
  | first :: rest => tailAt session entry skip first rest :: (fieldCuts first).map (suffixAt session entry first rest)

section
variable {session : ApplicationSessionId} {entry : EntryView} {first : FieldFragment} {rest : List FieldFragment}
  {skip cut : Nat}

theorem mem_fieldCuts {field : FieldFragment} (member : cut ∈ fieldCuts field) :
    cut ∈ offsets field.text ∧ cut ≠ 0 := by
  unfold fieldCuts at member
  split at member
  · cases member
  · rename_i last final
    rw [List.mem_filter, mem_cuts, decide_eq_true_eq] at member
    obtain ⟨rfl | ⟨power, _, found⟩, positive⟩ := member
    · exact ⟨List.mem_of_getLast? final, positive⟩
    · exact ⟨List.mem_reverse.1 (List.mem_of_find?_eq_some found), positive⟩

theorem tailAt_fields (left : entry.fields.drop skip = first :: rest) :
    (tailAt session entry skip first rest).fields = first :: rest := by
  unfold tailAt
  split
  · rename_i none_left_out
    rwa [none_left_out, List.drop_zero] at left
  · simp [suffixAt]

theorem Checked.tailAt (checked : Checked entry) (left : entry.fields.drop skip = first :: rest) :
    Checked (tailAt session entry skip first rest) := by
  unfold Compact.tailAt
  split
  · exact checked
  · exact checked.suffix session left (.inl rfl)

theorem tailAt_cut (session : ApplicationSessionId) (entry : EntryView) (skip : Nat) (first : FieldFragment)
    (rest : List FieldFragment) (cut : Nat) :
    suffixAt session (tailAt session entry skip first rest) first rest cut = suffixAt session entry first rest cut := by
  unfold tailAt
  split <;> rfl

/-- What one round does with its view. -/
def tryTail (session : ApplicationSessionId) (best : Best) (tail : EntryView) : Read Best :=
  match tail.fields with
  | [] => .error corrupt
  | field :: _ =>
    match (offsets field.text).getLast? with
    | none => return best.improve tail
    | some last => (cuts field (offsets field.text) last).foldlM (tryCut session tail) (best.improve tail)

theorem trySkip_bind (session : ApplicationSessionId) (entry : EntryView) (best : Best) (skip : Nat) :
    trySkip session entry best skip =
      ((if skip = 0 then pure entry else suffixView session entry skip) >>= tryTail session best) := by
  unfold trySkip
  split <;> rfl

theorem trySkip_eq (checked : Checked entry) (best : Best) (inside : skip < entry.fields.length) :
    trySkip session entry best skip = .ok ((triedViews session entry skip).foldl Best.improve best) := by
  obtain ⟨first, rest, left⟩ : ∃ first rest, entry.fields.drop skip = first :: rest :=
    ⟨_, _, List.drop_eq_getElem_cons inside⟩
  have tail : (if skip = 0 then pure entry else suffixView session entry skip) =
      Except.ok (tailAt session entry skip first rest) := by
    unfold tailAt
    split
    · rfl
    · exact checked.suffixView_eq left
  have step (state : Best) (cut : Nat) (point : CutPoint first.text cut) :
      tryCut session (tailAt session entry skip first rest) state cut =
        .ok (if cut = 0 then state else state.improve (suffixAt session entry first rest cut)) := by
    unfold tryCut
    split
    · rfl
    · rw [(checked.tailAt left).textSuffix_eq (tailAt_fields left) point, tailAt_cut]
      rfl
  rw [trySkip_bind, tail, ok_bind, tryTail, tailAt_fields left, triedViews, left, List.foldl_cons]
  unfold fieldCuts
  cases final : (offsets first.text).getLast? with
  | none => simp [final]
  | some last =>
    have points : ∀ cut ∈ cuts first (offsets first.text) last, CutPoint first.text cut := by
      intro cut member
      by_cases zero : cut = 0
      · exact .inl zero
      · refine cutPoint_of_mem (mem_fieldCuts ?_).1
        simpa [fieldCuts, final] using ⟨member, zero⟩
    simp only [final]
    rw [foldlM_ok _ fun state cut member => step state cut (points cut member), List.foldl_map, List.foldl_filter]
    simp only [ne_eq, decide_not, Bool.not_eq_true', decide_eq_false_iff_not, ite_not]

/-- All the views that the search for the smallest one looks at. -/
def allTried (session : ApplicationSessionId) (entry : EntryView) : List EntryView :=
  entry :: (List.range entry.fields.length).flatMap (triedViews session entry)

theorem minimum_eq (checked : Checked entry) (session : ApplicationSessionId) : ∃ best : Best, best.Least (allTried session entry) ∧
    minimum session entry = (do expect best.size.isSome .displayUnavailable; return best.entry) := by
  have start : (Best.mk entry (Wire.entrySize entry)).Least [entry] := by
    refine ⟨List.mem_singleton_self _, rfl, fun view member size fits => ?_⟩
    cases List.mem_singleton.1 member
    exact ⟨size, Nat.le_refl _, fits⟩
  refine ⟨_, start.foldl ((List.range entry.fields.length).flatMap (triedViews session entry)), ?_⟩
  rw [minimum, foldlM_ok _ fun state skip member => trySkip_eq checked state (List.mem_range.1 member), ok_bind,
    List.foldl_flatMap]

theorem newestSuffix_of_tried {view : EntryView} (tried : view ∈ allTried session entry) :
    NewestSuffix session entry view := by
  obtain rfl | later := List.mem_cons.1 tried
  · exact .whole
  · obtain ⟨skip, _, member⟩ := List.mem_flatMap.1 later
    unfold triedViews at member
    split at member
    · cases member
    · rename_i first rest left
      obtain rfl | cutView := List.mem_cons.1 member
      · unfold tailAt
        split
        · exact .whole
        · rename_i some_left_out
          exact .cut left (.inl rfl) (.inl some_left_out)
      · obtain ⟨cut, listed, rfl⟩ := List.mem_map.1 cutView
        obtain ⟨inside, positive⟩ := mem_fieldCuts listed
        exact .cut left (cutPoint_of_mem inside) (.inr positive)

theorem entrySize_eq_some {view : EntryView} {size : Nat} : Wire.entrySize view = some size ↔
    view.fields.length ≤ Wire.fieldLimit ∧ (Wire.entry view).size ≤ Wire.entryBytes ∧ (Wire.entry view).size = size := by
  unfold Wire.entrySize Wire.count
  split
  · rename_i many
    simp only [reduceCtorEq, false_iff]
    omega
  · rename_i few
    split
    · rename_i short
      simp only [Option.some.injEq]
      omega
    · rename_i long
      simp only [reduceCtorEq, false_iff]
      omega

theorem entrySize_mono {view other : EntryView} {size : Nat} (fits : Wire.entrySize view = some size)
    (fewer : other.fields.length ≤ view.fields.length) (shorter : (Wire.entry other).size ≤ (Wire.entry view).size) :
    ∃ smaller ≤ size, Wire.entrySize other = some smaller := by
  obtain ⟨few, bound, rfl⟩ := entrySize_eq_some.1 fits
  exact ⟨_, shorter, entrySize_eq_some.2 ⟨by omega, by omega, rfl⟩⟩

theorem tried_covers (checked : Checked entry) {view : EntryView} (suffix : NewestSuffix session entry view)
    {size : Nat} (fits : Wire.entrySize view = some size) :
    ∃ tried ∈ allTried session entry, ∃ smaller ≤ size, Wire.entrySize tried = some smaller := by
  cases suffix with
  | whole => exact ⟨entry, List.mem_cons_self, size, Nat.le_refl _, fits⟩
  | @cut skip cut first rest left point shorter =>
    have inside : skip < entry.fields.length := by
      by_contra past
      rw [List.drop_eq_nil_of_le (Nat.le_of_not_lt past)] at left
      cases left
    have listed {tried : EntryView} (member : tried ∈ triedViews session entry skip) :
        tried ∈ allTried session entry :=
      List.mem_cons_of_mem _ (List.mem_flatMap.2 ⟨skip, List.mem_range.2 inside, member⟩)
    have views : triedViews session entry skip =
        tailAt session entry skip first rest :: (fieldCuts first).map (suffixAt session entry first rest) := by
      rw [triedViews, left]
    by_cases uncut : cut = 0
    · subst uncut
      refine ⟨_, listed (views ▸ List.mem_cons_self), size, Nat.le_refl _, ?_⟩
      rwa [tailAt, if_neg (by omega)]
    · have member : cut ∈ offsets first.text := mem_offsets.2 (point.resolve_left uncut)
      have held : first ∈ entry.fields := List.mem_of_mem_drop (left ▸ List.mem_cons_self)
      obtain ⟨_, _, total, length⟩ := checked.fragment held
      have narrow := checked.totals first held
      obtain ⟨last, final⟩ : ∃ last, (offsets first.text).getLast? = some last :=
        ⟨_, List.getLast?_eq_some_getLast (List.ne_nil_of_mem member)⟩
      obtain ⟨tried, among, scalar, further, width⟩ := cuts_cover (by omega) length final member
      have looked : tried ∈ fieldCuts first := by
        simp only [fieldCuts, final, List.mem_filter, decide_eq_true_eq]
        exact ⟨among, by omega⟩
      refine ⟨suffixAt session entry first rest tried, listed ?_, ?_⟩
      · exact views ▸ List.mem_cons_of_mem _ (List.mem_map_of_mem looked)
      · exact entrySize_mono fits (Nat.le_refl _) (size_suffixAt_le point.isBoundary further width)

theorem minimum_smallest (checked : Checked entry) {view : EntryView} (suffix : NewestSuffix session entry view)
    (fits : Wire.entryFits view = true) :
    ∃ best smallest, minimum session entry = .ok best ∧ NewestSuffix session entry best ∧
      Wire.entrySize best = some smallest ∧ ∀ other, NewestSuffix session entry other →
        ∀ size, Wire.entrySize other = some size → smallest ≤ size := by
  obtain ⟨best, least, eq⟩ := minimum_eq checked session
  have smallest {other : EntryView} (suffix : NewestSuffix session entry other) {size : Nat}
      (fits : Wire.entrySize other = some size) : ∃ smaller ≤ size, best.size = some smaller := by
    obtain ⟨tried, member, smaller, bound, measured⟩ := tried_covers checked suffix fits
    obtain ⟨kept, below, found⟩ := least.least tried member smaller measured
    exact ⟨kept, by omega, found⟩
  obtain ⟨size, measured⟩ := Option.isSome_iff_exists.1 fits
  obtain ⟨kept, _, found⟩ := smallest suffix measured
  refine ⟨best.entry, kept, ?_, newestSuffix_of_tried least.mem, least.size ▸ found, ?_⟩
  · rw [eq, found]
    rfl
  · intro other suffix size fits
    obtain ⟨smaller, below, same⟩ := smallest suffix fits
    rw [found, Option.some.injEq] at same
    omega

/-- What dropping older fields ends with: an accepted suffix, or the last field alone. -/
inductive Dropped (session : ApplicationSessionId) (accepts : EntryView → Bool) (candidate : EntryView) :
    EntryView × Bool → Prop where
  | accepted {skip : Nat} {first : FieldFragment} {rest : List FieldFragment}
      (left : candidate.fields.drop skip = first :: rest) (fits : accepts (suffixAt session candidate first rest 0) = true) :
      Dropped session accepts candidate (suffixAt session candidate first rest 0, true)
  | single {field : FieldFragment} (only : candidate.fields = [field]) :
      Dropped session accepts candidate (candidate, false)
  | last {middle : List FieldFragment} {last : FieldFragment} (fields : candidate.fields = middle ++ [last])
      (rejected : accepts (suffixAt session candidate last [] 0) = false) :
      Dropped session accepts candidate (suffixAt session candidate last [] 0, false)

theorem dropOlder_eq (session : ApplicationSessionId) (accepts : EntryView → Bool) {candidate : EntryView}
    {fuel : Nat} (checked : Checked candidate)
    (nonempty : candidate.fields ≠ []) (enough : candidate.fields.length ≤ fuel) :
    ∃ result, dropOlder session accepts fuel candidate = .ok result ∧ Dropped session accepts candidate result := by
  induction fuel generalizing candidate with
  | zero => exact absurd (List.eq_nil_of_length_eq_zero (Nat.le_zero.1 enough)) nonempty
  | succ fuel ih =>
    unfold dropOlder
    match fields : candidate.fields with
    | [] => exact absurd fields nonempty
    | [field] => exact ⟨(candidate, false), rfl, .single fields⟩
    | first :: next :: rest =>
      have left : candidate.fields.drop 1 = next :: rest := by rw [fields, List.drop_succ_cons, List.drop_zero]
      rw [if_pos (by simp), checked.suffixView_eq left, ok_bind]
      split
      · rename_i fits
        exact ⟨_, rfl, .accepted left fits⟩
      · rename_i rejected
        have shown : (suffixAt session candidate next rest 0).fields = next :: rest := by simp [suffixAt]
        obtain ⟨result, done, dropped⟩ := ih (checked.suffix session left (.inl rfl)) (by simp [shown])
          (by rw [shown]; rw [fields] at enough; simpa using enough)
        refine ⟨result, done, ?_⟩
        -- A suffix of the shorter view is the same suffix of this one.
        cases dropped with
        | @accepted skip later others left fits =>
          have deeper : candidate.fields.drop (skip + 1) = later :: others := by
            rwa [fields, List.drop_succ_cons, ← shown]
          exact .accepted deeper fits
        | @single field only =>
          rw [shown] at only
          cases only
          have two : candidate.fields = [first] ++ [next] := fields
          exact .last two (Bool.eq_false_iff.2 rejected)
        | @last middle last ending rejected =>
          have whole : candidate.fields = (first :: middle) ++ [last] := by
            rw [fields, ← shown, ending, List.cons_append]
          exact .last whole rejected

theorem search_accepted {accepts : EntryView → Bool} {candidate : EntryView} {field : FieldFragment}
    (checked : Checked candidate) (only : candidate.fields = [field]) (fuel : Nat) {low high : Nat} (ordered : low ≤ high)
    (enough : high - low ≤ fuel) (inside : high < (offsets field.text).length)
    (fits : accepts (suffixAt session candidate field [] ((offsets field.text).getD high 0)) = true) :
    ∃ found, search session accepts candidate (offsets field.text) fuel low high = .ok found ∧
      found < (offsets field.text).length ∧
      accepts (suffixAt session candidate field [] ((offsets field.text).getD found 0)) = true := by
  induction fuel generalizing low high with
  | zero =>
    have same : low = high := by omega
    exact ⟨low, rfl, same ▸ inside, same ▸ fits⟩
  | succ fuel ih =>
    unfold search
    split
    · rename_i unfinished
      have middle : (low + high) / 2 < (offsets field.text).length := by omega
      have point : CutPoint field.text ((offsets field.text).getD ((low + high) / 2) 0) := by
        refine cutPoint_of_mem ?_
        rw [List.getD_eq_getElem _ _ middle]
        exact List.getElem_mem middle
      simp only [checked.textSuffix_eq only point, ok_bind]
      split
      · rename_i accepted
        exact ih (by omega) (by omega) middle accepted
      · exact ih (by omega) (by omega) inside fits
    · have same : low = high := by omega
      exact ⟨low, rfl, same ▸ inside, same ▸ fits⟩

end

/-- An acceptance test that only asks for the encoded size to stay within a bound. -/
def Bounded (accepts : EntryView → Bool) (bound : Nat) : Prop :=
  ∀ view, accepts view = true ↔ ∃ size ≤ bound, Wire.entrySize view = some size

theorem Bounded.mono {accepts : EntryView → Bool} {bound : Nat} (bounded : Bounded accepts bound)
    {view other : EntryView} (fits : accepts view = true) (fewer : other.fields.length ≤ view.fields.length)
    (shorter : (Wire.entry other).size ≤ (Wire.entry view).size) : accepts other = true := by
  obtain ⟨size, below, measured⟩ := (bounded view).1 fits
  obtain ⟨smaller, less, found⟩ := entrySize_mono measured fewer shorter
  exact (bounded other).2 ⟨smaller, by omega, found⟩

section
variable {session : ApplicationSessionId} {accepts : EntryView → Bool} {bound : Nat}

theorem shrinkText_eq {candidate view : EntryView} {field : FieldFragment} (checked : Checked candidate)
    (only : candidate.fields = [field]) (bounded : Bounded accepts bound) (rejected : accepts candidate = false)
    (suffix : NewestSuffix session candidate view) (fits : accepts view = true) :
    ∃ cut, CutPoint field.text cut ∧
      shrinkText session accepts candidate = .ok (suffixAt session candidate field [] cut) ∧
      accepts (suffixAt session candidate field [] cut) = true := by
  -- A suffix other than the candidate itself cuts the one field.
  have cut_of {view : EntryView} (suffix : NewestSuffix session candidate view) (fits : accepts view = true) :
      ∃ cut ∈ offsets field.text, view = suffixAt session candidate field [] cut := by
    cases suffix with
    | whole =>
      rw [rejected] at fits
      cases fits
    | @cut skip cut first rest left point shorter =>
      rw [only] at left
      cases skip with
      | succ skip => cases skip <;> cases left
      | zero =>
        cases left
        exact ⟨cut, mem_offsets.2 (point.resolve_left (by omega)), rfl⟩
  obtain ⟨size, below, measured⟩ := (bounded view).1 fits
  obtain ⟨best, smallest, found, best_suffix, best_size, least⟩ :=
    minimum_smallest checked suffix (Option.isSome_iff_exists.2 ⟨size, measured⟩)
  have best_fits : accepts best = true :=
    (bounded best).2 ⟨smallest, Nat.le_trans (least view suffix size measured) below, best_size⟩
  obtain ⟨cut, member, rfl⟩ := cut_of best_suffix best_fits
  have text : field.text.isEmpty = false := by
    cases given : field.text with
    | nil => simp [given, offsets, offsetsFrom] at member
    | cons c cs => rfl
  have start : ∃ high, (offsets field.text).findIdx? (fun other => field.fromByte + other = field.fromByte + cut) =
      some high ∧ high < (offsets field.text).length ∧ (offsets field.text).getD high 0 = cut := by
    cases index : (offsets field.text).findIdx? fun other => field.fromByte + other = field.fromByte + cut with
    | none =>
      have never := List.findIdx?_eq_none_iff.1 index cut member
      simp at never
    | some high =>
      obtain ⟨inside, same, _⟩ := List.findIdx?_eq_some_iff_getElem.1 index
      refine ⟨high, rfl, inside, ?_⟩
      rw [List.getD_eq_getElem _ _ inside]
      simpa using same
  obtain ⟨high, index, inside, same⟩ := start
  obtain ⟨low, searched, kept, accepted⟩ := search_accepted checked only (offsets field.text).length
    (Nat.zero_le high) (by omega) inside (same.symm ▸ best_fits)
  have point : CutPoint field.text ((offsets field.text).getD low 0) := by
    refine cutPoint_of_mem ?_
    rw [List.getD_eq_getElem _ _ kept]
    exact List.getElem_mem kept
  refine ⟨_, point, ?_, accepted⟩
  have head : (suffixAt session candidate field [] cut).fields.head?.map (·.fromByte) = some (field.fromByte + cut) := rfl
  simp only [shrinkText, only, List.head?_cons, present_some, storage, mapError_ok, ok_bind, text, Bool.not_false,
    expect, if_true, found, best_fits, head, index, searched]
  exact checked.textSuffix_eq only point

theorem fit_eq {entry view : EntryView} (checked : Checked entry) (bounded : Bounded accepts bound)
    (suffix : NewestSuffix session entry view) (fits : accepts view = true) :
    ∃ shown, fit session entry accepts = .ok shown ∧ accepts shown = true ∧
      (shown = entry ∨ ∃ skip cut first rest, entry.fields.drop skip = first :: rest ∧ CutPoint first.text cut ∧
        shown = suffixAt session entry first rest cut) := by
  unfold fit
  cases accepted : accepts entry with
  | true => exact ⟨entry, rfl, accepted, .inl rfl⟩
  | false =>
    cases suffix with
    | whole =>
      rw [accepted] at fits
      cases fits
    | @cut skip cut first rest left point shorter =>
      have nonempty : entry.fields ≠ [] := by
        intro none_left
        rw [none_left, List.drop_nil] at left
        cases left
      have some_fields : (!entry.fields.isEmpty) = true := by simpa using nonempty
      obtain ⟨⟨candidate, done⟩, ended, dropped⟩ :=
        dropOlder_eq session accepts checked nonempty (Nat.le_refl _)
      simp only [Bool.false_eq_true, if_false, expect, some_fields, if_true, ok_bind, ended]
      cases dropped with
      | accepted kept fits => exact ⟨_, rfl, fits, .inr ⟨_, 0, _, _, kept, .inl rfl, rfl⟩⟩
      | @single field only =>
        obtain ⟨cut, point, shrunk, fits⟩ := shrinkText_eq checked only bounded accepted (.cut left point shorter) fits
        exact ⟨_, shrunk, fits, .inr ⟨0, cut, field, [], only, point, rfl⟩⟩
      | @last middle last fields rejected =>
        have alone : entry.fields.drop middle.length = [last] := by rw [fields, List.drop_left]
        have held : last ∈ entry.fields := List.mem_of_mem_drop (alone ▸ List.mem_cons_self)
        obtain ⟨_, start, total, _⟩ := checked.fragment held
        have narrow := checked.totals last held
        have newest := (checked.field held).2
        have revision := checked.revision
        rcases List.eq_nil_or_concat rest with rfl | ⟨others, final, rfl⟩
        · -- The view accepted cuts the last field itself.
          have same := getLast_of_drop left fields
          rw [List.getLast?_singleton, Option.some.injEq] at same
          subst same
          have uncut : cut ≠ 0 := by
            rintro rfl
            rw [rejected] at fits
            cases fits
          have only : (suffixAt session entry first [] 0).fields = [first] := by simp [suffixAt]
          have inner : NewestSuffix session (suffixAt session entry first [] 0) (suffixAt session entry first [] cut) :=
            .cut (show (suffixAt session entry first [] 0).fields.drop 0 = _ from only) point (.inr uncut)
          obtain ⟨cut, point, shrunk, fits⟩ :=
            shrinkText_eq (checked.suffix session alone (.inl rfl)) only bounded rejected inner fits
          exact ⟨_, shrunk, fits, .inr ⟨middle.length, cut, first, [], alone, point, rfl⟩⟩
        · -- A view that starts earlier is larger than the last field alone.
          have same := getLast_of_drop left fields
          rw [List.concat_eq_append, ← List.cons_append, List.getLast?_concat, Option.some.injEq] at same
          subst same
          rw [List.concat_eq_append] at fits
          have fewer : (suffixAt session entry final [] 0).fields.length ≤
              (suffixAt session entry first (others ++ [final]) cut).fields.length := by simp [suffixAt]
          have smaller := bounded.mono fits fewer (size_last_le (by omega) (by omega))
          rw [rejected] at smaller
          cases smaller

end
/-- The smallest view is found whenever any suffix fits an entry, and fitting to a size finds a
suffix within it whenever there is one. The view shown ends where the entry ends, and its cursor
names its first field and the byte it starts from. -/
theorem fitting_complete (session : ApplicationSessionId) (entry : EntryView) (checked : Checked entry) :
    ((∃ view, NewestSuffix session entry view ∧ Wire.entryFits view = true) →
      ∃ best smallest, minimum session entry = .ok best ∧ NewestSuffix session entry best ∧
        Wire.entrySize best = some smallest ∧ ∀ other, NewestSuffix session entry other →
          ∀ size, Wire.entrySize other = some size → smallest ≤ size) ∧
    ∀ accepts bound, Bounded accepts bound →
      (∃ view, NewestSuffix session entry view ∧ accepts view = true) →
      ∃ shown, fit session entry accepts = .ok shown ∧ accepts shown = true ∧
        (shown = entry ∨ ∃ skip cut first rest, entry.fields.drop skip = first :: rest ∧ CutPoint first.text cut ∧
          shown = suffixAt session entry first rest cut) := by
  constructor
  · rintro ⟨view, suffix, fits⟩
    exact minimum_smallest checked suffix fits
  · rintro accepts bound bounded ⟨view, suffix, fits⟩
    exact fit_eq checked bounded suffix fits

end Compact

namespace Compact

/-- A text of an answer. -/
def answerField [JsonHash] (index : UInt64) (from_ : Nat) (text : Text) : FieldFragment :=
  ⟨.hash (digest (.field .one ⟨1, 0⟩ (Spelling.decimal index.toNat))), .indexed ⟨some 0, .content, none, some index⟩, .text, 1,
    from_ + bytes text, from_, from_ + bytes text, text⟩

/-- An answer shown from byte 5 of its first text. The offsets of its second text cross a power of ten. -/
def crossing [JsonHash] : EntryView where
  runId := .one
  entryId := ⟨1, 0⟩
  revision := 1
  contentEpoch := 1
  kind := .assistant
  recordedState := .completed
  provisional := false
  reference := none
  resultRecorded := none
  finishRecorded := none
  isError := none
  fields := [answerField 0 5 "fgh".toList, answerField 1 0 "abcdefghijk".toList]
  earlierContent := some ⟨.one, .one, ⟨1, 0⟩, 1, (answerField 0 5 "fgh".toList).fieldId, 1, 5⟩
  contentComplete := false

/-- Here the smallest view leaves out the first text, and is not the one with a single scalar of the
second: the tenth byte cut off costs two more than it saves. -/
theorem fitting_complete_crossing : letI := JsonHash.ideal
    ∃ field, crossing.fields.drop 1 = [field] ∧ Wire.entrySize (suffixAt .one crossing field [] 9) = some 871 ∧
      Wire.entrySize (suffixAt .one crossing field [] 10) = some 873 ∧
      (∃ best smallest, minimum .one crossing = .ok best ∧ Wire.entrySize best = some smallest ∧ smallest ≤ 871) ∧
      ∃ shown, fit .one crossing (fun view => (Wire.entrySize view).any (· ≤ 871)) = .ok shown ∧
        (Wire.entrySize shown).any (· ≤ 871) = true := by
  let _ := JsonHash.ideal
  have checked : Checked crossing := by
    refine ⟨rfl, ?_, by decide, by decide, ?_⟩
    · exact List.forall_mem_cons.2 ⟨rfl, List.forall_mem_singleton.2 rfl⟩
    · exact List.forall_mem_cons.2 ⟨by decide, List.forall_mem_singleton.2 (by decide)⟩
  have cut : NewestSuffix .one crossing (suffixAt .one crossing (answerField 1 0 "abcdefghijk".toList) [] 9) :=
    .cut (show crossing.fields.drop 1 = _ from rfl) (.inr (by decide)) (.inl (by decide))
  have size : Wire.entrySize (suffixAt .one crossing (answerField 1 0 "abcdefghijk".toList) [] 9) = some 871 := by decide +kernel
  have bounded : Bounded (fun view => (Wire.entrySize view).any (· ≤ 871)) 871 := by
    intro view
    rw [Option.any_eq_true]
    exact ⟨fun ⟨size, measured, below⟩ => ⟨size, of_decide_eq_true below, measured⟩,
      fun ⟨size, below, measured⟩ => ⟨size, measured, decide_eq_true below⟩⟩
  obtain ⟨least, fitted⟩ := fitting_complete .one crossing checked
  obtain ⟨best, smallest, found, _, measured, below⟩ := least ⟨_, cut, by rw [Wire.entryFits, size]; rfl⟩
  obtain ⟨shown, fit, fits, _⟩ := fitted _ 871 bounded ⟨_, cut, by rw [size]; rfl⟩
  exact ⟨_, rfl, size, by decide +kernel, ⟨best, smallest, found, measured, below _ cut _ size⟩, shown, fit, fits⟩

end Compact
end Wi
