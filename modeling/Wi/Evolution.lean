import Wi.Parts

/-! What a delta or a snapshot shows in the end, how much text it leaves, and how it may
change the fields a reader already knows. -/
namespace Wi
open Utf8 Content

/-- What a reader sees of a field. -/
def LogicalField.shown (field : LogicalField) : FieldOrder × FieldKind × Text := (field.order, field.kind, field.text)

def Content.Part.shown (part : Part) : FieldOrder × FieldKind × Text := (.indexed part.order, part.kind, part.text)

variable {field next : LogicalField}

namespace Layout
variable {sequence : Nat} {part : Part} {output : Option UInt64} {parts : List Part} {fields : Fields}

theorem add_perm (field : LogicalField) (fields : Fields) : (add field fields).Perm (field :: fields) :=
  Keyed.place_perm field fields

theorem inserted_perm (sequence : Nat) (fresh : List Part) (base : Fields) :
    (fresh.foldl (fun fields part => add (created part sequence) fields) base).Perm
      (base ++ fresh.map (created · sequence)) := by
  induction fresh generalizing base with
  | nil => simp
  | cons part rest ih =>
    refine (ih _).trans ?_
    rw [List.map_cons]
    exact ((add_perm _ _).append_right _).trans List.perm_middle.symm

theorem shown_settle (ranged : inRange output field = true) :
    (settle sequence output parts field).map LogicalField.shown = (partFor parts field).map Part.shown := by
  rw [settle, if_pos ranged]
  cases found : partFor parts field with
  | none => rfl
  | some part =>
    obtain ⟨-, order, kind⟩ := partFor_eq_some found
    by_cases same : field.text = part.text
    · simp [same, LogicalField.shown, Part.shown, order, kind]
    · simp [same, LogicalField.shown, Part.shown, order, kind]

theorem kept_perm (coherent : Coherent output parts) (distinct : Distinct fields) :
    ((fields.filter (inRange output)).filterMap (partFor parts)).Perm (parts.filter (retains output fields)) := by
  have nodup_parts : parts.Nodup := coherent.distinct.of_map
  have nodup_kept : ((fields.filter (inRange output)).filterMap (partFor parts)).Nodup := by
    rw [List.Nodup, List.pairwise_filterMap]
    have apart := distinct
    rw [Distinct, List.Nodup, List.pairwise_map] at apart
    refine (apart.sublist List.filter_sublist).imp fun {a b} orders x hx y hy same => ?_
    refine orders ?_
    rw [(partFor_eq_some hx).2.1, (partFor_eq_some hy).2.1, same]
  refine (List.perm_ext_iff_of_nodup nodup_kept (nodup_parts.filter _)).2 fun part => ?_
  rw [List.mem_filterMap, List.mem_filter, retains, List.any_eq_true]
  constructor
  · rintro ⟨field, ranged, found⟩
    obtain ⟨member, in_range⟩ := List.mem_filter.1 ranged
    obtain ⟨part_member, order, kind⟩ := partFor_eq_some found
    exact ⟨part_member, field, member, by simp [in_range, order, kind]⟩
  · rintro ⟨part_member, field, member, shown⟩
    simp only [Bool.and_eq_true, decide_eq_true_eq] at shown
    refine ⟨field, List.mem_filter.2 ⟨member, shown.1.1⟩, ?_⟩
    have exists_part : (partFor parts field).isSome = true := by
      rw [partFor, List.find?_isSome]
      exact ⟨part, part_member, by simp [shown.1.2, shown.2]⟩
    obtain ⟨other, found⟩ := Option.isSome_iff_exists.1 exists_part
    obtain ⟨other_member, order, -⟩ := partFor_eq_some found
    have same : other = part := List.inj_on_of_nodup_map coherent.distinct other_member part_member
      (FieldOrder.indexed.inj (order.symm.trans shown.1.2.symm))
    rw [found, same]

/-- A snapshot replaces the fields it speaks for by its parts, and leaves every other field. -/
theorem snapshot_shown (sequence : Nat) (coherent : Coherent output parts) (distinct : Distinct fields) :
    ((snapshot sequence output parts fields).map LogicalField.shown).Perm
      ((fields.filter fun field => !inRange output field).map LogicalField.shown ++ parts.map Part.shown) := by
  have halves : (fields.filter (inRange output) ++ fields.filter fun field => !inRange output field).Perm fields :=
    List.filter_append_perm _ _
  have settled_shown : ((settled sequence output parts fields).map LogicalField.shown).Perm
      ((fields.filter fun field => !inRange output field).map LogicalField.shown ++
        (parts.filter (retains output fields)).map Part.shown) := by
    have outside : (fields.filter fun field => !inRange output field).filterMap (settle sequence output parts) =
        fields.filter fun field => !inRange output field := by
      conv_rhs => rw [← List.filterMap_some (l := fields.filter fun field => !inRange output field)]
      refine List.filterMap_congr fun field member => ?_
      have out : inRange output field = false := by simpa using (List.mem_filter.1 member).2
      simp [settle, out]
    have inside : ((fields.filter (inRange output)).filterMap (settle sequence output parts)).map LogicalField.shown =
        ((fields.filter (inRange output)).filterMap (partFor parts)).map Part.shown := by
      rw [List.map_filterMap, List.map_filterMap]
      exact List.filterMap_congr fun field member => shown_settle (List.mem_filter.1 member).2
    have split := (halves.symm.filterMap (settle sequence output parts)).map LogicalField.shown
    rw [List.filterMap_append, List.map_append, outside, inside] at split
    refine (split.trans List.perm_append_comm).trans ?_
    exact ((kept_perm coherent distinct).map Part.shown).append_left _
  have inserted := (inserted_perm sequence (fresh output parts fields)
    (settled sequence output parts fields)).map LogicalField.shown
  rw [List.map_append, List.map_map] at inserted
  refine (inserted.trans (settled_shown.append_right _)).trans ?_
  rw [List.append_assoc]
  refine List.Perm.append_left _ ?_
  have both : (parts.filter (retains output fields) ++ fresh output parts fields).Perm parts :=
    List.filter_append_perm _ _
  have shown := both.map Part.shown
  rw [List.map_append] at shown
  exact shown

theorem textBytes_shown (fields : Fields) :
    textBytes fields = ((fields.map LogicalField.shown).map fun shown => bytes shown.2.2).sum := by
  rw [textBytes, List.map_map]
  rfl

theorem textBytes_snapshot (coherent : Coherent output parts) (distinct : Distinct fields) :
    textBytes (snapshot sequence output parts fields) ≤ textBytes fields + partBytes parts := by
  have perm := ((snapshot_shown sequence coherent distinct).map fun shown => bytes shown.2.2).sum_eq
  rw [← textBytes_shown, List.map_append, List.sum_append, ← textBytes_shown, List.map_map] at perm
  have kept : textBytes (fields.filter fun field => !inRange output field) ≤ textBytes fields :=
    (List.filter_sublist.map fun field : LogicalField => bytes field.text).sum_le_sum (by simp)
  have same : (parts.map ((fun shown : FieldOrder × FieldKind × Text => bytes shown.2.2) ∘ Part.shown)).sum =
      partBytes parts := rfl
  omega

theorem textBytes_add (field : LogicalField) (fields : Fields) :
    textBytes (add field fields) = bytes field.text + textBytes fields := by
  have perm := ((add_perm field fields).map fun field : LogicalField => bytes field.text).sum_eq
  rwa [List.map_cons, List.sum_cons] at perm

theorem rewriteField_other {others : Fields} (apart : ∀ other ∈ others, other.order ≠ field.order) :
    rewriteField field others = others := by
  rw [rewriteField]
  conv_rhs => rw [← List.map_id others]
  exact List.map_congr_left fun other member => if_neg (apart other member)

theorem textBytes_rewrite (distinct : Distinct fields) {old : LogicalField} (member : old ∈ fields)
    (order : next.order = old.order) :
    textBytes (rewriteField next fields) + bytes old.text = textBytes fields + bytes next.text := by
  obtain ⟨before, after, rfl⟩ := List.append_of_mem member
  rw [Distinct, List.map_append, List.map_cons, List.nodup_append] at distinct
  obtain ⟨-, tail, apart⟩ := distinct
  have before_same : rewriteField next before = before := rewriteField_other fun other earlier => by
    rw [order]
    exact apart _ (List.mem_map_of_mem earlier) _ List.mem_cons_self
  have after_same : rewriteField next after = after := rewriteField_other fun other later => by
    rw [order]
    intro same
    exact (List.nodup_cons.1 tail).1 (same ▸ List.mem_map_of_mem later)
  have split : rewriteField next (before ++ old :: after) = before ++ next :: after := by
    rw [rewriteField] at before_same after_same ⊢
    rw [List.map_append, List.map_cons, before_same, after_same, if_pos order.symm]
  rw [split]
  simp only [textBytes, List.map_append, List.map_cons, List.sum_append, List.sum_cons]
  omega

theorem textBytes_delta (distinct : Distinct fields) :
    textBytes (delta sequence part fields) ≤ textBytes fields + bytes part.text := by
  rw [delta]
  cases found : findField (.indexed part.order) fields with
  | none =>
    simp only
    rw [textBytes_add]
    simp only [created]
    omega
  | some old =>
    obtain ⟨member, -⟩ := findField_eq_some found
    simp only
    split
    · have kept : textBytes (removeField old.order fields) ≤ textBytes fields :=
        (List.filter_sublist.map fun field : LogicalField => bytes field.text).sum_le_sum (by simp)
      rw [textBytes_add]
      simp only [created]
      omega
    · have text : bytes (deltaText part) ≤ bytes part.text := by
        rw [deltaText]
        split <;> simp
      have rewritten : textBytes (rewriteField { old with text := old.text ++ deltaText part } fields) +
          bytes old.text = textBytes fields + bytes (old.text ++ deltaText part) :=
        textBytes_rewrite distinct member rfl
      rw [Utf8.bytes_append] at rewritten
      omega

/-- Where a field stands and what it holds. -/
def place (field : LogicalField) : FieldOrder × FieldKind := (field.order, field.kind)

/-- What one event may do to the fields of an entry. Within one generation a text only grows;
unless the layout moved, new fields only follow the old ones. -/
structure Evolves (sequence : Nat) (moved : Bool) (old new : Fields) : Prop where
  grown : ∀ field ∈ new, field.generation = sequence ∨ ∃ before ∈ old, before.order = field.order ∧
    before.kind = field.kind ∧ before.generation = field.generation ∧ before.text <+: field.text
  kept : moved = false → old.map place <+: new.map place

theorem Evolves.refl (sequence : Nat) (fields : Fields) : Evolves sequence false fields fields where
  grown field member := .inr ⟨field, member, rfl, rfl, rfl, List.prefix_rfl⟩
  kept _ := List.prefix_rfl

theorem place_rewrite (distinct : Distinct fields) {old : LogicalField} (member : old ∈ fields)
    (same : place next = place old) : (rewriteField next fields).map place = fields.map place := by
  rw [rewriteField, List.map_map]
  refine List.map_congr_left fun field field_member => ?_
  have order : next.order = old.order := congrArg Prod.fst same
  by_cases equal : field.order = next.order
  · rw [Function.comp_apply, if_pos equal, same, distinct.eq field_member member (equal.trans order)]
  · rw [Function.comp_apply, if_neg equal]

theorem add_evolves (ascending : Keyed.Ascending LogicalField.key fields) (now : field.generation = sequence)
    (absent : field.key ∉ fields.map LogicalField.key) :
    Evolves sequence (fields.any fun other => field.key < other.key) fields (add field fields) := by
  constructor
  · intro other member
    rcases Keyed.mem_place.1 member with rfl | old
    · exact .inl now
    · exact .inr ⟨other, old, rfl, rfl, rfl, List.prefix_rfl⟩
  · intro last
    have above : ∀ other ∈ fields, other.key < field.key := by
      intro other member
      have not_later : ¬field.key < other.key := by
        have := List.any_eq_false.1 last other member
        simpa using this
      refine lt_of_le_of_ne (not_lt.1 not_later) fun same => absent ?_
      exact same ▸ List.mem_map_of_mem member
    rw [add, Keyed.place_last ascending above, List.map_append]
    exact List.prefix_append _ _

theorem delta_evolves (ascending : Keyed.Ascending LogicalField.key fields) (distinct : Distinct fields) :
    Evolves sequence (deltaMoves part fields) fields (delta sequence part fields) := by
  rw [delta, deltaMoves]
  cases found : findField (.indexed part.order) fields with
  | none => exact add_evolves ascending rfl (absent_key (findField_eq_none found))
  | some old =>
    obtain ⟨member, -⟩ := findField_eq_some found
    by_cases kinds : old.kind = part.kind
    · simp only [kinds, ne_eq, not_true_eq_false, if_false, decide_false]
      refine ⟨fun field field_member => ?_, fun _ => ?_⟩
      · have origin := (mem_rewriteField (by exact ⟨old, member, rfl⟩)).1 field_member
        rcases origin with rfl | ⟨kept, -⟩
        · exact .inr ⟨old, member, rfl, kinds, rfl, List.prefix_append _ _⟩
        · exact .inr ⟨field, kept, rfl, rfl, rfl, List.prefix_rfl⟩
      · rw [place_rewrite distinct member (by simp [place, kinds])]
    · simp only [kinds, ne_eq, not_false_eq_true, if_true, decide_true]
      refine ⟨fun field field_member => ?_, fun still => by cases still⟩
      rcases Keyed.mem_place.1 field_member with rfl | kept
      · exact .inl rfl
      · exact .inr ⟨field, (mem_removeField.1 kept).1, rfl, rfl, rfl, List.prefix_rfl⟩

theorem settle_eq_some (h : settle sequence output parts field = some next) :
    place next = place field ∧ (next.generation = sequence ∨ next = field) := by
  rw [settle] at h
  split at h
  · obtain ⟨part, -, rfl⟩ := Option.map_eq_some_iff.1 h
    split
    · exact ⟨rfl, .inr rfl⟩
    · exact ⟨rfl, .inl rfl⟩
  · cases h
    exact ⟨rfl, .inr rfl⟩

theorem snapshot_evolves : Evolves sequence (snapshotMoves sequence output parts fields) fields
    (snapshot sequence output parts fields) := by
  constructor
  · intro field member
    rcases mem_inserted.1 member with settled | ⟨part, -, rfl⟩
    · obtain ⟨old, old_member, settles⟩ := List.mem_filterMap.1 settled
      rcases (settle_eq_some settles).2 with now | rfl
      · exact .inl now
      · exact .inr ⟨field, old_member, rfl, rfl, rfl, List.prefix_rfl⟩
    · exact .inl rfl
  · intro still
    rw [snapshotMoves, Bool.or_eq_false_iff, Bool.not_eq_false', List.isEmpty_iff] at still
    rw [snapshot, still.2, List.foldl_nil, settled, List.map_filterMap]
    have places : ∀ field ∈ fields, (settle sequence output parts field).map place = some (place field) := by
      intro field member
      have kept := List.any_eq_false.1 still.1 field member
      cases settles : settle sequence output parts field with
      | none => simp [settles] at kept
      | some next => rw [Option.map_some, (settle_eq_some settles).1]
    rw [List.filterMap_congr places, List.filterMap_eq_map']

theorem Distinct.of_ascending (ascending : Keyed.Ascending LogicalField.key fields) : Distinct fields := by
  refine List.Nodup.of_map FieldOrder.encode ?_
  rw [List.map_map]
  exact ascending.unique

theorem ascending_rewrite (ascending : Keyed.Ascending LogicalField.key fields) (field : LogicalField) :
    Keyed.Ascending LogicalField.key (rewriteField field fields) := by
  rw [Keyed.Ascending, rewriteField, List.pairwise_map]
  exact ascending.imp fun less => by rwa [key_rewrite, key_rewrite]

theorem ascending_add (ascending : Keyed.Ascending LogicalField.key fields)
    (absent : ∀ field ∈ fields, field.order ≠ .indexed part.order) :
    Keyed.Ascending LogicalField.key (add (created part sequence) fields) :=
  ascending.place (absent_key absent)

theorem ascending_delta (ascending : Keyed.Ascending LogicalField.key fields) :
    Keyed.Ascending LogicalField.key (delta sequence part fields) := by
  rw [delta]
  cases found : findField (.indexed part.order) fields with
  | none => exact ascending_add ascending (findField_eq_none found)
  | some old =>
    obtain ⟨-, order⟩ := findField_eq_some found
    simp only
    split
    · refine ascending_add (ascending.sublist List.filter_sublist) fun field member => ?_
      rw [← order]
      exact (mem_removeField.1 member).2
    · exact ascending_rewrite ascending _

theorem ascending_snapshot (ascending : Keyed.Ascending LogicalField.key fields) (coherent : Coherent output parts) :
    Keyed.Ascending LogicalField.key (snapshot sequence output parts fields) := by
  have settled_ascending : Keyed.Ascending LogicalField.key (settled sequence output parts fields) := by
    rw [Keyed.Ascending, settled, List.pairwise_filterMap]
    refine ascending.imp fun {a b} less x hx y hy => ?_
    rw [LogicalField.key, LogicalField.key, order_of_settle hx, order_of_settle hy]
    exact less
  -- Insertion by insertion: no placed field has the next part's order.
  have stages (before after : List Part) (split : parts = before ++ after) :
      Keyed.Ascending LogicalField.key ((fresh output before fields).foldl
        (fun fields part => add (created part sequence) fields) (settled sequence output parts fields)) := by
    induction before using List.reverseRecOn generalizing after with
    | nil => exact settled_ascending
    | append_singleton before part ih =>
      have here : parts = before ++ part :: after := by simp [split]
      have earlier := ih (part :: after) here
      by_cases shown : retains output fields part = true
      · have same : fresh output (before ++ [part]) fields = fresh output before fields := by simp [fresh, shown]
        rwa [same]
      · have is_new : retains output fields part = false := by simpa using shown
        have grown : fresh output (before ++ [part]) fields = fresh output before fields ++ [part] := by
          simp [fresh, is_new]
        rw [grown, List.foldl_append]
        exact ascending_add earlier fun field member =>
          (coherent.absent sequence here is_new field member).1
  exact stages parts [] (by simp)

theorem order_delta {sequence : Nat} {part : Part} {fields : Fields}
    (member : field ∈ delta sequence part fields) :
    field.order = .indexed part.order ∨ ∃ old ∈ fields, old.order = field.order := by
  rw [delta] at member
  cases found : findField (.indexed part.order) fields with
  | none =>
    rw [found] at member
    rcases Keyed.mem_place.1 member with rfl | kept
    · exact .inl rfl
    · exact .inr ⟨field, kept, rfl⟩
  | some old =>
    obtain ⟨old_member, order⟩ := findField_eq_some found
    rw [found] at member
    simp only at member
    split at member
    · rcases Keyed.mem_place.1 member with rfl | kept
      · exact .inl rfl
      · exact .inr ⟨field, (mem_removeField.1 kept).1, rfl⟩
    · have origin := (mem_rewriteField (by exact ⟨old, old_member, rfl⟩)).1 member
      rcases origin with rfl | ⟨kept, -⟩
      · exact .inl order
      · exact .inr ⟨field, kept, rfl⟩

theorem order_snapshot {sequence : Nat} {output : Option UInt64} {parts : List Part} {fields : Fields}
    (member : field ∈ snapshot sequence output parts fields) :
    (∃ part ∈ parts, field.order = .indexed part.order) ∨ ∃ old ∈ fields, old.order = field.order := by
  rcases mem_inserted.1 member with settled | ⟨part, fresh, rfl⟩
  · obtain ⟨old, old_member, settles⟩ := List.mem_filterMap.1 settled
    exact .inr ⟨old, old_member, (order_of_settle settles).symm⟩
  · exact .inl ⟨part, List.mem_of_mem_filter fresh, rfl⟩

end Layout
end Wi
