import Wi.ChunkStorage
import Wi.Layout

/-! The store's delta and snapshot carry out what they mean for the logical fields. -/
namespace Wi
open Utf8 Fields Content
variable [JsonHash]
variable {id : EntryId}

theorem fieldIdOf_injective (collision : CollisionFree) {run : RunId} {a : OrderKey} {b : FieldOrder}
    (direct : a.rank ≠ .fallback) (same : fieldIdOf run id b = fieldIdOf run id (.indexed a)) :
    b = .indexed a := by
  cases b with
  | human => cases same
  | indexed b =>
    have digests := collision (FieldId.hash.inj same)
    have spellings : b.sourceSpelling = a.sourceSpelling := by
      injection digests
    rw [OrderKey.sourceSpelling_injective spellings.symm direct]

/-- An entry other than the human one whose content may be written at a sequence. -/
structure Ready (sql : Conversation) (run : RunId) (entry : Entry) (sequence : Nat)
    (fields : Layout.Fields) : Prop where
  stores : Stores sql run entry.id fields
  host : Hosts sql run entry.id False
  indexed : ∀ field ∈ fields, field.order ≠ .human
  generations : ∀ field ∈ fields, entry.id.sequence ≤ field.generation ∧
    field.generation ≤ entry.revision ∧ field.generation < sequence
  first : entry.id.sequence ≤ sequence
  fits : sequence ≤ maxInteger

theorem Hosts.of_false {sql : Conversation} {run : RunId} {human : Prop} (host : Hosts sql run id False)
    (not : ¬human) : Hosts sql run id human := by
  have same : human = False := by simpa using not
  rwa [same]

section Delta
variable {sql : Conversation} {run : RunId} {entry : Entry} {sequence : Nat} {fields : Layout.Fields} {part : Part}

theorem Ready.stored_some (ready : Ready sql run entry sequence fields) {old : LogicalField}
    (found : Layout.findField (.indexed part.order) fields = some old) :
    Content.stored sql (fieldKey run entry.id (.indexed part.order) part.kind) =
      some (old.row run entry.id) := by
  obtain ⟨member, order⟩ := Layout.findField_eq_some found
  exact ready.stores.find_some member rfl rfl (by rw [LogicalField.fieldId, order]; rfl)

theorem absent_id (collision : CollisionFree) (direct : part.order.rank ≠ .fallback)
    (absent : ∀ field ∈ fields, field.order ≠ .indexed part.order) :
    fieldIdOf run id (.indexed part.order) ∉ fields.map (LogicalField.fieldId run id) := by
  intro present
  obtain ⟨other, member, same⟩ := List.mem_map.1 present
  exact absent other member (fieldIdOf_injective collision direct same)

theorem Stores.insertPart (stores : Stores sql run id fields) (host : Hosts sql run id False)
    (first : id.sequence ≤ sequence) (fits : sequence ≤ maxInteger)
    (absent : ∀ field ∈ fields, field.order ≠ .indexed part.order)
    (absent_id : fieldIdOf run id (.indexed part.order) ∉ fields.map (LogicalField.fieldId run id))
    (small : bytes part.text ≤ maxInteger) :
    ∃ next, Fields.insert sql (fieldKey run id (.indexed part.order) part.kind) sequence part.text =
        .ok (next, ⟨sequence, bytes part.text⟩) ∧
      Stores next run id (Layout.add (Layout.created part sequence) fields) ∧ SameBut run id sql next := by
  have own : Hosts sql run id ((Layout.created part sequence).order = .human) :=
    host.of_false (by simp [Layout.created])
  exact stores.insert own absent_id (Layout.absent_key absent) first fits small

theorem Ready.any_later (ready : Ready sql run entry sequence fields) (order : Text) :
    (sql.fields.any fun row => row.runId = run && row.entryId = entry.id && order < row.orderKey.encode) =
      fields.any fun field => order < field.key := by
  rw [Bool.eq_iff_iff, List.any_eq_true, List.any_eq_true]
  constructor
  · rintro ⟨row, member, later⟩
    simp only [Bool.and_eq_true, decide_eq_true_eq] at later
    have here : row ∈ fieldsAt sql run entry.id := List.mem_filter.2 ⟨member, by simp [later]⟩
    obtain ⟨field, field_member, rfl⟩ := List.mem_map.1 (ready.stores.rows.mem_iff.1 here)
    exact ⟨field, field_member, decide_eq_true later.2⟩
  · rintro ⟨field, member, later⟩
    have here : field.row run entry.id ∈ fieldsAt sql run entry.id :=
      ready.stores.rows.mem_iff.2 (List.mem_map.2 ⟨field, member, rfl⟩)
    obtain ⟨row_member, owned⟩ := List.mem_filter.1 here
    refine ⟨_, row_member, ?_⟩
    rw [owned, Bool.true_and]
    exact later

theorem Ready.delta (ready : Ready sql run entry sequence fields) (collision : CollisionFree)
    (direct : part.order.rank ≠ .fallback) (small : Layout.textBytes fields + bytes part.text ≤ maxInteger) :
    ∃ next, Content.delta sql run entry sequence part =
        .ok (next, if Layout.deltaMoves part fields then { entry with epoch := sequence } else entry) ∧
      Stores next run entry.id (Layout.delta sequence part fields) ∧ SameBut run entry.id sql next := by
  have key : FieldKey.new run entry.id (.indexed part.order) part.kind =
      .ok (fieldKey run entry.id (.indexed part.order) part.kind) := ready.host.key_new (by simp)
  rw [Content.delta, key, ok_bind]
  cases found : Layout.findField (.indexed part.order) fields with
  | none =>
    have absent := Layout.findField_eq_none found
    have no_id : fieldIdOf run entry.id (.indexed part.order) ∉
        fields.map (LogicalField.fieldId run entry.id) := absent_id collision direct absent
    have missing : Content.stored sql (fieldKey run entry.id (.indexed part.order) part.kind) = none :=
      ready.stores.find_none rfl rfl no_id
    obtain ⟨next, inserted, stored, same⟩ := ready.stores.insertPart ready.host ready.first ready.fits absent no_id
      (by omega)
    refine ⟨next, ?_, ?_, same⟩
    · simp only [missing, Option.map_none, inserted, ok_bind, ready.any_later, Layout.deltaMoves, found, pure_eq_ok]
    · rw [Layout.delta, found]
      exact stored
  | some old =>
    obtain ⟨member, order⟩ := Layout.findField_eq_some found
    have generations := ready.generations old member
    have host : Hosts sql run entry.id (old.order = .human) := ready.host.of_false (ready.indexed old member)
    have size := Layout.textBytes_le member
    simp only [ready.stored_some found, Option.map_some, LogicalField.row]
    by_cases same_kind : old.kind = part.kind
    · have own : fieldKey run entry.id (.indexed part.order) part.kind = old.fieldKey run entry.id := by
        rw [LogicalField.fieldKey, order, same_kind]
      have text : bytes (Layout.deltaText part) ≤ bytes part.text := by
        rw [Layout.deltaText]
        split <;> simp
      obtain ⟨next, appended, stored, same⟩ := ready.stores.append member host generations.1
        (by have := ready.fits; omega) (Layout.deltaText part) (by omega)
      refine ⟨next, ?_, ?_, same⟩
      · rw [if_neg (by simp [same_kind]), own]
        rw [Layout.deltaText] at appended
        simp [appended, generations.2.1, Layout.deltaMoves, found, same_kind]
      · have meaning : Layout.delta sequence part fields =
            rewriteField { old with text := old.text ++ Layout.deltaText part } fields := by
          rw [Layout.delta, found]
          exact if_neg (by simp [same_kind])
        rw [meaning]
        exact stored
    · have own : FieldKey.new run entry.id (.indexed part.order) old.kind = .ok (old.fieldKey run entry.id) := by
        rw [ready.host.key_new (by simp), LogicalField.fieldKey, order]
      have loaded := ready.stores.load member host generations.1 (by have := ready.fits; omega)
      obtain ⟨removed, removal, stored, same⟩ := ready.stores.remove member host generations.1
        (by have := ready.fits; omega) (by omega)
      have absent : ∀ field ∈ removeField old.order fields, field.order ≠ .indexed part.order := by
        intro field field_member
        rw [← order]
        exact (mem_removeField.1 field_member).2
      obtain ⟨next, inserted, final, same_again⟩ := stored.insertPart (ready.host.same_but same) ready.first
        ready.fits absent (absent_id collision direct absent) (by omega)
      refine ⟨next, ?_, ?_, same.trans same_again⟩
      · rw [if_pos same_kind, own]
        simp [loaded, generations.2.1, removal, inserted, Layout.deltaMoves, found, same_kind]
      · rw [Layout.delta, found]
        simp only [same_kind, ne_eq, not_false_eq_true, if_true]
        exact final

end Delta

variable {field : LogicalField}

section Settle
variable {sql : Conversation} {run : RunId} {entry : Entry} {sequence : Nat} {fields : Layout.Fields}
  {output : Option UInt64} {parts : List Part}

theorem Stores.orders_distinct (h : Stores sql run id fields) : Layout.Distinct fields := by
  have keys := h.ascending.unique
  rw [Layout.Distinct]
  refine List.Nodup.of_map FieldOrder.encode ?_
  rw [List.map_map]
  exact keys

omit [JsonHash] in
/-- The range that is read holds the order keys of the fields that the snapshot speaks for. -/
theorem Layout.range_eq (field : LogicalField) :
    ((range output).1 ≤ field.order.encode ∧ field.order.encode < (range output).2) ↔ Layout.inRange output field = true := by
  by_cases human : field.order = .human
  · cases output with
    | none =>
      have lowest : ([] : Text) ≤ ['0'] := not_lt.1 (List.not_lt_nil _)
      simp [range, Layout.inRange, human, FieldOrder.encode, List.cons_lt_cons_iff, lowest]
    | some index =>
      have below : ¬((range (some index)).1 ≤ (['0'] : Text)) := by
        rw [not_le]
        simp [range, OrderKey.outputRange, component, List.cons_lt_cons_iff]
      simp [Layout.inRange, human, FieldOrder.encode, below]
  · exact Layout.range_iff human

theorem Stores.ranged_rows (stores : Stores sql run entry.id fields) :
    Table.orderBy (fun row : FieldRow => row.orderKey.encode) (sql.fields.filter fun row =>
      row.runId = run && row.entryId = entry.id && (range output).1 ≤ row.orderKey.encode &&
        row.orderKey.encode < (range output).2) =
      (fields.filter (Layout.inRange output)).map (LogicalField.row run entry.id) := by
  refine Table.orderBy_eq ?_ ?_
  · have slice : (sql.fields.filter fun row => row.runId = run && row.entryId = entry.id &&
        (range output).1 ≤ row.orderKey.encode && row.orderKey.encode < (range output).2) =
        (fieldsAt sql run entry.id).filter fun row =>
          (range output).1 ≤ row.orderKey.encode && row.orderKey.encode < (range output).2 := by
      rw [fieldsAt, List.filter_filter]
      exact List.filter_congr fun row _ => by rw [Bool.and_assoc, Bool.and_comm]
    rw [slice]
    refine (stores.rows.filter _).trans (List.Perm.of_eq ?_)
    rw [List.filter_map]
    congr 1
    refine List.filter_congr fun field member => ?_
    rw [Bool.eq_iff_iff, ← Layout.range_eq field]
    simp only [Function.comp_apply, Bool.and_eq_true, decide_eq_true_eq]
    exact Iff.rfl
  · rw [List.pairwise_map]
    exact stores.ascending.sublist List.filter_sublist

/-- What is known after settling some of the fields in range. -/
structure Settled (sql : Conversation) (run : RunId) (entry : Entry) (sequence : Nat) (output : Option UInt64)
    (parts : List Part) (fields done : Layout.Fields) (state : Progress) : Prop where
  stores : Stores state.sql run entry.id (fields.filterMap (Layout.stage sequence output parts done))
  same : SameBut run entry.id sql state.sql
  changed : state.layoutChanged = done.any fun field => (Layout.settle sequence output parts field).isNone
  retained : ∀ order, order ∈ state.retained ↔
    ∃ field ∈ done, field.order = .indexed order ∧ (Layout.partFor parts field).isSome

theorem Settled.start (stores : Stores sql run entry.id fields) :
    Settled sql run entry sequence output parts fields [] ⟨sql, false, []⟩ := by
  refine ⟨?_, SameBut.refl run entry.id sql, rfl, by simp⟩
  rw [Layout.stage_none]
  exact stores

theorem Stores.undone (stores : Stores sql run id fields) {done rest : Layout.Fields}
    (split : fields.filter (Layout.inRange output) = done ++ field :: rest) :
    field ∈ fields ∧ Layout.inRange output field = true ∧ field ∉ done := by
  have present : field ∈ fields.filter (Layout.inRange output) := by simp [split]
  obtain ⟨member, ranged⟩ := List.mem_filter.1 present
  refine ⟨member, ranged, fun earlier => ?_⟩
  have nodup := stores.orders_distinct.of_map.filter (Layout.inRange output)
  rw [split, List.nodup_append] at nodup
  exact nodup.2.2 field earlier field (by simp) rfl

theorem sameText_eq_ok (stores : Stores sql run entry.id fields) (first : entry.id.sequence ≤ maxInteger)
    (slot : entry.id.slot ≤ maxInteger) (member : field ∈ fields) {text : Text} {same : Bool}
    (compared : Content.sameText sql (field.fieldKey run entry.id) entry text = .ok same) :
    same = decide (field.text = text) := by
  have inverted := compared
  rw [Content.sameText] at inverted
  obtain ⟨descriptor, loaded, rest⟩ := bind_eq_ok.1 inverted
  obtain ⟨_, seen, _⟩ := bind_eq_ok.1 rest
  obtain ⟨old, stored, sameOrder, _, host, least, fits, rfl⟩ := field_of_load stores first slot loaded
  have equal : old = field := stores.orders_distinct.eq stored member sameOrder
  subst equal
  have seen : old.generation ≤ entry.revision := by simpa using require_eq_ok.1 seen
  have exactly := stores.sameText member host least fits seen text
  exact Except.ok.inj (compared.symm.trans exactly)

theorem settleOld_eq_ok (stores : Stores sql run entry.id fields) {done rest : Layout.Fields} {state next : Progress}
    (split : fields.filter (Layout.inRange output) = done ++ field :: rest)
    (before : Settled sql run entry sequence output parts fields done state)
    (settled : Content.settleOld run entry sequence parts state (field.row run entry.id) = .ok next) :
    Settled sql run entry sequence output parts fields (done ++ [field]) next := by
  have distinct := stores.orders_distinct
  obtain ⟨member, ranged, undone⟩ := stores.undone split
  have staged : field ∈ fields.filterMap (Layout.stage sequence output parts done) :=
    List.mem_filterMap.2 ⟨field, member, by simp [Layout.stage, undone]⟩
  rw [Content.settleOld] at settled
  obtain ⟨key, made, settled⟩ := bind_eq_ok.1 settled
  obtain ⟨rfl, first, slot, _⟩ := key_new_eq_ok made
  obtain ⟨_, _, settled⟩ := bind_eq_ok.1 settled
  obtain ⟨_, _, settled⟩ := bind_eq_ok.1 settled
  obtain ⟨_, _, settled⟩ := bind_eq_ok.1 settled
  have lookup : (parts.find? fun part => FieldOrder.indexed part.order = (field.row run entry.id).orderKey &&
      part.kind = (field.row run entry.id).kind) = Layout.partFor parts field := rfl
  rw [lookup] at settled
  cases found : Layout.partFor parts field with
  | none =>
    rw [found] at settled
    obtain ⟨removed, removal, settled⟩ := bind_eq_ok.1 settled
    cases settled
    obtain ⟨stored, same⟩ := remove_eq_ok before.stores first slot removal
    have vanishes : Layout.settle sequence output parts field = none := by simp [Layout.settle, ranged, found]
    refine ⟨?_, before.same.trans same, by simp [vanishes], fun order => ?_⟩
    · rw [Layout.stage_remove distinct member undone vanishes]
      exact stored
    · rw [before.retained]
      simp [found]
  | some part =>
    rw [found] at settled
    obtain ⟨matched, settled⟩ := bind_eq_ok.1 settled
    obtain ⟨_, sameOrder, _⟩ := Layout.partFor_eq_some found
    have retained (order : OrderKey) : order ∈ part.order :: state.retained ↔
        ∃ other ∈ done ++ [field], other.order = .indexed order ∧ (Layout.partFor parts other).isSome := by
      rw [List.mem_cons, before.retained]
      simp only [List.mem_append, List.mem_singleton]
      constructor
      · rintro (rfl | ⟨other, earlier, facts⟩)
        · exact ⟨field, .inr rfl, sameOrder, by simp [found]⟩
        · exact ⟨other, .inl earlier, facts⟩
      · rintro ⟨other, earlier | rfl, facts⟩
        · exact .inr ⟨other, earlier, facts⟩
        · exact .inl (FieldOrder.indexed.inj (facts.1.symm.trans sameOrder))
    obtain ⟨compared, settled⟩ := settled
    rw [sameText_eq_ok before.stores first slot staged compared] at settled
    by_cases equal : field.text = part.text
    · have stays : Layout.settle sequence output parts field = some field := by
        simp [Layout.settle, ranged, found, equal]
      rw [if_pos (by simp [equal])] at settled
      cases settled
      refine ⟨?_, before.same, ?_, retained⟩
      · rw [Layout.stage_rewrite distinct member undone stays, rewriteField_self before.stores staged]
        exact before.stores
      · rw [before.changed]
        simp [stays]
    · have becomes : Layout.settle sequence output parts field =
          some { field with generation := sequence, text := part.text } := by
        simp [Layout.settle, ranged, found, equal]
      rw [if_neg (by simp [equal])] at settled
      obtain ⟨replaced, replacing, settled⟩ := bind_eq_ok.1 settled
      cases settled
      obtain ⟨old, stored, sameKey, _, _, _, _, kept, same⟩ := replace_eq_ok before.stores first slot replacing
      have equal : old = field := before.stores.orders_distinct.eq stored staged sameKey
      subst equal
      refine ⟨?_, before.same.trans same, ?_, retained⟩
      · rw [Layout.stage_rewrite distinct member undone becomes]
        exact kept
      · rw [before.changed]
        simp [becomes]

theorem Ready.settleOld (ready : Ready sql run entry sequence fields)
    (small : Layout.textBytes fields ≤ maxInteger) (parts_small : ∀ part ∈ parts, bytes part.text ≤ maxInteger)
    {done rest : Layout.Fields} {state : Progress} (split : fields.filter (Layout.inRange output) = done ++ field :: rest)
    (before : Settled sql run entry sequence output parts fields done state) :
    ∃ next, Content.settleOld run entry sequence parts state (field.row run entry.id) = .ok next := by
  obtain ⟨member, -, undone⟩ := ready.stores.undone split
  have generations := ready.generations field member
  have fits : field.generation ≤ maxInteger := by have := ready.fits; omega
  have size := Layout.textBytes_le member
  have host : Hosts state.sql run entry.id (field.order = .human) :=
    (ready.host.of_false (ready.indexed field member)).same_but before.same
  have staged : field ∈ fields.filterMap (Layout.stage sequence output parts done) :=
    List.mem_filterMap.2 ⟨field, member, by simp [Layout.stage, undone]⟩
  have key : FieldKey.new run entry.id (field.row run entry.id).orderKey (field.row run entry.id).kind =
      .ok (field.fieldKey run entry.id) := host.key_new fun human => absurd human (ready.indexed field member)
  have loaded := before.stores.load staged host generations.1 fits
  have own : decide ((field.fieldKey run entry.id).fieldId = (field.row run entry.id).fieldId) = true :=
    decide_eq_true rfl
  have seen : decide (field.generation ≤ entry.revision) = true := decide_eq_true generations.2.1
  have lookup : (parts.find? fun part => FieldOrder.indexed part.order = (field.row run entry.id).orderKey &&
      part.kind = (field.row run entry.id).kind) = Layout.partFor parts field := rfl
  rw [Content.settleOld, key, ok_bind]
  simp only [own, require_true, ok_bind, loaded, seen, lookup]
  cases found : Layout.partFor parts field with
  | none =>
    obtain ⟨next, removed, -⟩ := before.stores.remove staged host generations.1 fits (by omega)
    simp [removed]
  | some part =>
    have compared := before.stores.sameText staged host generations.1 fits generations.2.1 part.text
    by_cases equal : field.text = part.text
    · simp [compared, equal]
    · obtain ⟨next, replaced, -⟩ := before.stores.replace staged host generations.1 generations.2.2 ready.fits
        (parts_small part (List.mem_of_find?_eq_some found))
      simp [compared, equal, replaced]

end Settle

/-- The parts of one snapshot have distinct places in its range; only a whole response
may hold a fallback, and only one. -/
structure Layout.Coherent (output : Option UInt64) (parts : List Part) : Prop where
  distinct : (parts.map Part.order).Nodup
  ranged : ∀ part ∈ parts, output = none ∨ part.order.output = output
  lone : ∀ a ∈ parts, ∀ b ∈ parts, a.order.rank = .fallback → b.order.rank = .fallback → a = b
  whole : output ≠ none → ∀ part ∈ parts, part.order.rank ≠ .fallback

variable {part : Part}

section Snapshot
variable {sql : Conversation} {run : RunId} {entry : Entry} {sequence : Nat} {fields : Layout.Fields}
  {output : Option UInt64} {parts : List Part}

theorem absent_id_lone (collision : CollisionFree)
    (absent : ∀ field ∈ fields, field.order ≠ .indexed part.order)
    (lone : part.order.rank = .fallback → ∀ field ∈ fields, ∀ order, field.order = .indexed order →
      order.rank ≠ .fallback) :
    fieldIdOf run id (.indexed part.order) ∉ fields.map (LogicalField.fieldId run id) := by
  by_cases direct : part.order.rank = .fallback
  · intro present
    obtain ⟨other, member, same⟩ := List.mem_map.1 present
    rw [LogicalField.fieldId] at same
    cases order : other.order with
    | human =>
      rw [order] at same
      cases same
    | indexed key =>
      rw [order] at same
      have digests := collision (FieldId.hash.inj same)
      have spellings : key.sourceSpelling = part.order.sourceSpelling := by
        injection digests
      exact lone direct other member key order ((OrderKey.rank_of_sourceSpelling spellings).trans direct)
  · exact absent_id collision direct absent

omit [JsonHash] in
theorem Layout.part_of_settled (member : field ∈ Layout.settled sequence output parts fields) :
    ∃ old ∈ fields, field.order = old.order ∧ (Layout.inRange output old = true →
      ∃ part ∈ parts, FieldOrder.indexed part.order = old.order ∧ part.kind = old.kind) := by
  obtain ⟨old, old_member, settled⟩ := List.mem_filterMap.1 member
  refine ⟨old, old_member, Layout.order_of_settle settled, fun ranged => ?_⟩
  rw [Layout.settle, if_pos ranged] at settled
  obtain ⟨part, found, -⟩ := Option.map_eq_some_iff.1 settled
  obtain ⟨member, order, kind⟩ := Layout.partFor_eq_some found
  exact ⟨part, member, order.symm, kind⟩

omit [JsonHash] in
theorem Layout.mem_inserted {fresh : List Part} {base : Layout.Fields} :
    field ∈ fresh.foldl (fun fields part => Layout.add (Layout.created part sequence) fields) base ↔
      field ∈ base ∨ ∃ part ∈ fresh, field = Layout.created part sequence := by
  induction fresh generalizing base with
  | nil => simp
  | cons part rest ih =>
    rw [List.foldl_cons, ih, Layout.add, Keyed.mem_place]
    simp only [List.exists_mem_cons_iff]
    tauto

omit [JsonHash] in
theorem Layout.Coherent.inRange (coherent : Layout.Coherent output parts) (member : part ∈ parts)
    (same : field.order = .indexed part.order) : Layout.inRange output field = true := by
  rcases coherent.ranged part member with whole | own
  · simp [Layout.inRange, whole]
  · cases output with
    | none => rfl
    | some index => simp [Layout.inRange, same, own]

omit [JsonHash] in
theorem Layout.Coherent.absent (coherent : Layout.Coherent output parts) (sequence : Nat)
    {before after : List Part} (split : parts = before ++ part :: after)
    (new : Layout.retains output fields part = false) :
    ∀ field ∈ (Layout.fresh output before fields).foldl
        (fun fields part => Layout.add (Layout.created part sequence) fields)
        (Layout.settled sequence output parts fields),
      field.order ≠ .indexed part.order ∧ (part.order.rank = .fallback → ∀ order, field.order = .indexed order →
        order.rank ≠ .fallback) := by
  have member : part ∈ parts := by simp [split]
  have distinct := coherent.distinct
  have not_shown : ∀ old ∈ fields, Layout.inRange output old = true → old.order = .indexed part.order →
      part.kind ≠ old.kind := by
    intro old old_member ranged same kind
    have shown : Layout.retains output fields part = true :=
      List.any_eq_true.2 ⟨old, old_member, by simp [ranged, same, kind]⟩
    rw [new] at shown
    cases shown
  have unplaced : ∀ other ∈ before, other.order ≠ part.order := by
    intro other earlier same
    rw [split, List.map_append, List.map_cons, List.nodup_append] at distinct
    exact distinct.2.2 _ (List.mem_map_of_mem earlier) _ List.mem_cons_self same
  intro field placed
  rcases Layout.mem_inserted.1 placed with kept | ⟨other, other_fresh, rfl⟩
  · obtain ⟨old, old_member, same_order, shows_part⟩ := Layout.part_of_settled kept
    constructor
    · intro same
      have old_order : old.order = .indexed part.order := same_order ▸ same
      have ranged := coherent.inRange member old_order
      obtain ⟨other, other_member, other_order, kind⟩ := shows_part ranged
      have equal : other = part := List.inj_on_of_nodup_map distinct other_member member
        (FieldOrder.indexed.inj (other_order.trans old_order))
      exact not_shown old old_member ranged old_order (equal ▸ kind)
    · intro fallback order is_order rank
      have whole : output = none := by
        by_contra single
        exact coherent.whole single part member fallback
      have ranged : Layout.inRange output old = true := by simp [Layout.inRange, whole]
      obtain ⟨other, other_member, other_order, kind⟩ := shows_part ranged
      have order_same : other.order = order :=
        FieldOrder.indexed.inj (other_order.trans (same_order.symm.trans is_order))
      have equal : other = part := coherent.lone other other_member part member (order_same ▸ rank) fallback
      exact not_shown old old_member ranged (equal ▸ other_order.symm) (equal ▸ kind)
  · have earlier : other ∈ before := List.mem_of_mem_filter other_fresh
    constructor
    · intro same
      exact unplaced other earlier (FieldOrder.indexed.inj same)
    · intro fallback order is_order rank
      have order_same : other.order = order := FieldOrder.indexed.inj is_order
      have equal := coherent.lone other (by simp [split, earlier]) part member (order_same ▸ rank) fallback
      exact unplaced other earlier (by rw [equal])

/-- What is known after inserting the fresh ones among some parts. -/
structure Inserted (sql : Conversation) (run : RunId) (entry : Entry) (sequence : Nat) (output : Option UInt64)
    (parts : List Part) (fields : Layout.Fields) (removed : Bool) (before : List Part) (state : Insertion) :
    Prop where
  stores : Stores state.sql run entry.id ((Layout.fresh output before fields).foldl
    (fun fields part => Layout.add (Layout.created part sequence) fields)
    (Layout.settled sequence output parts fields))
  same : SameBut run entry.id sql state.sql
  changed : state.layoutChanged = (removed || !(Layout.fresh output before fields).isEmpty)
  unique : ∀ order ∈ state.unique, order ∈ before.map Part.order

theorem insertNew_eq_ok {retained : List OrderKey} {removed : Bool}
    (kept : ∀ part ∈ parts, part.order ∈ retained ↔ Layout.retains output fields part = true)
    {before after : List Part} {state next : Insertion} (split : parts = before ++ part :: after)
    (held : Inserted sql run entry sequence output parts fields removed before state)
    (inserted : Content.insertNew run entry sequence retained state part = .ok next) :
    Inserted sql run entry sequence output parts fields removed (before ++ [part]) next := by
  have member : part ∈ parts := by simp [split]
  have unique : ∀ order ∈ part.order :: state.unique, order ∈ (before ++ [part]).map Part.order := by
    intro order seen
    rcases List.mem_cons.1 seen with rfl | earlier
    · simp
    · rw [List.map_append]
      exact List.mem_append_left _ (held.unique _ earlier)
  rw [Content.insertNew] at inserted
  obtain ⟨_, _, inserted⟩ := bind_eq_ok.1 inserted
  by_cases shown : Layout.retains output fields part = true
  · have old : Layout.fresh output (before ++ [part]) fields = Layout.fresh output before fields := by
      simp [Layout.fresh, shown]
    rw [if_pos ((kept part member).2 shown)] at inserted
    cases inserted
    refine ⟨?_, held.same, ?_, unique⟩
    · rw [old]
      exact held.stores
    · rw [old]
      exact held.changed
  · have grown : Layout.fresh output (before ++ [part]) fields = Layout.fresh output before fields ++ [part] := by
      simp [Layout.fresh, shown]
    rw [if_neg (fun seen => shown ((kept part member).1 seen))] at inserted
    obtain ⟨key, made, inserted⟩ := bind_eq_ok.1 inserted
    obtain ⟨rfl, first, slot, _⟩ := key_new_eq_ok made
    obtain ⟨result, done, inserted⟩ := bind_eq_ok.1 inserted
    cases inserted
    obtain ⟨_, _, stores, same⟩ := insert_eq_ok held.stores first slot (Layout.created part sequence) done
    refine ⟨?_, held.same.trans same, by simp [grown], unique⟩
    rw [grown, List.foldl_append]
    exact stores

theorem Ready.insertNew (ready : Ready sql run entry sequence fields) (collision : CollisionFree)
    (coherent : Layout.Coherent output parts) (parts_small : ∀ part ∈ parts, bytes part.text ≤ maxInteger)
    {retained : List OrderKey} {removed : Bool}
    (kept : ∀ part ∈ parts, part.order ∈ retained ↔ Layout.retains output fields part = true)
    {before after : List Part} {state : Insertion} (split : parts = before ++ part :: after)
    (held : Inserted sql run entry sequence output parts fields removed before state) :
    ∃ next, Content.insertNew run entry sequence retained state part = .ok next := by
  have member : part ∈ parts := by simp [split]
  have unseen : part.order ∉ state.unique := by
    intro seen
    have distinct := coherent.distinct
    rw [split, List.map_append, List.map_cons, List.nodup_append] at distinct
    exact distinct.2.2 _ (held.unique _ seen) _ List.mem_cons_self rfl
  simp only [Content.insertNew, unseen, not_false_eq_true, decide_true, require_true, ok_bind]
  by_cases shown : Layout.retains output fields part = true
  · simp [(kept part member).2 shown]
  · have absent := coherent.absent sequence split (Bool.eq_false_iff.2 shown)
    have host : Hosts state.sql run entry.id False := ready.host.same_but held.same
    have key : FieldKey.new run entry.id (.indexed part.order) part.kind =
        .ok (fieldKey run entry.id (.indexed part.order) part.kind) := host.key_new (by simp)
    obtain ⟨next, inserted, -⟩ := held.stores.insertPart host ready.first ready.fits
      (fun field placed => (absent field placed).1)
      (absent_id_lone collision (fun field placed => (absent field placed).1)
        (fun fallback field placed => (absent field placed).2 fallback)) (parts_small part member)
    rw [if_neg (fun seen => shown ((kept part member).1 seen)), key, ok_bind, inserted]
    exact ⟨_, rfl⟩

theorem Settled.retained_iff (distinct : (parts.map Part.order).Nodup) {state : Progress}
    (settled : Settled sql run entry sequence output parts fields (fields.filter (Layout.inRange output)) state)
    (member : part ∈ parts) : part.order ∈ state.retained ↔ Layout.retains output fields part = true := by
  rw [settled.retained, Layout.retains, List.any_eq_true]
  constructor
  · rintro ⟨field, ranged, order, shown⟩
    obtain ⟨field_member, in_range⟩ := List.mem_filter.1 ranged
    obtain ⟨other, found⟩ := Option.isSome_iff_exists.1 shown
    obtain ⟨other_member, same_order, kind⟩ := Layout.partFor_eq_some found
    have equal : other = part := List.inj_on_of_nodup_map distinct other_member member
      (FieldOrder.indexed.inj (same_order.symm.trans order))
    exact ⟨field, field_member, by simp [in_range, order, ← equal, kind]⟩
  · rintro ⟨field, field_member, shown⟩
    simp only [Bool.and_eq_true, decide_eq_true_eq] at shown
    refine ⟨field, List.mem_filter.2 ⟨field_member, shown.1.1⟩, shown.1.2.symm, ?_⟩
    rw [Layout.partFor, List.find?_isSome]
    exact ⟨part, member, by simp [shown.1.2, shown.2]⟩

theorem Settled.inserting {state : Progress}
    (settled : Settled sql run entry sequence output parts fields (fields.filter (Layout.inRange output)) state) :
    Inserted sql run entry sequence output parts fields state.layoutChanged [] ⟨state.sql, state.layoutChanged, []⟩ := by
  refine ⟨?_, settled.same, by simp [Layout.fresh], by simp⟩
  have stores := settled.stores
  rwa [Layout.stage_all] at stores

theorem snapshot_eq_ok (stores : Stores sql run entry.id fields) (distinct : (parts.map Part.order).Nodup)
    {next : Conversation} {after : Entry} (done : Content.snapshot sql run entry sequence output parts = .ok (next, after)) :
    Stores next run entry.id (Layout.snapshot sequence output parts fields) ∧ SameBut run entry.id sql next ∧
      after = if Layout.snapshotMoves sequence output parts fields then { entry with epoch := sequence } else entry := by
  rw [Content.snapshot] at done
  simp only [stores.ranged_rows] at done
  obtain ⟨state, settling, done⟩ := bind_eq_ok.1 done
  obtain ⟨final, inserting, done⟩ := bind_eq_ok.1 done
  cases done
  have settled : Settled sql run entry sequence output parts fields (fields.filter (Layout.inRange output)) state := by
    rw [List.foldlM_map] at settling
    exact foldlM_stages (Settled sql run entry sequence output parts fields) settling (.start stores)
      fun done field rest state next split held stepped => settleOld_eq_ok stores split held stepped
  have kept : ∀ part ∈ parts, part.order ∈ state.retained ↔ Layout.retains output fields part = true :=
    fun part member => settled.retained_iff distinct member
  have inserted := foldlM_stages (Inserted sql run entry sequence output parts fields state.layoutChanged) inserting
    settled.inserting fun before part after state next split held stepped => insertNew_eq_ok kept split held stepped
  refine ⟨inserted.stores, inserted.same, ?_⟩
  rw [inserted.changed, settled.changed, Layout.snapshotMoves, List.any_filter]
  have same : (fields.any fun field => Layout.inRange output field && (Layout.settle sequence output parts field).isNone) =
      fields.any fun field => (Layout.settle sequence output parts field).isNone := by
    refine List.any_congr rfl fun field => ?_
    by_cases ranged : Layout.inRange output field = true
    · simp [ranged]
    · simp [Layout.settle, ranged]
  rw [same]

theorem Ready.snapshot (ready : Ready sql run entry sequence fields) (collision : CollisionFree)
    (coherent : Layout.Coherent output parts) (small : Layout.textBytes fields ≤ maxInteger)
    (parts_small : ∀ part ∈ parts, bytes part.text ≤ maxInteger) :
    ∃ next, Content.snapshot sql run entry sequence output parts =
        .ok (next, if Layout.snapshotMoves sequence output parts fields then { entry with epoch := sequence }
          else entry) ∧
      Stores next run entry.id (Layout.snapshot sequence output parts fields) ∧ SameBut run entry.id sql next := by
  obtain ⟨state, settling, settled⟩ := foldlM_succeeds (Settled sql run entry sequence output parts fields)
    (.start ready.stores) fun done field rest state split before => by
      obtain ⟨next, stepped⟩ := ready.settleOld small parts_small split before
      exact ⟨next, stepped, settleOld_eq_ok ready.stores split before stepped⟩
  have kept : ∀ part ∈ parts, part.order ∈ state.retained ↔ Layout.retains output fields part = true :=
    fun part member => settled.retained_iff coherent.distinct member
  obtain ⟨final, inserting, -⟩ := foldlM_succeeds
    (Inserted sql run entry sequence output parts fields state.layoutChanged) settled.inserting
    fun before part after state split held => by
      obtain ⟨next, stepped⟩ := ready.insertNew collision coherent parts_small kept split held
      exact ⟨next, stepped, insertNew_eq_ok kept split held stepped⟩
  have done : Content.snapshot sql run entry sequence output parts =
      .ok (final.sql, if final.layoutChanged then { entry with epoch := sequence } else entry) := by
    rw [Content.snapshot]
    simp only [ready.stores.ranged_rows, List.foldlM_map, settling, ok_bind, inserting, pure_eq_ok]
  obtain ⟨stores, same, moved⟩ := snapshot_eq_ok ready.stores coherent.distinct done
  exact ⟨final.sql, moved ▸ done, stores, same⟩

end Snapshot
end Wi
